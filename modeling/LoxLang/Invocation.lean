/-!
What the command line asks for: at most one script, and a directory of scripts to run before it.
-/
namespace LoxLang

structure Invocation where
  script : Option String
  prelude : Option String
deriving DecidableEq

namespace Invocation

def preludeVariable : String := "LOXWALK_PRELUDE"

def usage : String := "Usage: loxwalk [script]"

/-- More than one argument is an error; an empty directory name is as good as none. -/
def ofArguments? (arguments : List String) (directory : Option String) : Option Invocation :=
  let prelude := directory.filter (· != "")
  match arguments with
  | [] => some ⟨none, prelude⟩
  | [script] => some ⟨some script, prelude⟩
  | _ => none

end Invocation
end LoxLang

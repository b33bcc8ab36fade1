import LoxLang.Invocation
import LoxLang.Startup
/-!
The whole program as a function: from its arguments, the files it can see and what is typed to it,
to what it prints and the code it ends with. The variable that turns on a log of the work is taken to
be unset, so nothing but diagnostics and failures is written beside the output.
-/
namespace LoxLang

/-- What the program has printed, and the code it has ended with unless the bound cut it short. -/
structure Transcript where
  exit? : Option Nat
  stdout : String
  stderr : String
deriving DecidableEq

def Transcript.code (transcript : Transcript) : Nat := transcript.exit?.getD 0

namespace CommandLine

def promptText : String := "> "

def usageCode : Nat := 64

def failureCode : Nat := 1

def exitCode? : Outcome → Option Nat
  | .finished => some 0
  | .rejected _ => some 64
  | .failed _ => some 70
  | .unfinished => none

/-- A session at work, and what it has complained about so far. -/
structure Console where
  session : Session
  complaints : String

namespace Console

def present (text : String) (console : Console) : Console :=
  { console with session := console.session.emit text }

def complain (text : String) (console : Console) : Console :=
  { console with complaints := console.complaints ++ text }

def finish (code? : Option Nat) (console : Console) : Transcript :=
  ⟨code?, console.session.output, console.complaints⟩

def fail (failure : Failure) (console : Console) : Transcript :=
  (console.complain failure.report).finish (some failureCode)

end Console

/-- Input cut behind every line break; what follows the last one is a piece if there is any. -/
def cutFrom (piece : Bytes) (done : List Bytes) : Bytes → List Bytes
  | [] => if piece.isEmpty then done.reverse else (piece.reverse :: done).reverse
  | byte :: rest =>
    if byte = 10 then cutFrom [] ((byte :: piece).reverse :: done) rest
    else cutFrom (byte :: piece) done rest

def pieces (input : Bytes) : List Bytes := cutFrom [] [] input

def answerLine (bound : Nat) (line : String) (console : Console) : Outcome × Console :=
  let (outcome, session) := console.session.runLine bound line
  (outcome, { console with session := session }.complain (Diagnostic.report outcome.diagnostics))

/-- One prompt for every piece and one more before the end of the input is noticed. -/
def runPrompt (bound : Nat) : List Bytes → Console → Transcript
  | [], console => (console.present promptText).finish (some 0)
  | piece :: rest, console =>
    match piece.text? with
    | none => (console.present promptText).fail (.input .notText)
    | some line =>
      match answerLine bound line (console.present promptText) with
      | (.unfinished, answered) => answered.finish none
      | (_, answered) => runPrompt bound rest answered

def runScript (bound : Nat) (path : Path) (content : Except FileError Bytes) (console : Console) :
    Transcript :=
  match textOf content with
  | .error error => console.fail (.script path error)
  | .ok source =>
    let (outcome, session) := console.session.run bound source
    ({ console with session := session }.complain (Diagnostic.report outcome.diagnostics)).finish
      (exitCode? outcome)

def runMain (bound : Nat) (files : Files) (input : Bytes) (script : Option Path)
    (console : Console) : Transcript :=
  match script with
  | none => runPrompt bound (pieces input) console
  | some path => runScript bound path (files.read path) console

def start (bound : Nat) (files : Files) (input : Bytes) (script prelude : Option Path)
    (session : Session) : Transcript :=
  match prelude with
  | none => runMain bound files input script ⟨session, ""⟩
  | some directory =>
    match Startup.loading bound files directory session with
    | (.through, after) => runMain bound files input script ⟨after, ""⟩
    | (.failed failure, after) => Console.fail failure ⟨after, ""⟩
    | (.unfinished, after) => Console.finish none ⟨after, ""⟩

/-- The arguments and the variable are text here. -/
def run (bound : Nat) (clock : Nat → Float) (arguments : List String) (prelude : Option String)
    (files : Files) (input : Bytes) : Transcript :=
  match Invocation.ofArguments? arguments prelude with
  | none => ⟨some usageCode, "", Invocation.usage ++ "\n"⟩
  | some ⟨script, directory⟩ =>
    start bound files input (script.map .ofText) (directory.map .ofText) (.fresh clock)

end CommandLine
end LoxLang

import LoxLang.Files
import LoxLang.Session
/-!
The scripts of a directory, run in the order of their names before anything else. Loading ends at
the first script that cannot be read or does not run through; what was done until then stays done.
-/
namespace LoxLang

inductive Failure where
  | directory (path : Path) (error : FileError)
  | entry (error : FileError)
  | unreadable (path : Path) (error : FileError)
  | unloadable (path : Path) (first : Diagnostic)
  | script (path : Path) (error : FileError)
  | input (error : FileError)
deriving DecidableEq

namespace Failure

def message : Failure → String
  | .directory path _ => s!"Unable to read prelude directory {path.text}"
  | .entry error => error.message
  | .unreadable path _ => s!"Unable to read prelude file {path.text}"
  | .unloadable path _ => s!"Unable to load prelude file {path.text}"
  | .script path _ => s!"Unable to read script file {path.text}"
  | .input error => error.message

def cause? : Failure → Option String
  | .directory _ error => some error.message
  | .entry _ => none
  | .unreadable _ error => some error.message
  | .unloadable _ first => some first.text
  | .script _ error => some error.message
  | .input _ => none

/-- Message and cause on one line, as far as they have no line breaks of their own. -/
def chain (failure : Failure) : String :=
  match failure.cause? with
  | none => failure.message
  | some cause => failure.message ++ ": " ++ cause

def indented (text : String) : String :=
  "\n".intercalate ((text.toList.splitOn '\n').map fun line => "    " ++ String.ofList line)

/-- What the program prints about it at its end, every line of the cause indented. -/
def report (failure : Failure) : String :=
  match failure.cause? with
  | none => s!"Error: {failure.message}\n"
  | some cause => s!"Error: {failure.message}\n\nCaused by:\n{indented cause}\n"

end Failure

/-- How loading ends. A script that the bound cuts short is neither through nor has it failed. -/
inductive Loading where
  | through
  | failed (failure : Failure)
  | unfinished
deriving DecidableEq

def Loading.failure? : Loading → Option Failure
  | .failed failure => some failure
  | _ => none

namespace Startup

def extension : Bytes := .ofText ".lox"

/-- A name that is nothing but the extension has none. -/
def isScript (name : Bytes) : Bool := extension.isSuffixOf name && name != extension

/-- The scripts among the entries of a directory, ordered by the bytes of their names. -/
def scripts (directory : Path) (entries : List Entry) : List Path :=
  let chosen := entries.filter fun entry => entry.isFile && isScript entry.name
  let sorted := (chosen.map (·.name)).mergeSort (fun left right => decide (left ≤ right))
  sorted.map directory.join

def paths (files : Files) (directory : Path) : Except Failure (List Path) :=
  match files.list directory with
  | .error error => .error (.directory directory error)
  | .ok listed =>
    match listed.mapM id with
    | .error error => .error (.entry error)
    | .ok entries => .ok (scripts directory entries)

def loadFile (bound : Nat) (path : Path) (content : Except FileError Bytes) (session : Session) :
    Loading × Session :=
  match textOf content with
  | .error error => (.failed (.unreadable path error), session)
  | .ok source =>
    let (outcome, after) := session.run bound source
    match outcome, outcome.diagnostics with
    | .unfinished, _ => (.unfinished, after)
    | _, [] => (.through, after)
    | _, first :: _ => (.failed (.unloadable path first), after)

/-- A file is read when its turn comes. -/
def loadAll (bound : Nat) (files : Files) : List Path → Session → Loading × Session
  | [], session => (.through, session)
  | path :: rest, session =>
    match loadFile bound path (files.read path) session with
    | (.through, after) => loadAll bound files rest after
    | ended => ended

def loading (bound : Nat) (files : Files) (directory : Path) (session : Session) :
    Loading × Session :=
  match paths files directory with
  | .error failure => (.failed failure, session)
  | .ok paths => loadAll bound files paths session

/-- The scripts as they are shown. -/
def scriptsIn (files : Files) (directory : Path) : Except Failure (List String) :=
  (paths files directory).map (List.map Path.text)

/-- The failure that loading has ended with, if it has. -/
def load (bound : Nat) (files : Files) (directory : Path) (session : Session) :
    Option Failure × Session :=
  let (ended, after) := loading bound files directory session
  (ended.failure?, after)

end Startup
end LoxLang

import Std.Time.DateTime.Timestamp
import LoxLang.CommandLine
/-!
The program at a terminal: arguments, files and lines come in, and what the library answers goes
out. What a script prints is shown when the script or the line is through.
-/
namespace LoxLang.Terminal

open CommandLine

def secondsNow : IO Float := do
  let now ← Std.Time.Timestamp.now
  pure (Float.ofInt now.toNanosecondsSinceUnixEpoch.val / 1000000000.0)

def readings (start : Float) (reading : Nat) : Float := start + Float.ofNat reading / 1000000.0

def systemError? : IO.Error → Option (UInt32 × String)
  | .alreadyExists _ code details => some (code, details)
  | .otherError code details => some (code, details)
  | .resourceBusy code details => some (code, details)
  | .resourceVanished code details => some (code, details)
  | .unsupportedOperation code details => some (code, details)
  | .hardwareFault code details => some (code, details)
  | .unsatisfiedConstraints code details => some (code, details)
  | .illegalOperation code details => some (code, details)
  | .protocolError code details => some (code, details)
  | .timeExpired code details => some (code, details)
  | .interrupted _ code details => some (code, details)
  | .noFileOrDirectory _ code details => some (code, details)
  | .invalidArgument _ code details => some (code, details)
  | .permissionDenied _ code details => some (code, details)
  | .resourceExhausted _ code details => some (code, details)
  | .inappropriateType _ code details => some (code, details)
  | .noSuchThing _ code details => some (code, details)
  | .unexpectedEof => none
  | .userError _ => none

/-- Some operations give the negative of an error's number. -/
def errorNumber (code : UInt32) : UInt32 := min code (0 - code)

def fileError (error : IO.Error) : FileError :=
  match systemError? error with
  | none => .other (toString error)
  | some (code, details) =>
    match errorNumber code with
    | 2 => .missing
    | 20 => .notDirectory
    | 21 => .isDirectory
    | 36 => .nameTooLong
    | number => .other s!"{details.capitalize} (os error {number})"

def attempt {α : Type} (action : IO α) : IO (Except FileError α) := do
  try
    pure (.ok (← action))
  catch error =>
    pure (.error (fileError error))

def readFile (path : Path) : IO (Except FileError Bytes) :=
  attempt do
    let content ← IO.FS.readBinFile path.text
    pure content.toList

def located (path : String) := (IO.FS.DirEntry.mk path "").root

def isFile (path : String) : IO Bool := do
  match ← attempt (located path).metadata with
  | .ok found => pure (found.type == .file)
  | .error _ => pure false

def listDirectory (path : String) : IO (Except FileError (List Entry)) :=
  attempt do
    let entries ← (located path).readDir
    entries.toList.mapM fun entry => do
      pure ⟨.ofText entry.fileName, ← isFile (Path.text (Path.join path (.ofText entry.fileName)))⟩

def flush (console : Console) : IO Console := do
  (← IO.getStdout).putStr console.session.output
  (← IO.getStdout).flush
  (← IO.getStderr).putStr console.complaints
  pure ⟨console.session.cleared, ""⟩

def close (transcript : Transcript) : IO UInt32 := do
  (← IO.getStdout).putStr transcript.stdout
  (← IO.getStderr).putStr transcript.stderr
  pure (UInt32.ofNat transcript.code)

partial def readPiece (input : IO.FS.Stream) (done : Bytes) : IO Bytes := do
  match (← input.read 1).toList with
  | [] => pure done.reverse
  | byte :: _ =>
    if byte = 10 then pure (byte :: done).reverse else readPiece input (byte :: done)

partial def prompt (console : Console) : IO UInt32 := do
  let shown ← flush (console.present promptText)
  let piece ← readPiece (← IO.getStdin) []
  match piece.isEmpty, piece.text? with
  | true, _ => close (shown.finish (some 0))
  | false, none => close (shown.fail (.input .notText))
  | false, some line =>
    match answerLine ample line shown with
    | (.unfinished, answered) => close (answered.finish none)
    | (_, answered) => prompt answered

def loadEach : List Path → Session → IO (Loading × Session)
  | [], session => pure (.through, session)
  | path :: rest, session => do
    match Startup.loadFile ample path (← readFile path) session with
    | (.through, after) => loadEach rest after
    | ended => pure ended

def loadPrelude (directory : Path) (session : Session) : IO (Loading × Session) := do
  match ← listDirectory directory.text with
  | .error error => pure (.failed (.directory directory error), session)
  | .ok entries => loadEach (Startup.scripts directory entries) session

def start (script prelude : Option Path) (session : Session) : IO UInt32 := do
  let (loading, loaded) ← match prelude with
    | none => pure (.through, session)
    | some directory => loadPrelude directory session
  match loading, script with
  | .failed failure, _ => close (Console.fail failure ⟨loaded, ""⟩)
  | .unfinished, _ => close (Console.finish none ⟨loaded, ""⟩)
  | .through, none => prompt ⟨loaded, ""⟩
  | .through, some path => close (runScript ample path (← readFile path) ⟨loaded, ""⟩)

end LoxLang.Terminal

def main (arguments : List String) : IO UInt32 := do
  let directory ← IO.getEnv LoxLang.Invocation.preludeVariable
  match LoxLang.Invocation.ofArguments? arguments directory with
  | none =>
    LoxLang.Terminal.close
      ⟨some LoxLang.CommandLine.usageCode, "", LoxLang.Invocation.usage ++ "\n"⟩
  | some ⟨script, directory⟩ =>
    let now ← LoxLang.Terminal.secondsNow
    LoxLang.Terminal.start (script.map .ofText) (directory.map .ofText)
      (.fresh (LoxLang.Terminal.readings now))

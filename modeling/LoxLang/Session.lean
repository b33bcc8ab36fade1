import LoxLang.Scan
import LoxLang.Grammar.Statement
import LoxLang.Evaluation
/-!
Sessions: source texts run one after the other on one machine. A source is scanned, read and
resolved before any of it runs, and one that has a static fault leaves the machine alone.
-/
namespace LoxLang

/-- A source read as far as it goes: faults of its characters, faults of its grammar, and what the
rest amounts to. -/
structure ReadSource where
  lexical : List StaticFault
  parsed : Grammar.Parsed

namespace ReadSource

def ofText (nextId : Nat) (source : String) : ReadSource :=
  let items := scan source
  ⟨(Scanned.faults items).map ScanFault.static, Grammar.parse nextId (Scanned.tokens items)⟩

def faults (source : ReadSource) : List StaticFault := source.lexical ++ source.parsed.faults

end ReadSource

/-- How far the static stages get with a source. A fault of its characters alone does not keep the
later stages from looking at the rest. -/
inductive Inspection where
  | unparsed (faults : List StaticFault)
  | unresolved (faults : List StaticFault)
  | resolved (program : Program) (distances : Distances) (faults : List StaticFault)

namespace Inspection

def ofText (source : String) : Inspection :=
  let read := ReadSource.ofText 0 source
  match read.parsed.program? with
  | none => .unparsed read.faults
  | some program =>
    match resolve program with
    | .error faults => .unresolved (read.lexical ++ faults)
    | .ok distances => .resolved program distances read.lexical

def faults : Inspection → List StaticFault
  | .unparsed found => found
  | .unresolved found => found
  | .resolved _ _ found => found

def report (inspection : Inspection) : String :=
  Diagnostic.report (inspection.faults.map .static)

end Inspection

/-- A machine whose globals hold the native functions. -/
def Machine.withNatives (clock : Nat → Float) : Machine :=
  let bare : Machine := ⟨Store.empty.push none, 0, 0, ∅, "", 0, clock, 0⟩
  let (value, machine) := bare.newCallable (.native ⟨"clock", 0, .clock⟩)
  machine.define machine.globals "clock" value

structure Session where
  machine : Machine
  nextId : Nat

/-- What became of one source. -/
inductive Outcome where
  | finished
  | rejected (faults : List StaticFault)
  | failed (fault : RuntimeFault)
  | unfinished
deriving DecidableEq

namespace Outcome

def diagnostics : Outcome → List Diagnostic
  | .finished => []
  | .rejected faults => faults.map .static
  | .failed fault => [.runtime fault]
  | .unfinished => []

def isRejected : Outcome → Bool
  | .rejected _ => true
  | _ => false

def isFailed : Outcome → Bool
  | .failed _ => true
  | _ => false

def ofStop : Stop → Outcome
  | .fault fault => .failed fault
  | .unfinished => .unfinished

end Outcome

/-- Which way a source is taken: as a whole, or as a line typed at a prompt. -/
inductive Manner where
  | script
  | prompt
deriving DecidableEq

/-- At a prompt, the value of a lone expression statement is shown unless it is nil. -/
def runProgram (bound : Nat) (manner : Manner) (program : Program) : Exec Unit :=
  match manner, program with
  | .prompt, [.expression value] => do
    match ← executeAlone bound (.expression value) with
    | some .nil => pure ()
    | some result => write result
    | none => pure ()
  | _, _ => executeProgram bound program

namespace Session

def fresh (clock : Nat → Float) : Session := ⟨.withNatives clock, 0⟩

def start (bound : Nat) (manner : Manner) (program : Program) (distances : Distances)
    (machine : Machine) : Outcome × Machine :=
  match runProgram bound manner program (machine.addDistances distances) with
  | .done _ after => (.finished, after)
  | .stopped stop after => (.ofStop stop, after)

def runAs (bound : Nat) (manner : Manner) (source : String) (session : Session) :
    Outcome × Session :=
  let read := ReadSource.ofText session.nextId source
  let nextId := read.parsed.nextId
  if read.faults.isEmpty then
    match resolve read.parsed.program with
    | .error faults => (.rejected faults, { session with nextId := nextId })
    | .ok distances =>
      let (outcome, machine) := start bound manner read.parsed.program distances session.machine
      (outcome, ⟨machine, nextId⟩)
  else (.rejected read.faults, { session with nextId := nextId })

def run (bound : Nat) (source : String) (session : Session) : Outcome × Session :=
  session.runAs bound .script source

def runLine (bound : Nat) (source : String) (session : Session) : Outcome × Session :=
  session.runAs bound .prompt source

def output (session : Session) : String := session.machine.output

def emit (text : String) (session : Session) : Session :=
  { session with machine := { session.machine with output := session.machine.output ++ text } }

def cleared (session : Session) : Session :=
  { session with machine := { session.machine with output := "" } }

end Session
end LoxLang

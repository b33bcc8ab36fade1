import LoxLang.Session

/-!
Static scoping as it is meant. Local names stand for locations, and which location a name stands for
is decided by an environment that is handed down and never changes; only names that are not local are
looked up by name, in one table of globals. Distances and frames do not occur here.
-/
namespace LoxLang.Lexical

abbrev Location : Type := Nat

/-- Local names with the locations that they stand for, innermost first. -/
abbrev Environment : Type := List (String × Location)

/-- A function value keeps the environment of its declaration. -/
abbrev Callable : Type := CallableOver Environment

abbrev Value : Type := ValueOver Environment

/-- A location has no content before something is stored in it. -/
structure Memory where
  cells : Array (Option Value)
  globals : Std.TreeMap String Value
  output : String
  callables : Nat
  clock : Nat → Float
  readings : Nat

/-- What is done before a stop stays done. -/
abbrev Exec : Type → Type := EStateM Stop Memory

theorem Exec.bind_apply {α β : Type} (first : Exec α) (next : α → Exec β) (memory : Memory) :
    (first >>= next) memory =
      match first memory with
      | .ok value after => next value after
      | .error stop after => .error stop after := by
  change EStateM.bind first next memory = _
  unfold EStateM.bind
  cases first memory <;> rfl

/-- Where a statement stands: outside all blocks and functions, or inside with what is local there. -/
inductive Region where
  | outermost
  | inside (environment : Environment)

def Region.environment : Region → Environment
  | .outermost => []
  | .inside environment => environment

/-- How a statement ends: the next one follows, in a region that has what this one declares, or the
function being run returns. -/
inductive Flow where
  | next (region : Region)
  | returned (value : Value)

def Flow.leave (region : Region) : Flow → Flow
  | .next _ => .next region
  | .returned value => .returned value

def fault {α : Type} (cause : RuntimeCause) (line : Nat) : Exec α := throw (.fault ⟨cause, line⟩)

def unfinished {α : Type} : Exec α := throw .unfinished

def atLine {α : Type} (line : Nat) : Except RuntimeCause α → Exec α
  | .ok value => pure value
  | .error cause => fault cause line

namespace Memory

/-- What a name stands for: what its location holds if it is local, and else what it is globally. -/
def lookUp? (environment : Environment) (name : String) (memory : Memory) : Option Value :=
  match environment.lookup name with
  | some location => memory.cells[location]?.join
  | none => memory.globals[name]?

def fill (location : Location) (value : Value) (memory : Memory) : Memory :=
  { memory with cells := memory.cells.setIfInBounds location (some value) }

def setGlobal (name : String) (value : Value) (memory : Memory) : Memory :=
  { memory with globals := memory.globals.insert name value }

end Memory

def readVariable (environment : Environment) (site : Site) (name : String) : Exec Value :=
  fun memory =>
    match memory.lookUp? environment name with
    | some value => .ok value memory
    | none => .error (.fault ⟨.undefinedVariable name, site.line⟩) memory

/-- Assignment makes no globals. -/
def assignVariable (environment : Environment) (site : Site) (name : String) (value : Value) :
    Exec Unit := fun memory =>
  match environment.lookup name with
  | some location => .ok () (memory.fill location value)
  | none =>
    match memory.globals[name]? with
    | some _ => .ok () (memory.setGlobal name value)
    | none => .error (.fault ⟨.undefinedVariable name, site.line⟩) memory

def allocate (content : Option Value) : Exec Location := fun memory =>
  .ok memory.cells.size { memory with cells := memory.cells.push content }

def store (location : Location) (value : Value) : Exec Unit := fun memory =>
  .ok () (memory.fill location value)

def defineGlobal (name : String) (value : Value) : Exec Unit := fun memory =>
  .ok () (memory.setGlobal name value)

def makeCallable (target : Callable) : Exec Value := fun memory =>
  .ok (.callable memory.callables target) { memory with callables := memory.callables + 1 }

def write (value : Value) : Exec Unit := fun memory =>
  .ok () { memory with output := memory.output ++ value.text ++ "\n" }

def readClock : Exec Value := fun memory =>
  .ok (.number (memory.clock memory.readings)) { memory with readings := memory.readings + 1 }

def evaluateAll (eval : Expr → Exec Value) : List Expr → Exec (List Value)
  | [] => pure []
  | first :: rest => do
    let value ← eval first
    let values ← evaluateAll eval rest
    pure (value :: values)

def runAll (run : Region → Stmt → Exec Flow) (region : Region) : List Stmt → Exec Flow
  | [] => pure (.next region)
  | first :: rest => do
    match ← run region first with
    | .next after => runAll run after rest
    | .returned value => pure (.returned value)

def bindParameters (environment : Environment) : List Ident → List Value → Exec Environment
  | name :: names, value :: values => do
    let location ← allocate (some value)
    bindParameters ((name.name, location) :: environment) names values
  | _, _ => pure environment

def runNative (native : Native) (arguments : List Value) : Exec Value :=
  match native.rule with
  | .clock => readClock
  | .argument place => pure (arguments[place arguments.length]?.getD .nil)

/-- The body of a function runs in the environment of the declaration with the parameters added. -/
def call (run : Region → Stmt → Exec Flow) (arguments : List Value) : Callable → Exec Value
  | .native builtin => runNative builtin arguments
  | .function declaration environment => do
    let extended ← bindParameters environment declaration.parameters arguments
    match ← runAll run (.inside extended) declaration.body with
    | .next _ => pure .nil
    | .returned value => pure value

def callValue (run : Region → Stmt → Exec Flow) (line : Nat) (callee : Value)
    (arguments : List Value) : Exec Value :=
  match callee with
  | .callable _ target =>
    if arguments.length = target.arity then call run arguments target
    else fault (.arityMismatch target.arity arguments.length) line
  | _ => fault .notCallable line

def evaluateWith (eval : Environment → Expr → Exec Value) (run : Region → Stmt → Exec Flow)
    (environment : Environment) : Expr → Exec Value
  | .literal _ value => pure (.ofLiteral value)
  | .variable site name => readVariable environment site name
  | .assign site target value => do
    let result ← eval environment value
    assignVariable environment site target result
    pure result
  | .group _ inner => eval environment inner
  | .unary site op operand => do
    let value ← eval environment operand
    atLine site.line (op.apply value)
  | .binary site op left right => do
    let first ← eval environment left
    let second ← eval environment right
    atLine site.line (op.apply first second)
  | .logical _ op left right => do
    let first ← eval environment left
    if op.decides first then pure first else eval environment right
  | .call site callee arguments => do
    let target ← eval environment callee
    let values ← evaluateAll (eval environment) arguments
    callValue run site.line target values

def evaluateOr (eval : Expr → Exec Value) : Option Expr → Exec Value
  | none => pure .nil
  | some value => eval value

def iterate (region : Region) (test : Exec Value) (body : Exec Flow) : Nat → Exec Flow
  | 0 => unfinished
  | bound + 1 => do
    let again ← test
    if again.truthy then
      match ← body with
      | .next _ => iterate region test body bound
      | .returned value => pure (.returned value)
    else pure (.next region)

def branch (run : Region → Stmt → Exec Flow) (region : Region) (stmt : Stmt) : Exec Flow := do
  let flow ← run region stmt
  pure (flow.leave region)

/-- A local name is in the environment that its own value is made in; outside all blocks and functions
a declaration is global. -/
def declare (region : Region) (name : String) (value : Environment → Exec Value) : Exec Flow :=
  match region with
  | .outermost => do
    let made ← value []
    defineGlobal name made
    pure (.next .outermost)
  | .inside environment => do
    let location ← allocate none
    let extended := (name, location) :: environment
    let made ← value extended
    store location made
    pure (.next (.inside extended))

def runWith (bound : Nat) (eval : Environment → Expr → Exec Value)
    (run : Region → Stmt → Exec Flow) (region : Region) : Stmt → Exec Flow
  | .var name initial =>
    declare region name.name fun environment => evaluateOr (eval environment) initial
  | .function name parameters body =>
    declare region name.name fun environment =>
      makeCallable (.function ⟨name, parameters, body⟩ environment)
  | .expression value => do
    let _ ← eval region.environment value
    pure (.next region)
  | .print value => do
    let result ← eval region.environment value
    write result
    pure (.next region)
  | .block body => do
    let flow ← runAll run (.inside region.environment) body
    pure (flow.leave region)
  | .ifThen test yes => do
    let chosen ← eval region.environment test
    if chosen.truthy then branch run region yes else pure (.next region)
  | .ifElse test yes no => do
    let chosen ← eval region.environment test
    if chosen.truthy then branch run region yes else branch run region no
  | .loop test body =>
    iterate region (eval region.environment test) (run region body) bound
  | .return _ value => do
    let result ← evaluateOr (eval region.environment) value
    pure (.returned result)

mutual

def evaluate : Nat → Environment → Expr → Exec Value
  | 0, _, _ => unfinished
  | bound + 1, environment, expr => evaluateWith (evaluate bound) (execute bound) environment expr

def execute : Nat → Region → Stmt → Exec Flow
  | 0, _, _ => unfinished
  | bound + 1, region, stmt => runWith bound (evaluate bound) (execute bound) region stmt

end

def executeProgram (bound : Nat) (program : Program) : Exec Unit := do
  let _ ← runAll (execute bound) .outermost program
  pure ()

def runProgram (bound : Nat) (manner : Manner) (program : Program) : Exec Unit :=
  match manner, program with
  | .prompt, [.expression value] => do
    match ← evaluate bound [] value with
    | .nil => pure ()
    | result => write result
  | _, _ => executeProgram bound program

structure Session where
  memory : Memory
  nextId : Nat

namespace Session

def fresh (clock : Nat → Float) : Session :=
  let native : Value := .callable 0 (.native ⟨"clock", 0, .clock⟩)
  ⟨⟨#[], (∅ : Std.TreeMap String Value).insert "clock" native, "", 1, clock, 0⟩, 0⟩

def start (bound : Nat) (manner : Manner) (program : Program) (memory : Memory) :
    Outcome × Memory :=
  match runProgram bound manner program memory with
  | .ok _ after => (.finished, after)
  | .error stop after => (.ofStop stop, after)

/-- The static stages only say whether a source runs at all. -/
def runAs (bound : Nat) (manner : Manner) (source : String) (session : Session) :
    Outcome × Session :=
  let read := ReadSource.ofText session.nextId source
  let nextId := read.parsed.nextId
  if read.faults.isEmpty then
    match resolve read.parsed.program with
    | .error faults => (.rejected faults, { session with nextId := nextId })
    | .ok _ =>
      let (outcome, memory) := start bound manner read.parsed.program session.memory
      (outcome, ⟨memory, nextId⟩)
  else (.rejected read.faults, { session with nextId := nextId })

def output (session : Session) : String := session.memory.output

end Session
end LoxLang.Lexical

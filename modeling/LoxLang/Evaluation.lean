import LoxLang.Machine
/-!
Running expressions and statements. A number bounds how deeply evaluation nests and how often each
loop goes round; a run that needs more ends as unfinished, and a larger bound never changes the
answer of a run that ends otherwise.
-/
namespace LoxLang

def evaluateAll (eval : Expr → Exec Value) : List Expr → Exec (List Value)
  | [] => pure []
  | first :: rest => do
    let value ← eval first
    let values ← evaluateAll eval rest
    pure (value :: values)

def runAll (run : Stmt → Exec Flow) : List Stmt → Exec Flow
  | [] => pure .next
  | first :: rest => do
    match ← run first with
    | .next => runAll run rest
    | .returned value => pure (.returned value)

/-- Names without an argument are left unbound, arguments without a name are dropped. -/
def bindParameters (frame : FrameId) : List Ident → List Value → Exec Unit
  | name :: names, value :: values => do
    defineIn frame name.name value
    bindParameters frame names values
  | _, _ => pure ()

def Native.run (native : Native) (arguments : List Value) : Exec Value :=
  match native.rule with
  | .clock => readClock
  | .argument place => pure (arguments[place arguments.length]?.getD .nil)

/-- A call runs the body in a new frame inside the one that the function was declared in; parameters
and body share it. -/
def CallableOver.run (run : Stmt → Exec Flow) (arguments : List Value) : Callable → Exec Value
  | .native builtin => builtin.run arguments
  | .function declaration closure => do
    let frame ← openInside closure
    bindParameters frame declaration.parameters arguments
    match ← within frame (runAll run declaration.body) with
    | .next => pure .nil
    | .returned value => pure value

/-- A call from the script: only callables, and only with as many arguments as they take. -/
def callValue (run : Stmt → Exec Flow) (line : Nat) (callee : Value) (arguments : List Value) :
    Exec Value :=
  match callee with
  | .callable _ target =>
    if arguments.length = target.arity then target.run run arguments
    else Exec.fault (.arityMismatch target.arity arguments.length) line
  | _ => Exec.fault .notCallable line

def evaluateWith (eval : Expr → Exec Value) (run : Stmt → Exec Flow) : Expr → Exec Value
  | .literal _ value => pure (.ofLiteral value)
  | .variable site name => readVariable site name
  | .assign site target value => do
    let result ← eval value
    assignVariable site target result
    pure result
  | .group _ inner => eval inner
  | .unary site op operand => do
    let value ← eval operand
    Exec.atLine site.line (op.apply value)
  | .binary site op left right => do
    let first ← eval left
    let second ← eval right
    Exec.atLine site.line (op.apply first second)
  | .logical _ op left right => do
    let first ← eval left
    if op.decides first then pure first else eval right
  | .call site callee arguments => do
    let target ← eval callee
    let values ← evaluateAll eval arguments
    callValue run site.line target values

def evaluateOr (eval : Expr → Exec Value) : Option Expr → Exec Value
  | none => pure .nil
  | some value => eval value

/-- Goes round while the test is true, up to a bound, and ends early when the body returns. -/
def iterate (test : Exec Value) (body : Exec Flow) : Nat → Exec Flow
  | 0 => Exec.unfinished
  | bound + 1 => do
    let again ← test
    if again.truthy then
      match ← body with
      | .next => iterate test body bound
      | .returned value => pure (.returned value)
    else pure .next

def runWith (bound : Nat) (eval : Expr → Exec Value) (run : Stmt → Exec Flow) :
    Stmt → Exec Flow
  | .var name initial => do
    let value ← evaluateOr eval initial
    defineHere name.name value
    pure .next
  | .function name parameters body => do
    let closure ← currentFrame
    let value ← makeCallable (.function ⟨name, parameters, body⟩ closure)
    defineHere name.name value
    pure .next
  | .expression value => do
    let _ ← eval value
    pure .next
  | .print value => do
    let result ← eval value
    write result
    pure .next
  | .block body => do
    let frame ← openInside (← currentFrame)
    within frame (runAll run body)
  | .ifThen test yes => do
    let chosen ← eval test
    if chosen.truthy then run yes else pure .next
  | .ifElse test yes no => do
    let chosen ← eval test
    if chosen.truthy then run yes else run no
  | .loop test body => iterate (eval test) (run body) bound
  | .return _ value => do
    let result ← evaluateOr eval value
    pure (.returned result)

mutual

def evaluate : Nat → Expr → Machine → Step Value
  | 0, _, machine => Exec.unfinished machine
  | bound + 1, expr, machine =>
    evaluateWith (evaluate bound) (execute bound) expr machine

def execute : Nat → Stmt → Machine → Step Flow
  | 0, _, machine => Exec.unfinished machine
  | bound + 1, stmt, machine =>
    runWith bound (evaluate bound) (execute bound) stmt machine

end

/-- A bound that no run uses up in practice. -/
def ample : Nat := Nat.pow 2 60

/-- A whole program; a return outside all functions ends it. -/
def executeProgram (bound : Nat) (program : Program) : Exec Unit := do
  let _ ← runAll (execute bound) program
  pure ()

def executeAlone (bound : Nat) (stmt : Stmt) : Exec (Option Value) :=
  match stmt with
  | .expression value => some <$> evaluate bound value
  | other => do
    let _ ← execute bound other
    pure none

/-- A call from outside a script, which takes any number of arguments. -/
def callDirectly (bound : Nat) (target : Callable) (arguments : List Value) : Exec Value :=
  target.run (execute bound) arguments

end LoxLang

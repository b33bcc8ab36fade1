import LoxLang.Session

/-!
Properties that all runs have because their parts have them. What holds of the few steps that look at
the machine themselves, and goes on from one step to the next, holds of whole programs.
-/
namespace LoxLang

/-- Every way to put runs together keeps the property. -/
structure Exec.Uniform (keeps : {α : Type} → Exec α → Prop) : Prop where
  pure {α : Type} (value : α) : keeps (Pure.pure value : Exec α)
  bind {α β : Type} {first : Exec α} {next : α → Exec β} :
    keeps first → (∀ value, keeps (next value)) → keeps (first >>= next)
  fault {α : Type} (cause : RuntimeCause) (line : Nat) : keeps (Exec.fault cause line : Exec α)
  unfinished {α : Type} : keeps (Exec.unfinished : Exec α)
  readVariable (site : Site) (name : String) : keeps (LoxLang.readVariable site name)
  assignVariable (site : Site) (name : String) (value : Value) :
    keeps (LoxLang.assignVariable site name value)
  defineHere (name : String) (value : Value) : keeps (LoxLang.defineHere name value)
  defineIn (frame : FrameId) (name : String) (value : Value) :
    keeps (LoxLang.defineIn frame name value)
  currentFrame : keeps LoxLang.currentFrame
  openInside (parent : FrameId) : keeps (LoxLang.openInside parent)
  makeCallable (target : Callable) : keeps (LoxLang.makeCallable target)
  write (value : Value) : keeps (LoxLang.write value)
  readClock : keeps LoxLang.readClock
  within {α : Type} (frame : FrameId) {body : Exec α} :
    keeps body → keeps (LoxLang.within frame body)

namespace Exec.Uniform

variable {keeps : {α : Type} → Exec α → Prop} (uniform : Uniform @keeps) {eval : Expr → Exec Value}
  {run : Stmt → Exec Flow}

theorem choose {α : Type} {condition : Prop} [Decidable condition] {yes no : Exec α}
    (first : keeps yes) (second : keeps no) : keeps (if condition then yes else no) := by
  by_cases chosen : condition
  · rw [if_pos chosen]
    exact first
  · rw [if_neg chosen]
    exact second

include uniform

theorem flow {last : Exec Flow} (lastKeeps : keeps last) (flow : Flow) :
    keeps (match flow with
      | .next => last
      | .returned value => Pure.pure (.returned value)) := by
  cases flow with
  | next => exact lastKeeps
  | returned value => exact uniform.pure _

theorem atLine {α : Type} (line : Nat) (result : Except RuntimeCause α) :
    keeps (Exec.atLine line result) := by
  cases result with
  | ok value => exact uniform.pure value
  | error cause => exact uniform.fault cause line

theorem evaluateAll (evalKeeps : ∀ expr, keeps (eval expr)) (values : List Expr) :
    keeps (LoxLang.evaluateAll eval values) := by
  induction values with
  | nil => exact uniform.pure []
  | cons first rest ih =>
    exact uniform.bind (evalKeeps first) fun _ => uniform.bind ih fun _ => uniform.pure _

theorem runAll (runKeeps : ∀ stmt, keeps (run stmt)) (body : List Stmt) :
    keeps (LoxLang.runAll run body) := by
  induction body with
  | nil => exact uniform.pure _
  | cons first rest ih =>
    refine uniform.bind (runKeeps first) fun flow => ?_
    cases flow with
    | next => exact ih
    | returned value => exact uniform.pure _

theorem bindParameters (frame : FrameId) (names : List Ident) (values : List Value) :
    keeps (LoxLang.bindParameters frame names values) := by
  induction names generalizing values with
  | nil => exact uniform.pure ()
  | cons name rest ih =>
    cases values with
    | nil => exact uniform.pure ()
    | cons value values => exact uniform.bind (uniform.defineIn frame _ _) fun _ => ih values

theorem native (native : Native) (arguments : List Value) : keeps (native.run arguments) := by
  unfold Native.run
  split
  · exact uniform.readClock
  · exact uniform.pure _

theorem callable (runKeeps : ∀ stmt, keeps (run stmt)) (arguments : List Value)
    (target : Callable) : keeps (target.run run arguments) := by
  cases target with
  | native builtin => exact uniform.native builtin arguments
  | function declaration closure =>
    refine uniform.bind (uniform.openInside closure) fun frame =>
      uniform.bind (uniform.bindParameters _ _ _) fun _ =>
        uniform.bind (uniform.within frame (uniform.runAll runKeeps _)) fun flow => ?_
    cases flow with
    | next => exact uniform.pure _
    | returned value => exact uniform.pure value

theorem callValue (runKeeps : ∀ stmt, keeps (run stmt)) (line : Nat) (callee : Value)
    (arguments : List Value) : keeps (LoxLang.callValue run line callee arguments) := by
  unfold LoxLang.callValue
  split
  · exact choose (uniform.callable runKeeps arguments _) (uniform.fault _ line)
  · exact uniform.fault _ line

theorem evaluateWith (evalKeeps : ∀ expr, keeps (eval expr)) (runKeeps : ∀ stmt, keeps (run stmt))
    (expr : Expr) : keeps (LoxLang.evaluateWith eval run expr) := by
  cases expr with
  | literal site value => exact uniform.pure _
  | «variable» site name => exact uniform.readVariable site name
  | assign site target value =>
    exact uniform.bind (evalKeeps value) fun result =>
      uniform.bind (uniform.assignVariable site target result) fun _ => uniform.pure result
  | group site inner => exact evalKeeps inner
  | unary site op operand => exact uniform.bind (evalKeeps operand) fun _ => uniform.atLine _ _
  | binary site op left right =>
    exact uniform.bind (evalKeeps left) fun _ =>
      uniform.bind (evalKeeps right) fun _ => uniform.atLine _ _
  | logical site op left right =>
    exact uniform.bind (evalKeeps left) fun first =>
      choose (uniform.pure first) (evalKeeps right)
  | call site callee arguments =>
    exact uniform.bind (evalKeeps callee) fun target =>
      uniform.bind (uniform.evaluateAll evalKeeps arguments) fun values =>
        uniform.callValue runKeeps _ _ _

theorem evaluateOr (evalKeeps : ∀ expr, keeps (eval expr)) (value : Option Expr) :
    keeps (LoxLang.evaluateOr eval value) := by
  cases value with
  | none => exact uniform.pure _
  | some value => exact evalKeeps value

theorem iterate {test : Exec Value} {body : Exec Flow} (testKeeps : keeps test)
    (bodyKeeps : keeps body) (bound : Nat) : keeps (LoxLang.iterate test body bound) := by
  induction bound with
  | zero => exact uniform.unfinished
  | succ bound ih =>
    exact uniform.bind testKeeps fun again =>
      choose (uniform.bind bodyKeeps (uniform.flow ih)) (uniform.pure _)

theorem runWith (bound : Nat) (evalKeeps : ∀ expr, keeps (eval expr))
    (runKeeps : ∀ stmt, keeps (run stmt)) (stmt : Stmt) :
    keeps (LoxLang.runWith bound eval run stmt) := by
  cases stmt with
  | var name initial =>
    exact uniform.bind (uniform.evaluateOr evalKeeps initial) fun _ =>
      uniform.bind (uniform.defineHere _ _) fun _ => uniform.pure _
  | function name parameters body =>
    exact uniform.bind uniform.currentFrame fun _ =>
      uniform.bind (uniform.makeCallable _) fun _ =>
        uniform.bind (uniform.defineHere _ _) fun _ => uniform.pure _
  | expression value => exact uniform.bind (evalKeeps value) fun _ => uniform.pure _
  | print value =>
    exact uniform.bind (evalKeeps value) fun _ =>
      uniform.bind (uniform.write _) fun _ => uniform.pure _
  | block body =>
    exact uniform.bind uniform.currentFrame fun _ => uniform.bind (uniform.openInside _) fun frame =>
      uniform.within frame (uniform.runAll runKeeps body)
  | ifThen test yes =>
    exact uniform.bind (evalKeeps test) fun chosen =>
      choose (runKeeps yes) (uniform.pure _)
  | ifElse test yes no =>
    exact uniform.bind (evalKeeps test) fun chosen =>
      choose (runKeeps yes) (runKeeps no)
  | loop test body => exact uniform.iterate (evalKeeps test) (runKeeps body) bound
  | «return» line value =>
    exact uniform.bind (uniform.evaluateOr evalKeeps value) fun _ => uniform.pure _

theorem evaluate_execute (bound : Nat) :
    (∀ expr, keeps (LoxLang.evaluate bound expr : Exec Value)) ∧
      ∀ stmt, keeps (LoxLang.execute bound stmt : Exec Flow) := by
  induction bound with
  | zero => exact ⟨fun _ => uniform.unfinished, fun _ => uniform.unfinished⟩
  | succ bound ih => exact ⟨uniform.evaluateWith ih.1 ih.2, uniform.runWith bound ih.1 ih.2⟩

theorem evaluate (bound : Nat) (expr : Expr) : keeps (LoxLang.evaluate bound expr : Exec Value) :=
  (uniform.evaluate_execute bound).1 expr

theorem execute (bound : Nat) (stmt : Stmt) : keeps (LoxLang.execute bound stmt : Exec Flow) :=
  (uniform.evaluate_execute bound).2 stmt

theorem executeProgram (bound : Nat) (program : Program) :
    keeps (LoxLang.executeProgram bound program) :=
  uniform.bind (uniform.runAll (uniform.execute bound) program) fun _ => uniform.pure ()

theorem runProgram (bound : Nat) (manner : Manner) (program : Program) :
    keeps (LoxLang.runProgram bound manner program) := by
  unfold LoxLang.runProgram
  split
  · refine uniform.bind (uniform.bind (uniform.evaluate bound _) fun _ => uniform.pure _)
      fun shown => ?_
    split
    · exact uniform.pure ()
    · exact uniform.write _
    · exact uniform.pure ()
  · exact uniform.executeProgram bound program

end Exec.Uniform
end LoxLang

import LoxLang.Evaluation

/-!
Bounds only cut off. What ends with some bound ends in the same way with every larger one, so it makes
no difference which of the bounds that are large enough a run is given.
-/
namespace LoxLang

/-- Where the first does not run out of its bound, the second does the same. -/
def Exec.Settles {α : Type} (less more : Exec α) : Prop :=
  ∀ machine, (∃ after, less machine = .stopped .unfinished after) ∨ more machine = less machine

namespace Exec.Settles

variable {α β : Type}

theorem refl (exec : Exec α) : exec.Settles exec := fun _ => .inr rfl

theorem unfinished (more : Exec α) : Exec.Settles Exec.unfinished more :=
  fun machine => .inl ⟨machine, rfl⟩

theorem bind {less more : Exec α} {lessNext moreNext : α → Exec β} (ahead : less.Settles more)
    (further : ∀ value, (lessNext value).Settles (moreNext value)) :
    (less >>= lessNext).Settles (more >>= moreNext) := by
  intro machine
  simp only [bind_apply]
  rcases ahead machine with ⟨after, out⟩ | same
  · left
    exact ⟨after, by rw [out]⟩
  · rw [same]
    cases less machine with
    | done value after => exact further value after
    | stopped stop after => exact .inr rfl

theorem after {first : Exec α} {less more : α → Exec β}
    (further : ∀ value, (less value).Settles (more value)) :
    (first >>= less).Settles (first >>= more) :=
  bind (.refl first) further

theorem before {less more : Exec α} (ahead : less.Settles more) (next : α → Exec β) :
    (less >>= next).Settles (more >>= next) :=
  bind ahead fun value => .refl (next value)

theorem choose {condition : Prop} [Decidable condition] {less more otherLess otherMore : Exec α}
    (yes : less.Settles more) (no : otherLess.Settles otherMore) :
    (if condition then less else otherLess).Settles (if condition then more else otherMore) := by
  by_cases chosen : condition
  · rw [if_pos chosen, if_pos chosen]
    exact yes
  · rw [if_neg chosen, if_neg chosen]
    exact no

theorem within {less more : Exec α} (frame : FrameId) (settles : less.Settles more) :
    (LoxLang.within frame less).Settles (LoxLang.within frame more) := by
  intro machine
  unfold LoxLang.within
  rcases settles { machine with current := frame } with ⟨after, out⟩ | same
  · left
    exact ⟨{ after with current := machine.current }, by rw [out]⟩
  · right
    rw [same]

theorem eq {less more : Exec α} (settles : less.Settles more) {machine : Machine}
    (ends : ∀ after, less machine ≠ .stopped .unfinished after) : more machine = less machine := by
  rcases settles machine with ⟨after, out⟩ | same
  · exact absurd out (ends after)
  · exact same

end Exec.Settles

section Evaluation

variable {less more : Expr → Exec Value} {runLess runMore : Stmt → Exec Flow}

theorem settles_evaluateAll (eval : ∀ expr, (less expr).Settles (more expr)) (values : List Expr) :
    (evaluateAll less values).Settles (evaluateAll more values) := by
  induction values with
  | nil => exact .refl _
  | cons first rest ih =>
    apply (eval first).bind
    intro value
    exact ih.before _

theorem settles_runAll (run : ∀ stmt, (runLess stmt).Settles (runMore stmt)) (body : List Stmt) :
    (runAll runLess body).Settles (runAll runMore body) := by
  induction body with
  | nil => exact .refl _
  | cons first rest ih =>
    apply (run first).bind
    intro flow
    cases flow with
    | next => exact ih
    | returned value => exact .refl _

theorem settles_callable (run : ∀ stmt, (runLess stmt).Settles (runMore stmt))
    (arguments : List Value) (target : Callable) :
    (target.run runLess arguments).Settles (target.run runMore arguments) := by
  cases target with
  | native builtin => exact .refl _
  | function declaration closure =>
    apply Exec.Settles.after
    intro frame
    apply Exec.Settles.after
    intro _
    exact ((settles_runAll run declaration.body).within frame).before _

theorem settles_callValue (run : ∀ stmt, (runLess stmt).Settles (runMore stmt)) (line : Nat)
    (callee : Value) (arguments : List Value) :
    (callValue runLess line callee arguments).Settles (callValue runMore line callee arguments) := by
  unfold callValue
  split
  · exact .choose (settles_callable run arguments _) (.refl _)
  · exact .refl _

theorem settles_evaluateOr (eval : ∀ expr, (less expr).Settles (more expr)) (value : Option Expr) :
    (evaluateOr less value).Settles (evaluateOr more value) := by
  cases value with
  | none => exact .refl _
  | some value => exact eval value

theorem settles_evaluateWith (eval : ∀ expr, (less expr).Settles (more expr))
    (run : ∀ stmt, (runLess stmt).Settles (runMore stmt)) (expr : Expr) :
    (evaluateWith less runLess expr).Settles (evaluateWith more runMore expr) := by
  cases expr with
  | literal _ _ => exact .refl _
  | «variable» _ _ => exact .refl _
  | assign _ _ value => exact (eval value).before _
  | group _ inner => exact eval inner
  | unary _ _ operand => exact (eval operand).before _
  | binary _ _ left right =>
    apply (eval left).bind
    intro first
    exact (eval right).before _
  | logical _ _ left right =>
    apply (eval left).bind
    intro first
    exact .choose (.refl _) (eval right)
  | call site callee arguments =>
    apply (eval callee).bind
    intro target
    apply (settles_evaluateAll eval arguments).bind
    intro values
    exact settles_callValue run site.line target values

theorem settles_iterate {test moreTest : Exec Value} {body moreBody : Exec Flow}
    (tests : test.Settles moreTest) (bodies : body.Settles moreBody) {bound larger : Nat}
    (order : bound ≤ larger) :
    (iterate test body bound).Settles (iterate moreTest moreBody larger) := by
  induction bound generalizing larger with
  | zero => exact .unfinished _
  | succ bound ih =>
    obtain ⟨larger, rfl⟩ := Nat.exists_eq_add_one_of_ne_zero (show larger ≠ 0 by omega)
    apply tests.bind
    intro again
    apply Exec.Settles.choose
    · apply bodies.bind
      intro flow
      cases flow with
      | next => exact ih (Nat.le_of_succ_le_succ order)
      | returned value => exact .refl _
    · exact .refl _

theorem settles_runWith {bound larger : Nat} (order : bound ≤ larger)
    (eval : ∀ expr, (less expr).Settles (more expr))
    (run : ∀ stmt, (runLess stmt).Settles (runMore stmt)) (stmt : Stmt) :
    (runWith bound less runLess stmt).Settles (runWith larger more runMore stmt) := by
  cases stmt with
  | var _ initial => exact (settles_evaluateOr eval initial).before _
  | function _ _ _ => exact .refl _
  | expression value => exact (eval value).before _
  | print value => exact (eval value).before _
  | block body =>
    apply Exec.Settles.after
    intro here
    apply Exec.Settles.after
    intro frame
    exact (settles_runAll run body).within frame
  | ifThen test yes =>
    apply (eval test).bind
    intro chosen
    exact .choose (run yes) (.refl _)
  | ifElse test yes no =>
    apply (eval test).bind
    intro chosen
    exact .choose (run yes) (run no)
  | loop test body => exact settles_iterate (eval test) (run body) order
  | «return» _ value => exact (settles_evaluateOr eval value).before _

end Evaluation

theorem settles_evaluate_execute {bound larger : Nat} (order : bound ≤ larger) :
    (∀ expr, Exec.Settles (evaluate bound expr) (evaluate larger expr)) ∧
      ∀ stmt, Exec.Settles (execute bound stmt) (execute larger stmt) := by
  induction bound generalizing larger with
  | zero => exact ⟨fun _ => .unfinished _, fun _ => .unfinished _⟩
  | succ bound ih =>
    obtain ⟨larger, rfl⟩ := Nat.exists_eq_add_one_of_ne_zero (show larger ≠ 0 by omega)
    have fewer : bound ≤ larger := Nat.le_of_succ_le_succ order
    obtain ⟨eval, run⟩ := ih fewer
    exact ⟨settles_evaluateWith eval run, settles_runWith fewer eval run⟩

theorem settles_executeProgram {bound larger : Nat} (order : bound ≤ larger) (program : Program) :
    (executeProgram bound program).Settles (executeProgram larger program) :=
  (settles_runAll (settles_evaluate_execute order).2 program).before _

end LoxLang

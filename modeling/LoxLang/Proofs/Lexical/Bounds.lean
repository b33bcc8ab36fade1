import LoxLang.Proofs.Lexical.Semantics

/-!
Bounds only cut off in the model too: what ends with some bound ends in the same way with every larger
one.
-/
namespace LoxLang.Lexical

def Exec.Settles {α : Type} (less more : Exec α) : Prop :=
  ∀ memory, (∃ after, less memory = .error .unfinished after) ∨ more memory = less memory

namespace Exec.Settles

variable {α β : Type}

theorem refl (exec : Exec α) : Exec.Settles exec exec := fun _ => .inr rfl

theorem unfinished (more : Exec α) : Exec.Settles Lexical.unfinished more :=
  fun memory => .inl ⟨memory, rfl⟩

theorem trans {less middle more : Exec α} (ahead : Exec.Settles less middle)
    (further : Exec.Settles middle more) : Exec.Settles less more := by
  intro memory
  rcases ahead memory with out | same
  · exact .inl out
  · rw [← same]
    exact further memory

theorem bind {less more : Exec α} {lessNext moreNext : α → Exec β} (ahead : Exec.Settles less more)
    (further : ∀ value, Exec.Settles (lessNext value) (moreNext value)) :
    Exec.Settles (less >>= lessNext) (more >>= moreNext) := by
  intro memory
  rw [bind_apply, bind_apply]
  rcases ahead memory with ⟨after, out⟩ | same
  · left
    exact ⟨after, by rw [out]⟩
  · rw [same]
    cases less memory with
    | ok value after => exact further value after
    | error stop after => exact .inr rfl

theorem after {first : Exec α} {less more : α → Exec β}
    (further : ∀ value, Exec.Settles (less value) (more value)) :
    Exec.Settles (first >>= less) (first >>= more) :=
  bind (.refl first) further

theorem before {less more : Exec α} (ahead : Exec.Settles less more) (next : α → Exec β) :
    Exec.Settles (less >>= next) (more >>= next) :=
  bind ahead fun value => .refl (next value)

theorem choose {condition : Prop} [Decidable condition] {less more otherLess otherMore : Exec α}
    (yes : Exec.Settles less more) (no : Exec.Settles otherLess otherMore) :
    Exec.Settles (if condition then less else otherLess) (if condition then more else otherMore) := by
  by_cases chosen : condition
  · rw [if_pos chosen, if_pos chosen]
    exact yes
  · rw [if_neg chosen, if_neg chosen]
    exact no

theorem eq {less more : Exec α} (settles : Exec.Settles less more) {memory : Memory}
    (ends : ∀ after, less memory ≠ .error .unfinished after) : more memory = less memory := by
  rcases settles memory with ⟨after, out⟩ | same
  · exact absurd out (ends after)
  · exact same

end Exec.Settles

section Evaluation

variable {less more : Environment → Expr → Exec Value} {runLess runMore : Region → Stmt → Exec Flow}

theorem settles_evaluateAll {eval evalMore : Expr → Exec Value}
    (evals : ∀ expr, Exec.Settles (eval expr) (evalMore expr)) (values : List Expr) :
    Exec.Settles (evaluateAll eval values) (evaluateAll evalMore values) := by
  induction values with
  | nil => exact .refl _
  | cons first rest ih =>
    apply (evals first).bind
    intro value
    exact ih.before _

theorem settles_runAll (run : ∀ region stmt, Exec.Settles (runLess region stmt) (runMore region stmt))
    (region : Region) (body : List Stmt) :
    Exec.Settles (runAll runLess region body) (runAll runMore region body) := by
  induction body generalizing region with
  | nil => exact .refl _
  | cons first rest ih =>
    apply (run region first).bind
    intro flow
    cases flow with
    | next after => exact ih after
    | returned value => exact .refl _

theorem settles_call (run : ∀ region stmt, Exec.Settles (runLess region stmt) (runMore region stmt))
    (arguments : List Value) (target : Callable) :
    Exec.Settles (call runLess arguments target) (call runMore arguments target) := by
  cases target with
  | native builtin => exact .refl _
  | function declaration environment =>
    apply Exec.Settles.after
    intro extended
    exact (settles_runAll run (.inside extended) declaration.body).before _

theorem settles_callValue
    (run : ∀ region stmt, Exec.Settles (runLess region stmt) (runMore region stmt)) (line : Nat)
    (callee : Value) (arguments : List Value) :
    Exec.Settles (callValue runLess line callee arguments)
      (callValue runMore line callee arguments) := by
  unfold callValue
  split
  · exact .choose (settles_call run arguments _) (.refl _)
  · exact .refl _

theorem settles_evaluateOr {eval evalMore : Expr → Exec Value}
    (evals : ∀ expr, Exec.Settles (eval expr) (evalMore expr)) (value : Option Expr) :
    Exec.Settles (evaluateOr eval value) (evaluateOr evalMore value) := by
  cases value with
  | none => exact .refl _
  | some value => exact evals value

theorem settles_evaluateWith
    (eval : ∀ environment expr, Exec.Settles (less environment expr) (more environment expr))
    (run : ∀ region stmt, Exec.Settles (runLess region stmt) (runMore region stmt))
    (environment : Environment) (expr : Expr) :
    Exec.Settles (evaluateWith less runLess environment expr)
      (evaluateWith more runMore environment expr) := by
  have eval := eval environment
  cases expr with
  | literal _ _ => exact .refl _
  | «variable» _ _ => exact .refl _
  | assign _ _ value => exact (eval value).before _
  | group _ inner => exact eval inner
  | unary _ _ operand => exact (eval operand).before _
  | binary _ _ left right =>
    apply (eval left).bind
    intro first
    exact (eval right).before _
  | logical _ _ left right =>
    apply (eval left).bind
    intro first
    exact .choose (.refl _) (eval right)
  | call site callee arguments =>
    apply (eval callee).bind
    intro target
    apply (settles_evaluateAll eval arguments).bind
    intro values
    exact settles_callValue run site.line target values

theorem settles_declare {region : Region} {name : String} {value moreValue : Environment → Exec Value}
    (values : ∀ environment, Exec.Settles (value environment) (moreValue environment)) :
    Exec.Settles (declare region name value) (declare region name moreValue) := by
  cases region with
  | outermost => exact (values []).before _
  | inside environment =>
    apply Exec.Settles.after
    intro location
    exact (values _).before _

theorem settles_iterate {region : Region} {test moreTest : Exec Value} {body moreBody : Exec Flow}
    (tests : Exec.Settles test moreTest) (bodies : Exec.Settles body moreBody) {bound larger : Nat}
    (order : bound ≤ larger) :
    Exec.Settles (iterate region test body bound) (iterate region moreTest moreBody larger) := by
  induction bound generalizing larger with
  | zero => exact .unfinished _
  | succ bound ih =>
    -- a bound on the levels is one on the rounds as well, so both go down by one a round
    obtain ⟨larger, rfl⟩ := Nat.exists_eq_add_one_of_ne_zero (show larger ≠ 0 by omega)
    apply tests.bind
    intro again
    apply Exec.Settles.choose
    · apply bodies.bind
      intro flow
      cases flow with
      | next after => exact ih (Nat.le_of_succ_le_succ order)
      | returned value => exact .refl _
    · exact .refl _

theorem settles_runWith {bound larger : Nat} (order : bound ≤ larger)
    (eval : ∀ environment expr, Exec.Settles (less environment expr) (more environment expr))
    (run : ∀ region stmt, Exec.Settles (runLess region stmt) (runMore region stmt)) (region : Region)
    (stmt : Stmt) :
    Exec.Settles (runWith bound less runLess region stmt) (runWith larger more runMore region stmt) := by
  cases stmt with
  | var _ initial =>
    exact settles_declare fun environment => settles_evaluateOr (eval environment) initial
  | function _ _ _ => exact .refl _
  | expression value => exact (eval _ value).before _
  | print value => exact (eval _ value).before _
  | block body => exact (settles_runAll run _ body).before _
  | ifThen test yes =>
    apply (eval _ test).bind
    intro chosen
    exact .choose ((run region yes).before _) (.refl _)
  | ifElse test yes no =>
    apply (eval _ test).bind
    intro chosen
    exact .choose ((run region yes).before _) ((run region no).before _)
  | loop test body => exact settles_iterate (eval _ test) (run region body) order
  | «return» _ value => exact (settles_evaluateOr (eval _) value).before _

end Evaluation

theorem settles_evaluate_execute {bound larger : Nat} (order : bound ≤ larger) :
    (∀ environment expr,
        Exec.Settles (evaluate bound environment expr) (evaluate larger environment expr)) ∧
      ∀ region stmt, Exec.Settles (execute bound region stmt) (execute larger region stmt) := by
  induction bound generalizing larger with
  | zero => exact ⟨fun _ _ => .unfinished _, fun _ _ => .unfinished _⟩
  | succ bound ih =>
    obtain ⟨larger, rfl⟩ := Nat.exists_eq_add_one_of_ne_zero (show larger ≠ 0 by omega)
    have fewer : bound ≤ larger := Nat.le_of_succ_le_succ order
    obtain ⟨eval, run⟩ := ih fewer
    exact ⟨settles_evaluateWith eval run, settles_runWith fewer eval run⟩

end LoxLang.Lexical

import LoxLang.Proofs.Evaluation.Growth
import LoxLang.Proofs.Scoping.Twins

/-!
Where a return can end a list of statements. Resolving rejects a return that stands outside all
functions; what it accepts runs on to its last statement, unless it is stopped.
-/
namespace LoxLang

mutual

/-- Nothing returns but in the functions that are declared in it. -/
def Stmt.Stays : Stmt → Prop
  | .block body => StaysAll body
  | .ifThen _ yes => Stays yes
  | .ifElse _ yes no => Stays yes ∧ Stays no
  | .loop _ body => Stays body
  | .return _ _ => False
  | _ => True

def Stmt.StaysAll : List Stmt → Prop
  | [] => True
  | first :: rest => Stays first ∧ StaysAll rest

end

section Resolving

namespace Scoping

theorem stays_return {line : Nat} {value : Option Expr} {state : Scoping}
    (outside : state.inFunction = false) :
    state.faults.size < (statement (.return line value) state).faults.size := by
  have checked : (state.checkReturn line).faults.size = state.faults.size + 1 := by
    simp [checkReturn, outside, report]
  have further := (extends_optional value (state.checkReturn line)).size_le
  exact Nat.lt_of_lt_of_le (Nat.lt_of_lt_of_eq (Nat.lt_succ_self _) checked.symm) further

mutual

theorem stays_statement : ∀ (stmt : Stmt) {state : Scoping}, state.inFunction = false →
    (statement stmt state).faults.size ≤ state.faults.size → stmt.Stays
  | .var _ _, _, _, _ | .function _ _ _, _, _, _ => trivial
  | .expression _, _, _, _ | .print _, _, _, _ => trivial
  | .block body, state, outside, quiet =>
    have opened : state.openScope.inFunction = false := outside
    stays_statements body opened quiet
  | .ifThen test yes, state, outside, quiet =>
    have tested := (extends_expression test state).size_le
    stays_statement yes ((expression_inFunction test state).trans outside) (Nat.le_trans quiet tested)
  | .ifElse test yes no, state, outside, quiet => by
    have tested := (extends_expression test state).size_le
    have first := (extends_statement yes (expression test state)).size_le
    have second := (extends_statement no (statement yes (expression test state))).size_le
    -- neither branch makes the resolver believe that it is in a function
    have before := (expression_inFunction test state).trans outside
    have between := (keeps_statement yes (expression test state)).inFunction.trans before
    constructor
    · exact stays_statement yes before (Nat.le_trans second (Nat.le_trans quiet tested))
    · exact stays_statement no between (Nat.le_trans quiet (Nat.le_trans tested first))
  | .loop test body, state, outside, quiet =>
    have tested := (extends_expression test state).size_le
    stays_statement body ((expression_inFunction test state).trans outside) (Nat.le_trans quiet tested)
  | .return _ _, _, outside, quiet => Nat.not_lt.mpr quiet (stays_return outside)

theorem stays_statements : ∀ (body : List Stmt) {state : Scoping}, state.inFunction = false →
    (statements body state).faults.size ≤ state.faults.size → Stmt.StaysAll body
  | [], _, _, _ => trivial
  | first :: rest, state, outside, quiet => by
    have ahead := (extends_statement first state).size_le
    have later := (extends_statements rest (statement first state)).size_le
    have between := (keeps_statement first state).inFunction.trans outside
    constructor
    · exact stays_statement first outside (Nat.le_trans later quiet)
    · exact stays_statements rest between (Nat.le_trans quiet ahead)

end
end Scoping

theorem resolve_stays {program : Program} {distances : Distances}
    (accepted : resolve program = .ok distances) : Stmt.StaysAll program := by
  have clean := resolve_isOk.mp ⟨distances, accepted⟩
  exact Scoping.stays_statements program rfl (Nat.le_trans (Nat.le_of_eq clean) (Nat.zero_le _))

end Resolving
section Running

def Exec.Stays (exec : Exec Flow) : Prop :=
  ∀ machine value after, exec machine ≠ .done (.returned value) after

namespace Exec.Stays

theorem next : Exec.Stays (pure .next) := fun _ _ _ => nofun

theorem bind {α : Type} {first : Exec α} {next : α → Exec Flow}
    (further : ∀ value, (next value).Stays) : (first >>= next).Stays := by
  intro machine value after ran
  obtain ⟨made, middle, _, later⟩ := Exec.bind_eq_done.mp ran
  exact further made middle value after later

theorem choose {condition : Prop} [Decidable condition] {yes no : Exec Flow} (first : yes.Stays)
    (second : no.Stays) : (if condition then yes else no).Stays := by
  by_cases chosen : condition
  · rw [if_pos chosen]
    exact first
  · rw [if_neg chosen]
    exact second

theorem andThen {first : Exec Flow} {next : Flow → Exec Flow} (stays : first.Stays)
    (further : (next .next).Stays) : (first >>= next).Stays := by
  intro machine value after ran
  obtain ⟨flow, middle, done, later⟩ := Exec.bind_eq_done.mp ran
  cases flow with
  | next => exact further middle value after later
  | returned result => exact stays machine result middle done

theorem within {body : Exec Flow} (stays : body.Stays) (frame : FrameId) :
    (LoxLang.within frame body).Stays := by
  intro machine value after ran
  unfold LoxLang.within at ran
  cases done : body { machine with current := frame } with
  | done flow last =>
    rw [done] at ran
    cases ran
    exact stays _ value last done
  | stopped stop last =>
    rw [done] at ran
    cases ran

end Exec.Stays

variable {run : Stmt → Exec Flow}

theorem stays_runAll (stays : ∀ stmt : Stmt, stmt.Stays → (run stmt).Stays) {body : List Stmt}
    (bodies : Stmt.StaysAll body) : (runAll run body).Stays := by
  induction body with
  | nil => exact .next
  | cons first rest ih => exact .andThen (stays first bodies.1) (ih bodies.2)

theorem stays_iterate (test : Exec Value) {body : Exec Flow} (stays : body.Stays) (bound : Nat) :
    (iterate test body bound).Stays := by
  induction bound with
  | zero => exact fun _ _ _ => nofun
  | succ bound ih => exact .bind fun again => .choose (.andThen stays ih) .next

theorem stays_runWith (bound : Nat) (eval : Expr → Exec Value)
    (stays : ∀ stmt : Stmt, stmt.Stays → (run stmt).Stays) {stmt : Stmt} (staying : stmt.Stays) :
    (runWith bound eval run stmt).Stays := by
  cases stmt with
  | var name initial => exact .bind fun _ => .bind fun _ => .next
  | function name parameters body => exact .bind fun _ => .bind fun _ => .bind fun _ => .next
  | expression value => exact .bind fun _ => .next
  | print value => exact .bind fun _ => .bind fun _ => .next
  | block body => exact .bind fun _ => .bind fun frame => (stays_runAll stays staying).within frame
  | ifThen test yes => exact .bind fun _ => .choose (stays yes staying) .next
  | ifElse test yes no => exact .bind fun _ => .choose (stays yes staying.1) (stays no staying.2)
  | loop test body => exact stays_iterate _ (stays body staying) bound
  | «return» line value => exact staying.elim

theorem stays_execute (bound : Nat) {stmt : Stmt} (staying : stmt.Stays) :
    Exec.Stays (execute bound stmt) := by
  induction bound generalizing stmt with
  | zero => exact fun _ _ _ => nofun
  | succ bound ih => exact stays_runWith bound (evaluate bound) (fun _ inner => ih inner) staying

end Running
end LoxLang

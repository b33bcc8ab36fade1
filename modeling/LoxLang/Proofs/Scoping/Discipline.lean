import LoxLang.Proofs.Syntax.Nodes
import LoxLang.Proofs.Scoping.Uniform

/-!
What resolving leaves alone. An expression changes no scope; faults are only added; and distances are
only recorded for the nodes of the tree that is resolved.
-/
namespace LoxLang.Scoping

structure Extends (before after : Scoping) (ids : List Nat) : Prop where
  faults : before.faults.toList <+: after.faults.toList
  distances : ∀ id, id ∉ ids → after.distances[id]? = before.distances[id]?

namespace Extends

theorem refl (state : Scoping) (ids : List Nat) : state.Extends state ids :=
  ⟨List.prefix_refl _, fun _ _ => rfl⟩

theorem trans {first middle last : Scoping} {ids : List Nat} (ahead : first.Extends middle ids)
    (further : middle.Extends last ids) : first.Extends last ids :=
  ⟨ahead.faults.trans further.faults, fun id outside =>
    (further.distances id outside).trans (ahead.distances id outside)⟩

theorem widen {before after : Scoping} {ids more : List Nat} (ahead : before.Extends after ids)
    (among : ids ⊆ more) : before.Extends after more :=
  ⟨ahead.faults, fun id outside => ahead.distances id fun member => outside (among member)⟩

theorem append {first middle last : Scoping} {ids others : List Nat}
    (ahead : first.Extends middle ids) (further : middle.Extends last others) :
    first.Extends last (ids ++ others) :=
  (ahead.widen (List.subset_append_left _ _)).trans (further.widen (List.subset_append_right _ _))

theorem size_le {before after : Scoping} {ids : List Nat} (ahead : before.Extends after ids) :
    before.faults.size ≤ after.faults.size := by
  simpa using ahead.faults.length_le

end Extends

theorem extends_report (line : Nat) (lexeme : String) (cause : StaticCause) (state : Scoping)
    (ids : List Nat) : state.Extends (state.report line lexeme cause) ids :=
  ⟨by simp [report], fun _ _ => rfl⟩

theorem extends_declare (name : Ident) (state : Scoping) (ids : List Nat) :
    state.Extends (state.declare name) ids := by
  unfold declare
  split
  · exact .refl _ _
  · split
    · exact extends_report _ _ _ _ _
    · exact ⟨List.prefix_refl _, fun _ _ => rfl⟩

theorem extends_define (name : Ident) (state : Scoping) (ids : List Nat) :
    state.Extends (state.define name) ids := by
  unfold define
  split
  · exact .refl _ _
  · exact ⟨List.prefix_refl _, fun _ _ => rfl⟩

theorem extends_refer (id : Nat) (name : String) (state : Scoping) :
    state.Extends (state.refer id name) [id] := by
  unfold refer
  split
  · exact .refl _ _
  · refine ⟨List.prefix_refl _, fun other outside => ?_⟩
    have different : id ≠ other := fun same => outside (by simp [same])
    simp [Std.TreeMap.getElem?_insert, different]

theorem extends_read (site : Site) (name : String) (state : Scoping) :
    state.Extends (state.read site name) [site.id] := by
  unfold read
  split
  · exact (extends_report _ _ _ _ _).trans (extends_refer _ _ _)
  · exact extends_refer _ _ _

@[simp] theorem define_faults (name : Ident) (state : Scoping) :
    (state.define name).faults = state.faults := by
  unfold define
  split <;> rfl

@[simp] theorem refer_faults (id : Nat) (name : String) (state : Scoping) :
    (state.refer id name).faults = state.faults := by
  unfold refer
  split <;> rfl

@[simp] theorem refer_scopes (id : Nat) (name : String) (state : Scoping) :
    (state.refer id name).scopes = state.scopes := by
  unfold refer
  split <;> rfl

@[simp] theorem read_scopes (site : Site) (name : String) (state : Scoping) :
    (state.read site name).scopes = state.scopes := by
  unfold read
  split <;> simp [report]

theorem visiting_scopes : Visiting fun step => ∀ state, (step state).scopes = state.scopes where
  nothing _ := rfl
  followed first next state := (next _).trans (first state)
  refer := refer_scopes
  read := read_scopes

theorem expression_scopes (expr : Expr) (state : Scoping) :
    (expression expr state).scopes = state.scopes :=
  visiting_scopes.expression expr state

theorem optional_scopes (value : Option Expr) (state : Scoping) :
    (optional value state).scopes = state.scopes :=
  visiting_scopes.optional value state

mutual

theorem extends_expression : ∀ (expr : Expr) (state : Scoping),
    state.Extends (expression expr state) expr.ids
  | .literal _ _, state => .refl state _
  | .variable site name, state => extends_read site name state
  | .assign site target value, state =>
    ((extends_expression value state).widen (List.subset_cons_self _ _)).trans
      ((extends_refer site.id target _).widen (by simp))
  | .group site inner, state =>
    (extends_expression inner state).widen (List.subset_cons_self _ _)
  | .unary site _ operand, state =>
    (extends_expression operand state).widen (List.subset_cons_self _ _)
  | .binary site _ left right, state =>
    ((extends_expression left state).append (extends_expression right _)).widen
      (List.subset_cons_self _ _)
  | .logical site _ left right, state =>
    ((extends_expression left state).append (extends_expression right _)).widen
      (List.subset_cons_self _ _)
  | .call site callee arguments, state =>
    ((extends_expression callee state).append (extends_expressions arguments _)).widen
      (List.subset_cons_self _ _)

theorem extends_expressions : ∀ (values : List Expr) (state : Scoping),
    state.Extends (expressions values state) (Expr.idsAll values)
  | [], state => .refl state _
  | first :: rest, state => (extends_expression first state).append (extends_expressions rest _)

end

theorem extends_optional (value : Option Expr) (state : Scoping) :
    state.Extends (optional value state) (Expr.idsOptional value) := by
  cases value with
  | none => exact .refl state _
  | some value => exact extends_expression value state

theorem extends_parameters (names : List Ident) (state : Scoping) (ids : List Nat) :
    state.Extends (parameters names state) ids := by
  induction names generalizing state with
  | nil => exact .refl state _
  | cons name rest ih =>
    exact ((extends_declare name state ids).trans (extends_define name _ ids)).trans (ih _)

theorem extends_enterFunction (names : List Ident) (state : Scoping) (ids : List Nat) :
    state.Extends (state.enterFunction names) ids :=
  have opened : state.Extends { state with inFunction := true }.openScope ids :=
    ⟨List.prefix_refl _, fun _ _ => rfl⟩
  opened.trans (extends_parameters names _ ids)

theorem extends_checkReturn (line : Nat) (state : Scoping) (ids : List Nat) :
    state.Extends (state.checkReturn line) ids := by
  unfold checkReturn
  split
  · exact .refl state _
  · exact extends_report _ _ _ _ _

mutual

theorem extends_statement : ∀ (stmt : Stmt) (state : Scoping),
    state.Extends (statement stmt state) stmt.ids
  | .var name initial, state =>
    (extends_declare name state _).trans
      ((extends_optional initial _).trans (extends_define name _ _))
  | .function name names body, state =>
    have declared := (extends_declare name state (Stmt.idsAll body)).trans
      (extends_define name _ _)
    have entered := declared.trans (extends_enterFunction names _ _)
    have resolved := entered.trans (extends_statements body _)
    ⟨resolved.faults, resolved.distances⟩
  | .expression value, state => extends_expression value state
  | .print value, state => extends_expression value state
  | .block body, state =>
    have resolved := extends_statements body state.openScope
    ⟨resolved.faults, resolved.distances⟩
  | .ifThen test yes, state => (extends_expression test state).append (extends_statement yes _)
  | .ifElse test yes no, state =>
    (extends_expression test state).append
      ((extends_statement yes _).append (extends_statement no _))
  | .loop test body, state => (extends_expression test state).append (extends_statement body _)
  | .return line value, state =>
    (extends_checkReturn line state _).trans (extends_optional value _)

theorem extends_statements : ∀ (body : List Stmt) (state : Scoping),
    state.Extends (statements body state) (Stmt.idsAll body)
  | [], state => .refl state _
  | first :: rest, state => (extends_statement first state).append (extends_statements rest _)

end

end LoxLang.Scoping

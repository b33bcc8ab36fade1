import LoxLang.Proofs.Scoping.Discipline
import LoxLang.Proofs.Syntax.Parts

/-!
Where resolving reports: at a word that declares a name or returns, or at a variable that is read.
-/
namespace LoxLang

/-- The fault names this word, on its line. -/
structure StaticFault.AtWord (fault : StaticFault) (word : Ident) : Prop where
  line : fault.line = word.line
  place : fault.place = .lexeme word.name

/-- What a part of a program can be reported for: its words, and the variables among its nodes. -/
inductive Pointed (nodes : List Expr) (words : List Ident) : Ident → Prop
  | word {word : Ident} : word ∈ words → Pointed nodes words word
  | read {site : Site} {name : String} : .variable site name ∈ nodes →
    Pointed nodes words ⟨name, site.line⟩

namespace Scoping

variable {nodes : List Expr} {words : List Ident} {state before middle after : Scoping}

/-- New faults stand at these nodes or words. -/
def Blames (nodes : List Expr) (words : List Ident) (before after : Scoping) : Prop :=
  ∀ fault ∈ after.faults.toList, fault ∈ before.faults.toList ∨
    ∃ word, Pointed nodes words word ∧ fault.AtWord word

namespace Blames

theorem of_faults (same : after.faults = before.faults) : Blames nodes words before after :=
  fun _ member => .inl (same ▸ member)

theorem refl (state : Scoping) : Blames nodes words state state := of_faults rfl

theorem trans (ahead : Blames nodes words before middle) (further : Blames nodes words middle after) :
    Blames nodes words before after := by
  intro fault member
  rcases further fault member with old | new
  · exact ahead fault old
  · exact .inr new

theorem report {word : Ident} (pointed : Pointed nodes words word) (cause : StaticCause)
    (state : Scoping) : Blames nodes words state (state.report word.line word.name cause) := by
  intro fault member
  rcases List.mem_append.mp (Array.toList_push ▸ member) with old | new
  · exact .inl old
  · rw [List.mem_singleton.mp new]
    exact .inr ⟨word, pointed, rfl, rfl⟩

end Blames

theorem blames_declare {name : Ident} (among : name ∈ words) (state : Scoping) :
    Blames nodes words state (state.declare name) := by
  unfold declare
  split
  · exact .refl state
  · split
    · exact .report (.word among) _ state
    · exact .of_faults rfl

theorem blames_define {name : Ident} (state : Scoping) :
    Blames nodes words state (state.define name) := .of_faults (define_faults name state)

theorem blames_refer (id : Nat) (name : String) (state : Scoping) :
    Blames nodes words state (state.refer id name) := .of_faults (refer_faults id name state)

theorem blames_read {site : Site} {name : String} (among : .variable site name ∈ nodes)
    (state : Scoping) : Blames nodes words state (state.read site name) := by
  unfold read
  split
  · exact (Blames.report (.read among) _ state).trans (blames_refer _ _ _)
  · exact blames_refer _ _ _

mutual

theorem blames_expression : ∀ (expr : Expr) (state : Scoping), expr.nodes ⊆ nodes →
    Blames nodes words state (expression expr state)
  | .literal _ _, state, _ => .refl state
  | .variable _ _, state, among => blames_read (List.cons_subset.mp among).1 state
  | .assign site target value, state, among =>
    (blames_expression value state (List.cons_subset.mp among).2).trans (blames_refer site.id target _)
  | .group _ inner, state, among => blames_expression inner state (List.cons_subset.mp among).2
  | .unary _ _ operand, state, among => blames_expression operand state (List.cons_subset.mp among).2
  | .binary _ _ left right, state, among =>
    have inside := List.append_subset.mp (List.cons_subset.mp among).2
    (blames_expression left state inside.1).trans (blames_expression right _ inside.2)
  | .logical _ _ left right, state, among =>
    have inside := List.append_subset.mp (List.cons_subset.mp among).2
    (blames_expression left state inside.1).trans (blames_expression right _ inside.2)
  | .call _ callee arguments, state, among =>
    have inside := List.append_subset.mp (List.cons_subset.mp among).2
    (blames_expression callee state inside.1).trans (blames_expressions arguments _ inside.2)

theorem blames_expressions : ∀ (values : List Expr) (state : Scoping), Expr.nodesAll values ⊆ nodes →
    Blames nodes words state (expressions values state)
  | [], state, _ => .refl state
  | first :: rest, state, among =>
    have inside := List.append_subset.mp among
    (blames_expression first state inside.1).trans (blames_expressions rest _ inside.2)

end

theorem blames_optional (value : Option Expr) (state : Scoping)
    (among : Expr.nodesOptional value ⊆ nodes) : Blames nodes words state (optional value state) := by
  cases value with
  | none => exact .refl state
  | some value => exact blames_expression value state among

theorem blames_parameters (names : List Ident) (state : Scoping) (among : names ⊆ words) :
    Blames nodes words state (parameters names state) := by
  induction names generalizing state with
  | nil => exact .refl state
  | cons name rest ih =>
    have inside := List.cons_subset.mp among
    exact ((blames_declare inside.1 state).trans (blames_define _)).trans (ih _ inside.2)

theorem blames_enterFunction (names : List Ident) (state : Scoping) (among : names ⊆ words) :
    Blames nodes words state (state.enterFunction names) :=
  have opened : Blames nodes words state { state with inFunction := true }.openScope := .of_faults rfl
  opened.trans (blames_parameters names _ among)

theorem blames_checkReturn {line : Nat} (state : Scoping) (among : ⟨"return", line⟩ ∈ words) :
    Blames nodes words state (state.checkReturn line) := by
  have pointed : Pointed nodes words ⟨"return", line⟩ := .word among
  unfold checkReturn
  split
  · exact .refl state
  · exact .report pointed _ state

mutual

theorem blames_statement : ∀ (stmt : Stmt) (state : Scoping), stmt.nodes ⊆ nodes →
    stmt.words ⊆ words → Blames nodes words state (statement stmt state)
  | .var _ initial, state, among, said =>
    (blames_declare (List.cons_subset.mp said).1 state).trans
      ((blames_optional initial _ among).trans (blames_define _))
  | .function _ names body, state, among, said =>
    have named := List.cons_subset.mp said
    have inside := List.append_subset.mp named.2
    have declared := (blames_declare named.1 state).trans (blames_define _)
    have entered := declared.trans (blames_enterFunction names _ inside.1)
    have resolved := entered.trans (blames_statements body _ among inside.2)
    resolved.trans (.of_faults rfl)
  | .expression value, state, among, _ => blames_expression value state among
  | .print value, state, among, _ => blames_expression value state among
  | .block body, state, among, said =>
    have opened : Blames nodes words state state.openScope := .of_faults rfl
    (opened.trans (blames_statements body _ among said)).trans (.of_faults rfl)
  | .ifThen test yes, state, among, said =>
    have inside := List.append_subset.mp among
    (blames_expression test state inside.1).trans (blames_statement yes _ inside.2 said)
  | .ifElse test yes no, state, among, said =>
    have inside := List.append_subset.mp among
    have branches := List.append_subset.mp inside.2
    have spoken := List.append_subset.mp said
    ((blames_expression test state inside.1).trans (blames_statement yes _ branches.1 spoken.1)).trans
      (blames_statement no _ branches.2 spoken.2)
  | .loop test body, state, among, said =>
    have inside := List.append_subset.mp among
    (blames_expression test state inside.1).trans (blames_statement body _ inside.2 said)
  | .return _ value, state, among, said =>
    (blames_checkReturn state (List.cons_subset.mp said).1).trans (blames_optional value _ among)

theorem blames_statements : ∀ (body : List Stmt) (state : Scoping), Stmt.nodesAll body ⊆ nodes →
    Stmt.wordsAll body ⊆ words → Blames nodes words state (statements body state)
  | [], state, _, _ => .refl state
  | first :: rest, state, among, said =>
    have inside := List.append_subset.mp among
    have spoken := List.append_subset.mp said
    (blames_statement first state inside.1 spoken.1).trans
      (blames_statements rest _ inside.2 spoken.2)

end
end Scoping

/-- Every fault of the scopes stands at a word of the program, or at a variable that is read in it. -/
theorem resolve_faults {program : Program} :
    ∀ fault ∈ (Scoping.statements program .start).faults.toList,
      ∃ word, Pointed (Stmt.nodesAll program) (Stmt.wordsAll program) word ∧ fault.AtWord word := by
  intro fault member
  rcases Scoping.blames_statements program .start (List.Subset.refl _) (List.Subset.refl _)
    fault member with never | found
  · cases never
  · exact found

end LoxLang

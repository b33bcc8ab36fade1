import LoxLang.Proofs.Scoping.Acceptance
import LoxLang.Proofs.Evaluation.Frames
import LoxLang.Syntax.Outline

/-!
Where the references of a tree stand. Only references get distances; and a scope more or less around a
statement changes the distances of just those references in it that are bound beyond that scope.
-/
namespace LoxLang

def Reference.Among (references : List Reference) (id : Nat) : Prop :=
  ∃ reference ∈ references, reference.site.id = id

section Among

variable {first : Reference} {references others : List Reference} {id : Nat}

theorem Reference.among_cons :
    Among (first :: references) id ↔ first.site.id = id ∨ Among references id := by
  simp [Among]

theorem Reference.among_append :
    Among (references ++ others) id ↔ Among references id ∨ Among others id := by
  simp [Among, or_and_right, exists_or]

end Among

def Expr.Refers (expr : Expr) (id : Nat) : Prop := Reference.Among expr.references id

/-- The reference stands in the statement, with this number of the statement's own scopes around it. -/
inductive Stmt.Refers : Stmt → Nat → Nat → Prop
  | var {name : Ident} {value : Expr} {id : Nat} : value.Refers id →
    Refers (.var name (some value)) id 0
  | function {name : Ident} {parameters : List Ident} {body : List Stmt} {stmt : Stmt}
    {id depth : Nat} : stmt ∈ body → Refers stmt id depth →
    Refers (.function name parameters body) id (depth + 1)
  | expression {value : Expr} {id : Nat} : value.Refers id → Refers (.expression value) id 0
  | print {value : Expr} {id : Nat} : value.Refers id → Refers (.print value) id 0
  | block {body : List Stmt} {stmt : Stmt} {id depth : Nat} : stmt ∈ body → Refers stmt id depth →
    Refers (.block body) id (depth + 1)
  | test {test : Expr} {yes : Stmt} {id : Nat} : test.Refers id → Refers (.ifThen test yes) id 0
  | yes {test : Expr} {yes : Stmt} {id depth : Nat} : Refers yes id depth →
    Refers (.ifThen test yes) id depth
  | choice {test : Expr} {yes no : Stmt} {id : Nat} : test.Refers id →
    Refers (.ifElse test yes no) id 0
  | first {test : Expr} {yes no : Stmt} {id depth : Nat} : Refers yes id depth →
    Refers (.ifElse test yes no) id depth
  | second {test : Expr} {yes no : Stmt} {id depth : Nat} : Refers no id depth →
    Refers (.ifElse test yes no) id depth
  | condition {test : Expr} {body : Stmt} {id : Nat} : test.Refers id →
    Refers (.loop test body) id 0
  | loop {test : Expr} {body : Stmt} {id depth : Nat} : Refers body id depth →
    Refers (.loop test body) id depth
  | return {line : Nat} {value : Expr} {id : Nat} : value.Refers id →
    Refers (.return line (some value)) id 0

def Stmt.RefersIn (body : List Stmt) (id depth : Nat) : Prop := ∃ stmt ∈ body, Stmt.Refers stmt id depth

namespace Scoping

/-- Nothing is recorded for the node. -/
def Leaves (id : Nat) (before after : Scoping) : Prop :=
  after.distances[id]? = before.distances[id]?

theorem leaves_refer {id other : Nat} (apart : id ≠ other) (name : String) (state : Scoping) :
    Leaves id state (state.refer other name) :=
  (extends_refer other name state).distances id (by simpa using apart)

theorem leaves_read {id : Nat} {site : Site} (apart : id ≠ site.id) (name : String)
    (state : Scoping) : Leaves id state (state.read site name) :=
  (extends_read site name state).distances id (by simpa using apart)

mutual

theorem leaves_expression {id : Nat} : ∀ (expr : Expr) (state : Scoping), ¬expr.Refers id →
    Leaves id state (expression expr state)
  | .literal _ _, _, _ => rfl
  | .variable _ name, state, outside =>
    leaves_read (fun same => outside (Reference.among_cons.mpr (.inl same.symm))) name state
  | .assign site target value, state, outside =>
    have inside := leaves_expression value state fun refers =>
      outside (Reference.among_cons.mpr (.inr refers))
    have apart : id ≠ site.id := fun same => outside (Reference.among_cons.mpr (.inl same.symm))
    (leaves_refer apart target _).trans inside
  | .group _ inner, state, outside => leaves_expression inner state outside
  | .unary _ _ operand, state, outside => leaves_expression operand state outside
  | .binary _ _ left right, state, outside | .logical _ _ left right, state, outside =>
    have first := leaves_expression left state fun refers =>
      outside (Reference.among_append.mpr (.inl refers))
    (leaves_expression right _ fun refers =>
      outside (Reference.among_append.mpr (.inr refers))).trans first
  | .call _ callee arguments, state, outside =>
    have first := leaves_expression callee state fun refers =>
      outside (Reference.among_append.mpr (.inl refers))
    (leaves_expressions arguments _ fun refers =>
      outside (Reference.among_append.mpr (.inr refers))).trans first

theorem leaves_expressions {id : Nat} : ∀ (values : List Expr) (state : Scoping),
    ¬Reference.Among (Expr.referencesAll values) id → Leaves id state (expressions values state)
  | [], _, _ => rfl
  | value :: rest, state, outside =>
    have first := leaves_expression value state fun refers =>
      outside (Reference.among_append.mpr (.inl refers))
    (leaves_expressions rest _ fun refers =>
      outside (Reference.among_append.mpr (.inr refers))).trans first

end

theorem leaves_optional {id : Nat} {value : Option Expr} (state : Scoping)
    (outside : ∀ expr ∈ value, ¬expr.Refers id) : Leaves id state (optional value state) := by
  cases value with
  | none => rfl
  | some value => exact leaves_expression value state (outside value rfl)

mutual

theorem leaves_statement {id : Nat} : ∀ (stmt : Stmt) (state : Scoping),
    (∀ depth, ¬stmt.Refers id depth) → Leaves id state (statement stmt state)
  | .var name initial, state, outside => by
    have declared := (extends_declare name state []).distances id List.not_mem_nil
    have made : Leaves id (state.declare name) (optional initial (state.declare name)) :=
      leaves_optional _ fun value member inside => outside 0 (member ▸ .var inside)
    have defined := (extends_define name (optional initial (state.declare name)) []).distances id
      List.not_mem_nil
    exact defined.trans (made.trans declared)
  | .function name names body, state, outside => by
    have declared := (extends_declare name state []).distances id List.not_mem_nil
    have defined := (extends_define name (state.declare name) []).distances id List.not_mem_nil
    have entered := (extends_enterFunction names ((state.declare name).define name) []).distances id
      List.not_mem_nil
    have inside := leaves_statements body (((state.declare name).define name).enterFunction names)
      fun depth ⟨_, member, refers⟩ => outside (depth + 1) (.function member refers)
    exact inside.trans (entered.trans (defined.trans declared))
  | .expression value, state, outside =>
    leaves_expression value state fun inside => outside 0 (.expression inside)
  | .print value, state, outside =>
    leaves_expression value state fun inside => outside 0 (.print inside)
  | .block body, state, outside =>
    leaves_statements body state.openScope fun depth ⟨_, member, refers⟩ =>
      outside (depth + 1) (.block member refers)
  | .ifThen test yes, state, outside =>
    (leaves_statement yes _ fun depth refers => outside depth (.yes refers)).trans
      (leaves_expression test state fun inside => outside 0 (.test inside))
  | .ifElse test yes no, state, outside =>
    (leaves_statement no _ fun depth refers => outside depth (.second refers)).trans
      ((leaves_statement yes _ fun depth refers => outside depth (.first refers)).trans
        (leaves_expression test state fun inside => outside 0 (.choice inside)))
  | .loop test body, state, outside =>
    (leaves_statement body _ fun depth refers => outside depth (.loop refers)).trans
      (leaves_expression test state fun inside => outside 0 (.condition inside))
  | .return line value, state, outside => by
    have checked := (extends_checkReturn line state []).distances id List.not_mem_nil
    have made : Leaves id (state.checkReturn line) (optional value (state.checkReturn line)) :=
      leaves_optional _ fun expr member inside => outside 0 (member ▸ .return inside)
    exact made.trans checked

theorem leaves_statements {id : Nat} : ∀ (body : List Stmt) (state : Scoping),
    (∀ depth, ¬Stmt.RefersIn body id depth) → Leaves id state (statements body state)
  | [], _, _ => rfl
  | first :: rest, state, outside =>
    (leaves_statements rest _ fun depth ⟨stmt, member, refers⟩ =>
      outside depth ⟨stmt, List.mem_cons_of_mem _ member, refers⟩).trans
      (leaves_statement first state fun depth refers =>
        outside depth ⟨first, List.mem_cons_self, refers⟩)

end

end Scoping

theorem resolve_unreferenced {program : Program} {distances : Distances}
    (accepted : resolve program = .ok distances) {id : Nat}
    (outside : ∀ depth, ¬Stmt.RefersIn program id depth) : distances[id]? = none := by
  obtain ⟨_, rfl⟩ := resolve_eq_ok accepted
  exact (Scoping.leaves_statements program .start outside).trans Std.TreeMap.getElem?_emptyc

/-- What becomes of a distance if `move` is what becomes of it outside the next `depth` scopes. -/
def beyond (depth : Nat) (move : Nat → Nat) (distance : Nat) : Nat :=
  if distance < depth then distance else move (distance - depth) + depth

theorem beyond_same (depth : Nat) : beyond depth (fun distance => distance) = fun distance => distance := by
  funext distance
  simp only [beyond]
  split <;> omega

theorem beyond_succ (depth : Nat) (move : Nat → Nat) (distance : Nat) :
    beyond (depth + 1) move (distance + 1) = beyond depth move distance + 1 := by
  simp only [beyond]
  split <;> split <;> first | rfl | omega | skip
  rw [Nat.add_sub_add_right]
  omega

namespace Nesting

variable {outer other : Nesting} {move : Nat → Nat}

theorem distance?_append
    (moved : ∀ name, other.distance? name = (outer.distance? name).map move) (inner : Nesting)
    (name : String) :
    distance? (inner ++ other) name =
      (distance? (inner ++ outer) name).map (beyond inner.length move) := by
  induction inner with
  | nil =>
    have same : beyond 0 move = move := by
      funext distance
      simp [beyond]
    rw [List.nil_append, List.nil_append, List.length_nil, same, moved]
  | cons names rest ih =>
    rw [List.cons_append, List.cons_append, distance?_cons, distance?_cons, ih]
    split
    · simp [beyond]
    · rw [Option.map_map, Option.map_map]
      congr 1
      funext distance
      exact (beyond_succ rest.length move distance).symm

theorem declare_append (inner outer : Nesting) (name : String) (open_ : inner = [] → outer = []) :
    (inner ++ outer).declare name = inner.declare name ++ outer := by
  cases inner with
  | nil =>
    rw [open_ rfl]
    rfl
  | cons names rest => rfl

theorem declare_length (nesting : Nesting) (name : String) :
    (nesting.declare name).length = nesting.length := by
  cases nesting <;> rfl

end Nesting

section Moving

variable {table otherTable : Distances} {nesting otherNesting : Nesting}
  {pending otherPending : Option String} {change : Nat → Nat}

mutual

theorem Expr.references_moved
    (moved : ∀ name, otherNesting.distance? name = (nesting.distance? name).map change) :
    ∀ (expr : Expr), expr.Resolved table nesting pending →
      expr.Resolved otherTable otherNesting otherPending → ∀ id, expr.Refers id →
        otherTable[id]? = table[id]?.map change
  | .literal _ _, _, _ => by
    intro id refers
    obtain ⟨_, member, _⟩ := refers
    cases member
  | .variable _ name, resolved, other => by
    intro id refers
    obtain ⟨_, member, rfl⟩ := refers
    obtain rfl := List.mem_singleton.mp member
    exact other.2.trans (by rw [resolved.2, moved])
  | .assign _ target value, resolved, other => by
    intro id refers
    rcases Reference.among_cons.mp refers with rfl | inside
    · exact other.2.trans (by rw [resolved.2, moved])
    · exact Expr.references_moved moved value resolved.1 other.1 id inside
  | .group _ inner, resolved, other => Expr.references_moved moved inner resolved other
  | .unary _ _ operand, resolved, other => Expr.references_moved moved operand resolved other
  | .binary _ _ left right, resolved, other | .logical _ _ left right, resolved, other => by
    intro id refers
    rcases Reference.among_append.mp refers with first | second
    · exact Expr.references_moved moved left resolved.1 other.1 id first
    · exact Expr.references_moved moved right resolved.2 other.2 id second
  | .call _ callee arguments, resolved, other => by
    intro id refers
    rcases Reference.among_append.mp refers with first | second
    · exact Expr.references_moved moved callee resolved.1 other.1 id first
    · exact Expr.referencesAll_moved moved arguments resolved.2 other.2 id second

theorem Expr.referencesAll_moved
    (moved : ∀ name, otherNesting.distance? name = (nesting.distance? name).map change) :
    ∀ (values : List Expr), Expr.ResolvedAll table nesting pending values →
      Expr.ResolvedAll otherTable otherNesting otherPending values →
      ∀ id, Reference.Among (Expr.referencesAll values) id → otherTable[id]? = table[id]?.map change
  | [], _, _ => by
    intro id refers
    obtain ⟨_, member, _⟩ := refers
    cases member
  | value :: rest, resolved, other => by
    intro id refers
    rcases Reference.among_append.mp refers with first | second
    · exact Expr.references_moved moved value resolved.1 other.1 id first
    · exact Expr.referencesAll_moved moved rest resolved.2 other.2 id second

end

variable {outer other inner : Nesting} {move : Nat → Nat} {stmt : Stmt} {id depth : Nat}

theorem Nesting.after_length (nesting : Nesting) (stmt : Stmt) :
    (nesting.after stmt).length = nesting.length := by
  cases stmt <;> first | rfl | exact Nesting.declare_length nesting _

theorem Nesting.afterAll_length (nesting : Nesting) (body : List Stmt) :
    (nesting.afterAll body).length = nesting.length := by
  induction body generalizing nesting with
  | nil => rfl
  | cons first rest ih => exact (ih (nesting.after first)).trans (Nesting.after_length nesting first)

theorem Nesting.afterAll_append (names : List String) (inner outer : Nesting) (body : List Stmt) :
    Nesting.afterAll (names :: (inner ++ outer)) body =
      Nesting.afterAll (names :: inner) body ++ outer := by
  induction body generalizing names with
  | nil => rfl
  | cons first rest ih =>
    cases first with
    | var name initial => exact ih (name.name :: names)
    | function name parameters body => exact ih (name.name :: names)
    | _ => exact ih names

theorem Stmt.resolved_member {names : List String} {body : List Stmt} (member : stmt ∈ body)
    (resolved : Stmt.ResolvedAll table (names :: (inner ++ outer)) body)
    (otherResolved : Stmt.ResolvedAll otherTable (names :: (inner ++ other)) body) :
    ∃ further : Nesting, further.length = inner.length + 1 ∧
      stmt.Resolved table (further ++ outer) ∧ stmt.Resolved otherTable (further ++ other) := by
  obtain ⟨front, back, rfl⟩ := List.append_of_mem member
  have first := ((Stmt.resolvedAll_append front (stmt :: back)).mp resolved).2.1
  have second := ((Stmt.resolvedAll_append front (stmt :: back)).mp otherResolved).2.1
  rw [Nesting.afterAll_append] at first second
  exact ⟨_, Nesting.afterAll_length _ _, first, second⟩

theorem Stmt.Refers.moved
    (moved : ∀ name, other.distance? name = (outer.distance? name).map move)
    (refers : stmt.Refers id depth)
    (closed : stmt.isDeclaration = true → inner = [] → outer = [] ∧ other = [])
    (resolved : stmt.Resolved table (inner ++ outer))
    (otherResolved : stmt.Resolved otherTable (inner ++ other)) :
    otherTable[id]? = table[id]?.map (beyond (inner.length + depth) move) := by
  -- on the way to the reference the own scopes of the statement pile up in front of the outer ones
  have distances (inner : Nesting) := Nesting.distance?_append moved inner
  induction refers generalizing inner with
  | @var name value id member =>
    have here := Nesting.declare_append inner outer name.name fun none => (closed rfl none).1
    have there := Nesting.declare_append inner other name.name fun none => (closed rfl none).2
    have first := resolved.2 value rfl
    have second := otherResolved.2 value rfl
    rw [here] at first
    rw [there] at second
    have found := Expr.references_moved (distances _) value first second id member
    rwa [Nesting.declare_length] at found
  | @function name parameters body stmt id depth member _ ih =>
    have first := resolved.2.2
    have second := otherResolved.2.2
    rw [Nesting.declare_append inner outer name.name fun none => (closed rfl none).1] at first
    rw [Nesting.declare_append inner other name.name fun none => (closed rfl none).2] at second
    obtain ⟨further, longer, here, there⟩ := Stmt.resolved_member member first second
    have found := ih (fun _ none => by simp [none] at longer) here there
    rwa [longer, Nesting.declare_length, Nat.add_right_comm, Nat.add_assoc] at found
  | @block body stmt id depth member _ ih =>
    obtain ⟨further, longer, here, there⟩ := Stmt.resolved_member member resolved otherResolved
    have found := ih (fun _ none => by simp [none] at longer) here there
    rwa [longer, Nat.add_right_comm, Nat.add_assoc] at found
  | expression member =>
    exact Expr.references_moved (distances inner) _ resolved otherResolved _ member
  | print member =>
    exact Expr.references_moved (distances inner) _ resolved otherResolved _ member
  | test member =>
    exact Expr.references_moved (distances inner) _ resolved.1 otherResolved.1 _ member
  | choice member =>
    exact Expr.references_moved (distances inner) _ resolved.1 otherResolved.1 _ member
  | condition member =>
    exact Expr.references_moved (distances inner) _ resolved.1 otherResolved.1 _ member
  | «return» member =>
    exact Expr.references_moved (distances inner) _ (resolved _ rfl) (otherResolved _ rfl) _ member
  | yes _ ih =>
    exact ih (absurd · (Bool.eq_false_iff.mp resolved.2.1)) resolved.2.2 otherResolved.2.2
  | first _ ih =>
    exact ih (absurd · (Bool.eq_false_iff.mp resolved.2.1.1)) resolved.2.1.2 otherResolved.2.1.2
  | second _ ih =>
    exact ih (absurd · (Bool.eq_false_iff.mp resolved.2.2.1)) resolved.2.2.2 otherResolved.2.2.2
  | loop _ ih =>
    exact ih (absurd · (Bool.eq_false_iff.mp resolved.2.1)) resolved.2.2 otherResolved.2.2

theorem Stmt.Refers.same (refers : stmt.Refers id depth) (resolved : stmt.Resolved table nesting)
    (otherResolved : stmt.Resolved otherTable nesting) : otherTable[id]? = table[id]? := by
  have nothing : ∀ name, Nesting.distance? [] name =
      (Nesting.distance? [] name).map fun distance => distance := fun _ => rfl
  rw [← List.append_nil nesting] at resolved otherResolved
  have found := refers.moved nothing (fun _ _ => ⟨rfl, rfl⟩) resolved otherResolved
  rwa [beyond_same, Option.map_id'] at found

theorem Stmt.RefersIn.same {body : List Stmt} (refers : RefersIn body id depth)
    (resolved : Stmt.ResolvedAll table nesting body)
    (otherResolved : Stmt.ResolvedAll otherTable nesting body) : otherTable[id]? = table[id]? := by
  obtain ⟨stmt, member, refers⟩ := refers
  obtain ⟨front, back, rfl⟩ := List.append_of_mem member
  exact refers.same ((Stmt.resolvedAll_append front (stmt :: back)).mp resolved).2.1
    ((Stmt.resolvedAll_append front (stmt :: back)).mp otherResolved).2.1

end Moving
end LoxLang

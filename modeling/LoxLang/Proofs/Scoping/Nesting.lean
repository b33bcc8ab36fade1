import LoxLang.Proofs.Scoping.Discipline

/-!
Lexical scoping as a judgement. A nesting lists the names that each scope around a place has so far,
innermost scope first; a tree is `Resolved` in a nesting if a table of distances leads every
reference in it to the innermost scope that has the name. What resolving accepts is resolved in this
sense, with the table that it computes.
-/
namespace LoxLang

abbrev Nesting : Type := List (List String)

namespace Nesting

def distance? (nesting : Nesting) (name : String) : Option Nat :=
  nesting.findIdx? (·.contains name)

def declare (nesting : Nesting) (name : String) : Nesting :=
  match nesting with
  | [] => []
  | names :: outer => (name :: names) :: outer

/-- Global names are never new and need not be. -/
def Admits (nesting : Nesting) (name : String) : Prop :=
  ∀ names ∈ nesting.head?, name ∉ names

/-- The local variable whose initializer is being looked at. -/
def pending (nesting : Nesting) (name : String) : Option String :=
  match nesting with
  | [] => none
  | _ :: _ => some name

/-- The same if the declaration may be a second one of its name, which changes nothing. -/
def unready (nesting : Nesting) (name : String) : Option String :=
  match nesting with
  | [] => none
  | names :: _ => if name ∈ names then none else some name

theorem unready_of_admits {nesting : Nesting} {name : String} (admits : nesting.Admits name) :
    nesting.unready name = nesting.pending name := by
  cases nesting with
  | nil => rfl
  | cons names outer => exact if_neg (admits names rfl)

theorem unready_own (nesting : Nesting) {name : String} : ∀ other ∈ nesting.unready name, other = name := by
  intro other waits
  cases nesting with
  | nil => cases waits
  | cons names outer =>
    simp only [unready, Option.mem_def] at waits
    split at waits
    · cases waits
    · exact (Option.some.inj waits).symm

instance (nesting : Nesting) (name : String) : Decidable (nesting.Admits name) :=
  inferInstanceAs (Decidable (∀ names ∈ nesting.head?, name ∉ names))

/-- What a declaration in front of it adds for the statements after it. -/
def after (nesting : Nesting) : Stmt → Nesting
  | .var name _ => nesting.declare name.name
  | .function name _ _ => nesting.declare name.name
  | _ => nesting

def afterAll (nesting : Nesting) (body : List Stmt) : Nesting := body.foldl after nesting

theorem after_cons (names : List String) (outer : Nesting) (statement : Stmt) :
    ∃ more, Nesting.after (names :: outer) statement = more :: outer := by
  cases statement <;> exact ⟨_, rfl⟩

theorem afterAll_cons (names : List String) (outer : Nesting) (body : List Stmt) :
    ∃ more, Nesting.afterAll (names :: outer) body = more :: outer := by
  induction body generalizing names with
  | nil => exact ⟨names, rfl⟩
  | cons statement rest ih =>
    obtain ⟨more, grown⟩ := after_cons names outer statement
    obtain ⟨most, rested⟩ := ih more
    exact ⟨most, by rw [← rested, ← grown]; rfl⟩

theorem after_outermost (statement : Stmt) : Nesting.after [] statement = [] := by
  cases statement <;> rfl

theorem afterAll_outermost (body : List Stmt) : Nesting.afterAll [] body = [] := by
  induction body with
  | nil => rfl
  | cons statement rest ih =>
    rw [afterAll, List.foldl_cons, after_outermost]
    exact ih

theorem after_of_not_declaration (nesting : Nesting) {statement : Stmt}
    (plain : statement.isDeclaration = false) : nesting.after statement = nesting := by
  cases statement <;> simp_all [after, Stmt.isDeclaration]

end Nesting

namespace Expr

mutual

def Resolved (table : Distances) (nesting : Nesting) (pending : Option String) : Expr → Prop
  | .literal _ _ => True
  | .variable site name => pending ≠ some name ∧ table[site.id]? = nesting.distance? name
  | .assign site target value =>
    value.Resolved table nesting pending ∧ table[site.id]? = nesting.distance? target
  | .group _ inner => inner.Resolved table nesting pending
  | .unary _ _ operand => operand.Resolved table nesting pending
  | .binary _ _ left right =>
    left.Resolved table nesting pending ∧ right.Resolved table nesting pending
  | .logical _ _ left right =>
    left.Resolved table nesting pending ∧ right.Resolved table nesting pending
  | .call _ callee arguments =>
    callee.Resolved table nesting pending ∧ ResolvedAll table nesting pending arguments

def ResolvedAll (table : Distances) (nesting : Nesting) (pending : Option String) :
    List Expr → Prop
  | [] => True
  | first :: rest => first.Resolved table nesting pending ∧ ResolvedAll table nesting pending rest

end

def ResolvedOptional (table : Distances) (nesting : Nesting) (pending : Option String)
    (value : Option Expr) : Prop :=
  ∀ expr ∈ value, expr.Resolved table nesting pending

end Expr

namespace Stmt

mutual

/-- Parameters and body of a function share one scope, which lies inside the scope that has the
function's own name. A declaration that stands alone as a branch would have no scope. -/
def Resolved (table : Distances) (nesting : Nesting) : Stmt → Prop
  | .var name initial =>
    nesting.Admits name.name ∧
      Expr.ResolvedOptional table (nesting.declare name.name) (nesting.pending name.name) initial
  | .function name parameters body =>
    nesting.Admits name.name ∧ (parameters.map Ident.name).Nodup ∧
      ResolvedAll table ((parameters.map Ident.name).reverse :: nesting.declare name.name) body
  | .expression value => value.Resolved table nesting none
  | .print value => value.Resolved table nesting none
  | .block body => ResolvedAll table ([] :: nesting) body
  | .ifThen test yes =>
    test.Resolved table nesting none ∧ yes.isDeclaration = false ∧ yes.Resolved table nesting
  | .ifElse test yes no =>
    test.Resolved table nesting none ∧ (yes.isDeclaration = false ∧ yes.Resolved table nesting) ∧
      no.isDeclaration = false ∧ no.Resolved table nesting
  | .loop test body =>
    test.Resolved table nesting none ∧ body.isDeclaration = false ∧ body.Resolved table nesting
  | .return _ value => Expr.ResolvedOptional table nesting none value

def ResolvedAll (table : Distances) (nesting : Nesting) : List Stmt → Prop
  | [] => True
  | first :: rest =>
    first.Resolved table nesting ∧ ResolvedAll table (nesting.after first) rest

end

end Stmt

theorem Expr.ResolvedAll.mem {table : Distances} {nesting : Nesting} {pending : Option String}
    {values : List Expr} {value : Expr} (resolved : ResolvedAll table nesting pending values)
    (member : value ∈ values) : value.Resolved table nesting pending := by
  induction values with
  | nil => cases member
  | cons first rest ih =>
    rcases List.mem_cons.mp member with same | later
    · exact same ▸ resolved.1
    · exact ih resolved.2 later

theorem Expr.resolvedAll_append {table : Distances} {nesting : Nesting} {pending : Option String}
    {first last : List Expr} :
    ResolvedAll table nesting pending (first ++ last) ↔
      ResolvedAll table nesting pending first ∧ ResolvedAll table nesting pending last := by
  induction first with
  | nil => simp [ResolvedAll]
  | cons value rest ih => simp only [List.cons_append, ResolvedAll, ih, and_assoc]

theorem Stmt.resolvedAll_append {table : Distances} {nesting : Nesting} (first last : List Stmt) :
    ResolvedAll table nesting (first ++ last) ↔
      ResolvedAll table nesting first ∧ ResolvedAll table (nesting.afterAll first) last := by
  induction first generalizing nesting with
  | nil => simp [ResolvedAll, Nesting.afterAll]
  | cons stmt rest ih =>
    simp only [List.cons_append, ResolvedAll, ih, and_assoc, Nesting.afterAll, List.foldl_cons]

/-- Two tables agree on some nodes. -/
def Distances.AgreeOn (ids : List Nat) (table other : Distances) : Prop :=
  ∀ id ∈ ids, other[id]? = table[id]?

namespace Distances.AgreeOn

theorem mono {ids fewer : List Nat} {table other : Distances} (agree : AgreeOn ids table other)
    (among : fewer ⊆ ids) : AgreeOn fewer table other :=
  fun id member => agree id (among member)

theorem left {ids others : List Nat} {table other : Distances}
    (agree : AgreeOn (ids ++ others) table other) : AgreeOn ids table other :=
  agree.mono (List.subset_append_left _ _)

theorem right {ids others : List Nat} {table other : Distances}
    (agree : AgreeOn (ids ++ others) table other) : AgreeOn others table other :=
  agree.mono (List.subset_append_right _ _)

theorem tail {id : Nat} {ids : List Nat} {table other : Distances}
    (agree : AgreeOn (id :: ids) table other) : AgreeOn ids table other :=
  agree.mono (List.subset_cons_self _ _)

theorem head {id : Nat} {ids : List Nat} {table other : Distances}
    (agree : AgreeOn (id :: ids) table other) : other[id]? = table[id]? :=
  agree id List.mem_cons_self

end Distances.AgreeOn

section Agreement

variable {table other : Distances} {nesting : Nesting} {pending : Option String}

mutual

theorem Expr.Resolved.agree : ∀ {expr : Expr}, expr.Resolved table nesting pending →
    Distances.AgreeOn expr.ids table other → expr.Resolved other nesting pending
  | .literal _ _, _, _ => trivial
  | .variable _ _, resolved, same => ⟨resolved.1, same.head.trans resolved.2⟩
  | .assign _ _ _, resolved, same => ⟨resolved.1.agree same.tail, same.head.trans resolved.2⟩
  | .group _ inner, resolved, same =>
    (show inner.Resolved table nesting pending from resolved).agree same.tail
  | .unary _ _ operand, resolved, same =>
    (show operand.Resolved table nesting pending from resolved).agree same.tail
  | .binary _ _ _ _, resolved, same =>
    ⟨resolved.1.agree same.tail.left, resolved.2.agree same.tail.right⟩
  | .logical _ _ _ _, resolved, same =>
    ⟨resolved.1.agree same.tail.left, resolved.2.agree same.tail.right⟩
  | .call _ _ _, resolved, same =>
    ⟨resolved.1.agree same.tail.left, Expr.ResolvedAll.agree resolved.2 same.tail.right⟩

theorem Expr.ResolvedAll.agree : ∀ {values : List Expr},
    Expr.ResolvedAll table nesting pending values →
    Distances.AgreeOn (Expr.idsAll values) table other →
    Expr.ResolvedAll other nesting pending values
  | [], _, _ => trivial
  | _ :: _, resolved, same =>
    ⟨resolved.1.agree same.left, Expr.ResolvedAll.agree resolved.2 same.right⟩

end

theorem Expr.ResolvedOptional.agree {value : Option Expr}
    (resolved : Expr.ResolvedOptional table nesting pending value)
    (same : Distances.AgreeOn (Expr.idsOptional value) table other) :
    Expr.ResolvedOptional other nesting pending value := by
  intro expr member
  cases member
  exact (resolved expr rfl).agree same

mutual

theorem Stmt.Resolved.agree : ∀ {statement : Stmt} {nesting : Nesting},
    statement.Resolved table nesting → Distances.AgreeOn statement.ids table other →
    statement.Resolved other nesting
  | .var _ _, _, resolved, same => ⟨resolved.1, resolved.2.agree same⟩
  | .function _ _ _, _, resolved, same =>
    ⟨resolved.1, resolved.2.1, Stmt.ResolvedAll.agree resolved.2.2 same⟩
  | .expression value, nesting, resolved, same =>
    (show value.Resolved table nesting none from resolved).agree same
  | .print value, nesting, resolved, same =>
    (show value.Resolved table nesting none from resolved).agree same
  | .block body, nesting, resolved, same =>
    (show Stmt.ResolvedAll table ([] :: nesting) body from resolved).agree same
  | .ifThen _ _, _, resolved, same =>
    ⟨resolved.1.agree same.left, resolved.2.1, resolved.2.2.agree same.right⟩
  | .ifElse _ _ _, _, resolved, same =>
    ⟨resolved.1.agree same.left,
      ⟨resolved.2.1.1, resolved.2.1.2.agree same.right.left⟩,
      resolved.2.2.1, resolved.2.2.2.agree same.right.right⟩
  | .loop _ _, _, resolved, same =>
    ⟨resolved.1.agree same.left, resolved.2.1, resolved.2.2.agree same.right⟩
  | .return _ value, nesting, resolved, same =>
    (show Expr.ResolvedOptional table nesting none value from resolved).agree same

theorem Stmt.ResolvedAll.agree : ∀ {body : List Stmt} {nesting : Nesting},
    Stmt.ResolvedAll table nesting body → Distances.AgreeOn (Stmt.idsAll body) table other →
    Stmt.ResolvedAll other nesting body
  | [], _, _, _ => trivial
  | _ :: _, _, resolved, same =>
    ⟨resolved.1.agree same.left, Stmt.ResolvedAll.agree resolved.2 same.right⟩

end

end Agreement

end LoxLang

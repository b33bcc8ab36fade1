import LoxLang.Grammar.Statement
import LoxLang.Proofs.Scoping.Admission
import LoxLang.Proofs.Scoping.Binding

/-!
The names in a `for`. What the loop is made into has one scope for the initializer, and another one,
around the body and the increment, in which nothing is declared; so the condition and the increment see
what the initializer declares and what is further out, whatever the body is.
-/
namespace LoxLang

/-- The clauses of a `for`. -/
structure ForLoop where
  initializer : Option Stmt
  condition : Option Expr
  increment : Option Expr
  body : Stmt

namespace ForLoop

variable {table : Distances} {nesting : Nesting} {site : Site} {loop : ForLoop}

/-- What is evaluated as the condition; if there is none, a literal at a site of its own. -/
def test (site : Site) (loop : ForLoop) : Expr :=
  loop.condition.getD (.literal site (.boolean true))

/-- What the parser makes of it. -/
def statement (site : Site) (loop : ForLoop) : Stmt :=
  Grammar.forLoop loop.initializer (loop.test site) loop.increment loop.body

def round (loop : ForLoop) : Stmt :=
  match loop.increment with
  | none => loop.body
  | some step => .block [loop.body, .expression step]

def rounds (site : Site) (loop : ForLoop) : Stmt := .loop (loop.test site) loop.round

theorem statement_eq (site : Site) (loop : ForLoop) :
    loop.statement site = match loop.initializer with
      | none => loop.rounds site
      | some first => .block [first, loop.rounds site] := rfl

theorem statement_plain (site : Site) (loop : ForLoop) :
    (loop.statement site).isDeclaration = false := by
  rw [statement_eq]
  cases loop.initializer <;> rfl

/-- The scopes around the condition: those around the loop and, inside of them, what the initializer
declares. -/
def scopes (nesting : Nesting) (loop : ForLoop) : Nesting :=
  match loop.initializer with
  | none => nesting
  | some first => Nesting.after ([] :: nesting) first

/-- The references in the condition and in the increment lead to where the names are declared in these
scopes. Those in the increment have one scope further to go. -/
structure Bound (table : Distances) (nesting : Nesting) (loop : ForLoop) : Prop where
  condition : ∀ test ∈ loop.condition, ∀ reference ∈ test.references,
    table[reference.site.id]? = (loop.scopes nesting).distance? reference.name
  increment : ∀ step ∈ loop.increment, ∀ reference ∈ step.references,
    table[reference.site.id]? = ((loop.scopes nesting).distance? reference.name).map (· + 1)

theorem rounds_resolved (resolved : (loop.statement site).Resolved table nesting) :
    (loop.rounds site).Resolved table (loop.scopes nesting) := by
  revert resolved
  rw [statement_eq, scopes]
  cases loop.initializer with
  | none => exact id
  | some first => exact fun resolved => resolved.2.1

theorem bound_of_resolved (plain : loop.body.isDeclaration = false)
    (resolved : (loop.statement site).Resolved table nesting) : loop.Bound table nesting := by
  obtain ⟨test, _, round⟩ := rounds_resolved resolved
  constructor
  · intro expr given reference member
    rw [ForLoop.test, Option.mem_def.mp given] at test
    exact (expr.resolved_visited test reference (expr.visited_perm.mem_iff.mpr member)).1
  · intro step given reference member
    rw [ForLoop.round, Option.mem_def.mp given] at round
    have resolved : step.Resolved table (Nesting.after ([] :: loop.scopes nesting) loop.body) none :=
      round.2.1
    -- whatever the body declares it declares further inside
    rw [Nesting.after_of_not_declaration _ plain] at resolved
    have found := (step.resolved_visited resolved reference (step.visited_perm.mem_iff.mpr member)).1
    rw [found, Nesting.distance?_cons, if_neg List.not_mem_nil]

theorem body_regular (resolved : (loop.statement site).Resolved table nesting) :
    loop.body.Regular := by
  have regular : loop.round.Regular := (rounds_resolved resolved).2.2.admitted.regular
  revert regular
  rw [ForLoop.round]
  cases loop.increment with
  | none => exact id
  | some step => exact fun regular => regular.1

end ForLoop

/-- Every `for` that is read is one of these, and its body is a statement. -/
theorem Grammar.restOfFor_gives {value : Grammar.Reader Expr} {inner : Grammar.Reader Stmt}
    (branch : inner.Gives Grammar.IsBranch) :
    (Grammar.restOfFor value inner).Gives fun stmt =>
      ∃ (loop : ForLoop) (site : Site), stmt = loop.statement site ∧
        loop.body.isDeclaration = false :=
  .past fun _ => .past fun _ => .past fun initializer => .past fun condition => .past fun _ =>
    .past fun increment => .past fun _ => branch.bind fun body branch =>
      .pure ⟨⟨initializer, some condition, increment, body⟩, ⟨0, 0⟩, rfl, branch.1⟩

/-- The statement stands somewhere in the other one, in its place with scopes around it. -/
inductive Stmt.Places (inner : Stmt) (around : Nesting) : Nesting → Stmt → Prop
  | here : Places inner around around inner
  | block {nesting : Nesting} {before rest : List Stmt} {stmt : Stmt} :
    Places inner around (Nesting.afterAll ([] :: nesting) before) stmt →
    Places inner around nesting (.block (before ++ stmt :: rest))
  | function {nesting : Nesting} {name : Ident} {parameters : List Ident} {before rest : List Stmt}
    {stmt : Stmt} :
    Places inner around (Nesting.afterAll
      ((parameters.map Ident.name).reverse :: nesting.declare name.name) before) stmt →
    Places inner around nesting (.function name parameters (before ++ stmt :: rest))
  | ifThen {nesting : Nesting} {test : Expr} {yes : Stmt} : Places inner around nesting yes →
    Places inner around nesting (.ifThen test yes)
  | yes {nesting : Nesting} {test : Expr} {yes no : Stmt} : Places inner around nesting yes →
    Places inner around nesting (.ifElse test yes no)
  | no {nesting : Nesting} {test : Expr} {yes no : Stmt} : Places inner around nesting no →
    Places inner around nesting (.ifElse test yes no)
  | loop {nesting : Nesting} {test : Expr} {body : Stmt} : Places inner around nesting body →
    Places inner around nesting (.loop test body)

theorem Stmt.Places.resolved {table : Distances} {inner stmt : Stmt} {around nesting : Nesting}
    (places : inner.Places around nesting stmt) (resolved : stmt.Resolved table nesting) :
    inner.Resolved table around := by
  induction places with
  | here => exact resolved
  | block _ ih => exact ih ((Stmt.resolvedAll_append _ _).mp resolved).2.1
  | function _ ih => exact ih ((Stmt.resolvedAll_append _ _).mp resolved.2.2).2.1
  | ifThen _ ih | loop _ ih => exact ih resolved.2.2
  | yes _ ih => exact ih resolved.2.1.2
  | no _ ih => exact ih resolved.2.2.2

end LoxLang

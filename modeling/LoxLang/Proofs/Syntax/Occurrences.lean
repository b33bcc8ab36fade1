import LoxLang.Proofs.Syntax.Parts
import LoxLang.Syntax.Outline

/-!
Declarations, references and returns where they stand. A program is listed from its beginning to its
end, an assignment after the value that it assigns; with each item go the blocks and functions that it
stands in, as the text has them: parameters, what stands in front, and the statement around the item.
-/
namespace LoxLang

/-- The name that a statement declares in the scope that it stands in. -/
def Stmt.introduced? : Stmt → Option Ident
  | .var name _ => some name
  | .function name _ _ => some name
  | _ => none

/-- A block, or the one scope of a function, around a place. The statements in front of the place have
the nearest one first; a place among the parameters is in none of the statements. -/
structure Enclosure where
  isFunction : Bool
  parameters : List Ident
  before : List Stmt
  here : Option Stmt

namespace Enclosure

def block : Enclosure := ⟨false, [], [], none⟩

def ofFunction (parameters : List Ident) : Enclosure := ⟨true, parameters, [], none⟩

def inside (scope : Enclosure) (stmt : Stmt) : Enclosure := { scope with here := some stmt }

def behind (scope : Enclosure) (stmt : Stmt) : Enclosure :=
  { scope with before := stmt :: scope.before }

/-- The names declared in the scope in front of the place, the nearest first. -/
def earlier (scope : Enclosure) : List String :=
  (scope.before.filterMap Stmt.introduced?).map Ident.name ++
    (scope.parameters.map Ident.name).reverse

end Enclosure

inductive Item where
  | declaration (name : Ident)
  | reference (reference : Reference)
  | return (line : Nat)

/-- An item with the scopes around it, innermost first. -/
structure Occurrence where
  item : Item
  around : List Enclosure

namespace Occurrence

def reference? (occurrence : Occurrence) : Option Reference :=
  match occurrence.item with
  | .reference reference => some reference
  | _ => none

def word? (occurrence : Occurrence) : Option Ident :=
  match occurrence.item with
  | .declaration name => some name
  | .return line => some ⟨"return", line⟩
  | .reference _ => none

end Occurrence

namespace Expr

mutual

def visited : Expr → List Reference
  | .literal _ _ => []
  | .variable site name => [⟨.read, site, name⟩]
  | .assign site target value => visited value ++ [⟨.assignment, site, target⟩]
  | .group _ inner => visited inner
  | .unary _ _ operand => visited operand
  | .binary _ _ left right => visited left ++ visited right
  | .logical _ _ left right => visited left ++ visited right
  | .call _ callee arguments => visited callee ++ visitedAll arguments

def visitedAll : List Expr → List Reference
  | [] => []
  | first :: rest => visited first ++ visitedAll rest

end

def visitedOptional : Option Expr → List Reference
  | none => []
  | some value => value.visited

mutual

theorem visited_perm : ∀ expr : Expr, expr.visited.Perm expr.references
  | .literal _ _ | .variable _ _ => .refl _
  | .assign _ _ value =>
    (List.perm_append_singleton _ value.visited).trans ((visited_perm value).cons _)
  | .group _ inner => visited_perm inner
  | .unary _ _ operand => visited_perm operand
  | .binary _ _ left right => (visited_perm left).append (visited_perm right)
  | .logical _ _ left right => (visited_perm left).append (visited_perm right)
  | .call _ callee arguments => (visited_perm callee).append (visitedAll_perm arguments)

theorem visitedAll_perm : ∀ values : List Expr, (visitedAll values).Perm (referencesAll values)
  | [] => .refl _
  | first :: rest => (visited_perm first).append (visitedAll_perm rest)

end

theorem visitedOptional_perm (value : Option Expr) :
    (visitedOptional value).Perm (optionalReferences value) := by
  cases value with
  | none => exact .refl _
  | some value => exact value.visited_perm

end Expr

namespace Stmt

/-- References that stand in no other statement than the one that is looked at. -/
def referring (around : List Enclosure) (references : List Reference) : List Occurrence :=
  references.map fun reference => ⟨.reference reference, around⟩

def parametersFrom (around : List Enclosure) : List Ident → List Ident → List Occurrence
  | _, [] => []
  | done, first :: rest =>
    ⟨.declaration first, .ofFunction done :: around⟩ :: parametersFrom around (done ++ [first]) rest

mutual

def occurrences (around : List Enclosure) : Stmt → List Occurrence
  | .var name initial =>
    ⟨.declaration name, around⟩ :: referring around (Expr.visitedOptional initial)
  | .function name parameters body =>
    ⟨.declaration name, around⟩ ::
      (parametersFrom around [] parameters ++ occurrencesIn (.ofFunction parameters) around body)
  | .expression value => referring around value.visited
  | .print value => referring around value.visited
  | .block body => occurrencesIn .block around body
  | .ifThen test yes => referring around test.visited ++ occurrences around yes
  | .ifElse test yes no =>
    referring around test.visited ++ (occurrences around yes ++ occurrences around no)
  | .loop test body => referring around test.visited ++ occurrences around body
  | .return line value =>
    ⟨.return line, around⟩ :: referring around (Expr.visitedOptional value)

/-- The statements that stand directly in a scope, seen from the place that it has come to. -/
def occurrencesIn (scope : Enclosure) (around : List Enclosure) : List Stmt → List Occurrence
  | [] => []
  | first :: rest =>
    occurrences (scope.inside first :: around) first ++
      occurrencesIn (scope.behind first) around rest

end

end Stmt

def Program.occurrences (program : Program) : List Occurrence :=
  program.flatMap (Stmt.occurrences [])

section Coverage

open Occurrence (reference? word?)

variable {around : List Enclosure}

theorem Stmt.reference?_referring (around : List Enclosure) (references : List Reference) :
    (Stmt.referring around references).filterMap reference? = references := by
  induction references with
  | nil => rfl
  | cons first rest ih => exact congrArg (first :: ·) ih

theorem Stmt.word?_referring (around : List Enclosure) (references : List Reference) :
    (Stmt.referring around references).filterMap word? = [] := by
  induction references with
  | nil => rfl
  | cons first rest ih => exact ih

theorem Stmt.reference?_parametersFrom (around : List Enclosure) (done parameters : List Ident) :
    (Stmt.parametersFrom around done parameters).filterMap reference? = [] := by
  induction parameters generalizing done with
  | nil => rfl
  | cons first rest ih => exact ih (done ++ [first])

theorem Stmt.word?_parametersFrom (around : List Enclosure) (done parameters : List Ident) :
    (Stmt.parametersFrom around done parameters).filterMap word? = parameters := by
  induction parameters generalizing done with
  | nil => rfl
  | cons first rest ih => exact congrArg (first :: ·) (ih (done ++ [first]))

mutual

/-- Every reference occurs once. -/
theorem Stmt.occurrences_references : ∀ (stmt : Stmt) (around : List Enclosure),
    ((stmt.occurrences around).filterMap reference?).Perm stmt.references
  | .var _ initial, around => by
    rw [Stmt.occurrences, List.filterMap_cons_none rfl, Stmt.reference?_referring]
    exact Expr.visitedOptional_perm initial
  | .function _ parameters body, around => by
    rw [Stmt.occurrences, List.filterMap_cons_none rfl, List.filterMap_append,
      Stmt.reference?_parametersFrom]
    exact Stmt.occurrencesIn_references body _ around
  | .expression value, around | .print value, around => by
    rw [Stmt.occurrences, Stmt.reference?_referring]
    exact value.visited_perm
  | .block body, around => Stmt.occurrencesIn_references body _ around
  | .ifThen test yes, around => by
    rw [Stmt.occurrences, List.filterMap_append, Stmt.reference?_referring]
    exact test.visited_perm.append (Stmt.occurrences_references yes around)
  | .ifElse test yes no, around => by
    rw [Stmt.occurrences, List.filterMap_append, List.filterMap_append, Stmt.reference?_referring]
    exact test.visited_perm.append
      ((Stmt.occurrences_references yes around).append (Stmt.occurrences_references no around))
  | .loop test body, around => by
    rw [Stmt.occurrences, List.filterMap_append, Stmt.reference?_referring]
    exact test.visited_perm.append (Stmt.occurrences_references body around)
  | .return _ value, around => by
    rw [Stmt.occurrences, List.filterMap_cons_none rfl, Stmt.reference?_referring]
    exact Expr.visitedOptional_perm value

theorem Stmt.occurrencesIn_references : ∀ (body : List Stmt) (scope : Enclosure)
    (around : List Enclosure),
    ((Stmt.occurrencesIn scope around body).filterMap reference?).Perm (Stmt.referencesAll body)
  | [], _, _ => .refl _
  | first :: rest, scope, around => by
    rw [Stmt.occurrencesIn, List.filterMap_append]
    exact (Stmt.occurrences_references first _).append (Stmt.occurrencesIn_references rest _ around)

end

mutual

theorem Stmt.occurrences_words : ∀ (stmt : Stmt) (around : List Enclosure),
    (stmt.occurrences around).filterMap word? = stmt.words
  | .var name initial, around =>
    congrArg (name :: ·) (Stmt.word?_referring around (Expr.visitedOptional initial))
  | .function name parameters body, around => by
    have inside : (Stmt.parametersFrom around [] parameters ++
        Stmt.occurrencesIn (.ofFunction parameters) around body).filterMap word? =
          parameters ++ Stmt.wordsAll body := by
      rw [List.filterMap_append, Stmt.word?_parametersFrom, Stmt.occurrencesIn_words body]
    exact congrArg (name :: ·) inside
  | .expression value, around | .print value, around => by
    rw [Stmt.occurrences, Stmt.word?_referring, Stmt.words]
  | .block body, around => Stmt.occurrencesIn_words body _ around
  | .ifThen test yes, around => by
    rw [Stmt.occurrences, List.filterMap_append, Stmt.word?_referring, List.nil_append,
      Stmt.occurrences_words yes, Stmt.words]
  | .ifElse test yes no, around => by
    rw [Stmt.occurrences, List.filterMap_append, List.filterMap_append, Stmt.word?_referring,
      List.nil_append, Stmt.occurrences_words yes, Stmt.occurrences_words no, Stmt.words]
  | .loop test body, around => by
    rw [Stmt.occurrences, List.filterMap_append, Stmt.word?_referring, List.nil_append,
      Stmt.occurrences_words body, Stmt.words]
  | .return line value, around =>
    congrArg (Ident.mk "return" line :: ·) (Stmt.word?_referring around (Expr.visitedOptional value))

theorem Stmt.occurrencesIn_words : ∀ (body : List Stmt) (scope : Enclosure)
    (around : List Enclosure),
    (Stmt.occurrencesIn scope around body).filterMap word? = Stmt.wordsAll body
  | [], _, _ => rfl
  | first :: rest, scope, around => by
    rw [Stmt.occurrencesIn, List.filterMap_append, Stmt.occurrences_words first,
      Stmt.occurrencesIn_words rest, Stmt.wordsAll]

end

theorem Program.occurrences_cons (first : Stmt) (rest : List Stmt) :
    Program.occurrences (first :: rest) = first.occurrences [] ++ Program.occurrences rest := rfl

theorem Program.occurrences_references (program : Program) :
    (program.occurrences.filterMap reference?).Perm program.references := by
  induction program with
  | nil => exact .refl _
  | cons first rest ih =>
    rw [Program.occurrences_cons, List.filterMap_append]
    exact (first.occurrences_references []).append ih

theorem Program.occurrences_words (program : Program) :
    program.occurrences.filterMap word? = Stmt.wordsAll program := by
  induction program with
  | nil => rfl
  | cons first rest ih =>
    rw [Program.occurrences_cons, List.filterMap_append, first.occurrences_words, ih, Stmt.wordsAll]

end Coverage
end LoxLang

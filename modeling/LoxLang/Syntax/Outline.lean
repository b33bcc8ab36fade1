import LoxLang.Syntax
/-!
Programs laid flat. The outline lists every statement with its nesting depth, a statement before
those inside it; the references are the places where a variable is read or assigned, in the same
order, an assignment before the value assigned.
-/
namespace LoxLang

inductive ReferenceKind where
  | read
  | assignment
deriving DecidableEq

structure Reference where
  kind : ReferenceKind
  site : Site
  name : String
deriving DecidableEq

namespace Expr

mutual

/-- The lines of all nodes, a node before its operands. -/
def lines : Expr → List Nat
  | .literal site _ => [site.line]
  | .variable site _ => [site.line]
  | .assign site _ value => site.line :: lines value
  | .group site inner => site.line :: lines inner
  | .unary site _ operand => site.line :: lines operand
  | .binary site _ left right => site.line :: (lines left ++ lines right)
  | .logical site _ left right => site.line :: (lines left ++ lines right)
  | .call site callee arguments => site.line :: (lines callee ++ linesAll arguments)

def linesAll : List Expr → List Nat
  | [] => []
  | first :: rest => lines first ++ linesAll rest

end

mutual

def references : Expr → List Reference
  | .literal _ _ => []
  | .variable site name => [⟨.read, site, name⟩]
  | .assign site target value => ⟨.assignment, site, target⟩ :: references value
  | .group _ inner => references inner
  | .unary _ _ operand => references operand
  | .binary _ _ left right => references left ++ references right
  | .logical _ _ left right => references left ++ references right
  | .call _ callee arguments => references callee ++ referencesAll arguments

def referencesAll : List Expr → List Reference
  | [] => []
  | first :: rest => references first ++ referencesAll rest

end

end Expr

def optionalReferences : Option Expr → List Reference
  | none => []
  | some value => value.references

namespace Stmt

mutual

def references : Stmt → List Reference
  | .var _ initial => optionalReferences initial
  | .function _ _ body => referencesAll body
  | .expression value => value.references
  | .print value => value.references
  | .block body => referencesAll body
  | .ifThen test yes => test.references ++ references yes
  | .ifElse test yes no => test.references ++ (references yes ++ references no)
  | .loop test body => test.references ++ references body
  | .return _ value => optionalReferences value

def referencesAll : List Stmt → List Reference
  | [] => []
  | first :: rest => references first ++ referencesAll rest

end

mutual

def outline (depth : Nat) : Stmt → List (Nat × Stmt)
  | .var name initial => [(depth, .var name initial)]
  | .function name parameters body =>
    (depth, .function name parameters body) :: outlineAll (depth + 1) body
  | .expression value => [(depth, .expression value)]
  | .print value => [(depth, .print value)]
  | .block body => (depth, .block body) :: outlineAll (depth + 1) body
  | .ifThen test yes => (depth, .ifThen test yes) :: outline (depth + 1) yes
  | .ifElse test yes no =>
    (depth, .ifElse test yes no) :: (outline (depth + 1) yes ++ outline (depth + 1) no)
  | .loop test body => (depth, .loop test body) :: outline (depth + 1) body
  | .return line value => [(depth, .return line value)]

def outlineAll (depth : Nat) : List Stmt → List (Nat × Stmt)
  | [] => []
  | first :: rest => outline depth first ++ outlineAll depth rest

end

end Stmt

def Program.references (program : Program) : List Reference := Stmt.referencesAll program

def Program.outline (program : Program) : List (Nat × Stmt) := Stmt.outlineAll 0 program

end LoxLang

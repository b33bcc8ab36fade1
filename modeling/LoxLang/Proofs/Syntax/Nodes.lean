import LoxLang.Syntax

/-!
What a tree consists of: the identities of its expression nodes, and where in it declarations stand.
In a regular tree they stand only in lists of statements, never alone as a branch or a loop body.
-/
namespace LoxLang

namespace Expr

mutual

def ids : Expr → List Nat
  | .literal site _ => [site.id]
  | .variable site _ => [site.id]
  | .assign site _ value => site.id :: ids value
  | .group site inner => site.id :: ids inner
  | .unary site _ operand => site.id :: ids operand
  | .binary site _ left right => site.id :: (ids left ++ ids right)
  | .logical site _ left right => site.id :: (ids left ++ ids right)
  | .call site callee arguments => site.id :: (ids callee ++ idsAll arguments)

def idsAll : List Expr → List Nat
  | [] => []
  | first :: rest => ids first ++ idsAll rest

end

def idsOptional : Option Expr → List Nat
  | none => []
  | some value => value.ids

theorem idsAll_append (first last : List Expr) :
    idsAll (first ++ last) = idsAll first ++ idsAll last := by
  induction first with
  | nil => rfl
  | cons value rest ih => simp only [List.cons_append, idsAll, ih, List.append_assoc]

end Expr

namespace Stmt

mutual

def ids : Stmt → List Nat
  | .var _ initial => Expr.idsOptional initial
  | .function _ _ body => idsAll body
  | .expression value => value.ids
  | .print value => value.ids
  | .block body => idsAll body
  | .ifThen test yes => test.ids ++ ids yes
  | .ifElse test yes no => test.ids ++ (ids yes ++ ids no)
  | .loop test body => test.ids ++ ids body
  | .return _ value => Expr.idsOptional value

def idsAll : List Stmt → List Nat
  | [] => []
  | first :: rest => ids first ++ idsAll rest

end

theorem idsAll_append (first last : List Stmt) :
    idsAll (first ++ last) = idsAll first ++ idsAll last := by
  induction first with
  | nil => rfl
  | cons statement rest ih => simp only [List.cons_append, idsAll, ih, List.append_assoc]

def isDeclaration : Stmt → Bool
  | .var _ _ => true
  | .function _ _ _ => true
  | _ => false

mutual

def Regular : Stmt → Prop
  | .function _ _ body => RegularAll body
  | .block body => RegularAll body
  | .ifThen _ yes => yes.isDeclaration = false ∧ Regular yes
  | .ifElse _ yes no =>
    (yes.isDeclaration = false ∧ Regular yes) ∧ no.isDeclaration = false ∧ Regular no
  | .loop _ body => body.isDeclaration = false ∧ Regular body
  | _ => True

def RegularAll : List Stmt → Prop
  | [] => True
  | first :: rest => Regular first ∧ RegularAll rest

end

theorem regularAll_append (first last : List Stmt) :
    RegularAll (first ++ last) ↔ RegularAll first ∧ RegularAll last := by
  induction first with
  | nil => simp [RegularAll]
  | cons statement rest ih => simp only [List.cons_append, RegularAll, ih, and_assoc]

end Stmt
end LoxLang

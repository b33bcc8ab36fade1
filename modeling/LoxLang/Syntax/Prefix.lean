import LoxLang.Syntax
/-!
Expressions written with the operator in front and every node in parentheses.
-/
namespace LoxLang

mutual

def Expr.prefixText : Expr → String
  | .literal _ value => value.text
  | .variable _ name => s!"(ident {name})"
  | .assign _ target value => s!"(= {target} {value.prefixText})"
  | .group _ inner => s!"(group {inner.prefixText})"
  | .unary _ op operand => s!"({op.text} {operand.prefixText})"
  | .binary _ op left right => s!"({op.text} {left.prefixText} {right.prefixText})"
  | .logical _ op left right => s!"({op.text} {left.prefixText} {right.prefixText})"
  | .call _ callee arguments =>
    s!"(call {callee.prefixText}{Expr.prefixTexts arguments})"

def Expr.prefixTexts : List Expr → String
  | [] => ""
  | first :: rest => s!" {first.prefixText}{Expr.prefixTexts rest}"

end

end LoxLang

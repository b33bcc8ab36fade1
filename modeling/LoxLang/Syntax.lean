import LoxLang.Token
/-!
Programs as trees. Every expression node has an identity of its own, so that two equal expressions
at different places can be bound differently, and the line that faults of the node point at.
-/
namespace LoxLang

structure Site where
  id : Nat
  line : Nat
deriving DecidableEq

structure Ident where
  name : String
  line : Nat
deriving DecidableEq

inductive UnaryOp where
  | not
  | negative
deriving DecidableEq

inductive BinaryOp where
  | equal
  | notEqual
  | less
  | lessEqual
  | greater
  | greaterEqual
  | add
  | subtract
  | multiply
  | divide
deriving DecidableEq

inductive LogicalOp where
  | and
  | or
deriving DecidableEq

inductive Expr where
  | literal (site : Site) (value : Literal)
  | variable (site : Site) (name : String)
  | assign (site : Site) (target : String) (value : Expr)
  | group (site : Site) (inner : Expr)
  | unary (site : Site) (op : UnaryOp) (operand : Expr)
  | binary (site : Site) (op : BinaryOp) (left right : Expr)
  | logical (site : Site) (op : LogicalOp) (left right : Expr)
  | call (site : Site) (callee : Expr) (arguments : List Expr)

inductive Stmt where
  | var (name : Ident) (initial : Option Expr)
  | function (name : Ident) (parameters : List Ident) (body : List Stmt)
  | expression (value : Expr)
  | print (value : Expr)
  | block (body : List Stmt)
  | ifThen (test : Expr) (yes : Stmt)
  | ifElse (test : Expr) (yes no : Stmt)
  | loop (test : Expr) (body : Stmt)
  | return (line : Nat) (value : Option Expr)

abbrev Program := List Stmt

/-- What a function value remembers of its declaration. -/
structure Function where
  name : Ident
  parameters : List Ident
  body : List Stmt

def Expr.site : Expr → Site
  | .literal site _ => site
  | .variable site _ => site
  | .assign site _ _ => site
  | .group site _ => site
  | .unary site _ _ => site
  | .binary site _ _ _ => site
  | .logical site _ _ _ => site
  | .call site _ _ => site

def Expr.line (expr : Expr) : Nat := expr.site.line

def UnaryOp.text : UnaryOp → String
  | .not => "!"
  | .negative => "-"

def BinaryOp.text : BinaryOp → String
  | .equal => "=="
  | .notEqual => "!="
  | .less => "<"
  | .lessEqual => "<="
  | .greater => ">"
  | .greaterEqual => ">="
  | .add => "+"
  | .subtract => "-"
  | .multiply => "*"
  | .divide => "/"

def LogicalOp.text : LogicalOp → String
  | .and => "and"
  | .or => "or"

end LoxLang

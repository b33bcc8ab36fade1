import LoxLang.Position
import LoxLang.Diagnostic
import LoxLang.Double.Shortest
/-!
Tokens: the words of the language, with the values that literals stand for.
-/
namespace LoxLang

inductive Symbol where
  | leftParen
  | rightParen
  | leftBrace
  | rightBrace
  | comma
  | dot
  | minus
  | plus
  | semicolon
  | slash
  | star
  | bang
  | bangEqual
  | equal
  | equalEqual
  | greater
  | greaterEqual
  | less
  | lessEqual
deriving DecidableEq

namespace Symbol

def all : List Symbol :=
  [.leftParen, .rightParen, .leftBrace, .rightBrace, .comma, .dot, .minus, .plus, .semicolon,
    .slash, .star, .bang, .bangEqual, .equal, .equalEqual, .greater, .greaterEqual, .less,
    .lessEqual]

def spelling : Symbol → String
  | .leftParen => "("
  | .rightParen => ")"
  | .leftBrace => "\x7b"
  | .rightBrace => "\x7d"
  | .comma => ","
  | .dot => "."
  | .minus => "-"
  | .plus => "+"
  | .semicolon => ";"
  | .slash => "/"
  | .star => "*"
  | .bang => "!"
  | .bangEqual => "!="
  | .equal => "="
  | .equalEqual => "=="
  | .greater => ">"
  | .greaterEqual => ">="
  | .less => "<"
  | .lessEqual => "<="

def name : Symbol → String
  | .leftParen => "LeftParen"
  | .rightParen => "RightParen"
  | .leftBrace => "LeftBrace"
  | .rightBrace => "RightBrace"
  | .comma => "Comma"
  | .dot => "Dot"
  | .minus => "Minus"
  | .plus => "Plus"
  | .semicolon => "Semicolon"
  | .slash => "Slash"
  | .star => "Star"
  | .bang => "Bang"
  | .bangEqual => "BangEqual"
  | .equal => "Equal"
  | .equalEqual => "EqualEqual"
  | .greater => "Greater"
  | .greaterEqual => "GreaterEqual"
  | .less => "Less"
  | .lessEqual => "LessEqual"

def ofSpelling? (text : String) : Option Symbol := all.find? (·.spelling == text)

/-- The symbol that one character makes when nothing follows it. -/
def ofChar? : Char → Option Symbol
  | '(' => some .leftParen
  | ')' => some .rightParen
  | '{' => some .leftBrace
  | '}' => some .rightBrace
  | ',' => some .comma
  | '.' => some .dot
  | '-' => some .minus
  | '+' => some .plus
  | ';' => some .semicolon
  | '/' => some .slash
  | '*' => some .star
  | '!' => some .bang
  | '=' => some .equal
  | '>' => some .greater
  | '<' => some .less
  | _ => none

/-- The symbol that an equals sign directly after this one turns it into. -/
def withEqual? : Symbol → Option Symbol
  | .bang => some .bangEqual
  | .equal => some .equalEqual
  | .greater => some .greaterEqual
  | .less => some .lessEqual
  | _ => none

end Symbol

inductive Keyword where
  | and
  | classWord
  | else
  | false
  | fun
  | for
  | if
  | nil
  | or
  | print
  | return
  | super
  | this
  | true
  | var
  | while
deriving DecidableEq

namespace Keyword

def all : List Keyword :=
  [.and, .classWord, .else, .false, .fun, .for, .if, .nil, .or, .print, .return, .super, .this,
    .true, .var, .while]

def spelling : Keyword → String
  | .and => "and"
  | .classWord => "class"
  | .else => "else"
  | .false => "false"
  | .fun => "fun"
  | .for => "for"
  | .if => "if"
  | .nil => "nil"
  | .or => "or"
  | .print => "print"
  | .return => "return"
  | .super => "super"
  | .this => "this"
  | .true => "true"
  | .var => "var"
  | .while => "while"

def name : Keyword → String
  | .and => "And"
  | .classWord => "Class"
  | .else => "Else"
  | .false => "False"
  | .fun => "Fun"
  | .for => "For"
  | .if => "If"
  | .nil => "Nil"
  | .or => "Or"
  | .print => "Print"
  | .return => "Return"
  | .super => "Super"
  | .this => "This"
  | .true => "True"
  | .var => "Var"
  | .while => "While"

def ofSpelling? (text : String) : Option Keyword := all.find? (·.spelling == text)

/-- A statement begins at these, so that reading can go on there after a fault. -/
def startsStatement : Keyword → Bool
  | .classWord | .fun | .var | .for | .if | .while | .print | .return => Bool.true
  | _ => Bool.false

end Keyword

inductive TokenKind where
  | symbol (sign : Symbol)
  | keyword (word : Keyword)
  | identifier
  | string
  | number
  | finish
deriving DecidableEq

def TokenKind.name : TokenKind → String
  | .symbol sign => sign.name
  | .keyword word => word.name
  | .identifier => "identifier"
  | .string => "string"
  | .number => "number"
  | .finish => "end of input"

inductive Literal where
  | number (value : Float)
  | string (value : String)
  | boolean (value : Bool)
  | nil

def Literal.text : Literal → String
  | .number value => Double.text value
  | .string value => value
  | .boolean value => if value then "true" else "false"
  | .nil => "nil"

structure Token where
  kind : TokenKind
  lexeme : String
  literal : Option Literal
  position : Position

namespace Token

def finish (position : Position) : Token := ⟨.finish, "", none, position⟩

def line (token : Token) : Nat := token.position.line

def place (token : Token) : Place :=
  match token.kind with
  | .finish => .finish
  | _ => .lexeme token.lexeme

def isFinish (token : Token) : Bool := token.kind == .finish

end Token
end LoxLang

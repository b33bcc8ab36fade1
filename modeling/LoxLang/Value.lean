import LoxLang.Syntax
/-!
Values that a running script works with, and what the operators make of them.
-/
namespace LoxLang

abbrev FrameId : Type := Nat

/-- What a native function answers: the time, or one of its arguments, by a place that depends on how
many there are. A session starts with `clock` alone; the rest is what can be bound from outside without
making values of its own. -/
inductive NativeRule where
  | clock
  | argument (place : Nat → Nat)

def NativeRule.lastArgument : NativeRule := .argument (· - 1)

structure Native where
  name : String
  arity : Nat
  rule : NativeRule

/-- A script function keeps what surrounded its declaration, in whatever way that is written down. -/
inductive CallableOver (Closure : Type) where
  | function (declaration : Function) (closure : Closure)
  | native (builtin : Native)

/-- Every callable value carries the number it got when it was made; two are equal only if they are
the same one. -/
inductive ValueOver (Closure : Type) where
  | string (text : String)
  | number (value : Float)
  | boolean (value : Bool)
  | nil
  | callable (identity : Nat) (target : CallableOver Closure)

/-- On the machine, a script function keeps the frame that was current where it was declared. -/
abbrev Callable : Type := CallableOver FrameId

abbrev Value : Type := ValueOver FrameId

variable {Closure : Type}

namespace CallableOver

def name : CallableOver Closure → String
  | .function declaration _ => declaration.name.name
  | .native builtin => builtin.name

def arity : CallableOver Closure → Nat
  | .function declaration _ => declaration.parameters.length
  | .native builtin => builtin.arity

def text : CallableOver Closure → String
  | .function declaration _ => s!"<fn {declaration.name.name}>"
  | .native _ => "<native fn>"

end CallableOver

namespace ValueOver

def ofLiteral : Literal → ValueOver Closure
  | .number value => .number value
  | .string value => .string value
  | .boolean value => .boolean value
  | .nil => .nil

/-- Only nil and false count as false. -/
def truthy : ValueOver Closure → Bool
  | .boolean value => value
  | .nil => false
  | _ => true

/-- Values of different types differ, and a number that is none differs from itself. -/
def same : ValueOver Closure → ValueOver Closure → Bool
  | .string left, .string right => left == right
  | .number left, .number right => left == right
  | .boolean left, .boolean right => left == right
  | .nil, .nil => true
  | .callable left _, .callable right _ => left == right
  | _, _ => false

def text : ValueOver Closure → String
  | .string value => value
  | .number value => Double.text value
  | .boolean value => if value then "true" else "false"
  | .nil => "nil"
  | .callable _ target => target.text

/-- The text with the value's type around it. -/
def typedText : ValueOver Closure → String
  | .string value => s!"Value::String('{value}')"
  | .number value => s!"Value::Number({Double.text value})"
  | .boolean value => s!"Value::Bool({value})"
  | .nil => "Value::Nil"
  | .callable _ target => s!"Value::Callable({target.name})"

end ValueOver

def UnaryOp.apply (value : ValueOver Closure) : UnaryOp → Except RuntimeCause (ValueOver Closure)
  | .not => .ok (.boolean !value.truthy)
  | .negative =>
    match value with
    | .number number => .ok (.number (-number))
    | _ => .error .operandNotNumber

namespace BinaryOp

def onNumbers (compute : Float → Float → ValueOver Closure) :
    ValueOver Closure → ValueOver Closure → Except RuntimeCause (ValueOver Closure)
  | .number left, .number right => .ok (compute left right)
  | _, _ => .error .operandsNotNumbers

def sum : ValueOver Closure → ValueOver Closure → Except RuntimeCause (ValueOver Closure)
  | .number left, .number right => .ok (.number (left + right))
  | .string left, .string right => .ok (.string (left ++ right))
  | _, _ => .error .operandsNotNumbersOrStrings

/-- Division by zero gives an infinity or no number, as the arithmetic has it, and is no fault. -/
def apply (left right : ValueOver Closure) : BinaryOp → Except RuntimeCause (ValueOver Closure)
  | .equal => .ok (.boolean (left.same right))
  | .notEqual => .ok (.boolean !(left.same right))
  | .less => onNumbers (fun x y => .boolean (x < y)) left right
  | .lessEqual => onNumbers (fun x y => .boolean (x ≤ y)) left right
  | .greater => onNumbers (fun x y => .boolean (y < x)) left right
  | .greaterEqual => onNumbers (fun x y => .boolean (y ≤ x)) left right
  | .add => sum left right
  | .subtract => onNumbers (fun x y => .number (x - y)) left right
  | .multiply => onNumbers (fun x y => .number (x * y)) left right
  | .divide => onNumbers (fun x y => .number (x / y)) left right

end BinaryOp

/-- Whether the left operand alone decides; it is then the result. -/
def LogicalOp.decides (left : ValueOver Closure) : LogicalOp → Bool
  | .and => !left.truthy
  | .or => left.truthy

end LoxLang

/-!
What a script is told when something is wrong with it. A static fault is found before anything
runs; a runtime fault ends a run. Each is a cause and a line, and `text` is the rendered form.
-/
namespace LoxLang

/-- Where in its line a static fault points. -/
inductive Place where
  | unplaced
  | lexeme (spelling : String)
  | finish
deriving DecidableEq

def Place.text : Place → String
  | .unplaced => ""
  | .lexeme spelling => s!" at '{spelling}'"
  | .finish => " at end"

/-- A part that the grammar asks for at some point. -/
inductive Part where
  | variableName
  | functionName
  | parameterName
  | semicolonAfterVariable
  | semicolonAfterReturn
  | semicolonAfterLoopCondition
  | semicolonAfterValue
  | semicolonAfterExpression
  | openAfterFunctionName
  | openAfterIf
  | openAfterWhile
  | openAfterFor
  | closeAfterParameters
  | closeAfterIfCondition
  | closeAfterCondition
  | closeAfterForClauses
  | closeAfterArguments
  | closeAfterExpression
  | braceBeforeBody
  | braceAfterBlock
  | expression
  | leftOperand
deriving DecidableEq

def Part.text : Part → String
  | .variableName => "variable name"
  | .functionName => "function name"
  | .parameterName => "parameter name"
  | .semicolonAfterVariable => "';' after variable declaration"
  | .semicolonAfterReturn => "';' after return value"
  | .semicolonAfterLoopCondition => "';' after loop condition"
  | .semicolonAfterValue => "';' after value"
  | .semicolonAfterExpression => "';' after expression"
  | .openAfterFunctionName => "'(' after function name"
  | .openAfterIf => "'(' after 'if'"
  | .openAfterWhile => "'(' after 'while'"
  | .openAfterFor => "'(' after 'for'"
  | .closeAfterParameters => "')' after parameters"
  | .closeAfterIfCondition => "')' after if condition"
  | .closeAfterCondition => "')' after condition"
  | .closeAfterForClauses => "')' after for clauses"
  | .closeAfterArguments => "')' after arguments"
  | .closeAfterExpression => "')' after expression"
  | .braceBeforeBody => "'\x7b' before function body"
  | .braceAfterBlock => "'\x7d' after block"
  | .expression => "expression"
  | .leftOperand => "left-hand operand"

/-- A call passes, and a function takes, at most this many values. -/
def maxItems : Nat := 255

inductive StaticCause where
  | unterminatedString
  | unexpectedCharacter
  | missing (part : Part)
  | invalidTarget
  | tooManyArguments
  | tooManyParameters
  | returnOutsideFunction
  | readInOwnInitializer
  | duplicateName
deriving DecidableEq

def StaticCause.message : StaticCause → String
  | .unterminatedString => "Unterminated string."
  | .unexpectedCharacter => "Unexpected character."
  | .missing part => s!"Expect {part.text}."
  | .invalidTarget => "Invalid assignment target."
  | .tooManyArguments => s!"Can't have more than {maxItems} arguments."
  | .tooManyParameters => s!"Can't have more than {maxItems} parameters."
  | .returnOutsideFunction => "Can't return from top-level code."
  | .readInOwnInitializer => "Can't read local variable in its own initializer."
  | .duplicateName => "Already a variable with this name in this scope."

structure StaticFault where
  line : Nat
  place : Place
  cause : StaticCause
deriving DecidableEq

namespace StaticFault

def message (fault : StaticFault) : String := fault.cause.message

def text (fault : StaticFault) : String :=
  s!"[line {fault.line}] Error{fault.place.text}: {fault.message}"

end StaticFault

inductive RuntimeCause where
  | operandNotNumber
  | operandsNotNumbers
  | operandsNotNumbersOrStrings
  | undefinedVariable (name : String)
  | notCallable
  | arityMismatch (expected actual : Nat)
deriving DecidableEq

def RuntimeCause.message : RuntimeCause → String
  | .operandNotNumber => "Operand must be a number."
  | .operandsNotNumbers => "Operands must be numbers."
  | .operandsNotNumbersOrStrings => "Operands must be a numbers or strings."
  | .undefinedVariable name => s!"Undefined variable '{name}'."
  | .notCallable => "Can only call functions."
  | .arityMismatch expected actual => s!"Expected {expected} arguments but got {actual}."

structure RuntimeFault where
  cause : RuntimeCause
  line : Nat
deriving DecidableEq

def RuntimeFault.text (fault : RuntimeFault) : String :=
  s!"{fault.cause.message}\n[line {fault.line}]"

inductive Diagnostic where
  | static (fault : StaticFault)
  | runtime (fault : RuntimeFault)
deriving DecidableEq

def Diagnostic.text : Diagnostic → String
  | .static fault => fault.text
  | .runtime fault => fault.text

/-- Diagnostics as they are printed, one after the other, each ended by a line break. -/
def Diagnostic.report (diagnostics : List Diagnostic) : String :=
  diagnostics.foldl (fun shown diagnostic => shown ++ diagnostic.text ++ "\n") ""

end LoxLang

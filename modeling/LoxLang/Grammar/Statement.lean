import LoxLang.Grammar.Expression
/-!
Reading statements. A declaration that gives up is dropped, and reading goes on at the next place
where a statement can begin; blocks recover inside themselves.
-/
namespace LoxLang.Grammar

def initializer (value : Reader Expr) : Reader (Option Expr) := do
  match ← takeSymbol? .equal with
  | none => pure none
  | some _ => some <$> value

def restOfVariable (value : Reader Expr) : Reader Stmt := do
  let name ← needName .variableName
  let initial ← initializer value
  let _ ← needSymbol .semicolon .semicolonAfterVariable
  pure (.var name initial)

def parametersFrom : Nat → Nat → List Ident → Reader (List Ident)
  | 0, _, done => pure done.reverse
  | bound + 1, count, done => do
    match ← takeSymbol? .comma with
    | none => pure done.reverse
    | some _ =>
      checkLimit count .tooManyParameters
      let next ← needName .parameterName
      parametersFrom bound (count + 1) (next :: done)

def parameters (bound : Nat) : Reader (List Ident) := do
  match ← takeSymbol? .rightParen with
  | some _ => pure []
  | none =>
    let first ← needName .parameterName
    let names ← parametersFrom bound 1 [first]
    let _ ← needSymbol .rightParen .closeAfterParameters
    pure names

def restOfFunction (bound : Nat) (body : Reader (List Stmt)) : Reader Stmt := do
  let name ← needName .functionName
  let _ ← needSymbol .leftParen .openAfterFunctionName
  let names ← parameters bound
  let _ ← needSymbol .leftBrace .braceBeforeBody
  let statements ← body
  pure (.function name names statements)

/-- What is left from the next boundary on: behind a semicolon or in front of a keyword that starts
a statement. -/
def fromBoundary : List Token → List Token
  | [] => []
  | token :: rest =>
    match token.kind with
    | .symbol .semicolon => rest
    | .keyword keyword => if keyword.startsStatement then token :: rest else fromBoundary rest
    | _ => fromBoundary rest

/-- A failed attempt that took nothing passes over one token first, so that reading gets on. -/
def Cursor.recover (before after : Cursor) : Cursor :=
  let moved := if after.rest.length = before.rest.length then after.rest.tail else after.rest
  { after with rest := fromBoundary moved }

def orRecover (declaration : Reader Stmt) : Reader (Option Stmt) := fun cursor =>
  match declaration cursor with
  | .read statement after => .read (some statement) after
  | .failed after => .read none (cursor.recover after)

def statementsUntil (stop : TokenKind → Bool) (declaration : Reader Stmt) :
    Nat → List Stmt → Reader (List Stmt)
  | 0, done => pure done.reverse
  | bound + 1, done => do
    if stop (← peek).kind then pure done.reverse
    else
      let statement ← orRecover declaration
      statementsUntil stop declaration bound (statement.toList ++ done)

def endsBlock (kind : TokenKind) : Bool := kind == .finish || kind == .symbol .rightBrace

def restOfBlock (bound : Nat) (declaration : Reader Stmt) : Reader (List Stmt) := do
  let statements ← statementsUntil endsBlock declaration bound []
  let _ ← needSymbol .rightBrace .braceAfterBlock
  pure statements

def restOfExpression (value : Reader Expr) : Reader Stmt := do
  let result ← value
  let _ ← needSymbol .semicolon .semicolonAfterExpression
  pure (.expression result)

def restOfPrint (value : Reader Expr) : Reader Stmt := do
  let result ← value
  let _ ← needSymbol .semicolon .semicolonAfterValue
  pure (.print result)

def restOfReturn (line : Nat) (value : Reader Expr) : Reader Stmt := do
  match ← takeSymbol? .semicolon with
  | some _ => pure (.return line none)
  | none =>
    let result ← value
    let _ ← needSymbol .semicolon .semicolonAfterReturn
    pure (.return line (some result))

/-- An `else` belongs to the nearest `if` before it. -/
def restOfIf (value : Reader Expr) (statement : Reader Stmt) : Reader Stmt := do
  let _ ← needSymbol .leftParen .openAfterIf
  let test ← value
  let _ ← needSymbol .rightParen .closeAfterIfCondition
  let yes ← statement
  match ← takeKeyword? .else with
  | none => pure (.ifThen test yes)
  | some _ => .ifElse test yes <$> statement

def restOfWhile (value : Reader Expr) (statement : Reader Stmt) : Reader Stmt := do
  let _ ← needSymbol .leftParen .openAfterWhile
  let test ← value
  let _ ← needSymbol .rightParen .closeAfterCondition
  let body ← statement
  pure (.loop test body)

def forInitializer (value : Reader Expr) : Reader (Option Stmt) := do
  match ← takeSymbol? .semicolon with
  | some _ => pure none
  | none =>
    match ← takeKeyword? .var with
    | some _ => some <$> restOfVariable value
    | none => some <$> restOfExpression value

/-- A loop without a condition runs as if that were true. -/
def forCondition (line : Nat) (value : Reader Expr) : Reader Expr := do
  if (← peek).kind = .symbol .semicolon then
    let site ← newSite line
    pure (.literal site (.boolean true))
  else value

def forIncrement (value : Reader Expr) : Reader (Option Expr) := do
  if (← peek).kind = .symbol .rightParen then pure none
  else some <$> value

/-- A `for` in terms of simpler statements. -/
def forLoop (initializer : Option Stmt) (condition : Expr) (increment : Option Expr)
    (body : Stmt) : Stmt :=
  let round := match increment with
    | none => body
    | some step => .block [body, .expression step]
  match initializer with
  | none => .loop condition round
  | some first => .block [first, .loop condition round]

def restOfFor (value : Reader Expr) (statement : Reader Stmt) : Reader Stmt := do
  let line := (← peek).line
  let _ ← needSymbol .leftParen .openAfterFor
  let initializer ← forInitializer value
  let condition ← forCondition line value
  let _ ← needSymbol .semicolon .semicolonAfterLoopCondition
  let increment ← forIncrement value
  let _ ← needSymbol .rightParen .closeAfterForClauses
  let body ← statement
  pure (forLoop initializer condition increment body)

/-- How a statement that is no declaration begins. -/
inductive Opening where
  | if
  | while
  | for
  | print
  | return
  | block
deriving DecidableEq

def opening? : TokenKind → Option Opening
  | .keyword .if => some .if
  | .keyword .while => some .while
  | .keyword .for => some .for
  | .keyword .print => some .print
  | .keyword .return => some .return
  | .symbol .leftBrace => some .block
  | _ => none

def statementWith (value : Reader Expr) (block : Reader (List Stmt)) (inner : Reader Stmt) :
    Reader Stmt := do
  match ← takeIf? opening? with
  | none => restOfExpression value
  | some (.if, _) => restOfIf value inner
  | some (.while, _) => restOfWhile value inner
  | some (.for, _) => restOfFor value inner
  | some (.print, _) => restOfPrint value
  | some (.return, token) => restOfReturn token.line value
  | some (.block, _) => .block <$> block

def declarationWith (bound : Nat) (value : Reader Expr) (block : Reader (List Stmt))
    (statement : Reader Stmt) : Reader Stmt := do
  match ← takeKeyword? .var with
  | some _ => restOfVariable value
  | none =>
    match ← takeKeyword? .fun with
    | some _ => restOfFunction bound block
    | none => statement

mutual

def declaration : Nat → Cursor → Reading Stmt
  | 0, cursor => fail (.missing .expression) cursor
  | bound + 1, cursor =>
    declarationWith bound (expression bound) (restOfBlock bound (declaration bound))
      (statement bound) cursor

def statement : Nat → Cursor → Reading Stmt
  | 0, cursor => fail (.missing .expression) cursor
  | bound + 1, cursor =>
    statementWith (expression bound) (restOfBlock bound (declaration bound)) (statement bound)
      cursor

end

structure Parsed where
  program : Program
  faults : List StaticFault
  nextId : Nat

def Parsed.program? (parsed : Parsed) : Option Program :=
  if parsed.faults.isEmpty then some parsed.program else none

/-- What is read before the first end token decides everything. -/
def Cursor.start (nextId : Nat) (tokens : List Token) : Cursor :=
  ⟨tokens.takeWhile (!·.isFinish), (tokens.find? (·.isFinish)).getD (.finish .start), #[], nextId⟩

/-- Every level of nesting takes a token for each two that it counts down. -/
def enough (tokens : List Token) : Nat := 2 * (tokens.length + 2)

def parse (nextId : Nat) (tokens : List Token) : Parsed :=
  let bound := enough tokens
  match statementsUntil (· == .finish) (declaration bound) bound [] (Cursor.start nextId tokens) with
  | .read program after => ⟨program, after.faults.toList, after.nextId⟩
  | .failed after => ⟨[], after.faults.toList, after.nextId⟩

end LoxLang.Grammar

import LoxLang.Grammar.Cursor
/-!
Reading expressions by precedence. Each level of binary operators groups to the left over the next
tighter level; assignment groups to the right; a call binds tightest. A number bounds the nesting,
and with it the length of every list; `Grammar.parse` starts with more than a token list can use.
-/
namespace LoxLang.Grammar

/-- The levels of binary operators, from the loosest to the tightest. -/
inductive Level where
  | disjunction
  | conjunction
  | equality
  | comparison
  | term
  | factor
deriving DecidableEq

inductive Operator where
  | binary (op : BinaryOp)
  | logical (op : LogicalOp)
deriving DecidableEq

def Operator.apply (site : Site) (left right : Expr) : Operator → Expr
  | .binary op => .binary site op left right
  | .logical op => .logical site op left right

def Level.operator? : Level → TokenKind → Option Operator
  | .disjunction, .keyword .or => some (.logical .or)
  | .conjunction, .keyword .and => some (.logical .and)
  | .equality, .symbol .equalEqual => some (.binary .equal)
  | .equality, .symbol .bangEqual => some (.binary .notEqual)
  | .comparison, .symbol .greater => some (.binary .greater)
  | .comparison, .symbol .greaterEqual => some (.binary .greaterEqual)
  | .comparison, .symbol .less => some (.binary .less)
  | .comparison, .symbol .lessEqual => some (.binary .lessEqual)
  | .term, .symbol .minus => some (.binary .subtract)
  | .term, .symbol .plus => some (.binary .add)
  | .factor, .symbol .star => some (.binary .multiply)
  | .factor, .symbol .slash => some (.binary .divide)
  | _, _ => none

def unaryOperator? : TokenKind → Option UnaryOp
  | .symbol .minus => some .negative
  | .symbol .bang => some .not
  | _ => none

/-- Operators that need a left operand; a minus sign does not. -/
def needsLeftOperand : Symbol → Bool
  | .equalEqual | .bangEqual | .greater | .greaterEqual | .less | .lessEqual => true
  | .plus | .star | .slash => true
  | _ => false

def chainFrom (level : Level) (operand : Reader Expr) : Nat → Expr → Reader Expr
  | 0, left => pure left
  | bound + 1, left => do
    match ← takeIf? level.operator? with
    | none => pure left
    | some (operator, token) =>
      let right ← operand
      let site ← newSite token.line
      chainFrom level operand bound (operator.apply site left right)

/-- Operands joined by the operators of one level, grouped to the left. -/
def chain (bound : Nat) (level : Level) (operand : Reader Expr) : Reader Expr := do
  chainFrom level operand bound (← operand)

def factor (bound : Nat) (operand : Reader Expr) : Reader Expr := chain bound .factor operand

def term (bound : Nat) (operand : Reader Expr) : Reader Expr :=
  chain bound .term (factor bound operand)

def comparison (bound : Nat) (operand : Reader Expr) : Reader Expr :=
  chain bound .comparison (term bound operand)

def equality (bound : Nat) (operand : Reader Expr) : Reader Expr :=
  chain bound .equality (comparison bound operand)

def conjunction (bound : Nat) (operand : Reader Expr) : Reader Expr :=
  chain bound .conjunction (equality bound operand)

def disjunction (bound : Nat) (operand : Reader Expr) : Reader Expr :=
  chain bound .disjunction (conjunction bound operand)

/-- A fault in the target is reported at the equals sign and does not end the reading. -/
def assignment (target value : Reader Expr) : Reader Expr := do
  let left ← target
  match ← takeSymbol? .equal with
  | none => pure left
  | some sign =>
    let right ← value
    match left with
    | .variable site name =>
      let fresh ← newSite site.line
      pure (.assign fresh name right)
    | _ =>
      report sign .invalidTarget
      pure right

/-- An item beyond the limit is reported where it starts, and is read all the same. -/
def checkLimit (count : Nat) (cause : StaticCause) : Reader Unit := fun cursor =>
  if maxItems ≤ count then report cursor.token cause cursor else .read () cursor

def argumentsFrom (argument : Reader Expr) : Nat → Nat → List Expr → Reader (List Expr)
  | 0, _, _ => fail (.missing .expression)
  | bound + 1, count, done => do
    checkLimit count .tooManyArguments
    let next ← argument
    match ← takeSymbol? .comma with
    | none => pure (next :: done).reverse
    | some _ => argumentsFrom argument bound (count + 1) (next :: done)

def arguments (bound : Nat) (argument : Reader Expr) : Reader (List Expr) := do
  if (← peek).kind = .symbol .rightParen then pure []
  else argumentsFrom argument bound 0 []

def callsFrom (argument : Reader Expr) : Nat → Expr → Reader Expr
  | 0, callee => pure callee
  | bound + 1, callee => do
    match ← takeSymbol? .leftParen with
    | none => pure callee
    | some _ =>
      let values ← arguments bound argument
      let close ← needSymbol .rightParen .closeAfterArguments
      let site ← newSite close.line
      callsFrom argument bound (.call site callee values)

def literal (token : Token) (value : Literal) : Reader Expr := do
  let _ ← take
  let site ← newSite token.line
  pure (.literal site value)

def group (inner : Reader Expr) : Reader Expr := do
  let paren ← take
  let value ← inner
  let _ ← needSymbol .rightParen .closeAfterExpression
  let site ← newSite paren.line
  pure (.group site value)

/-- An operator without its left operand. What looks like its right operand is passed over, so that
only the operator is reported. -/
def misplaced (right : Reader Expr) : Reader Expr := do
  report (← peek) (.missing .leftOperand)
  let _ ← take
  silently right
  giveUp

/-- A token that starts no expression is left in place for the recovery to look at. -/
def primary (inner right : Reader Expr) : Reader Expr := do
  let token ← peek
  match token.kind with
  | .keyword .true => literal token (.boolean true)
  | .keyword .false => literal token (.boolean false)
  | .keyword .nil => literal token .nil
  | .string | .number =>
    match token.literal with
    | some value => literal token value
    | none => fail (.missing .expression)
  | .identifier =>
    let _ ← take
    let site ← newSite token.line
    pure (.variable site token.lexeme)
  | .symbol .leftParen => group inner
  | .symbol symbol =>
    if needsLeftOperand symbol then misplaced right else fail (.missing .expression)
  | _ => fail (.missing .expression)

def call (bound : Nat) (inner right : Reader Expr) : Reader Expr := do
  callsFrom inner bound (← primary inner right)

def unaryOr (operand : Reader Expr) (otherwise : Reader Expr) : Reader Expr := do
  match ← takeIf? unaryOperator? with
  | none => otherwise
  | some (op, token) =>
    let value ← operand
    let site ← newSite token.line
    pure (.unary site op value)

mutual

def expression : Nat → Cursor → Reading Expr
  | 0, cursor => fail (.missing .expression) cursor
  | bound + 1, cursor =>
    assignment (disjunction bound (unary bound)) (expression bound) cursor

def unary : Nat → Cursor → Reading Expr
  | 0, cursor => fail (.missing .expression) cursor
  | bound + 1, cursor =>
    unaryOr (unary bound) (call bound (expression bound) (comparison bound (unary bound))) cursor

end

end LoxLang.Grammar

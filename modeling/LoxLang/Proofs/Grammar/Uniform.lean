import LoxLang.Grammar.Statement

/-!
Properties that all readers have because their parts have them. What holds of the few readers that look
at the cursor themselves, and goes on from one reader to the next, holds of the readers of all phrases.
-/
namespace LoxLang.Grammar

/-- Every way to put readers together keeps the property. -/
structure Uniform (keeps : {α : Type} → Reader α → Prop) : Prop where
  pure {α : Type} (value : α) : keeps (Pure.pure value : Reader α)
  bind {α β : Type} {first : Reader α} {next : α → Reader β} :
    keeps first → (∀ value, keeps (next value)) → keeps (first >>= next)
  fail {α : Type} (cause : StaticCause) : keeps (Grammar.fail cause : Reader α)
  peek : keeps Grammar.peek
  take : keeps Grammar.take
  newSite (line : Nat) : keeps (Grammar.newSite line)
  takeIf? {α : Type} (choose : TokenKind → Option α) : keeps (Grammar.takeIf? choose)
  checkLimit (count : Nat) (cause : StaticCause) : keeps (Grammar.checkLimit count cause)
  assignment {target value : Reader Expr} :
    keeps target → keeps value → keeps (Grammar.assignment target value)
  misplaced {right : Reader Expr} : keeps right → keeps (Grammar.misplaced right)
  orRecover {item : Reader Stmt} : keeps item → keeps (Grammar.orRecover item)

namespace Uniform

variable {keeps : {α : Type} → Reader α → Prop} (uniform : Uniform @keeps)

include uniform

theorem map {α β : Type} {reader : Reader α} (change : α → β) (kept : keeps reader) :
    keeps (change <$> reader) :=
  uniform.bind kept fun value => uniform.pure (change value)

theorem takeKind? (kind : TokenKind) : keeps (Grammar.takeKind? kind) :=
  uniform.bind (uniform.takeIf? _) fun found =>
    match found with
    | none => uniform.pure none
    | some (_, token) => uniform.pure (some token)

theorem needSymbol (symbol : Symbol) (part : Part) : keeps (Grammar.needSymbol symbol part) :=
  uniform.bind (uniform.takeKind? _) fun found =>
    match found with
    | none => uniform.fail _
    | some token => uniform.pure token

theorem needName (part : Part) : keeps (Grammar.needName part) :=
  uniform.bind (uniform.takeKind? _) fun found =>
    match found with
    | none => uniform.fail _
    | some token => uniform.pure (⟨token.lexeme, token.line⟩ : Ident)

section Expressions

theorem chainFrom (level : Level) {operand : Reader Expr} (kept : keeps operand) (bound : Nat)
    (left : Expr) : keeps (Grammar.chainFrom level operand bound left) := by
  induction bound generalizing left with
  | zero => exact uniform.pure left
  | succ bound ih =>
    refine uniform.bind (uniform.takeIf? _) fun found => ?_
    match found with
    | none => exact uniform.pure left
    | some (operator, token) =>
      exact uniform.bind kept fun right => uniform.bind (uniform.newSite _) fun site => ih _

theorem chain (bound : Nat) (level : Level) {operand : Reader Expr} (kept : keeps operand) :
    keeps (Grammar.chain bound level operand) :=
  uniform.bind kept fun left => uniform.chainFrom level kept bound left

theorem comparison (bound : Nat) {operand : Reader Expr} (kept : keeps operand) :
    keeps (Grammar.comparison bound operand) :=
  uniform.chain bound .comparison <| uniform.chain bound .term <| uniform.chain bound .factor kept

theorem disjunction (bound : Nat) {operand : Reader Expr} (kept : keeps operand) :
    keeps (Grammar.disjunction bound operand) :=
  uniform.chain bound .disjunction <| uniform.chain bound .conjunction <|
    uniform.chain bound .equality <| uniform.comparison bound kept

theorem argumentsFrom {argument : Reader Expr} (kept : keeps argument) (bound count : Nat)
    (done : List Expr) : keeps (Grammar.argumentsFrom argument bound count done) := by
  induction bound generalizing count done with
  | zero => exact uniform.fail _
  | succ bound ih =>
    refine uniform.bind (uniform.checkLimit _ _) fun _ => uniform.bind kept fun next =>
      uniform.bind (uniform.takeKind? _) fun found => ?_
    match found with
    | none => exact uniform.pure _
    | some _ => exact ih _ _

theorem arguments (bound : Nat) {argument : Reader Expr} (kept : keeps argument) :
    keeps (Grammar.arguments bound argument) := by
  refine uniform.bind uniform.peek fun token => ?_
  split
  · exact uniform.pure []
  · exact uniform.argumentsFrom kept bound 0 []

theorem callsFrom {argument : Reader Expr} (kept : keeps argument) (bound : Nat) (callee : Expr) :
    keeps (Grammar.callsFrom argument bound callee) := by
  induction bound generalizing callee with
  | zero => exact uniform.pure callee
  | succ bound ih =>
    refine uniform.bind (uniform.takeKind? _) fun found => ?_
    match found with
    | none => exact uniform.pure callee
    | some _ =>
      exact uniform.bind (uniform.arguments bound kept) fun values =>
        uniform.bind (uniform.needSymbol _ _) fun close =>
          uniform.bind (uniform.newSite _) fun site => ih _

theorem literal (token : Token) (value : Literal) : keeps (Grammar.literal token value) :=
  uniform.bind uniform.take fun _ => uniform.bind (uniform.newSite _) fun _ => uniform.pure _

theorem group {inner : Reader Expr} (kept : keeps inner) : keeps (Grammar.group inner) :=
  uniform.bind uniform.take fun _ => uniform.bind kept fun _ =>
    uniform.bind (uniform.needSymbol _ _) fun _ => uniform.bind (uniform.newSite _) fun _ =>
      uniform.pure _

theorem primary {inner right : Reader Expr} (kept : keeps inner) (rightKept : keeps right) :
    keeps (Grammar.primary inner right) := by
  refine uniform.bind uniform.peek fun token => ?_
  split
  case h_4 | h_5 =>
    split
    · exact uniform.literal token _
    · exact uniform.fail _
  case h_6 =>
    exact uniform.bind uniform.take fun _ => uniform.bind (uniform.newSite _) fun _ => uniform.pure _
  case h_7 => exact uniform.group kept
  case h_8 =>
    split
    · exact uniform.misplaced rightKept
    · exact uniform.fail _
  case h_9 => exact uniform.fail _
  all_goals exact uniform.literal token _

theorem call (bound : Nat) {inner right : Reader Expr} (kept : keeps inner)
    (rightKept : keeps right) : keeps (Grammar.call bound inner right) :=
  uniform.bind (uniform.primary kept rightKept) fun callee => uniform.callsFrom kept bound callee

theorem unaryOr {operand otherwise : Reader Expr} (kept : keeps operand)
    (otherwiseKept : keeps otherwise) : keeps (Grammar.unaryOr operand otherwise) := by
  refine uniform.bind (uniform.takeIf? _) fun found => ?_
  match found with
  | none => exact otherwiseKept
  | some (op, token) =>
    exact uniform.bind kept fun _ => uniform.bind (uniform.newSite _) fun _ => uniform.pure _

theorem expression_unary (bound : Nat) :
    keeps (Grammar.expression bound) ∧ keeps (Grammar.unary bound) := by
  induction bound with
  | zero => exact ⟨uniform.fail _, uniform.fail _⟩
  | succ bound ih =>
    obtain ⟨expressionKept, unaryKept⟩ := ih
    have call := uniform.call bound expressionKept (uniform.comparison bound unaryKept)
    exact ⟨uniform.assignment (uniform.disjunction bound unaryKept) expressionKept,
      uniform.unaryOr unaryKept call⟩

theorem expression (bound : Nat) : keeps (Grammar.expression bound) :=
  (uniform.expression_unary bound).1

theorem unary (bound : Nat) : keeps (Grammar.unary bound) := (uniform.expression_unary bound).2

end Expressions
section Statements

variable {value : Reader Expr} {inner item : Reader Stmt} {block : Reader (List Stmt)}

theorem statementsUntil (stop : TokenKind → Bool) (kept : keeps item) (bound : Nat)
    (done : List Stmt) : keeps (Grammar.statementsUntil stop item bound done) := by
  induction bound generalizing done with
  | zero => exact uniform.pure _
  | succ bound ih =>
    refine uniform.bind uniform.peek fun token => ?_
    split
    · exact uniform.pure _
    · exact uniform.bind (uniform.orRecover kept) fun statement => ih _

theorem restOfBlock (bound : Nat) (kept : keeps item) : keeps (Grammar.restOfBlock bound item) :=
  uniform.bind (uniform.statementsUntil _ kept _ _) fun _ =>
    uniform.bind (uniform.needSymbol _ _) fun _ => uniform.pure _

theorem initializer (kept : keeps value) : keeps (Grammar.initializer value) :=
  uniform.bind (uniform.takeKind? _) fun found =>
    match found with
    | none => uniform.pure none
    | some _ => uniform.map some kept

theorem restOfVariable (kept : keeps value) : keeps (Grammar.restOfVariable value) :=
  uniform.bind (uniform.needName _) fun _ => uniform.bind (uniform.initializer kept) fun _ =>
    uniform.bind (uniform.needSymbol _ _) fun _ => uniform.pure _

theorem parametersFrom (bound count : Nat) (done : List Ident) :
    keeps (Grammar.parametersFrom bound count done) := by
  induction bound generalizing count done with
  | zero => exact uniform.pure _
  | succ bound ih =>
    refine uniform.bind (uniform.takeKind? _) fun found => ?_
    match found with
    | none => exact uniform.pure _
    | some _ =>
      exact uniform.bind (uniform.checkLimit _ _) fun _ =>
        uniform.bind (uniform.needName _) fun _ => ih _ _

theorem parameters (bound : Nat) : keeps (Grammar.parameters bound) := by
  refine uniform.bind (uniform.takeKind? _) fun found => ?_
  match found with
  | some _ => exact uniform.pure []
  | none =>
    exact uniform.bind (uniform.needName _) fun _ =>
      uniform.bind (uniform.parametersFrom _ _ _) fun _ =>
        uniform.bind (uniform.needSymbol _ _) fun _ => uniform.pure _

theorem restOfFunction (bound : Nat) (kept : keeps block) :
    keeps (Grammar.restOfFunction bound block) :=
  uniform.bind (uniform.needName _) fun _ => uniform.bind (uniform.needSymbol _ _) fun _ =>
    uniform.bind (uniform.parameters bound) fun _ => uniform.bind (uniform.needSymbol _ _) fun _ =>
      uniform.bind kept fun _ => uniform.pure _

theorem restOfExpression (kept : keeps value) : keeps (Grammar.restOfExpression value) :=
  uniform.bind kept fun _ => uniform.bind (uniform.needSymbol _ _) fun _ => uniform.pure _

theorem restOfPrint (kept : keeps value) : keeps (Grammar.restOfPrint value) :=
  uniform.bind kept fun _ => uniform.bind (uniform.needSymbol _ _) fun _ => uniform.pure _

theorem restOfReturn (line : Nat) (kept : keeps value) : keeps (Grammar.restOfReturn line value) := by
  refine uniform.bind (uniform.takeKind? _) fun found => ?_
  match found with
  | some _ => exact uniform.pure _
  | none =>
    exact uniform.bind kept fun _ => uniform.bind (uniform.needSymbol _ _) fun _ => uniform.pure _

theorem restOfIf (kept : keeps value) (innerKept : keeps inner) :
    keeps (Grammar.restOfIf value inner) := by
  refine uniform.bind (uniform.needSymbol _ _) fun _ => uniform.bind kept fun test =>
    uniform.bind (uniform.needSymbol _ _) fun _ => uniform.bind innerKept fun yes =>
      uniform.bind (uniform.takeKind? _) fun found => ?_
  match found with
  | none => exact uniform.pure _
  | some _ => exact uniform.map _ innerKept

theorem restOfWhile (kept : keeps value) (innerKept : keeps inner) :
    keeps (Grammar.restOfWhile value inner) :=
  uniform.bind (uniform.needSymbol _ _) fun _ => uniform.bind kept fun _ =>
    uniform.bind (uniform.needSymbol _ _) fun _ => uniform.bind innerKept fun _ => uniform.pure _

theorem forInitializer (kept : keeps value) : keeps (Grammar.forInitializer value) := by
  refine uniform.bind (uniform.takeKind? _) fun empty => ?_
  match empty with
  | some _ => exact uniform.pure none
  | none =>
    refine uniform.bind (uniform.takeKind? _) fun found => ?_
    match found with
    | some _ => exact uniform.map some (uniform.restOfVariable kept)
    | none => exact uniform.map some (uniform.restOfExpression kept)

theorem forCondition (line : Nat) (kept : keeps value) : keeps (Grammar.forCondition line value) := by
  refine uniform.bind uniform.peek fun token => ?_
  split
  · exact uniform.bind (uniform.newSite _) fun _ => uniform.pure _
  · exact kept

theorem forIncrement (kept : keeps value) : keeps (Grammar.forIncrement value) := by
  refine uniform.bind uniform.peek fun token => ?_
  split
  · exact uniform.pure none
  · exact uniform.map some kept

theorem restOfFor (kept : keeps value) (innerKept : keeps inner) :
    keeps (Grammar.restOfFor value inner) :=
  uniform.bind uniform.peek fun _ => uniform.bind (uniform.needSymbol _ _) fun _ =>
    uniform.bind (uniform.forInitializer kept) fun _ =>
      uniform.bind (uniform.forCondition _ kept) fun _ =>
        uniform.bind (uniform.needSymbol _ _) fun _ =>
          uniform.bind (uniform.forIncrement kept) fun _ =>
            uniform.bind (uniform.needSymbol _ _) fun _ => uniform.bind innerKept fun _ =>
              uniform.pure _

theorem statementWith (kept : keeps value) (blockKept : keeps block) (innerKept : keeps inner) :
    keeps (Grammar.statementWith value block inner) := by
  refine uniform.bind (uniform.takeIf? _) fun found => ?_
  match found with
  | none => exact uniform.restOfExpression kept
  | some (.if, _) => exact uniform.restOfIf kept innerKept
  | some (.while, _) => exact uniform.restOfWhile kept innerKept
  | some (.for, _) => exact uniform.restOfFor kept innerKept
  | some (.print, _) => exact uniform.restOfPrint kept
  | some (.return, token) => exact uniform.restOfReturn token.line kept
  | some (.block, _) => exact uniform.map _ blockKept

theorem declarationWith (bound : Nat) (kept : keeps value) (blockKept : keeps block)
    (innerKept : keeps inner) : keeps (Grammar.declarationWith bound value block inner) := by
  refine uniform.bind (uniform.takeKind? _) fun found => ?_
  match found with
  | some _ => exact uniform.restOfVariable kept
  | none =>
    refine uniform.bind (uniform.takeKind? _) fun found => ?_
    match found with
    | some _ => exact uniform.restOfFunction bound blockKept
    | none => exact innerKept

theorem declaration_statement (bound : Nat) :
    keeps (Grammar.declaration bound) ∧ keeps (Grammar.statement bound) := by
  induction bound with
  | zero => exact ⟨uniform.fail _, uniform.fail _⟩
  | succ bound ih =>
    obtain ⟨declarationKept, statementKept⟩ := ih
    have kept := uniform.expression bound
    have blockKept := uniform.restOfBlock bound declarationKept
    exact ⟨uniform.declarationWith bound kept blockKept statementKept,
      uniform.statementWith kept blockKept statementKept⟩

theorem declaration (bound : Nat) : keeps (Grammar.declaration bound) :=
  (uniform.declaration_statement bound).1

theorem statement (bound : Nat) : keeps (Grammar.statement bound) :=
  (uniform.declaration_statement bound).2

end Statements
end Uniform
end LoxLang.Grammar

import LoxLang.Proofs.Grammar.Progress
import LoxLang.Proofs.Syntax.Nodes

/-!
Programs that are read are regular: the grammar asks for a statement, not for a declaration, where a
branch or the body of a loop is due.
-/
namespace LoxLang.Grammar

variable {α β : Type}

def Reader.Gives (reader : Reader α) (holds : α → Prop) : Prop :=
  ∀ cursor value after, reader cursor = .read value after → holds value

namespace Reader.Gives

variable {holds : α → Prop}

theorem pure {value : α} (true : holds value) : (Pure.pure value : Reader α).Gives holds := by
  intro cursor result after read
  cases read
  exact true

theorem fail (cause : StaticCause) : (Grammar.fail cause : Reader α).Gives holds :=
  fun _ _ _ => nofun

theorem bind {first : Reader α} {next : α → Reader β} {result : β → Prop}
    (start : first.Gives holds) (further : ∀ value, holds value → (next value).Gives result) :
    (first >>= next).Gives result := by
  intro cursor value after read
  obtain ⟨found, middle, readFound, readValue⟩ := bind_eq_read.mp read
  exact further found (start cursor found middle readFound) middle value after readValue

theorem past {first : Reader α} {next : α → Reader β} {result : β → Prop}
    (further : ∀ value, (next value).Gives result) : (first >>= next).Gives result := by
  have anything : first.Gives fun _ => True := fun _ _ _ _ => trivial
  exact anything.bind fun value _ => further value

theorem map {reader : Reader α} {change : α → β} {result : β → Prop}
    (start : reader.Gives holds) (changed : ∀ value, holds value → result (change value)) :
    (change <$> reader).Gives result :=
  start.bind fun value true => pure (changed value true)

theorem weaken {reader : Reader α} {less : α → Prop} (start : reader.Gives holds)
    (weaker : ∀ value, holds value → less value) : reader.Gives less :=
  fun cursor value after read => weaker value (start cursor value after read)

end Reader.Gives

def IsBranch (statement : Stmt) : Prop := statement.isDeclaration = false ∧ statement.Regular

variable {value : Reader Expr} {inner item : Reader Stmt} {block : Reader (List Stmt)}

theorem regular_orRecover (regular : item.Gives Stmt.Regular) :
    (orRecover item).Gives fun found => Stmt.RegularAll found.toList := by
  intro cursor found after read
  unfold orRecover at read
  split at read
  · rename_i statement final result
    cases read
    exact ⟨regular _ _ _ result, trivial⟩
  · cases read
    trivial

theorem regular_statementsUntil (stop : TokenKind → Bool) (regular : item.Gives Stmt.Regular)
    (bound : Nat) (done : List Stmt) (before : Stmt.RegularAll done.reverse) :
    (statementsUntil stop item bound done).Gives Stmt.RegularAll := by
  induction bound generalizing done with
  | zero => exact .pure before
  | succ bound ih =>
    refine .past fun token => ?_
    split
    · exact .pure before
    · refine (regular_orRecover regular).bind fun found further => ih _ ?_
      rw [List.reverse_append, Stmt.regularAll_append]
      cases found with
      | none => exact ⟨before, trivial⟩
      | some statement => exact ⟨before, further⟩

theorem regular_restOfBlock (bound : Nat) (regular : item.Gives Stmt.Regular) :
    (restOfBlock bound item).Gives Stmt.RegularAll :=
  (regular_statementsUntil _ regular bound [] trivial).bind fun _ body => .past fun _ => .pure body

theorem regular_restOfVariable : (restOfVariable value).Gives Stmt.Regular :=
  .past fun _ => .past fun _ => .past fun _ => .pure trivial

theorem regular_restOfFunction (bound : Nat) (regular : block.Gives Stmt.RegularAll) :
    (restOfFunction bound block).Gives Stmt.Regular :=
  .past fun _ => .past fun _ => .past fun _ => .past fun _ => regular.bind fun _ body => .pure body

theorem branch_restOfExpression : (restOfExpression value).Gives IsBranch :=
  .past fun _ => .past fun _ => .pure ⟨rfl, trivial⟩

theorem branch_restOfPrint : (restOfPrint value).Gives IsBranch :=
  .past fun _ => .past fun _ => .pure ⟨rfl, trivial⟩

theorem branch_restOfReturn (line : Nat) : (restOfReturn line value).Gives IsBranch := by
  refine .past fun found => ?_
  match found with
  | some _ => exact .pure ⟨rfl, trivial⟩
  | none => exact .past fun _ => .past fun _ => .pure ⟨rfl, trivial⟩

theorem branch_restOfIf (branch : inner.Gives IsBranch) :
    (restOfIf value inner).Gives IsBranch := by
  refine .past fun _ => .past fun _ => .past fun _ => branch.bind fun yes yesBranch =>
    .past fun found => ?_
  match found with
  | none => exact .pure ⟨rfl, yesBranch⟩
  | some _ => exact branch.map fun no noBranch => ⟨rfl, yesBranch, noBranch⟩

theorem branch_restOfWhile (branch : inner.Gives IsBranch) :
    (restOfWhile value inner).Gives IsBranch :=
  .past fun _ => .past fun _ => .past fun _ => branch.bind fun _ body => .pure ⟨rfl, body⟩

theorem regular_forInitializer :
    (forInitializer value).Gives fun found => Stmt.RegularAll found.toList := by
  refine .past fun empty => ?_
  match empty with
  | some _ => exact .pure trivial
  | none =>
    refine .past fun found => ?_
    match found with
    | some _ => exact regular_restOfVariable.map fun _ regular => ⟨regular, trivial⟩
    | none => exact branch_restOfExpression.map fun _ branch => ⟨branch.2, trivial⟩

theorem branch_round (condition : Expr) (increment : Option Expr) {body : Stmt}
    (branch : IsBranch body) : IsBranch (forLoop none condition increment body) := by
  cases increment with
  | none => exact ⟨rfl, branch⟩
  | some step => exact ⟨rfl, rfl, branch.2, trivial, trivial⟩

theorem branch_forLoop {initial : Option Stmt} (condition : Expr) (increment : Option Expr)
    {body : Stmt} (initialRegular : Stmt.RegularAll initial.toList) (branch : IsBranch body) :
    IsBranch (forLoop initial condition increment body) := by
  have round := branch_round condition increment branch
  cases initial with
  | none => exact round
  | some first => exact ⟨rfl, initialRegular.1, round.2, trivial⟩

theorem branch_restOfFor (branch : inner.Gives IsBranch) :
    (restOfFor value inner).Gives IsBranch :=
  .past fun _ => .past fun _ => regular_forInitializer.bind fun _ initialRegular =>
    .past fun condition => .past fun _ => .past fun increment => .past fun _ =>
      branch.bind fun _ body => .pure (branch_forLoop condition increment initialRegular body)

theorem branch_statementWith (regular : block.Gives Stmt.RegularAll)
    (branch : inner.Gives IsBranch) : (statementWith value block inner).Gives IsBranch := by
  refine .past fun found => ?_
  match found with
  | none => exact branch_restOfExpression
  | some (.if, _) => exact branch_restOfIf branch
  | some (.while, _) => exact branch_restOfWhile branch
  | some (.for, _) => exact branch_restOfFor branch
  | some (.print, _) => exact branch_restOfPrint
  | some (.return, token) => exact branch_restOfReturn token.line
  | some (.block, _) => exact regular.map fun _ body => ⟨rfl, body⟩

theorem regular_declarationWith (bound : Nat) (regular : block.Gives Stmt.RegularAll)
    (branch : inner.Gives IsBranch) :
    (declarationWith bound value block inner).Gives Stmt.Regular := by
  refine .past fun found => ?_
  match found with
  | some _ => exact regular_restOfVariable
  | none =>
    refine .past fun found => ?_
    match found with
    | some _ => exact regular_restOfFunction bound regular
    | none => exact branch.weaken fun _ both => both.2

theorem regular_declaration_branch_statement (bound : Nat) :
    Reader.Gives (declaration bound) Stmt.Regular ∧ Reader.Gives (statement bound) IsBranch := by
  induction bound with
  | zero => exact ⟨.fail _, .fail _⟩
  | succ bound ih =>
    have block := regular_restOfBlock bound ih.1
    exact ⟨regular_declarationWith bound block ih.2, branch_statementWith block ih.2⟩

theorem parse_regular (nextId : Nat) (tokens : List Token) :
    Stmt.RegularAll (parse nextId tokens).program := by
  obtain ⟨program, after, read, result⟩ := parse_eq nextId tokens
  have regular := (regular_declaration_branch_statement (enough tokens)).1
  rw [result]
  exact regular_statementsUntil _ regular _ [] trivial _ program after read

theorem Parsed.program_eq {parsed : Parsed} {program : Program}
    (accepted : parsed.program? = some program) : parsed.program = program := by
  rw [program?] at accepted
  split at accepted
  · exact Option.some.inj accepted
  · cases accepted

end LoxLang.Grammar

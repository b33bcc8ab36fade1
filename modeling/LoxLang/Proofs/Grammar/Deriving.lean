import LoxLang.Proofs.Grammar.Derivations
import LoxLang.Proofs.Grammar.Accepting

/-!
What is read without a report is derived. Recovery never passes for success: a declaration that is
dropped has been reported.
-/
namespace LoxLang.Grammar

variable {value : Reader Expr} {inner item : Reader Stmt} {block : Reader (List Stmt)}

def Reader.Parses (value : Reader Expr) : Prop :=
  value.Accepts fun tree tokens _ => Expressed tree tokens

theorem parses_expression (bound : Nat) : Reader.Parses (expression bound) :=
  (accepts_expression bound).weaken fun _ _ _ reads => ⟨reads.levelled, reads.spells⟩

section Clauses

theorem accepts_initializer (parses : value.Parses) :
    (initializer value).Accepts fun initial tokens _ => Initializes initial tokens := by
  refine (accepts_takeKind? _).bind fun found => ?_
  match found with
  | none =>
    refine .pure ?_
    rintro _ _ ⟨rfl, _⟩
    exact .none
  | some sign =>
    refine parses.map ?_
    rintro tree tokens _ expressed _ ⟨rfl, _, equal⟩
    exact .some equal expressed

theorem accepts_restOfVariable (parses : value.Parses) :
    (restOfVariable value).Accepts fun statement tokens _ => DeclaresVariable statement tokens := by
  refine (accepts_needName _).bind fun name => (accepts_initializer parses).bind fun initial =>
    (accepts_needSymbol _ _).bind fun semicolon => .pure ?_
  rintro _ _ ⟨rfl, ends⟩ initialized initializes named names
  exact .var names initializes ends

def NamesMore (count : Nat) (done names : List Ident) (tokens : List Token) : Prop :=
  ∃ more, names = done.reverse ++ more ∧
    (∀ first before, Names first before → Separated Names (first :: more) (before ++ tokens)) ∧
    (count ≤ maxItems → count + more.length ≤ maxItems)

theorem NamesMore.none (count : Nat) (done : List Ident) : NamesMore count done done.reverse [] := by
  refine ⟨[], (List.append_nil _).symm, fun first before names => ?_, fun within => within⟩
  rw [List.append_nil]
  exact .last names

theorem accepts_parametersFrom (bound count : Nat) (done : List Ident) :
    (parametersFrom bound count done).Accepts fun names tokens _ =>
      NamesMore count done names tokens := by
  induction bound generalizing count done with
  | zero => exact .pure fun _ => .none count done
  | succ bound ih =>
    refine (accepts_takeKind? _).bind fun found => ?_
    match found with
    | none =>
      refine .pure ?_
      rintro left _ ⟨rfl, _⟩
      exact .none count done
    | some comma =>
      refine (accepts_checkLimit _ _).bind fun _ => (accepts_needName _).bind fun next =>
        (ih _ _).weaken ?_
      rintro names tokens _ ⟨more, rfl, separated, within⟩ before nextNames _ ⟨rfl, limit⟩ _
        ⟨rfl, _, kind⟩
      refine ⟨next :: more, by simp, fun first ahead firstNames => ?_, fun _ => ?_⟩
      · exact .more firstNames kind (separated next before nextNames)
      · have fits := within limit
        rw [List.length_cons]
        omega

def ParametersThen (names : List Ident) (tokens : List Token) : Prop :=
  ∃ (listed : List Token) (closing : Token), tokens = listed ++ [closing] ∧
    Listed Names names listed ∧ names.length ≤ maxItems ∧ closing.kind = .symbol .rightParen

theorem accepts_parameters (bound : Nat) :
    (parameters bound).Accepts fun names tokens _ => ParametersThen names tokens := by
  refine (accepts_takeKind? _).bind fun found => ?_
  match found with
  | some closing =>
    refine .pure ?_
    rintro _ _ ⟨rfl, _, closes⟩
    exact ⟨[], closing, rfl, .none, Nat.zero_le _, closes⟩
  | none =>
    refine (accepts_needName _).bind fun first => (accepts_parametersFrom bound 1 [first]).bind
      fun names => (accepts_needSymbol _ _).bind fun closing => .pure ?_
    rintro _ _ ⟨rfl, closes⟩ tokens ⟨more, rfl, separated, within⟩ before firstNames _ ⟨rfl, _⟩
    have fits : (first :: more).length ≤ maxItems := by
      have := within (by decide)
      rw [List.length_cons]
      omega
    exact ⟨before ++ tokens, closing, by simp, .some (separated first before firstNames), fits,
      closes⟩

def BlockThen (body : List Stmt) (tokens : List Token) : Prop :=
  ∃ (inside : List Token) (last : Token), tokens = inside ++ [last] ∧
    Derives (.declarations body) inside ∧ last.kind = .symbol .rightBrace

theorem accepts_restOfFunction (bound : Nat)
    (blocks : block.Accepts fun body tokens _ => BlockThen body tokens) :
    (restOfFunction bound block).Accepts fun statement tokens _ =>
      ∀ keyword : Token, keyword.kind = .keyword .fun →
        Derives (.declaration statement) (keyword :: tokens) := by
  refine (accepts_needName _).bind fun name => (accepts_needSymbol _ _).bind fun opening =>
    (accepts_parameters bound).bind fun names => (accepts_needSymbol _ _).bind fun brace =>
      blocks.bind fun body => .pure ?_
  rintro _ _ ⟨inside, last, rfl, derives, ends⟩ _ ⟨rfl, braced⟩ _
    ⟨listed, closing, rfl, listing, within, closes⟩ _ ⟨rfl, opens⟩ named named_ keyword kind
  have whole := Derives.function kind named_ opens listing within closes braced derives ends
  simpa using whole

theorem accepts_restOfExpression (parses : value.Parses) :
    (restOfExpression value).Accepts fun statement tokens _ =>
      ∃ (tree : Expr) (inside : List Token) (semicolon : Token), statement = .expression tree ∧
        tokens = inside ++ [semicolon] ∧ Expressed tree inside ∧
        semicolon.kind = .symbol .semicolon := by
  refine parses.bind fun tree => (accepts_needSymbol _ _).bind fun semicolon => .pure ?_
  rintro _ _ ⟨rfl, ends⟩ inside expressed
  exact ⟨tree, inside, semicolon, rfl, rfl, expressed, ends⟩

theorem accepts_forInitializer (parses : value.Parses) :
    (forInitializer value).Accepts fun initial tokens _ => FirstClause initial tokens := by
  refine (accepts_takeKind? _).bind fun empty => ?_
  match empty with
  | some semicolon =>
    refine .pure ?_
    rintro _ _ ⟨rfl, _, ends⟩
    exact .none ends
  | none =>
    refine (accepts_takeKind? _).bind fun found => ?_
    match found with
    | some keyword =>
      refine (accepts_restOfVariable parses).map ?_
      rintro statement tokens _ declares _ ⟨rfl, _, kind⟩ _ ⟨rfl, _⟩
      exact .var kind declares
    | none =>
      refine (accepts_restOfExpression parses).map ?_
      rintro statement tokens _ ⟨tree, inside, semicolon, rfl, rfl, expressed, ends⟩ _ ⟨rfl, _⟩ _
        ⟨rfl, _⟩
      exact .expression expressed ends

theorem accepts_forCondition (line : Nat) (parses : value.Parses) :
    (forCondition line value).Accepts fun test tokens _ => SecondClause line test tokens := by
  refine accepts_peek.bind fun token => ?_
  split
  · refine (accepts_newSite _).bind fun site => .pure ?_
    rintro _ _ ⟨rfl, same⟩ _ ⟨rfl, _⟩
    obtain ⟨id, _⟩ := site
    cases same
    exact .none
  · refine parses.weaken ?_
    rintro _ _ _ expressed _ ⟨rfl, _⟩
    exact .some expressed

theorem accepts_forIncrement (parses : value.Parses) :
    (forIncrement value).Accepts fun step tokens _ => Optional step tokens := by
  refine accepts_peek.bind fun token => ?_
  split
  · refine .pure ?_
    rintro _ _ ⟨rfl, _⟩
    exact .none
  · refine parses.map ?_
    rintro _ _ _ expressed _ ⟨rfl, _⟩
    exact .some expressed

end Clauses

section Statements

def StatementThen (tree : Stmt) (tokens left : List Token) : Prop :=
  ∃ closed, Derives (.statement closed tree) tokens ∧ Follows closed left

def StatementOf (opening : Opening) (first : Token) (tree : Stmt) (tokens left : List Token) : Prop :=
  first.kind = opening.kind → StatementThen tree (first :: tokens) left

variable (first : Token)

theorem accepts_restOfPrint (parses : value.Parses) :
    (restOfPrint value).Accepts (StatementOf .print first) := by
  refine parses.bind fun tree => (accepts_needSymbol _ _).bind fun semicolon => .pure ?_
  rintro _ _ ⟨rfl, ends⟩ inside expressed kind
  exact ⟨true, .print kind expressed ends, nofun⟩

theorem accepts_restOfReturn (parses : value.Parses) :
    (restOfReturn first.line value).Accepts (StatementOf .return first) := by
  refine (accepts_takeKind? _).bind fun found => ?_
  match found with
  | some semicolon =>
    refine .pure ?_
    rintro _ _ ⟨rfl, _, ends⟩ kind
    exact ⟨true, .return kind .none ends, nofun⟩
  | none =>
    refine parses.bind fun tree => (accepts_needSymbol _ _).bind fun semicolon => .pure ?_
    rintro _ _ ⟨rfl, ends⟩ inside expressed _ ⟨rfl, _⟩ kind
    exact ⟨true, .return kind (.some expressed) ends, nofun⟩

/-- A branch that an `else` stands behind is closed, for otherwise it would have taken it. -/
theorem accepts_restOfIf (parses : value.Parses) (accepts : inner.Accepts StatementThen) :
    (restOfIf value inner).Accepts (StatementOf .if first) := by
  refine (accepts_needSymbol _ _).bind fun opening => parses.bind fun test =>
    (accepts_needSymbol _ _).bind fun closing => accepts.bind fun yes =>
      (accepts_takeKind? _).bind fun found => ?_
  match found with
  | none =>
    refine .pure ?_
    rintro left _ ⟨rfl, apart⟩ tokens ⟨closed, derives, _⟩ _ ⟨rfl, closes⟩ tested expressed _
      ⟨rfl, opens⟩ kind
    have whole := Derives.ifThen kind opens expressed closes derives
    exact ⟨false, by simpa using whole, fun _ => apart⟩
  | some other =>
    refine accepts.map ?_
    rintro no further left ⟨closed, derivesNo, follows⟩ _ ⟨rfl, _, otherwise⟩ tokens
      ⟨yesClosed, derivesYes, followsYes⟩ _ ⟨rfl, closes⟩ tested expressed _ ⟨rfl, opens⟩ kind
    cases yesClosed with
    | false => exact absurd otherwise (followsYes rfl other rfl)
    | true =>
      have whole := Derives.ifElse kind opens expressed closes derivesYes otherwise derivesNo
      exact ⟨closed, by simpa using whole, follows⟩

theorem accepts_restOfWhile (parses : value.Parses) (accepts : inner.Accepts StatementThen) :
    (restOfWhile value inner).Accepts (StatementOf .while first) := by
  refine (accepts_needSymbol _ _).bind fun opening => parses.bind fun test =>
    (accepts_needSymbol _ _).bind fun closing => accepts.bind fun body => .pure ?_
  rintro left tokens ⟨closed, derives, follows⟩ _ ⟨rfl, closes⟩ tested expressed _ ⟨rfl, opens⟩ kind
  have whole := Derives.while kind opens expressed closes derives
  exact ⟨closed, by simpa using whole, follows⟩

theorem accepts_restOfFor (parses : value.Parses) (accepts : inner.Accepts StatementThen) :
    (restOfFor value inner).Accepts (StatementOf .for first) := by
  refine accepts_peek.bind fun token => (accepts_needSymbol _ _).bind fun opening =>
    (accepts_forInitializer parses).bind fun initial => (accepts_forCondition _ parses).bind
      fun test => (accepts_needSymbol _ _).bind fun semicolon => (accepts_forIncrement parses).bind
        fun step => (accepts_needSymbol _ _).bind fun closing => accepts.bind fun body => .pure ?_
  rintro left tokens ⟨closed, derives, follows⟩ _ ⟨rfl, closes⟩ stepped third _ ⟨rfl, ends⟩ tested
    second begun clause _ ⟨rfl, opens⟩ _ ⟨rfl, seen⟩ kind
  -- the line of the condition is that of the token in front, which is the bracket
  cases seen.first
  have whole := Derives.for kind opens clause second ends third closes derives
  exact ⟨closed, by simpa using whole, follows⟩

theorem accepts_statementWith (parses : value.Parses)
    (blocks : block.Accepts fun body tokens _ => BlockThen body tokens)
    (accepts : inner.Accepts StatementThen) :
    (statementWith value block inner).Accepts StatementThen := by
  refine (accepts_takeIf? _).bind fun found => ?_
  have opened {opening : Opening} {first : Token} {reader : Reader Stmt}
      (accepts : reader.Accepts (StatementOf opening first)) :
      reader.Accepts fun tree tokens left => ∀ before,
        Chosen opening? (some (opening, first)) before (tokens ++ left) →
        StatementThen tree (before ++ tokens) left := by
    refine accepts.weaken ?_
    rintro tree tokens left statement _ ⟨rfl, _, chosen⟩
    exact statement (opening?_eq_some.mp chosen)
  match found with
  | none =>
    refine (accepts_restOfExpression parses).weaken ?_
    rintro tree tokens left ⟨value, inside, semicolon, rfl, rfl, expressed, ends⟩ _ ⟨rfl, _⟩
    exact ⟨true, .expression expressed ends, nofun⟩
  | some (.if, first) => exact opened (accepts_restOfIf first parses accepts)
  | some (.while, first) => exact opened (accepts_restOfWhile first parses accepts)
  | some (.for, first) => exact opened (accepts_restOfFor first parses accepts)
  | some (.print, first) => exact opened (accepts_restOfPrint first parses)
  | some (.return, first) => exact opened (accepts_restOfReturn first parses)
  | some (.block, first) =>
    refine blocks.map ?_
    rintro body _ left ⟨inside, last, rfl, derives, ends⟩ _ ⟨rfl, _, chosen⟩
    exact ⟨true, .block (opening?_eq_some.mp chosen) derives ends, nofun⟩

theorem accepts_declarationWith (bound : Nat) (parses : value.Parses)
    (blocks : block.Accepts fun body tokens _ => BlockThen body tokens)
    (accepts : inner.Accepts StatementThen) :
    (declarationWith bound value block inner).Accepts fun tree tokens _ =>
      Derives (.declaration tree) tokens := by
  refine (accepts_takeKind? _).bind fun found => ?_
  match found with
  | some keyword =>
    refine (accepts_restOfVariable parses).weaken ?_
    rintro tree tokens _ declares _ ⟨rfl, _, kind⟩
    exact .variable kind declares
  | none =>
    refine (accepts_takeKind? _).bind fun found => ?_
    match found with
    | some keyword =>
      refine (accepts_restOfFunction bound blocks).weaken ?_
      rintro tree tokens _ function _ ⟨rfl, _, kind⟩ _ ⟨rfl, _⟩
      exact function keyword kind
    | none =>
      refine accepts.weaken ?_
      rintro tree tokens _ ⟨_, derives, _⟩ _ ⟨rfl, _⟩ _ ⟨rfl, _⟩
      exact .statement derives

/-- What is dropped has been reported, so without a report nothing is. -/
theorem accepts_orRecover
    (items : item.Accepts fun tree tokens _ => Derives (.declaration tree) tokens) :
    (orRecover item).Accepts fun found tokens _ =>
      ∃ tree, found = some tree ∧ Derives (.declaration tree) tokens := by
  refine ⟨forward_orRecover items.1, fun cursor found after source read quiet => ?_⟩
  unfold orRecover at read
  split at read
  · rename_i tree final result
    cases read
    obtain ⟨tokens, here, derives⟩ := items.2 cursor tree after source result quiet
    exact ⟨tokens, here, tree, rfl, derives⟩
  · rename_i final result
    cases read
    exact absurd quiet (Nat.not_le.mpr (items.1.failed result).2)

/-- Declarations that follow those that are done; unless the rounds run out, the list has stopped. -/
def DeclarationsMore (stop : TokenKind → Bool) (rounds : Nat) (done : List Stmt)
    (program : List Stmt) (tokens left : List Token) : Prop :=
  ∃ more, program = done.reverse ++ more ∧ Derives (.declarations more) tokens ∧
    (rounds ≤ more.length ∨ ∃ token, Seen token left ∧ stop token.kind = true)

theorem accepts_statementsUntil (stop : TokenKind → Bool)
    (items : item.Accepts fun tree tokens _ => Derives (.declaration tree) tokens) (rounds : Nat)
    (done : List Stmt) :
    (statementsUntil stop item rounds done).Accepts (DeclarationsMore stop rounds done) := by
  induction rounds generalizing done with
  | zero => exact .pure fun _ => ⟨[], (List.append_nil _).symm, .nil, .inl (Nat.zero_le _)⟩
  | succ rounds ih =>
    refine accepts_peek.bind fun token => ?_
    split
    · rename_i stopped
      refine .pure ?_
      rintro left _ ⟨rfl, seen⟩
      exact ⟨[], (List.append_nil _).symm, .nil, .inr ⟨token, seen, stopped⟩⟩
    · refine (accepts_orRecover items).bind fun found => (ih _).weaken ?_
      rintro program tokens left ⟨more, rfl, derives, ended⟩ before ⟨tree, rfl, first⟩ _ ⟨rfl, _⟩
      have whole := Derives.cons first derives
      exact ⟨tree :: more, by simp, whole, ended.imp_left Nat.succ_le_succ⟩

theorem accepts_restOfBlock (bound : Nat)
    (items : item.Accepts fun tree tokens _ => Derives (.declaration tree) tokens) :
    (restOfBlock bound item).Accepts fun body tokens _ => BlockThen body tokens := by
  refine (accepts_statementsUntil _ items bound []).bind fun body =>
    (accepts_needSymbol _ _).bind fun last => .pure ?_
  rintro _ _ ⟨rfl, ends⟩ inside ⟨more, rfl, derives, _⟩
  exact ⟨inside, last, rfl, derives, ends⟩

theorem accepts_declaration_statement (bound : Nat) :
    (Reader.Accepts (declaration bound) fun tree tokens _ => Derives (.declaration tree) tokens) ∧
      Reader.Accepts (statement bound) StatementThen := by
  induction bound with
  | zero => exact ⟨accepts_fail _ _, accepts_fail _ _⟩
  | succ bound ih =>
    obtain ⟨declarations, statements⟩ := ih
    have parses := parses_expression bound
    have blocks := accepts_restOfBlock bound declarations
    exact ⟨accepts_declarationWith bound parses blocks statements,
      accepts_statementWith parses blocks statements⟩

end Statements
end LoxLang.Grammar

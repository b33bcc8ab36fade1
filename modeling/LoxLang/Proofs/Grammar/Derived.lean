import LoxLang.Proofs.Grammar.Derivations
import LoxLang.Proofs.Grammar.Completeness

/-!
Every derivation is followed by the readers. Each phrase is read from its tokens with a bound that they
pay for, whatever may stand behind it.
-/
namespace LoxLang.Grammar

variable {α β : Type}

theorem head_append {tokens : List Token} {allowed : Token → Prop}
    (head : ∃ first rest, tokens = first :: rest ∧ allowed first) (rest : List Token) :
    ∀ token ∈ (tokens ++ rest).head?, allowed token := by
  obtain ⟨first, others, rfl, allows⟩ := head
  rintro _ ⟨⟩
  exact allows

section Clauses

variable {value : Reader Expr} {bound length : Nat}

def Reader.Expresses (value : Reader Expr) (length : Nat) : Prop :=
  ∀ tree tokens, Expressed tree tokens → tokens.length ≤ length →
    value.Takes tokens (fun rest => ∃ token more, rest = token :: more ∧ endsExpression token.kind = true)
      fun found => found.erase = tree.erase

theorem expresses_expression (enough : 2 * length < bound) :
    Reader.Expresses (expression bound) length := by
  intro tree tokens expressed short
  refine (takes_expression expressed.levelled expressed.spells (by omega)).weaken ?_
    fun _ alike => alike
  rintro _ ⟨token, more, rfl, closing⟩
  refine Rank.ends_of_closing _ ?_
  rintro _ ⟨⟩
  exact closing

theorem Reader.Expresses.bind (expresses : value.Expresses length) {tree : Expr}
    {tokens after : List Token} (expressed : Expressed tree tokens) (short : tokens.length ≤ length)
    {closing : Token} (closes : endsExpression closing.kind = true) {next : Expr → Reader α}
    {follow : List Token → Prop} {holds : α → Prop}
    (further : ∀ found, found.erase = tree.erase →
      (next found).Takes (closing :: after) follow holds) :
    (value >>= next).Takes (tokens ++ closing :: after) follow holds :=
  (expresses tree tokens expressed short).bind (fun _ _ => ⟨closing, _, rfl, closes⟩) further

theorem takes_names {name : Ident} {named : List Token} (names : Names name named) (part : Part) :
    (needName part).Takes named (fun _ => True) (· = name) := by
  obtain ⟨token, rfl, _, kind, rfl⟩ := names
  exact takes_needName kind part

theorem takes_initializer (expresses : value.Expresses length) {initial : Option Expr}
    {tokens : List Token} (initializes : Initializes initial tokens)
    (short : tokens.length ≤ length) :
    (initializer value).Takes tokens
      (fun rest => ∃ token more, rest = token :: more ∧ token.kind = .symbol .semicolon)
      fun found => found.map Expr.erase = initial.map Expr.erase := by
  cases initializes with
  | none =>
    refine .bind_nil (leaves_takeKind? _) ?_ fun found this => ?_
    · rintro _ ⟨token, more, rfl, kind⟩ _ ⟨⟩
      rw [kind]
      decide
    · subst this
      exact .pure rfl
  | @some sign tree tokens equal expressed =>
    refine .bind_cons (takes_takeKind? equal) fun found this => ?_
    subst this
    rw [List.length_cons] at short
    refine ((expresses tree tokens expressed (by omega)).weaken ?_ fun _ alike => alike).map
      fun found alike => ?_
    · rintro _ ⟨token, more, rfl, kind⟩
      exact ⟨token, more, rfl, by rw [kind]; rfl⟩
    · exact congrArg some alike

theorem takes_restOfVariable (expresses : value.Expresses length) {statement : Stmt}
    {tokens : List Token} (declares : DeclaresVariable statement tokens)
    (short : tokens.length ≤ length) :
    (restOfVariable value).Takes tokens (fun _ => True)
      fun found => found.erase = statement.erase := by
  cases declares with
  | @var name initial semicolon named initialized names initializes kind =>
    rw [List.length_append, List.length_append] at short
    refine (takes_names names _).bind (fun _ _ => trivial) fun ident this => ?_
    subst this
    refine (takes_initializer expresses initializes (by omega)).bind
      (fun rest _ => ⟨semicolon, rest, rfl, kind⟩) fun found alike => ?_
    refine .bind_cons (takes_needSymbol kind _) fun _ _ => .pure ?_
    rw [Stmt.erase, Stmt.erase, alike]

/-- The names behind a comma are read as those before it, with one more counted. The first one is not
checked. -/
theorem reports_parameterNames {entries : List (Ident × Token)} {tokens : List Token}
    (separated : Separated (Begins Names) entries tokens) {bound count : Nat}
    (enough : tokens.length ≤ bound) (done : List Ident) :
    (needName .parameterName >>= fun first => parametersFrom bound count (first :: done)).Reports
      tokens (surplus .tooManyParameters (maxItems - count) (entries.map Prod.snd).tail)
      closesArguments (· = done.reverse ++ entries.map Prod.fst) := by
  induction separated generalizing bound count done with
  | @last entry tokens begins =>
    rw [List.map_singleton, List.tail_cons, surplus_nil, Reader.reports_nil,
      ← List.append_nil tokens]
    refine (takes_names begins.1 _).bind (fun _ _ => trivial) fun ident this => ?_
    subst this
    cases bound with
    | zero => exact .pure (by simp)
    | succ bound =>
      refine .bind_nil (leaves_takeKind? _) (fun rest closes token next => ?_) fun found this => ?_
      · rw [closes.closing token next]
        decide
      · subst this
        exact .pure (by simp)
  | @more entry rest before after comma begins kind further ih =>
    obtain ⟨first, more, others, starts, rfl⟩ := further.first
    simp only [List.length_append, List.length_cons] at enough
    obtain ⟨bound, rfl⟩ := Nat.exists_eq_add_one_of_ne_zero (show bound ≠ 0 by omega)
    refine .bind_silent (takes_names begins.1 _) (fun _ _ => trivial) fun ident this => ?_
    subst this
    refine .bind_cons (takes_takeKind? kind) fun found this => ?_
    subst this
    rw [List.map_cons, List.tail_cons, starts]
    have short : (first :: others).length ≤ bound := by
      rw [List.length_cons]
      omega
    have ahead := @ih bound (count + 1) short (entry.1 :: done)
    rw [starts, List.tail_cons] at ahead
    refine ahead.checked.weaken (fun _ closes => closes) fun found all => ?_
    rw [all]
    simp

theorem reports_parameters {entries : List (Ident × Token)} {tokens : List Token}
    (listed : Listed (Begins Names) entries tokens) (enough : tokens.length ≤ bound) {closing : Token}
    (closes : closing.kind = .symbol .rightParen) :
    (parameters bound).Reports (tokens ++ [closing])
      (surplus .tooManyParameters maxItems (entries.map Prod.snd)) (fun _ => True)
      (· = entries.map Prod.fst) := by
  cases listed with
  | none =>
    rw [List.map_nil, surplus_nil, Reader.reports_nil]
    refine .bind_cons (takes_takeKind? closes) fun found this => ?_
    subst this
    exact .pure rfl
  | some separated =>
    have head : ∃ first rest, tokens = first :: rest ∧ first.kind = .identifier := by
      cases separated with
      | last begins =>
        obtain ⟨token, rfl, _, kind, _⟩ := begins.1
        exact ⟨token, _, rfl, kind⟩
      | more begins _ _ =>
        obtain ⟨token, rfl, _, kind, _⟩ := begins.1
        exact ⟨token, _, rfl, kind⟩
    have apart (rest : List Token) : ∀ token ∈ (tokens ++ [closing] ++ rest).head?,
        token.kind ≠ .symbol .rightParen := by
      intro token next
      rw [List.append_assoc] at next
      rw [head_append head _ token next]
      decide
    refine .bind_nil (leaves_takeKind? _) (fun rest _ => apart rest) fun found this => ?_
    subst this
    have named : (needName .parameterName >>= fun first => parametersFrom bound 1 [first]).Reports
        tokens (surplus .tooManyParameters (maxItems - 1) (entries.map Prod.snd).tail) closesArguments
        (· = entries.map Prod.fst) := reports_parameterNames separated enough []
    rw [surplus_tail] at named
    change Reader.Reports (_ >>= fun first => parametersFrom bound 1 [first] >>= _) _ _ _ _
    rw [← Reader.bind_assoc]
    refine named.bind_last (fun rest _ => ⟨closing, rest, rfl, closes⟩) fun found this => ?_
    subst this
    exact .bind_cons (takes_needSymbol closes _) fun _ _ => .pure rfl

theorem reports_restOfFunction {block : Reader (List Stmt)} {name : Ident}
    {entries : List (Ident × Token)} {body : List Stmt} {opening closing brace : Token}
    {named listed tokens : List Token} (names : Names name named)
    (opens : opening.kind = .symbol .leftParen) (listing : Listed (Begins Names) entries listed)
    (enough : listed.length ≤ bound) (closes : closing.kind = .symbol .rightParen)
    (braced : brace.kind = .symbol .leftBrace)
    (takes : block.Takes tokens (fun _ => True)
      fun found => Stmt.eraseAll found = Stmt.eraseAll body) :
    (restOfFunction bound block).Reports
      (named ++ opening :: (listed ++ closing :: brace :: tokens))
      (surplus .tooManyParameters maxItems (entries.map Prod.snd)) (fun _ => True)
      fun found => ∃ statements, found = .function name (entries.map Prod.fst) statements ∧
        Stmt.eraseAll statements = Stmt.eraseAll body := by
  refine .bind_silent (takes_names names _) (fun _ _ => trivial) fun ident this => ?_
  subst this
  refine .bind_cons (takes_needSymbol opens _) fun _ _ => ?_
  rw [List.append_cons listed closing]
  refine (reports_parameters listing enough closes).bind_last (fun _ _ => trivial)
    fun found this => ?_
  subst this
  refine .bind_cons (takes_needSymbol braced _) fun _ _ => ?_
  rw [← List.append_nil tokens]
  exact takes.bind (fun _ _ => trivial) fun statements alike => .pure ⟨statements, rfl, alike⟩

theorem takes_restOfExpression (expresses : value.Expresses length) {tree : Expr}
    {tokens : List Token} (expressed : Expressed tree tokens) (short : tokens.length ≤ length)
    {semicolon : Token} (ends : semicolon.kind = .symbol .semicolon) :
    (restOfExpression value).Takes (tokens ++ [semicolon]) (fun _ => True)
      fun found => found.erase = (Stmt.expression tree).erase := by
  refine expresses.bind expressed short (by rw [ends]; rfl) fun found alike => ?_
  refine .bind_cons (takes_needSymbol ends _) fun _ _ => .pure ?_
  rw [Stmt.erase, Stmt.erase, alike]

theorem takes_restOfPrint (expresses : value.Expresses length) {tree : Expr} {tokens : List Token}
    (expressed : Expressed tree tokens) (short : tokens.length ≤ length) {semicolon : Token}
    (ends : semicolon.kind = .symbol .semicolon) :
    (restOfPrint value).Takes (tokens ++ [semicolon]) (fun _ => True)
      fun found => found.erase = (Stmt.print tree).erase := by
  refine expresses.bind expressed short (by rw [ends]; rfl) fun found alike => ?_
  refine .bind_cons (takes_needSymbol ends _) fun _ _ => .pure ?_
  rw [Stmt.erase, Stmt.erase, alike]

theorem Expressed.apart {tree : Expr} {tokens : List Token} (expressed : Expressed tree tokens)
    {kind : TokenKind} (other : startsExpression kind = false) (rest : List Token) :
    ∀ token ∈ (tokens ++ rest).head?, token.kind ≠ kind := by
  intro token next same
  have starts : startsExpression token.kind = true := head_append expressed.head rest token next
  rw [same, other] at starts
  cases starts

theorem takes_restOfReturn (expresses : value.Expresses length) {result : Option Expr}
    {tokens : List Token} (optional : Optional result tokens) (short : tokens.length ≤ length)
    {semicolon : Token} (ends : semicolon.kind = .symbol .semicolon) (line : Nat) :
    (restOfReturn line value).Takes (tokens ++ [semicolon]) (fun _ => True)
      fun found => found.erase = (Stmt.return line result).erase := by
  cases optional with
  | none =>
    refine .bind_cons (takes_takeKind? ends) fun found this => ?_
    subst this
    exact .pure rfl
  | some expressed =>
    refine .bind_nil (leaves_takeKind? _) (fun rest _ => ?_) fun found this => ?_
    · rw [List.append_assoc]
      exact expressed.apart rfl _
    · subst this
      refine expresses.bind expressed short (by rw [ends]; rfl) fun found alike => ?_
      refine .bind_cons (takes_needSymbol ends _) fun _ _ => .pure ?_
      rw [Stmt.erase, Stmt.erase, Option.map_some, Option.map_some, alike]

theorem takes_forInitializer (expresses : value.Expresses length) {initial : Option Stmt}
    {tokens : List Token} (clause : FirstClause initial tokens) (short : tokens.length ≤ length) :
    (forInitializer value).Takes tokens (fun _ => True)
      fun found => found.map Stmt.erase = initial.map Stmt.erase := by
  cases clause with
  | none ends =>
    refine .bind_cons (takes_takeKind? ends) fun found this => ?_
    subst this
    exact .pure rfl
  | var kind declares =>
    rw [List.length_cons] at short
    refine .bind_nil (leaves_takeKind? _) (fun rest _ => ?_) fun found this => ?_
    · rintro _ ⟨⟩
      rw [kind]
      decide
    · subst this
      refine .bind_cons (takes_takeKind? kind) fun found this => ?_
      subst this
      exact (takes_restOfVariable expresses declares (by omega)).map fun found alike =>
        congrArg some alike
  | expression expressed ends =>
    rw [List.length_append] at short
    refine .bind_nil (leaves_takeKind? _) (fun rest _ => ?_) fun found this => ?_
    · rw [List.append_assoc]
      exact expressed.apart rfl _
    · subst this
      refine .bind_nil (leaves_takeKind? _) (fun rest _ => ?_) fun found this => ?_
      · rw [List.append_assoc]
        exact expressed.apart rfl _
      · subst this
        exact (takes_restOfExpression expresses expressed (by omega) ends).map fun found alike =>
          congrArg some alike

theorem forCondition_none {cursor : Cursor} (line : Nat)
    (absent : cursor.token.kind = .symbol .semicolon) :
    forCondition line value cursor =
      .read (.literal ⟨cursor.nextId, line⟩ (.boolean true))
        { cursor with nextId := cursor.nextId + 1 } := by
  rw [forCondition, Reader.bind_apply]
  simp only [peek]
  rw [if_pos absent]
  rfl

theorem forCondition_some {cursor : Cursor} (line : Nat)
    (present : cursor.token.kind ≠ .symbol .semicolon) :
    forCondition line value cursor = value cursor := by
  rw [forCondition, Reader.bind_apply]
  simp only [peek]
  rw [if_neg present]

theorem takes_forCondition (expresses : value.Expresses length) {line : Nat} {test : Expr}
    {tokens : List Token} (clause : SecondClause line test tokens) (short : tokens.length ≤ length) :
    (forCondition line value).Takes tokens
      (fun rest => ∃ token more, rest = token :: more ∧ token.kind = .symbol .semicolon)
      fun found => found.erase = test.erase := by
  rintro cursor rest here ⟨token, more, rfl, kind⟩
  cases clause with
  | none =>
    rw [forCondition_none line (by rw [Cursor.token_eq here, kind])]
    cases cursor
    cases here
    exact ⟨_, _, rfl, rfl⟩
  | some expressed =>
    obtain ⟨first, others, rfl, _⟩ := expressed.head
    rw [forCondition_some line (by rw [Cursor.token_eq here]; exact expressed.apart rfl [] first rfl)]
    exact expresses test _ expressed short cursor _ here ⟨token, more, rfl, by rw [kind]; rfl⟩

theorem forIncrement_none {cursor : Cursor} (absent : cursor.token.kind = .symbol .rightParen) :
    forIncrement value cursor = .read none cursor := by
  rw [forIncrement, Reader.bind_apply]
  simp only [peek]
  rw [if_pos absent]
  rfl

theorem forIncrement_some {cursor : Cursor} (present : cursor.token.kind ≠ .symbol .rightParen) :
    forIncrement value cursor = (some <$> value) cursor := by
  rw [forIncrement, Reader.bind_apply]
  simp only [peek]
  rw [if_neg present]

theorem takes_forIncrement (expresses : value.Expresses length) {step : Option Expr}
    {tokens : List Token} (optional : Optional step tokens) (short : tokens.length ≤ length) :
    (forIncrement value).Takes tokens closesArguments
      fun found => found.map Expr.erase = step.map Expr.erase := by
  rintro cursor rest here ⟨token, more, rfl, kind⟩
  cases optional with
  | none =>
    rw [forIncrement_none (by rw [Cursor.token_eq here, kind])]
    cases cursor
    cases here
    exact ⟨_, _, rfl, rfl⟩
  | @some tree tokens expressed =>
    have takes : (some <$> value : Reader (Option Expr)).Takes tokens _
        fun found => found.map Expr.erase = (some tree).map Expr.erase :=
      (expresses tree tokens expressed short).map fun found alike => congrArg some alike
    obtain ⟨first, others, rfl, _⟩ := expressed.head
    rw [forIncrement_some (by rw [Cursor.token_eq here]; exact expressed.apart rfl [] first rfl)]
    exact takes cursor _ here ⟨token, more, rfl, by rw [kind]; rfl⟩

end Clauses

section Statements

variable {value : Reader Expr} {inner item : Reader Stmt} {block : Reader (List Stmt)}
  {bound length : Nat}

theorem takes_restOfIfThen (expresses : value.Expresses length) {opening closing : Token} {test : Expr}
    {yes : Stmt} {closed : Bool} {tested tokens : List Token}
    (opens : opening.kind = .symbol .leftParen) (expressed : Expressed test tested)
    (short : tested.length ≤ length) (closes : closing.kind = .symbol .rightParen)
    (takes : inner.Takes tokens (Follows closed) fun found => found.erase = yes.erase) :
    (restOfIf value inner).Takes (opening :: (tested ++ closing :: tokens)) (Follows false)
      fun found => found.erase = (Stmt.ifThen test yes).erase := by
  refine .bind_cons (takes_needSymbol opens _) fun _ _ => ?_
  refine expresses.bind expressed short (by rw [closes]; rfl) fun found alike => ?_
  refine .bind_cons (takes_needSymbol closes _) fun _ _ => ?_
  rw [← List.append_nil tokens]
  refine takes.bind (fun rest follows _ => follows rfl) fun branch alikeBranch => ?_
  refine .bind_nil (leaves_takeKind? _) (fun rest follows => follows rfl) fun other this => ?_
  subst this
  refine .pure ?_
  rw [Stmt.erase, Stmt.erase, alike, alikeBranch]

theorem takes_restOfIfElse (expresses : value.Expresses length) {opening closing other : Token}
    {test : Expr} {yes no : Stmt} {closed : Bool} {tested tokens further : List Token}
    (opens : opening.kind = .symbol .leftParen) (expressed : Expressed test tested)
    (short : tested.length ≤ length) (closes : closing.kind = .symbol .rightParen)
    (takesYes : inner.Takes tokens (Follows true) fun found => found.erase = yes.erase)
    (kind : other.kind = .keyword .else)
    (takesNo : inner.Takes further (Follows closed) fun found => found.erase = no.erase) :
    (restOfIf value inner).Takes
      (opening :: (tested ++ closing :: (tokens ++ other :: further))) (Follows closed)
      fun found => found.erase = (Stmt.ifElse test yes no).erase := by
  refine .bind_cons (takes_needSymbol opens _) fun _ _ => ?_
  refine expresses.bind expressed short (by rw [closes]; rfl) fun found alike => ?_
  refine .bind_cons (takes_needSymbol closes _) fun _ _ => ?_
  -- a closed branch does not take the `else` that stands behind it
  refine takesYes.bind (fun _ _ => nofun) fun branch alikeBranch => ?_
  refine .bind_cons (takes_takeKind? kind) fun _ this => ?_
  subst this
  refine takesNo.map fun last alikeLast => ?_
  rw [Stmt.erase, Stmt.erase, alike, alikeBranch, alikeLast]

theorem takes_restOfWhile (expresses : value.Expresses length) {opening closing : Token} {test : Expr}
    {body : Stmt} {closed : Bool} {tested tokens : List Token}
    (opens : opening.kind = .symbol .leftParen) (expressed : Expressed test tested)
    (short : tested.length ≤ length) (closes : closing.kind = .symbol .rightParen)
    (takes : inner.Takes tokens (Follows closed) fun found => found.erase = body.erase) :
    (restOfWhile value inner).Takes (opening :: (tested ++ closing :: tokens)) (Follows closed)
      fun found => found.erase = (Stmt.loop test body).erase := by
  refine .bind_cons (takes_needSymbol opens _) fun _ _ => ?_
  refine expresses.bind expressed short (by rw [closes]; rfl) fun found alike => ?_
  refine .bind_cons (takes_needSymbol closes _) fun _ _ => ?_
  rw [← List.append_nil tokens]
  refine takes.bind (fun _ follows => follows) fun round alikeRound => .pure ?_
  rw [Stmt.erase, Stmt.erase, alike, alikeRound]

theorem erase_forLoop (initial : Option Stmt) (test : Expr) (step : Option Expr) (body : Stmt) :
    (forLoop initial test step body).erase =
      forLoop (initial.map Stmt.erase) test.erase (step.map Expr.erase) body.erase := by
  cases initial <;> cases step <;> rfl

theorem takes_restOfFor (expresses : value.Expresses length) {opening semicolon closing : Token}
    {initial : Option Stmt} {test : Expr} {step : Option Expr} {body : Stmt} {closed : Bool}
    {begun tested stepped tokens : List Token} (opens : opening.kind = .symbol .leftParen)
    (first : FirstClause initial begun) (shortFirst : begun.length ≤ length)
    (second : SecondClause opening.line test tested) (shortSecond : tested.length ≤ length)
    (ends : semicolon.kind = .symbol .semicolon) (third : Optional step stepped)
    (shortThird : stepped.length ≤ length) (closes : closing.kind = .symbol .rightParen)
    (takes : inner.Takes tokens (Follows closed) fun found => found.erase = body.erase) :
    (restOfFor value inner).Takes
      (opening :: (begun ++ (tested ++ semicolon :: (stepped ++ closing :: tokens))))
      (Follows closed) fun found => found.erase = (forLoop initial test step body).erase := by
  refine takes_peek (.bind_cons (takes_needSymbol opens _) fun _ _ => ?_)
  refine (takes_forInitializer expresses first shortFirst).bind (fun _ _ => trivial)
    fun made alikeFirst => ?_
  refine (takes_forCondition expresses second shortSecond).bind
    (fun _ _ => ⟨semicolon, _, rfl, ends⟩) fun condition alikeSecond => ?_
  refine .bind_cons (takes_needSymbol ends _) fun _ _ => ?_
  refine (takes_forIncrement expresses third shortThird).bind
    (fun _ _ => ⟨closing, _, rfl, closes⟩) fun increment alikeThird => ?_
  refine .bind_cons (takes_needSymbol closes _) fun _ _ => ?_
  rw [← List.append_nil tokens]
  refine takes.bind (fun _ follows => follows) fun round alikeRound => .pure ?_
  rw [erase_forLoop, erase_forLoop, alikeFirst, alikeSecond, alikeThird, alikeRound]

structure Stops (stop : TokenKind → Bool) : Prop where
  starts : ∀ kind, startsDeclaration kind = true → stop kind = false
  other : stop (.keyword .else) = false

theorem stops_endsBlock : Stops endsBlock := by
  refine ⟨fun kind starts => ?_, rfl⟩
  unfold endsBlock
  cases kind with
  | symbol sign => cases sign <;> first | rfl | cases starts
  | finish => cases starts
  | _ => rfl

theorem stops_finish : Stops (· == .finish) := by
  refine ⟨fun kind starts => ?_, rfl⟩
  cases kind with
  | finish => cases starts
  | _ => rfl

/-- A phrase is read from its tokens with any bound that is large enough. -/
def IsRead : Phrase → List Token → Prop
  | .declarations program, tokens =>
    ∀ (stop : TokenKind → Bool) (bound rounds : Nat) (done : List Stmt) (cursor : Cursor)
      (rest : List Token), Stops stop → 2 * tokens.length < bound → tokens.length ≤ rounds →
      cursor.rest = tokens ++ rest → stop { cursor with rest := rest }.token.kind = true →
      ∃ found nextId, statementsUntil stop (declaration bound) rounds done cursor =
          .read found { cursor with rest := rest, nextId := nextId } ∧
        Stmt.eraseAll found = Stmt.eraseAll (done.reverse ++ program)
  | .declaration tree, tokens =>
    ∀ bound, 2 * tokens.length < bound →
      Reader.Takes (declaration bound) tokens (Follows false) fun found => found.erase = tree.erase
  | .statement closed tree, tokens =>
    ∀ bound, 2 * tokens.length ≤ bound →
      Reader.Takes (statement bound) tokens (Follows closed) fun found => found.erase = tree.erase

theorem isRead_cons {first : Stmt} {rest : List Stmt} {before after : List Token}
    (head : ∃ token others, before = token :: others ∧ startsDeclaration token.kind = true)
    (following : ∀ token ∈ after.head?, startsDeclaration token.kind = true)
    (firstRead : IsRead (.declaration first) before)
    (restRead : IsRead (.declarations rest) after) :
    IsRead (.declarations (first :: rest)) (before ++ after) := by
  intro stop bound rounds done cursor left stops enough room here stopped
  rw [List.append_assoc] at here
  rw [List.length_append] at enough room
  have some : 0 < before.length := by
    obtain ⟨_, _, rfl, _⟩ := head
    exact Nat.succ_pos _
  have goes : stop cursor.token.kind = false := by
    obtain ⟨token, others, rfl, starts⟩ := head
    rw [Cursor.token_eq here]
    exact stops.starts _ starts
  obtain ⟨fewer, rfl⟩ := Nat.exists_eq_add_one_of_ne_zero (show rounds ≠ 0 by omega)
  obtain ⟨statement, nextId, read, alike⟩ :=
    firstRead bound (by omega) cursor (after ++ left) here fun _ token next same => by
      -- neither a declaration nor the end of the list can be an `else`
      cases after with
      | nil =>
        cases left with
        | nil => cases next
        | cons _ _ =>
          cases next
          have never : stop (.keyword .else) = true := same ▸ stopped
          rw [stops.other] at never
          cases never
      | cons _ _ =>
        cases next
        have starts := following _ rfl
        rw [same] at starts
        cases starts
  obtain ⟨found, finalId, readRest, all⟩ := restRead stop bound fewer (statement :: done)
    { cursor with rest := after ++ left, nextId := nextId } left stops (by omega) (by omega) rfl
    stopped
  refine ⟨found, finalId, (statementsUntil_round fewer done goes read).trans readRest, ?_⟩
  rw [all]
  simp [Stmt.eraseAll_eq_map, alike]

theorem takes_restOfBlock {body : List Stmt} {tokens : List Token}
    (reads : IsRead (.declarations body) tokens) {bound : Nat} (enough : 2 * tokens.length < bound)
    {last : Token} (kind : last.kind = .symbol .rightBrace) :
    (restOfBlock bound (declaration bound)).Takes (tokens ++ [last]) (fun _ => True)
      fun found => Stmt.eraseAll found = Stmt.eraseAll body := by
  have takes : (statementsUntil endsBlock (declaration bound) bound []).Takes tokens
      (fun rest => ∃ more, rest = last :: more)
      fun found => Stmt.eraseAll found = Stmt.eraseAll body := by
    rintro cursor rest here ⟨more, rfl⟩
    refine reads endsBlock bound bound [] cursor _ stops_endsBlock enough (by omega) here ?_
    change endsBlock last.kind = true
    rw [kind]
    rfl
  refine takes.bind (fun rest _ => ⟨rest, rfl⟩) fun found alike => ?_
  exact .bind_cons (takes_needSymbol kind _) fun _ _ => .pure alike

theorem isRead_statement {closed : Bool} {statement : Stmt} {tokens : List Token}
    (head : ∃ first rest, tokens = first :: rest ∧ startsStatement first.kind = true)
    (reads : IsRead (.statement closed statement) tokens) :
    IsRead (.declaration statement) tokens := by
  intro bound enough
  obtain ⟨bound, rfl⟩ := Nat.exists_eq_add_one_of_ne_zero (show bound ≠ 0 by omega)
  have apart {kind : TokenKind} (other : startsStatement kind = false) (rest : List Token) :
      ∀ token ∈ (tokens ++ rest).head?, token.kind ≠ kind := by
    intro token next same
    have starts : startsStatement token.kind = true := head_append head rest token next
    rw [same, other] at starts
    cases starts
  change (declarationWith _ _ _ _).Takes _ _ _
  refine .bind_nil (leaves_takeKind? _) (fun rest _ => apart rfl rest) fun found this => ?_
  subst this
  refine .bind_nil (leaves_takeKind? _) (fun rest _ => apart rfl rest) fun found this => ?_
  subst this
  exact (reads bound (by omega)).weaken (fun _ follows _ => follows rfl) fun _ alike => alike

theorem isRead_variable {keyword : Token} {tree : Stmt} {tokens : List Token}
    (kind : keyword.kind = .keyword .var) (declares : DeclaresVariable tree tokens) :
    IsRead (.declaration tree) (keyword :: tokens) := by
  intro bound enough
  rw [List.length_cons] at enough
  obtain ⟨bound, rfl⟩ := Nat.exists_eq_add_one_of_ne_zero (show bound ≠ 0 by omega)
  have expresses : Reader.Expresses (expression bound) tokens.length :=
    expresses_expression (by omega)
  refine .bind_cons (takes_takeKind? kind) fun found this => ?_
  subst this
  exact (takes_restOfVariable expresses declares (Nat.le_refl _)).weaken (fun _ _ => trivial)
    fun _ alike => alike

theorem reports_function {keyword opening closing brace last : Token} {name : Ident}
    {entries : List (Ident × Token)} {body : List Stmt} {named listed tokens : List Token}
    (kind : keyword.kind = .keyword .fun) (names : Names name named)
    (opens : opening.kind = .symbol .leftParen) (listing : Listed (Begins Names) entries listed)
    (closes : closing.kind = .symbol .rightParen) (braced : brace.kind = .symbol .leftBrace)
    (bodyRead : IsRead (.declarations body) tokens) (ends : last.kind = .symbol .rightBrace)
    (enough : 2 * (listed.length + tokens.length + 1) < bound) :
    Reader.Reports (declaration bound)
      (keyword :: (named ++ opening :: (listed ++ closing :: brace :: (tokens ++ [last]))))
      (surplus .tooManyParameters maxItems (entries.map Prod.snd)) (fun _ => True)
      fun found => found.erase = (Stmt.function name (entries.map Prod.fst) body).erase := by
  obtain ⟨bound, rfl⟩ := Nat.exists_eq_add_one_of_ne_zero (show bound ≠ 0 by omega)
  change (declarationWith _ _ _ _).Reports _ _ _ _
  refine .bind_nil (leaves_takeKind? _) (fun rest _ => ?_) fun found this => ?_
  · rintro _ ⟨⟩
    rw [kind]
    decide
  · subst this
    refine .bind_cons (takes_takeKind? kind) fun found this => ?_
    subst this
    refine (reports_restOfFunction names opens listing (by omega) closes braced
      (takes_restOfBlock bodyRead (by omega) ends)).weaken (fun _ follows => follows) ?_
    rintro _ ⟨statements, rfl, alike⟩
    rw [Stmt.erase, Stmt.erase, alike]

theorem isRead_function {keyword opening closing brace last : Token} {name : Ident}
    {parameters : List Ident} {body : List Stmt} {named listed tokens : List Token}
    (kind : keyword.kind = .keyword .fun) (names : Names name named)
    (opens : opening.kind = .symbol .leftParen) (listing : Listed Names parameters listed)
    (within : parameters.length ≤ maxItems) (closes : closing.kind = .symbol .rightParen)
    (braced : brace.kind = .symbol .leftBrace) (bodyRead : IsRead (.declarations body) tokens)
    (ends : last.kind = .symbol .rightBrace) :
    IsRead (.declaration (.function name parameters body))
      (keyword :: (named ++ opening :: (listed ++ closing :: brace :: (tokens ++ [last])))) := by
  intro bound enough
  simp only [List.length_cons, List.length_append] at enough
  obtain ⟨entries, rfl, begun⟩ := listing.begins fun _ _ names => by
    obtain ⟨token, rfl, _⟩ := names
    exact Nat.one_pos
  have reports := reports_function kind names opens begun closes braced bodyRead ends
    (show 2 * (listed.length + tokens.length + 1) < bound by omega)
  exact (reports.takes (by simpa using within)).weaken (fun _ _ => trivial) fun _ alike => alike

section Openings

variable {keyword : Token} {tokens : List Token} {closed : Bool} {tree : Stmt}

theorem isRead_opening {opening : Opening} (chosen : opening? keyword.kind = some opening)
    (reads : ∀ bound, 2 * tokens.length < bound →
      Reader.Takes (match opening with
        | .if => restOfIf (expression bound) (statement bound)
        | .while => restOfWhile (expression bound) (statement bound)
        | .for => restOfFor (expression bound) (statement bound)
        | .print => restOfPrint (expression bound)
        | .return => restOfReturn keyword.line (expression bound)
        | .block => .block <$> restOfBlock bound (declaration bound)) tokens (Follows closed)
        fun found => found.erase = tree.erase) :
    IsRead (.statement closed tree) (keyword :: tokens) := by
  intro bound enough
  rw [List.length_cons] at enough
  obtain ⟨bound, rfl⟩ := Nat.exists_eq_add_one_of_ne_zero (show bound ≠ 0 by omega)
  refine .bind_cons (takes_takeIf? chosen) fun found this => ?_
  subst this
  have takes := reads bound (by omega)
  cases opening <;> exact takes

end Openings

/-- Every phrase is read from the tokens that it is derived for. -/
theorem isRead_of_derives {phrase : Phrase} {tokens : List Token} (derives : Derives phrase tokens) :
    IsRead phrase tokens := by
  induction derives with
  | nil =>
    intro stop bound rounds done cursor rest _ _ _ here stopped
    cases cursor
    cases here
    exact ⟨_, _, statementsUntil_stops rounds done stopped, by rw [List.append_nil]⟩
  | cons first rest firstRead restRead =>
    exact isRead_cons first.declaration_head rest.declarations_head firstRead restRead
  | «variable» kind declares => exact isRead_variable kind declares
  | function kind names opens listed within closes braced _ last bodyRead =>
    exact isRead_function kind names opens listed within closes braced bodyRead last
  | statement derives reads => exact isRead_statement derives.statement_head reads
  -- The one statement that no word of its own announces.
  | @expression tree semicolon tokens expressed ends =>
    intro bound enough
    rw [List.length_append, List.length_singleton] at enough
    obtain ⟨bound, rfl⟩ := Nat.exists_eq_add_one_of_ne_zero (show bound ≠ 0 by omega)
    refine .bind_nil (leaves_takeIf? _) (fun rest _ token next => ?_) fun found this => ?_
    · rw [List.append_assoc] at next
      exact opening?_of_expression (head_append expressed.head _ token next)
    · subst this
      exact (takes_restOfExpression (expresses_expression (by omega)) expressed (Nat.le_refl _)
        ends).weaken (fun _ _ => trivial) fun _ alike => alike
  | @print keyword semicolon tree tokens kind expressed ends =>
    have chosen : opening? keyword.kind = some .print := opening?_eq_some.mpr kind
    refine isRead_opening chosen fun bound enough => ?_
    rw [List.length_append, List.length_singleton] at enough
    exact (takes_restOfPrint (expresses_expression (by omega)) expressed (Nat.le_refl _) ends).weaken
      (fun _ _ => trivial) fun _ alike => alike
  | @«return» keyword semicolon value tokens kind optional ends =>
    have chosen : opening? keyword.kind = some .return := opening?_eq_some.mpr kind
    refine isRead_opening chosen fun bound enough => ?_
    rw [List.length_append, List.length_singleton] at enough
    exact (takes_restOfReturn (expresses_expression (by omega)) optional (Nat.le_refl _) ends
      keyword.line).weaken (fun _ _ => trivial) fun _ alike => alike
  | @block brace last body tokens kind _ ends bodyRead =>
    have chosen : opening? brace.kind = some .block := opening?_eq_some.mpr kind
    refine isRead_opening chosen fun bound enough => ?_
    rw [List.length_append, List.length_singleton] at enough
    refine ((takes_restOfBlock bodyRead (by omega) ends).map fun found alike => ?_).weaken
      (fun _ _ => trivial) fun _ alike => alike
    rw [Stmt.erase, Stmt.erase, alike]
  | @ifThen keyword opening closing test yes closed tested tokens kind opens expressed closes _ reads =>
    have chosen : opening? keyword.kind = some .if := opening?_eq_some.mpr kind
    refine isRead_opening chosen fun bound enough => ?_
    simp only [List.length_cons, List.length_append] at enough
    exact takes_restOfIfThen (expresses_expression (by omega)) opens expressed (Nat.le_refl _) closes
      (reads bound (by omega))
  | @ifElse keyword opening closing other test yes no closed tested tokens further kind opens expressed
      closes _ otherwise _ yesRead noRead =>
    have chosen : opening? keyword.kind = some .if := opening?_eq_some.mpr kind
    refine isRead_opening chosen fun bound enough => ?_
    simp only [List.length_cons, List.length_append] at enough
    exact takes_restOfIfElse (expresses_expression (by omega)) opens expressed (Nat.le_refl _) closes
      (yesRead bound (by omega)) otherwise (noRead bound (by omega))
  | @«while» keyword opening closing test body closed tested tokens kind opens expressed closes _
      reads =>
    have chosen : opening? keyword.kind = some .while := opening?_eq_some.mpr kind
    refine isRead_opening chosen fun bound enough => ?_
    simp only [List.length_cons, List.length_append] at enough
    exact takes_restOfWhile (expresses_expression (by omega)) opens expressed (Nat.le_refl _) closes
      (reads bound (by omega))
  | @«for» keyword opening semicolon closing initial test step body closed begun tested stepped tokens
      kind opens first second ends third closes _ reads =>
    have chosen : opening? keyword.kind = some .for := opening?_eq_some.mpr kind
    refine isRead_opening chosen fun bound enough => ?_
    simp only [List.length_cons, List.length_append] at enough
    have expresses : Reader.Expresses (expression bound)
        (begun.length + tested.length + stepped.length) := expresses_expression (by omega)
    exact takes_restOfFor expresses opens first (by omega) second (by omega) ends third (by omega)
      closes (reads bound (by omega))

end Statements
end LoxLang.Grammar

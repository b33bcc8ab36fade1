import Mathlib
import LoxLang.Proofs.Grammar.Appending
import LoxLang.Proofs.Grammar.Missing
import LoxLang.Proofs.Grammar.Stages

/-!
A declaration without its last semicolon, in front of a keyword that begins a statement. Whatever
statements that semicolon ends, it is missed once, at the keyword, and reading goes on there.
-/
namespace LoxLang.Grammar

def BeginsStatement (kind : TokenKind) : Prop :=
  ∃ word : Keyword, kind = .keyword word ∧ word.startsStatement = true

theorem BeginsStatement.boundary {kind : TokenKind} (begins : BeginsStatement kind) :
    isBoundary kind = true := by
  obtain ⟨word, rfl, starts⟩ := begins
  exact starts

theorem BeginsStatement.not_symbol {kind : TokenKind} (begins : BeginsStatement kind) (sign : Symbol) :
    kind ≠ .symbol sign := by
  obtain ⟨word, rfl, _⟩ := begins
  nofun

theorem BeginsStatement.ends {token : Token} (begins : BeginsStatement token.kind)
    (rest : List Token) : Rank.assignment.Ends (token :: rest) := by
  obtain ⟨word, kind, starts⟩ := begins
  rintro _ ⟨⟩ continues
  rw [kind] at continues
  rcases continues with paren | ⟨_, sign⟩ | ⟨operator, same, _⟩
  · cases paren
  · cases sign
  · rcases operator with op | op <;> cases op <;> cases same <;> cases starts

section Clauses

variable {bound : Nat}

theorem misses_semicolon (part : Part) : (needSymbol .semicolon part).Misses [] BeginsStatement :=
  misses_needSymbol part fun _ begins => begins.not_symbol .semicolon

theorem misses_behind {α : Type} {next : Expr → Reader α} {tree : Expr} {tokens : List Token}
    (expressed : Expressed tree tokens) (enough : 2 * tokens.length < bound)
    (misses : ∀ value, (next value).Misses [] BeginsStatement) :
    (expression bound >>= next : Reader α).Misses tokens BeginsStatement := by
  rw [← List.append_nil tokens]
  exact .past (takes_expression expressed.levelled expressed.spells enough)
    (fun _ rest begins => begins.ends rest) fun value _ => misses value

theorem misses_restOfExpression {tree : Expr} {tokens : List Token}
    (expressed : Expressed tree tokens) (enough : 2 * tokens.length < bound) :
    (restOfExpression (expression bound)).Misses tokens BeginsStatement :=
  misses_behind expressed enough fun _ => (misses_semicolon _).bind

theorem misses_restOfPrint {tree : Expr} {tokens : List Token} (expressed : Expressed tree tokens)
    (enough : 2 * tokens.length < bound) :
    (restOfPrint (expression bound)).Misses tokens BeginsStatement :=
  misses_behind expressed enough fun _ => (misses_semicolon _).bind

theorem misses_restOfReturn {value : Option Expr} {tokens : List Token}
    (optional : Optional value tokens) (enough : 2 * tokens.length < bound) (line : Nat) :
    (restOfReturn line (expression bound)).Misses tokens BeginsStatement := by
  cases optional with
  | none =>
    refine .past_nil (leaves_takeKind? _) (fun token rest begins => ?_) fun found this => ?_
    · rintro _ ⟨⟩
      exact begins.not_symbol .semicolon
    · subst this
      exact ((misses_expression bound).weaken fun _ begins => begins.boundary).bind
  | some expressed =>
    refine .past_nil (leaves_takeKind? _) (fun token rest _ => expressed.apart rfl _)
      fun found this => ?_
    subst this
    exact misses_behind expressed enough fun _ => (misses_semicolon _).bind

theorem takes_initializer_begins {initial : Option Expr} {tokens : List Token}
    (initializes : Initializes initial tokens) (enough : 2 * tokens.length < bound) :
    (initializer (expression bound)).Takes tokens
      (fun rest => ∃ token more, rest = token :: more ∧ BeginsStatement token.kind)
      fun _ => True := by
  cases initializes with
  | none =>
    refine .bind_nil (leaves_takeKind? _) ?_ fun found this => ?_
    · rintro _ ⟨token, more, rfl, begins⟩ _ ⟨⟩
      exact begins.not_symbol .equal
    · subst this
      exact .pure trivial
  | @some sign tree tokens equal expressed =>
    rw [List.length_cons] at enough
    refine .bind_cons (takes_takeKind? equal) fun found this => ?_
    subst this
    refine ((takes_expression expressed.levelled expressed.spells (by omega)).weaken ?_
      fun _ alike => alike).map fun _ _ => trivial
    rintro _ ⟨token, more, rfl, begins⟩
    exact begins.ends more

theorem misses_restOfVariable {name : Ident} {initial : Option Expr} {named initialized : List Token}
    (names : Names name named) (initializes : Initializes initial initialized)
    (enough : 2 * initialized.length < bound) :
    (restOfVariable (expression bound)).Misses (named ++ initialized) BeginsStatement := by
  refine .past (takes_names names _) (fun _ _ _ => trivial) fun ident _ => ?_
  rw [← List.append_nil initialized]
  exact .past (takes_initializer_begins initializes enough)
    (fun token rest begins => ⟨token, rest, rfl, begins⟩) fun _ _ => (misses_semicolon _).bind

end Clauses

section Branches

variable {value : Reader Expr} {inner : Reader Stmt} {length : Nat} {opening closing : Token}
  {test : Expr} {tested head tokens : List Token} {next : TokenKind → Prop}

theorem takes_parenthesized {bound : Nat} (opens : opening.kind = .symbol .leftParen)
    (expressed : Expressed test tested) (enough : 2 * tested.length < bound)
    (closes : closing.kind = .symbol .rightParen) (before after : Part) :
    (parenthesized before after (expression bound)).Takes (opening :: (tested ++ [closing]))
      (fun _ => True) fun _ => True := by
  have expresses : Reader.Expresses (expression bound) tested.length :=
    expresses_expression enough
  refine .bind_cons (takes_needSymbol opens _) fun _ _ => ?_
  refine expresses.bind expressed (Nat.le_refl _) (by rw [closes]; rfl) fun _ _ => ?_
  exact .bind_cons (takes_needSymbol closes _) fun _ _ => .pure trivial

theorem takes_clauses (expresses : value.Expresses length) {semicolon : Token}
    {initial : Option Stmt} {step : Option Expr} {begun stepped : List Token}
    (opens : opening.kind = .symbol .leftParen) (first : FirstClause initial begun)
    (shortFirst : begun.length ≤ length) (second : SecondClause opening.line test tested)
    (shortSecond : tested.length ≤ length) (ends : semicolon.kind = .symbol .semicolon)
    (third : Optional step stepped) (shortThird : stepped.length ≤ length)
    (closes : closing.kind = .symbol .rightParen) :
    (clauses value).Takes (opening :: (begun ++ (tested ++ semicolon :: (stepped ++ [closing]))))
      (fun _ => True) fun _ => True := by
  refine takes_peek (.bind_cons (takes_needSymbol opens _) fun _ _ => ?_)
  refine (takes_forInitializer expresses first shortFirst).bind (fun _ _ => trivial) fun _ _ => ?_
  refine (takes_forCondition expresses second shortSecond).bind
    (fun _ _ => ⟨semicolon, _, rfl, ends⟩) fun _ _ => ?_
  refine .bind_cons (takes_needSymbol ends _) fun _ _ => ?_
  refine (takes_forIncrement expresses third shortThird).bind
    (fun _ _ => ⟨closing, _, rfl, closes⟩) fun _ _ => ?_
  exact .bind_cons (takes_needSymbol closes _) fun _ _ => .pure trivial

theorem misses_restOfIf
    (takes : (parenthesized .openAfterIf .closeAfterIfCondition value).Takes head (fun _ => True)
      fun _ => True)
    (misses : inner.Misses tokens next) : (restOfIf value inner).Misses (head ++ tokens) next := by
  rw [restOfIf_eq]
  exact .past takes (fun _ _ _ => trivial) fun _ _ => misses.bind

theorem misses_restOfIf_else
    (takes : (parenthesized .openAfterIf .closeAfterIfCondition value).Takes head (fun _ => True)
      fun _ => True)
    {yes : Stmt} (takesYes : inner.Takes tokens (Follows true) fun found => found.erase = yes.erase)
    {other : Token} (kind : other.kind = .keyword .else) {further : List Token}
    (misses : inner.Misses further next) :
    (restOfIf value inner).Misses (head ++ (tokens ++ other :: further)) next := by
  rw [restOfIf_eq]
  refine .past takes (fun _ _ _ => trivial) fun _ _ => .past takesYes (fun _ _ _ => nofun) fun _ _ => ?_
  refine .past_cons (takes_takeKind? kind) fun _ this => ?_
  subst this
  exact misses.map

theorem misses_restOfWhile
    (takes : (parenthesized .openAfterWhile .closeAfterCondition value).Takes head (fun _ => True)
      fun _ => True)
    (misses : inner.Misses tokens next) : (restOfWhile value inner).Misses (head ++ tokens) next := by
  rw [restOfWhile_eq]
  exact .past takes (fun _ _ _ => trivial) fun _ _ => misses.map

theorem misses_restOfFor (takes : (clauses value).Takes head (fun _ => True) fun _ => True)
    (misses : inner.Misses tokens next) : (restOfFor value inner).Misses (head ++ tokens) next := by
  rw [restOfFor_eq]
  exact .past takes (fun _ _ _ => trivial) fun _ _ => misses.map

end Branches

section Lacking

/-- The tokens up to the last, where that is a semicolon, are taken, and then it is missed. -/
def Lacks : Phrase → List Token → Prop
  | .declarations _, _ => True
  | .declaration _, tokens => ∀ front last, tokens = front ++ [last] →
    last.kind = .symbol .semicolon → ∀ bound, 2 * tokens.length < bound →
    Reader.Misses (declaration bound) front BeginsStatement
  | .statement _ _, tokens => ∀ front last, tokens = front ++ [last] →
    last.kind = .symbol .semicolon → ∀ bound, 2 * tokens.length ≤ bound →
    Reader.Misses (statement bound) front BeginsStatement

theorem split_last {before after front : List Token} {last : Token} (some : after ≠ [])
    (same : before ++ after = front ++ [last]) :
    ∃ short, after = short ++ [last] ∧ front = before ++ short := by
  have whole : (before ++ after.dropLast) ++ [after.getLast some] = front ++ [last] := by
    rw [List.append_assoc, List.dropLast_append_getLast, same]
  obtain ⟨fronts, lasts⟩ := List.append_inj' whole rfl
  refine ⟨after.dropLast, ?_, fronts.symm⟩
  rw [← List.singleton_inj.mp lasts, List.dropLast_append_getLast]

theorem Derives.ne_nil {closed : Bool} {statement : Stmt} {tokens : List Token}
    (derives : Derives (.statement closed statement) tokens) : tokens ≠ [] := by
  obtain ⟨first, rest, rfl, _⟩ := derives.statement_head
  exact List.cons_ne_nil first rest

theorem misses_opening {keyword : Token} (opening : Opening) {tokens : List Token} {bound : Nat}
    {next : TokenKind → Prop} (chosen : keyword.kind = opening.kind)
    (misses : Reader.Misses (match opening with
      | .if => restOfIf (expression bound) (statement bound)
      | .while => restOfWhile (expression bound) (statement bound)
      | .for => restOfFor (expression bound) (statement bound)
      | .print => restOfPrint (expression bound)
      | .return => restOfReturn keyword.line (expression bound)
      | .block => .block <$> restOfBlock bound (declaration bound)) tokens next) :
    Reader.Misses (statement (bound + 1)) (keyword :: tokens) next := by
  refine .past_cons (takes_takeIf? (opening?_eq_some.mpr chosen)) fun found this => ?_
  subst this
  cases opening <;> exact misses

theorem not_semicolon {before front : List Token} {brace last : Token}
    (kind : brace.kind = .symbol .rightBrace) (same : before ++ [brace] = front ++ [last]) :
    last.kind ≠ .symbol .semicolon := by
  obtain ⟨_, ends⟩ := List.append_inj' same rfl
  rw [← List.singleton_inj.mp ends, kind]
  nofun

theorem lacks_variable {keyword : Token} {statement : Stmt} {tokens : List Token}
    (kind : keyword.kind = .keyword .var) (declares : DeclaresVariable statement tokens) :
    Lacks (.declaration statement) (keyword :: tokens) := by
  intro front last same stray bound enough
  obtain @⟨name, initial, semicolon, named, initialized, names, initializes, ends⟩ := declares
  obtain ⟨rfl, _⟩ := List.append_inj'
    (show (keyword :: (named ++ initialized)) ++ [semicolon] = front ++ [last] by
      simpa using same) rfl
  simp only [List.length_cons, List.length_append] at enough
  obtain ⟨bound, rfl⟩ := Nat.exists_eq_add_one_of_ne_zero (show bound ≠ 0 by omega)
  refine .past_cons (takes_takeKind? kind) fun found this => ?_
  subst this
  exact misses_restOfVariable names initializes (by omega)

/-- A statement is more than its last semicolon, and is told from a declaration by its first token. -/
theorem lacks_statement {closed : Bool} {statement : Stmt} {tokens : List Token}
    (head : ∃ first rest, tokens = first :: rest ∧ startsStatement first.kind = true)
    (lacks : Lacks (.statement closed statement) tokens) : Lacks (.declaration statement) tokens := by
  intro front last same stray bound enough
  obtain ⟨first, others, rfl, starts⟩ := head
  obtain ⟨bound, rfl⟩ := Nat.exists_eq_add_one_of_ne_zero (show bound ≠ 0 by omega)
  cases front with
  | nil =>
    obtain ⟨rfl, _⟩ := List.cons_eq_cons.mp same
    rw [stray] at starts
    cases starts
  | cons token front =>
    obtain ⟨rfl, _⟩ := List.cons_eq_cons.mp same
    have apart {word : Keyword} (other : startsStatement (.keyword word) = false)
        (rest : List Token) : ∀ token ∈ (first :: front ++ rest).head?, token.kind ≠ .keyword word := by
      rintro _ ⟨⟩ here
      rw [here, other] at starts
      cases starts
    refine .past_nil (leaves_takeKind? _) (fun _ _ _ => apart rfl _) fun found this => ?_
    subst this
    refine .past_nil (leaves_takeKind? _) (fun _ _ _ => apart rfl _) fun found this => ?_
    subst this
    exact lacks (first :: front) last same stray bound (by omega)

theorem lacks_ended {closed : Bool} {whole : Stmt} {tokens : List Token} {semicolon : Token}
    (misses : ∀ bound, 2 * tokens.length < bound →
      Reader.Misses (statement (bound + 1)) tokens BeginsStatement) :
    Lacks (.statement closed whole) (tokens ++ [semicolon]) := by
  intro front last same stray bound enough
  obtain ⟨rfl, _⟩ := List.append_inj' same rfl
  rw [List.length_append, List.length_singleton] at enough
  obtain ⟨bound, rfl⟩ := Nat.exists_eq_add_one_of_ne_zero (show bound ≠ 0 by omega)
  exact misses bound (by omega)

theorem lacks_behind {closed outer : Bool} {inner whole : Stmt} {keyword : Token}
    {head tokens : List Token} (derives : Derives (.statement closed inner) tokens)
    (lacks : Lacks (.statement closed inner) tokens)
    (misses : ∀ bound short, 2 * (keyword :: head ++ tokens).length ≤ bound + 1 →
      Reader.Misses (statement bound) short BeginsStatement →
      Reader.Misses (statement (bound + 1)) (keyword :: head ++ short) BeginsStatement) :
    Lacks (.statement outer whole) (keyword :: head ++ tokens) := by
  intro front last same stray bound enough
  obtain ⟨short, rfl, rfl⟩ := split_last derives.ne_nil same
  have length : 2 * (short ++ [last]).length + 2 ≤ bound := by
    simp only [List.length_append, List.length_cons] at enough ⊢
    omega
  obtain ⟨bound, rfl⟩ := Nat.exists_eq_add_one_of_ne_zero (show bound ≠ 0 by omega)
  exact misses bound short enough (lacks short last rfl stray bound (by omega))

/-- Whichever statements it ends, the last semicolon is missed behind all that comes before it. -/
theorem lacks_of_derives {phrase : Phrase} {tokens : List Token} (derives : Derives phrase tokens) :
    Lacks phrase tokens := by
  induction derives with
  | nil => trivial
  | cons => trivial
  | «variable» kind declares => exact lacks_variable kind declares
  -- A function ends in a bracket, so there is no last semicolon to miss; a block likewise.
  | @function keyword opening closing brace final name parameters body named listed tokens kind names
      opens listing within closes braced derives ends lacks =>
    intro front last same stray
    exact absurd stray (not_semicolon ends
      (show (keyword :: (named ++ opening :: (listed ++ closing :: brace :: tokens))) ++ [final] =
        front ++ [last] by simpa using same))
  | statement derives lacks => exact lacks_statement derives.statement_head lacks
  | @expression tree semicolon tokens expressed ends =>
    refine lacks_ended fun bound enough => ?_
    refine .past_nil (leaves_takeIf? _) (fun token rest _ other next => ?_) fun found this => ?_
    · exact opening?_of_expression (head_append expressed.head _ other next)
    · subst this
      exact misses_restOfExpression expressed (by omega)
  | @print keyword semicolon tree tokens kind expressed ends =>
    show Lacks _ (keyword :: tokens ++ [semicolon])
    refine lacks_ended fun bound enough => ?_
    rw [List.length_cons] at enough
    exact misses_opening .print kind (misses_restOfPrint expressed (by omega))
  | @«return» keyword semicolon value tokens kind optional ends =>
    show Lacks _ (keyword :: tokens ++ [semicolon])
    refine lacks_ended fun bound enough => ?_
    rw [List.length_cons] at enough
    exact misses_opening .return kind (misses_restOfReturn optional (by omega) keyword.line)
  | @block brace final body tokens kind derives ends lacks =>
    intro front last same stray
    exact absurd stray (not_semicolon ends
      (show (brace :: tokens) ++ [final] = front ++ [last] from same))
  -- From here on the last semicolon belongs to the statement at the end: the head is read, and what
  -- is missed is missed behind it.
  | @ifThen keyword opening closing test yes closed tested tokens kind opens expressed closes derives
      lacks =>
    have shape : keyword :: opening :: (tested ++ closing :: tokens) =
        keyword :: (opening :: (tested ++ [closing])) ++ tokens := by simp
    rw [shape]
    refine lacks_behind derives lacks fun bound short enough misses => ?_
    simp only [List.length_cons, List.length_append] at enough
    have head := takes_parenthesized opens expressed (show 2 * tested.length < bound by omega) closes
      .openAfterIf .closeAfterIfCondition
    exact misses_opening .if kind (misses_restOfIf head misses)
  | @ifElse keyword opening closing other test yes no closed tested tokens further kind opens expressed
      closes derivesYes otherwise derivesNo _ lacks =>
    have shape : keyword :: opening :: (tested ++ closing :: (tokens ++ other :: further)) =
        keyword :: (opening :: (tested ++ [closing]) ++ (tokens ++ [other])) ++ further := by simp
    rw [shape]
    refine lacks_behind derivesNo lacks fun bound short enough misses => ?_
    simp only [List.length_cons, List.length_append] at enough
    have head := takes_parenthesized opens expressed (show 2 * tested.length < bound by omega) closes
      .openAfterIf .closeAfterIfCondition
    -- The first branch is complete, so it is read with the head.
    have branch := isRead_of_derives derivesYes bound (by omega)
    simpa using misses_opening .if kind (misses_restOfIf_else head branch otherwise misses)
  | @«while» keyword opening closing test body closed tested tokens kind opens expressed closes derives
      lacks =>
    have shape : keyword :: opening :: (tested ++ closing :: tokens) =
        keyword :: (opening :: (tested ++ [closing])) ++ tokens := by simp
    rw [shape]
    refine lacks_behind derives lacks fun bound short enough misses => ?_
    simp only [List.length_cons, List.length_append] at enough
    have head := takes_parenthesized opens expressed (show 2 * tested.length < bound by omega) closes
      .openAfterWhile .closeAfterCondition
    exact misses_opening .while kind (misses_restOfWhile head misses)
  | @«for» keyword opening semicolon closing initial test step body closed begun tested stepped tokens
      kind opens first second ends third closes derives lacks =>
    have shape : keyword :: opening ::
          (begun ++ (tested ++ semicolon :: (stepped ++ closing :: tokens))) =
        keyword :: (opening :: (begun ++ (tested ++ semicolon :: (stepped ++ [closing])))) ++
          tokens := by simp
    rw [shape]
    refine lacks_behind derives lacks fun bound short enough misses => ?_
    simp only [List.length_cons, List.length_append] at enough
    have expresses : Reader.Expresses (expression bound)
        (begun.length + tested.length + stepped.length) := expresses_expression (by omega)
    have head := takes_clauses expresses opens first (by omega) second (by omega) ends third
      (by omega) closes
    exact misses_opening .for kind (misses_restOfFor head misses)

end Lacking

section Whole

variable {tokens : List Token} {endToken finish : Token}

theorem derives_of_quiet (source : ∀ token ∈ tokens, token.FromSource)
    (plain : ∀ token ∈ tokens, token.kind ≠ .finish) (ends : endToken.kind = .finish) {nextId : Nat}
    (quiet : (parse nextId (tokens ++ [endToken])).faults = []) :
    Derives (.declarations (parse nextId (tokens ++ [endToken])).program) tokens := by
  have before : beforeFinish (tokens ++ [endToken]) = tokens :=
    congrArg Cursor.rest (Cursor.start_plain plain ends nextId)
  have parsed : (parse nextId (tokens ++ [endToken])).program? =
      some (parse nextId (tokens ++ [endToken])).program := by
    rw [Parsed.program?, quiet]
    rfl
  have derives := derives_of_parse_before (by rw [before]; exact source) parsed
  rwa [before] at derives

theorem faults_of_quiet (source : ∀ token ∈ tokens, token.FromSource)
    (plain : ∀ token ∈ tokens, token.kind ≠ .finish) (ends : endToken.kind = .finish)
    (finishes : finish.kind = .finish) {nextId : Nat}
    (quiet : (parse nextId (tokens ++ [endToken])).faults = []) (otherId : Nat) :
    (parse otherId (tokens ++ [finish])).faults = [] := by
  have before : beforeFinish (tokens ++ [finish]) = tokens :=
    congrArg Cursor.rest (Cursor.start_plain plain finishes otherId)
  have derives := derives_of_quiet source plain ends quiet
  rw [← before] at derives
  obtain ⟨found, parsed, _⟩ := parse_of_derives derives otherId
  rw [Parsed.program?] at parsed
  split at parsed
  · rename_i none
    exact List.isEmpty_iff.mp none
  · cases parsed

theorem fromBoundary_begins {token : Token} (begins : BeginsStatement token.kind)
    (rest : List Token) : fromBoundary (token :: rest) = token :: rest := by
  obtain ⟨word, kind, starts⟩ := begins
  simp only [fromBoundary, kind, starts, if_pos]

theorem derives_single {program : List Stmt} (derives : Derives (.declarations program) tokens)
    (single : program.length = 1) : ∃ statement, Derives (.declaration statement) tokens := by
  cases derives with
  | nil => cases single
  | @cons statement others before after first more =>
    obtain rfl : others = [] := List.eq_nil_of_length_eq_zero (Nat.succ.inj single)
    cases more
    exact ⟨statement, by rwa [List.append_nil]⟩

theorem lacking_head {statement : Stmt} {front : List Token} {semicolon : Token}
    (derives : Derives (.declaration statement) (front ++ [semicolon]))
    (closes : semicolon.kind = .symbol .semicolon) :
    ∃ token others, front = token :: others ∧ startsDeclaration token.kind = true := by
  obtain ⟨head, others, shape, starts⟩ := derives.declaration_head
  cases front with
  | nil =>
    obtain ⟨rfl, _⟩ := List.cons_eq_cons.mp shape
    rw [closes] at starts
    cases starts
  | cons token front =>
    obtain ⟨rfl, _⟩ := List.cons_eq_cons.mp shape
    exact ⟨token, front, rfl, starts⟩

variable {statement : Stmt} {front rest : List Token} {semicolon first : Token} {bound : Nat}

/-- The declaration that lacks its semicolon is given up at the keyword, and nothing is skipped. -/
theorem statementsUntil_lacking (derives : Derives (.declaration statement) (front ++ [semicolon]))
    (closes : semicolon.kind = .symbol .semicolon) (begins : BeginsStatement first.kind)
    (enough : 2 * (front ++ [semicolon]).length < bound) (rounds : Nat) (done : List Stmt)
    (cursor : Cursor) (here : cursor.rest = front ++ first :: rest) :
    ∃ cause nextId, statementsUntil (· == .finish) (declaration bound) (rounds + 1) done cursor =
      statementsUntil (· == .finish) (declaration bound) rounds done
        { cursor with
          rest := first :: rest
          faults := cursor.faults.push ⟨first.line, first.place, cause⟩
          nextId := nextId } := by
  obtain ⟨token, others, rfl, starts⟩ := lacking_head derives closes
  have goes : (cursor.token.kind == .finish) = false := by
    rw [Cursor.token_eq here]
    exact stops_finish.starts _ starts
  obtain ⟨cause, nextId, failed⟩ :=
    lacks_of_derives derives _ semicolon rfl closes bound enough cursor first rest here begins
  refine ⟨cause, nextId, (statementsUntil_recovers rounds done goes failed).trans ?_⟩
  have moved : (first :: rest).length ≠ cursor.rest.length := by
    rw [here]
    simp only [List.length_append, List.length_cons]
    omega
  rw [recover_eq, Cursor.passed, if_neg moved, fromBoundary_begins begins]

theorem reachesSecond_lacking {program : Program}
    (derivesProgram : Derives (.declarations program) tokens)
    (derives : Derives (.declaration statement) (front ++ [semicolon]))
    (closes : semicolon.kind = .symbol .semicolon) (begins : BeginsStatement first.kind)
    (nextId : Nat) {rounds : Nat} (enough : 2 * (tokens ++ front ++ first :: rest).length < bound)
    (room : (tokens ++ front ++ first :: rest).length ≤ rounds) :
    ∃ cause, ReachesSecond ⟨program, [⟨first.line, first.place, cause⟩], nextId⟩ (first :: rest) finish
      bound rounds ⟨tokens ++ front ++ first :: rest, finish, #[], nextId⟩ := by
  simp only [List.length_append, List.length_cons] at enough room
  obtain ⟨token, others, rfl, starts⟩ := lacking_head derives closes
  rw [List.length_cons] at enough room
  have noElse : ∀ other ∈ (token :: others ++ first :: rest).head?, other.kind ≠ .keyword .else := by
    rintro _ ⟨⟩ other
    rw [other] at starts
    cases starts
  obtain ⟨made, id, left, same, fewer, further⟩ := statementsUntil_declarations derivesProgram bound
    (by omega) rounds (by omega) noElse [] ⟨tokens ++ (token :: others) ++ first :: rest, finish, #[], nextId⟩
    (List.append_assoc _ _ _)
  obtain ⟨left, rfl⟩ := Nat.exists_eq_add_one_of_ne_zero (show left ≠ 0 by omega)
  have enoughHere : 2 * (token :: others ++ [semicolon]).length < bound := by
    simp only [List.length_append, List.length_cons, List.length_nil]
    omega
  obtain ⟨cause, lastId, lacking⟩ := statementsUntil_lacking derives closes begins enoughHere left
    (made.reverse ++ []) ⟨token :: others ++ first :: rest, finish, #[], id⟩ rfl
  refine ⟨cause, made, left,
    ⟨first :: rest, finish, #[].push ⟨first.line, first.place, cause⟩, lastId⟩, same, ?_, rfl, rfl, rfl, ?_⟩
  · rw [List.length_cons]
    omega
  · rw [further, lacking, List.append_nil]

/-- A declaration whose last semicolon is left out between a program and another one that begins with a
keyword is one fault, at that keyword. -/
theorem parse_missing_semicolon {program front rest : List Token} {semicolon first : Token}
    {programEnd declarationEnd restEnd finish : Token} {word : Keyword}
    (source : ∀ token ∈ program ++ (front ++ [semicolon]) ++ first :: rest, token.FromSource)
    (plain : ∀ token ∈ program ++ front ++ first :: rest, token.kind ≠ .finish)
    (programEnds : programEnd.kind = .finish) (declarationEnds : declarationEnd.kind = .finish)
    (restEnds : restEnd.kind = .finish) (finishes : finish.kind = .finish)
    (closes : semicolon.kind = .symbol .semicolon) (begins : first.kind = .keyword word)
    (starts : word ∈ [Keyword.var, .fun, .for, .if, .while, .print, .return])
    (programId declarationId restId nextId : Nat)
    (quietProgram : (parse programId (program ++ [programEnd])).faults = [])
    (quietDeclaration :
      (parse declarationId (front ++ [semicolon] ++ [declarationEnd])).faults = [])
    (single : (parse declarationId (front ++ [semicolon] ++ [declarationEnd])).program.length = 1)
    (quietRest : (parse restId (first :: rest ++ [restEnd])).faults = []) :
    ∃ cause, (parse nextId (program ++ front ++ first :: rest ++ [finish])).faults =
      [⟨first.line, first.place, cause⟩] := by
  have derivesProgram := derives_of_quiet (fun token member => source token (by simp [member]))
    (fun token member => plain token (by simp [member])) programEnds quietProgram
  have plainDeclaration : ∀ token ∈ front ++ [semicolon], token.kind ≠ .finish := by
    intro token member
    rcases List.mem_append.mp member with inside | last
    · exact plain token (by simp [inside])
    · rw [List.mem_singleton.mp last, closes]
      nofun
  obtain ⟨statement, derives⟩ := derives_single (derives_of_quiet
    (fun token member => source token (List.mem_append_left _ (List.mem_append_right _ member)))
    plainDeclaration declarationEnds quietDeclaration) single
  have plainRest : ∀ token ∈ first :: rest, token.kind ≠ .finish :=
    fun token member => plain token (List.mem_append_right _ member)
  have quiet := faults_of_quiet (fun token member => source token (List.mem_append_right _ member))
    plainRest restEnds finishes quietRest nextId
  have beginsStatement : BeginsStatement first.kind := by
    refine ⟨word, begins, ?_⟩
    revert starts
    cases word <;> simp [Keyword.startsStatement]
  -- The bound comes from all of the tokens, and each part needs no more than its own would give.
  have size : enough (program ++ front ++ first :: rest ++ [finish]) =
      2 * ((program ++ front ++ first :: rest).length + 1 + 2) := by
    rw [enough, List.length_append, List.length_singleton]
  have short : (first :: rest).length ≤ (program ++ front ++ first :: rest).length := by
    rw [List.length_append]
    exact Nat.le_add_left _ _
  -- Up to the keyword there is one report; from there on all is read as if it stood alone.
  obtain ⟨cause, reaches⟩ : ∃ cause, ReachesSecond ⟨_, [⟨first.line, first.place, cause⟩], nextId⟩
      (first :: rest) finish (enough (program ++ front ++ first :: rest ++ [finish]))
      (enough (program ++ front ++ first :: rest ++ [finish]))
      ⟨program ++ front ++ first :: rest, finish, #[], nextId⟩ :=
    reachesSecond_lacking derivesProgram derives closes beginsStatement nextId (by omega) (by omega)
  obtain ⟨found, after, read, faults, _⟩ :=
    parse_of_reachesSecond reaches plainRest finishes nextId (by omega)
  have whole : parse nextId (program ++ front ++ first :: rest ++ [finish]) =
      ⟨found, after.faults.toList, after.nextId⟩ := by
    rw [parse, Cursor.start_plain plain finishes]
    simp only [read]
  refine ⟨cause, ?_⟩
  rw [whole, faults, quiet, List.append_nil]

/-- The semicolon of a `return` under an `if` is left out in front of a `print`. -/
theorem parse_missing_semicolon_return :
    let program : List Token :=
      [⟨.identifier, "a", none, ⟨1, 0⟩⟩, ⟨.symbol .semicolon, ";", none, ⟨1, 1⟩⟩]
    let front : List Token :=
      [⟨.keyword .if, "if", none, ⟨1, 3⟩⟩, ⟨.symbol .leftParen, "(", none, ⟨1, 6⟩⟩,
        ⟨.identifier, "b", none, ⟨1, 7⟩⟩, ⟨.symbol .rightParen, ")", none, ⟨1, 8⟩⟩,
        ⟨.keyword .return, "return", none, ⟨1, 10⟩⟩]
    let rest : List Token :=
      [⟨.keyword .print, "print", none, ⟨1, 18⟩⟩, ⟨.identifier, "c", none, ⟨1, 24⟩⟩,
        ⟨.symbol .semicolon, ";", none, ⟨1, 25⟩⟩]
    Scanned.tokens (scan "a; if (b) return; print c;") =
        program ++ (front ++ [⟨.symbol .semicolon, ";", none, ⟨1, 16⟩⟩]) ++ rest ++ [.finish ⟨1, 26⟩] ∧
      ∃ cause, (parse 0 (program ++ front ++ rest ++ [.finish ⟨1, 26⟩])).faults =
        [⟨1, .lexeme "print", cause⟩] := by
  intro program front rest
  have scanned : Scanned.tokens (scan "a; if (b) return; print c;") =
      program ++ (front ++ [⟨.symbol .semicolon, ";", none, ⟨1, 16⟩⟩]) ++ rest ++
        [.finish ⟨1, 26⟩] := by cbv
  refine ⟨scanned, ?_⟩
  have source : ∀ token ∈ program ++ (front ++ [⟨.symbol .semicolon, ";", none, ⟨1, 16⟩⟩]) ++ rest,
      token.FromSource := by
    intro token member
    refine ⟨"a; if (b) return; print c;", ?_⟩
    rw [scanned]
    exact List.mem_append_left _ member
  have ends : (Token.finish ⟨1, 26⟩).kind = .finish := rfl
  exact parse_missing_semicolon source (by decide) ends ends ends ends rfl rfl
    (by decide : Keyword.print ∈ _) 0 0 0 0 (by cbv) (by cbv) (by cbv) (by cbv)

end Whole
end LoxLang.Grammar

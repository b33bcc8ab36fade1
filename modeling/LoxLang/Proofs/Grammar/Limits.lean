import Mathlib
import LoxLang.Proofs.Grammar.Programs

/-!
Lists of arguments and of parameters that are longer than allowed. Each item beyond the limit is
reported where it starts, and nothing else is different: the list is read whole, and so is whatever
stands behind it.
-/
namespace LoxLang.Grammar

section Levels

variable {α : Type} {bound : Nat} {tokens before after : List Token} {fresh : List StaticFault}
  {operand inner right target value : Reader Expr} {holds : Expr → Prop}

theorem takes_rounds {round : Nat → α → Reader (Option α)} {follow : List Token → Prop}
    (stop : ∀ left value, (round left value).Takes [] follow (· = none)) (bound : Nat) (value : α) :
    (rounds round bound value).Takes [] follow (· = value) := by
  cases bound with
  | zero => exact .pure rfl
  | succ left =>
    refine .bind_nil (stop left value) (fun _ follows => follows) fun found this => ?_
    subst this
    exact .pure rfl

theorem Reader.Reports.chain {level : Level}
    (reports : operand.Reports tokens fresh level.tighter.Ends holds) (bound : Nat) :
    (chain bound level operand).Reports tokens fresh (Rank.chain level).Ends holds := by
  rw [chain_eq, ← List.append_nil tokens]
  refine reports.bind_last (fun _ ends => ends.tighten (Nat.le_of_lt level.lt_tighter))
    fun found true => ?_
  refine (takes_rounds (leaves_chainRound level operand) bound found).weaken (fun _ ends => ends) ?_
  rintro _ rfl
  exact true

theorem Reader.Reports.disjunction (reports : operand.Reports tokens fresh Rank.unary.Ends holds)
    (bound : Nat) :
    (disjunction bound operand).Reports tokens fresh (Rank.chain .disjunction).Ends holds := by
  have factors : (factor bound operand).Reports tokens fresh (Rank.chain .factor).Ends holds :=
    reports.chain bound
  have terms : (term bound operand).Reports tokens fresh (Rank.chain .term).Ends holds :=
    factors.chain bound
  have comparisons :
      (comparison bound operand).Reports tokens fresh (Rank.chain .comparison).Ends holds :=
    terms.chain bound
  have equalities : (equality bound operand).Reports tokens fresh (Rank.chain .equality).Ends holds :=
    comparisons.chain bound
  have conjunctions :
      (conjunction bound operand).Reports tokens fresh (Rank.chain .conjunction).Ends holds :=
    equalities.chain bound
  exact conjunctions.chain bound

theorem Reader.Reports.assignment
    (reports : target.Reports tokens fresh (Rank.chain .disjunction).Ends holds)
    (value : Reader Expr) :
    (assignment target value).Reports tokens fresh Rank.assignment.Ends holds := by
  rw [← List.append_nil tokens]
  refine reports.bind_last (fun _ ends => ends.tighten (by decide)) fun found true => ?_
  refine .bind_nil (leaves_takeKind? _) (fun rest ends token next same => ?_) fun sign this => ?_
  · exact ends token next (.inr (.inl ⟨rfl, same⟩))
  · subst this
    exact .pure true

theorem Reader.Loops.reports {reader : Reader α} {round : Nat → α → Reader (Option α)}
    {follow middle : List Token → Prop} {begun done : α → Prop}
    (loops : reader.Loops round bound before middle begun) (enough : before.length ≤ bound)
    (lead : ∀ rest, follow rest → middle (after ++ rest))
    (further : ∀ left value, bound ≤ left + before.length → begun value →
      (round left value).Reports after fresh (fun _ => True) fun next =>
        ∃ made, next = some made ∧ done made)
    (stop : ∀ left value, (round left value).Takes [] follow (· = none)) :
    reader.Reports (before ++ after) fresh follow done := by
  intro cursor rest here followed
  rw [List.append_assoc] at here
  obtain ⟨left, value, nextId, more, read, true⟩ :=
    loops cursor (after ++ rest) here (lead rest followed)
  obtain ⟨fewer, rfl⟩ := Nat.exists_eq_succ_of_ne_zero (show left ≠ 0 by omega)
  obtain ⟨_, nextId, readOn, made, rfl, good⟩ := further fewer value (by omega) true
    { cursor with rest := after ++ rest, nextId := nextId } rest rfl trivial
  obtain ⟨_, finalId, stopped, rfl⟩ := takes_rounds stop fewer made
    ⟨rest, cursor.finish, cursor.faults ++ fresh.toArray, nextId⟩ rest rfl followed
  refine ⟨_, finalId, ?_, good⟩
  rw [read, Grammar.rounds, Reader.bind_apply, readOn]
  exact stopped

end Levels

section Calls

variable {bound : Nat} {callee : Expr} {entries : List (Expr × Token)}
  {before inside : List Token} {opening closing : Token}

theorem listed_spells (listed : Listed (Begins Expressed) entries inside) :
    Listed (Begins Spells) entries inside ∧ ∀ entry ∈ entries, WellLevelled entry.1 := by
  have items {entries : List (Expr × Token)} {tokens : List Token}
      (separated : Separated (Begins Expressed) entries tokens) :
      Separated (Begins Spells) entries tokens ∧ ∀ entry ∈ entries, WellLevelled entry.1 := by
    induction separated with
    | last begins =>
      refine ⟨.last ⟨begins.1.spells, begins.2⟩, fun entry member => ?_⟩
      rw [List.mem_singleton.mp member]
      exact begins.1.levelled
    | more begins kind _ ih =>
      refine ⟨.more ⟨begins.1.spells, begins.2⟩ kind ih.1, fun entry member => ?_⟩
      cases member with
      | head => exact begins.1.levelled
      | tail _ member => exact ih.2 entry member
  cases listed with
  | none => exact ⟨.none, by simp⟩
  | some separated => exact ⟨.some (items separated).1, (items separated).2⟩

theorem reports_call (expressed : Expressed callee before) (tight : .call ≤ rank callee)
    (opens : opening.kind = .symbol .leftParen) (listed : Listed (Begins Expressed) entries inside)
    (closes : closing.kind = .symbol .rightParen)
    (enough : 2 * (before.length + inside.length + 2) < bound) (id : Nat) :
    Reader.Reports (expression bound) (before ++ opening :: (inside ++ [closing]))
      (surplus .tooManyArguments maxItems (entries.map Prod.snd)) Rank.assignment.Ends
      fun found => found.erase =
        (Expr.call ⟨id, closing.line⟩ callee (entries.map Prod.fst)).erase := by
  obtain ⟨bound, rfl⟩ := Nat.exists_eq_add_of_le' (show 2 ≤ bound by omega)
  obtain ⟨spelt, levelled⟩ := listed_spells listed
  have covers : Reader.Covers (expression bound) .assignment (before.length + inside.length) :=
    (covers_expression_unary _ bound).1 (by omega)
  have loops : (call bound (expression bound) (comparison bound (unary bound))).Loops
      (callsRound (expression bound)) bound before (fun _ => True)
      fun found => found.erase = callee.erase :=
    loops_call covers (by omega) expressed.levelled tight expressed.spells (by omega)
  have round (left : Nat) (found : Expr) (more : bound ≤ left + before.length)
      (alike : found.erase = callee.erase) :
      (callsRound (expression bound) left found).Reports (opening :: (inside ++ [closing]))
        (surplus .tooManyArguments maxItems (entries.map Prod.snd)) (fun _ => True) fun next =>
        ∃ made, next = some made ∧
          made.erase = (Expr.call ⟨id, closing.line⟩ callee (entries.map Prod.fst)).erase := by
    refine (reports_callsRound covers spelt levelled (by omega) (by omega) opens closes found).weaken
      (fun _ follows => follows) ?_
    rintro _ ⟨site, values, rfl, line, all⟩
    have erased : site.erase = (Site.mk id closing.line).erase := congrArg (Site.mk 0) line
    exact ⟨_, rfl, by rw [Expr.erase, Expr.erase, alike, all, erased]⟩
  have called := loops.reports (by omega) (fun _ _ => trivial) round (leaves_callsRound (expression bound))
  have apart := expressed.spells.not_unary expressed.levelled tight
  have unaries : Reader.Reports (unary (bound + 1)) (before ++ opening :: (inside ++ [closing]))
      (surplus .tooManyArguments maxItems (entries.map Prod.snd)) Rank.unary.Ends
      fun found => found.erase =
        (Expr.call ⟨id, closing.line⟩ callee (entries.map Prod.fst)).erase := by
    refine .bind_nil (leaves_takeIf? _) (fun rest _ => ?_) fun found this => ?_
    · obtain ⟨first, others, rfl, _⟩ := expressed.spells.head
      rintro token ⟨⟩
      exact apart first rfl
    · subst this
      exact called.weaken (fun _ ends => ends.tighten (by decide)) fun _ alike => alike
  exact (unaries.disjunction (bound + 1)).assignment (expression (bound + 1))

theorem reports_callStatement (expressed : Expressed callee before) (tight : .call ≤ rank callee)
    (opens : opening.kind = .symbol .leftParen) (listed : Listed (Begins Expressed) entries inside)
    (closes : closing.kind = .symbol .rightParen) {semicolon : Token}
    (ends : semicolon.kind = .symbol .semicolon)
    (enough : 2 * (before.length + inside.length + 3) < bound) (id : Nat) :
    Reader.Reports (declaration bound) (before ++ opening :: (inside ++ [closing, semicolon]))
      (surplus .tooManyArguments maxItems (entries.map Prod.snd)) (fun _ => True)
      fun found => found.erase =
        (Stmt.expression (.call ⟨id, closing.line⟩ callee (entries.map Prod.fst))).erase := by
  obtain ⟨bound, rfl⟩ := Nat.exists_eq_add_of_le' (show 2 ≤ bound by omega)
  have called := reports_call expressed tight opens listed closes
    (show 2 * (before.length + inside.length + 2) < bound by omega) id
  have ended : (restOfExpression (expression bound)).Reports
      (before ++ opening :: (inside ++ [closing, semicolon]))
      (surplus .tooManyArguments maxItems (entries.map Prod.snd)) (fun _ => True)
      fun found => found.erase =
        (Stmt.expression (.call ⟨id, closing.line⟩ callee (entries.map Prod.fst))).erase := by
    rw [show before ++ opening :: (inside ++ [closing, semicolon]) =
      (before ++ opening :: (inside ++ [closing])) ++ [semicolon] by simp]
    refine called.bind_last (fun _ _ => Rank.ends_of_closing _ ?_) fun found alike => ?_
    · rintro _ ⟨⟩
      rw [ends]
      rfl
    · refine .bind_cons (takes_needSymbol ends _) fun _ _ => .pure ?_
      rw [Stmt.erase, Stmt.erase, alike]
  have started : Reader.Reports (statement (bound + 1))
      (before ++ opening :: (inside ++ [closing, semicolon]))
      (surplus .tooManyArguments maxItems (entries.map Prod.snd)) (fun _ => True)
      fun found => found.erase =
        (Stmt.expression (.call ⟨id, closing.line⟩ callee (entries.map Prod.fst))).erase := by
    refine .bind_nil (leaves_takeIf? _) (fun rest _ token next => ?_) fun found this => ?_
    · rw [List.append_assoc] at next
      exact opening?_of_expression (head_append expressed.head _ token next)
    · subst this
      exact ended
  change (declarationWith _ _ _ _).Reports _ _ _ _
  refine .bind_nil (leaves_takeKind? _) (fun rest _ => ?_) fun found this => ?_
  · rw [List.append_assoc]
    exact expressed.apart rfl _
  · subst this
    refine .bind_nil (leaves_takeKind? _) (fun rest _ => ?_) fun found this => ?_
    · rw [List.append_assoc]
      exact expressed.apart rfl _
    · subst this
      exact started

theorem callsFrom_reports {argument : Reader Expr} {length : Nat}
    (covers : argument.Covers .assignment length) (listed : Listed (Begins Expressed) entries inside)
    (short : inside.length ≤ length) (enough : inside.length ≤ bound)
    (opens : opening.kind = .symbol .leftParen) (closes : closing.kind = .symbol .rightParen)
    (callee : Expr) {cursor : Cursor} {rest : List Token}
    (here : cursor.rest = opening :: (inside ++ closing :: rest)) :
    ∃ site values nextId,
      callsFrom argument (bound + 1) callee cursor =
        callsFrom argument bound (.call site callee values) ⟨rest, cursor.finish,
          cursor.faults ++ (surplus .tooManyArguments maxItems (entries.map Prod.snd)).toArray,
          nextId⟩ ∧
      site.line = closing.line ∧
      Expr.eraseAll values = Expr.eraseAll (entries.map Prod.fst) := by
  obtain ⟨spelt, levelled⟩ := listed_spells listed
  obtain ⟨_, nextId, read, site, values, rfl, line, all⟩ :=
    reports_callsRound covers spelt levelled short enough opens closes callee cursor rest
      (by simp [here]) trivial
  refine ⟨site, values, nextId, ?_, line, all⟩
  rw [callsFrom_eq, callsFrom_eq, rounds, Reader.bind_apply, read]

end Calls

section Programs

/-- A declaration and its tokens, with what is reported of it: nothing, or the items of its list from
the first one beyond the limit on. -/
inductive Declared : Stmt → List Token → List StaticFault → Prop
  | derived {statement : Stmt} {tokens : List Token} : Derives (.declaration statement) tokens →
    Declared statement tokens []
  | call {id : Nat} {callee : Expr} {entries : List (Expr × Token)}
    {opening closing semicolon : Token} {before inside : List Token} : Expressed callee before →
    .call ≤ rank callee → opening.kind = .symbol .leftParen →
    Listed (Begins Expressed) entries inside → closing.kind = .symbol .rightParen →
    semicolon.kind = .symbol .semicolon →
    Declared (.expression (.call ⟨id, closing.line⟩ callee (entries.map Prod.fst)))
      (before ++ opening :: (inside ++ [closing, semicolon]))
      (surplus .tooManyArguments maxItems (entries.map Prod.snd))
  | function {keyword opening closing brace last : Token} {name : Ident}
    {entries : List (Ident × Token)} {body : List Stmt} {named listed tokens : List Token} :
    keyword.kind = .keyword .fun → Names name named → opening.kind = .symbol .leftParen →
    Listed (Begins Names) entries listed → closing.kind = .symbol .rightParen →
    brace.kind = .symbol .leftBrace → Derives (.declarations body) tokens →
    last.kind = .symbol .rightBrace →
    Declared (.function name (entries.map Prod.fst) body)
      (keyword :: (named ++ opening :: (listed ++ closing :: brace :: (tokens ++ [last]))))
      (surplus .tooManyParameters maxItems (entries.map Prod.snd))

inductive DeclaredAll : List Stmt → List Token → List StaticFault → Prop
  | nil : DeclaredAll [] [] []
  | cons {first : Stmt} {rest : List Stmt} {before after : List Token}
    {early late : List StaticFault} : Declared first before early → DeclaredAll rest after late →
    DeclaredAll (first :: rest) (before ++ after) (early ++ late)

variable {item : Stmt} {program : List Stmt} {tokens : List Token} {faults : List StaticFault}

theorem Declared.head (declared : Declared item tokens faults) :
    ∃ first rest, tokens = first :: rest ∧ startsDeclaration first.kind = true := by
  cases declared with
  | derived derives => exact derives.declaration_head
  | call expressed _ _ _ _ _ =>
    obtain ⟨first, rest, rfl, starts⟩ := expressed.head
    exact ⟨first, _, rfl, startsDeclaration_of_statement (startsStatement_of_expression starts)⟩
  | function kind _ _ _ _ _ _ _ => exact ⟨_, _, rfl, by rw [kind]; rfl⟩

theorem DeclaredAll.head (declared : DeclaredAll program tokens faults) :
    ∀ token ∈ tokens.head?, startsDeclaration token.kind = true := by
  cases declared with
  | nil => nofun
  | cons first _ =>
    obtain ⟨token, _, rfl, starts⟩ := first.head
    rintro _ ⟨⟩
    exact starts

theorem Declared.reports (declared : Declared item tokens faults) {bound : Nat}
    (enough : 2 * tokens.length < bound) :
    Reader.Reports (declaration bound) tokens faults (Follows false)
      fun found => found.erase = item.erase := by
  cases declared with
  | derived derives => exact Reader.reports_nil.mpr (isRead_of_derives derives bound enough)
  | call expressed tight opens listed closes ends =>
    simp only [List.length_append, List.length_cons, List.length_nil] at enough
    exact (reports_callStatement expressed tight opens listed closes ends (by omega) _).weaken
      (fun _ _ => trivial) fun _ alike => alike
  | function kind names opens listed closes braced derives ends =>
    simp only [List.length_append, List.length_cons, List.length_nil] at enough
    exact (reports_function kind names opens listed closes braced (isRead_of_derives derives) ends
      (by omega)).weaken (fun _ _ => trivial) fun _ alike => alike

theorem DeclaredAll.reads (declared : DeclaredAll program tokens faults) {bound rounds : Nat}
    (enough : 2 * tokens.length < bound) (room : tokens.length ≤ rounds) (done : List Stmt)
    {cursor : Cursor} (here : cursor.rest = tokens) (last : cursor.finish.kind = .finish) :
    ∃ found nextId,
      statementsUntil (· == .finish) (declaration bound) rounds done cursor =
        .read found ⟨[], cursor.finish, cursor.faults ++ faults.toArray, nextId⟩ ∧
      Stmt.eraseAll found = Stmt.eraseAll (done.reverse ++ program) := by
  induction declared generalizing rounds done cursor with
  | nil =>
    obtain ⟨left, finish, reported, nextId⟩ := cursor
    cases here
    have stopped : (Cursor.token ⟨[], finish, reported, nextId⟩).kind == .finish := by
      simpa [Cursor.token] using last
    refine ⟨_, nextId, ?_, by rw [List.append_nil]⟩
    exact (statementsUntil_stops rounds done stopped).trans (by simp)
  | @cons first rest before after early late head tail ih =>
    rw [List.length_append] at enough room
    obtain ⟨token, others, rfl, starts⟩ := head.head
    rw [List.length_cons] at enough room
    obtain ⟨fewer, rfl⟩ := Nat.exists_eq_add_one_of_ne_zero (show rounds ≠ 0 by omega)
    have goes : (cursor.token.kind == .finish) = false := by
      rw [Cursor.token_eq here]
      exact stops_finish.starts _ starts
    have follows : Follows false after := by
      intro _ next member same
      have begins := tail.head next member
      rw [same] at begins
      cases begins
    have short : 2 * (token :: others).length < bound := by
      rw [List.length_cons]
      omega
    obtain ⟨statement, nextId, read, alike⟩ := head.reports short cursor after here follows
    obtain ⟨found, finalId, readRest, all⟩ := @ih fewer (by omega) (by omega) (statement :: done)
      ⟨after, cursor.finish, cursor.faults ++ early.toArray, nextId⟩ rfl last
    refine ⟨found, finalId, ?_, ?_⟩
    · exact (statementsUntil_round fewer done goes read).trans (readRest.trans (by simp))
    · rw [all]
      simp [Stmt.eraseAll_eq_map, alike]

theorem parse_reports {all : List Token} (declared : DeclaredAll program (beforeFinish all) faults)
    (nextId : Nat) :
    (parse nextId all).faults = faults ∧
      Stmt.eraseAll (parse nextId all).program = Stmt.eraseAll program ∧
      ((parse nextId all).program?.isSome ↔ faults = []) := by
  have short : (beforeFinish all).length ≤ all.length := (List.takeWhile_sublist _).length_le
  have bound : enough all = 2 * (all.length + 2) := rfl
  obtain ⟨found, finalId, read, alike⟩ := declared.reads (show _ < enough all by omega)
    (show _ ≤ enough all by omega) [] (show (Cursor.start nextId all).rest = _ from rfl)
    (Cursor.start_finish nextId all)
  have result : parse nextId all = ⟨found, faults, finalId⟩ := by
    rw [parse]
    simp only [read]
    simp [Cursor.start]
  rw [result]
  refine ⟨rfl, alike, ?_⟩
  rw [Parsed.program?, Option.isSome_ite, List.isEmpty_iff]

/-- Arguments and parameters are counted alike: whatever the length of the list, all its items are kept
in order, just those beyond the limit are reported, each where it starts, and reading goes on behind
the list as if nothing had been reported. -/
theorem list_limit_exact :
    (∀ (entries : List (Expr × Token)) (inside rest : List Token) (opening closing : Token)
      (depth bound : Nat) (callee : Expr) (cursor : Cursor),
      Listed (Begins Expressed) entries inside → opening.kind = .symbol .leftParen →
      closing.kind = .symbol .rightParen → 2 * inside.length < depth → inside.length ≤ bound →
      cursor.rest = opening :: (inside ++ closing :: rest) →
      ∃ site values nextId,
        callsFrom (expression depth) (bound + 1) callee cursor =
          callsFrom (expression depth) bound (.call site callee values) ⟨rest, cursor.finish,
            cursor.faults ++ (surplus .tooManyArguments maxItems (entries.map Prod.snd)).toArray,
            nextId⟩ ∧
        site.line = closing.line ∧
        Expr.eraseAll values = Expr.eraseAll (entries.map Prod.fst)) ∧
    (∀ (name : Ident) (entries : List (Ident × Token)) (body : List Stmt)
      (named listed tokens rest : List Token) (opening closing brace last : Token) (bound : Nat)
      (cursor : Cursor),
      Names name named → opening.kind = .symbol .leftParen → Listed (Begins Names) entries listed →
      closing.kind = .symbol .rightParen → brace.kind = .symbol .leftBrace →
      Derives (.declarations body) tokens → last.kind = .symbol .rightBrace →
      2 * (listed.length + tokens.length) < bound →
      cursor.rest = named ++ opening :: (listed ++ closing :: brace :: (tokens ++ last :: rest)) →
      ∃ statements nextId,
        restOfFunction bound (restOfBlock bound (declaration bound)) cursor =
          .read (.function name (entries.map Prod.fst) statements) ⟨rest, cursor.finish,
            cursor.faults ++ (surplus .tooManyParameters maxItems (entries.map Prod.snd)).toArray,
            nextId⟩ ∧
        Stmt.eraseAll statements = Stmt.eraseAll body) ∧
    (∀ (program : List Stmt) (tokens : List Token) (faults : List StaticFault) (nextId : Nat),
      DeclaredAll program (beforeFinish tokens) faults →
      (parse nextId tokens).faults = faults ∧
        Stmt.eraseAll (parse nextId tokens).program = Stmt.eraseAll program ∧
        ((parse nextId tokens).program?.isSome ↔ faults = [])) ∧
    ∀ (cause : StaticCause) (starts : List Token),
      (surplus cause maxItems starts).length = starts.length - maxItems ∧
        (surplus cause maxItems starts = [] ↔ starts.length ≤ maxItems) := by
  refine ⟨?calls, ?functions, fun _ _ _ nextId declared => parse_reports declared nextId,
    fun cause starts => ⟨length_surplus cause maxItems starts, surplus_eq_nil⟩⟩
  case calls =>
    intro entries inside rest opening closing depth bound callee cursor listed opens closes deep enough
      here
    have covers : Reader.Covers (expression depth) .assignment inside.length :=
      (covers_expression_unary _ depth).1 deep
    exact callsFrom_reports covers listed (Nat.le_refl _) enough opens closes callee here
  case functions =>
    intro name entries body named listed tokens rest opening closing brace last bound cursor names opens
      listing closes braced derives ends enough here
    -- Only the parameters report; the body is read from its own tokens.
    have block := takes_restOfBlock (isRead_of_derives derives) (show 2 * tokens.length < bound by omega)
      ends
    obtain ⟨found, nextId, read, statements, rfl, alike⟩ :=
      reports_restOfFunction names opens listing (show listed.length ≤ bound by omega) closes braced
        block cursor rest (by simp [here]) trivial
    exact ⟨statements, nextId, read, alike⟩

theorem DeclaredAll.unfinished (declared : DeclaredAll program tokens faults)
    (plain : ∀ token ∈ tokens, token.isFinish = false) :
    DeclaredAll program (beforeFinish tokens) faults := by
  rwa [beforeFinish, List.takeWhile_eq_self_iff.mpr (by simpa using plain)]

theorem separated_replicate {α : Type} {item : α → List Token → Prop} {value : α} {token comma : Token}
    (here : item value [token]) (kind : comma.kind = .symbol .comma) (count : Nat) :
    Separated item (List.replicate (count + 1) value)
      ((List.replicate count [token, comma]).flatten ++ [token]) := by
  induction count with
  | zero => exact .last here
  | succ count ih =>
    have further := Separated.more here kind ih
    exact further

/-- A function with 256 parameters, and a call with 257 arguments behind it. -/
theorem list_limit_exact_beyond : ∃ tokens,
    (parse 0 tokens).faults = [⟨1, .lexeme "a", .tooManyParameters⟩,
      ⟨1, .lexeme "a", .tooManyArguments⟩, ⟨1, .lexeme "a", .tooManyArguments⟩] ∧
    (parse 0 tokens).program.length = 2 ∧ (parse 0 tokens).program?.isSome = false := by
  let word : Token := ⟨.identifier, "a", none, ⟨1, 0⟩⟩
  let sign (symbol : Symbol) : Token := ⟨.symbol symbol, symbol.spelling, none, ⟨1, 0⟩⟩
  have scanned : Scanned.tokens (scan "a") = [word, .finish ⟨1, 1⟩] := by cbv
  have source : word.FromSource := ⟨"a", by rw [scanned]; exact List.mem_cons_self⟩
  have name : Names ⟨"a", 1⟩ [word] := ⟨word, rfl, source, rfl, rfl⟩
  have expressed : Expressed (.variable ⟨0, 1⟩ "a") [word] :=
    ⟨.variable ⟨word, source, rfl, rfl⟩, @Spells.variable 0 word rfl⟩
  have declared (names values : Nat) : ∃ program tokens, program.length = 2 ∧
      DeclaredAll program (beforeFinish tokens)
        (List.replicate (names + 1 - maxItems) ⟨word.line, word.place, .tooManyParameters⟩ ++
          List.replicate (values + 1 - maxItems) ⟨word.line, word.place, .tooManyArguments⟩) := by
    have comma : (sign .comma).kind = .symbol .comma := rfl
    have parameters : Listed (Begins Names) _ _ :=
      .some (separated_replicate (show Begins Names (_, word) _ from ⟨name, rfl⟩) comma names)
    have arguments : Listed (Begins Expressed) _ _ :=
      .some (separated_replicate (show Begins Expressed (_, word) _ from ⟨expressed, rfl⟩) comma values)
    have function := @Declared.function ⟨.keyword .fun, "fun", none, ⟨1, 0⟩⟩ (sign .leftParen)
      (sign .rightParen) (sign .leftBrace) (sign .rightBrace) _ _ _ _ _ _ rfl name rfl parameters rfl rfl
      .nil rfl
    have call := @Declared.call 0 _ _ (sign .leftParen) (sign .rightParen) (sign .semicolon) _ _
      expressed (by decide) rfl arguments rfl rfl
    have all := DeclaredAll.cons function (.cons call .nil)
    have read := all.unfinished (by simp [word, sign, Token.isFinish, or_imp, forall_and])
    exact ⟨_, _, rfl, by simpa [surplus] using read⟩
  obtain ⟨program, tokens, two, all⟩ := declared 255 256
  obtain ⟨reported, alike, accepted⟩ := list_limit_exact.2.2.1 program tokens _ 0 all
  refine ⟨tokens, reported, ?_, ?_⟩
  · simpa [Stmt.eraseAll_eq_map, two] using congrArg List.length alike
  · simpa using accepted.not.mpr (by decide)

end Programs
end LoxLang.Grammar

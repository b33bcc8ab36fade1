import LoxLang.Proofs.Grammar.Taking

/-!
Every well-levelled tree is read from its tokens. Operators of one level are read in a loop, so the
tree on the left of an operator is not read by a call of its own but by the rounds before.
-/
namespace LoxLang.Grammar

section Rounds

variable {α : Type}

/-- Goes on with what has been read as long as a round takes something. -/
def rounds (round : Nat → α → Reader (Option α)) : Nat → α → Reader α
  | 0, value => pure value
  | bound + 1, value => do
    match ← round bound value with
    | none => pure value
    | some next => rounds round bound next

def chainRound (level : Level) (operand : Reader Expr) (_ : Nat) (left : Expr) :
    Reader (Option Expr) := do
  match ← takeIf? level.operator? with
  | none => pure none
  | some (operator, token) =>
    let right ← operand
    let site ← newSite token.line
    pure (some (operator.apply site left right))

def callsRound (argument : Reader Expr) (bound : Nat) (callee : Expr) : Reader (Option Expr) := do
  match ← takeSymbol? .leftParen with
  | none => pure none
  | some _ =>
    let values ← arguments bound argument
    let close ← needSymbol .rightParen .closeAfterArguments
    let site ← newSite close.line
    pure (some (.call site callee values))

theorem chainFrom_eq (level : Level) (operand : Reader Expr) (bound : Nat) (left : Expr) :
    chainFrom level operand bound left = rounds (chainRound level operand) bound left := by
  induction bound generalizing left with
  | zero => rfl
  | succ bound ih =>
    funext cursor
    simp only [chainFrom, rounds, chainRound, Reader.bind_apply]
    cases takeIf? level.operator? cursor with
    | failed after => rfl
    | read found after =>
      cases found with
      | none => rfl
      | some pair =>
        obtain ⟨operator, token⟩ := pair
        simp only [Reader.bind_apply, ih]
        cases operand after with
        | failed final => rfl
        | read right final => rfl

theorem callsFrom_eq (argument : Reader Expr) (bound : Nat) (callee : Expr) :
    callsFrom argument bound callee = rounds (callsRound argument) bound callee := by
  induction bound generalizing callee with
  | zero => rfl
  | succ bound ih =>
    funext cursor
    simp only [callsFrom, rounds, callsRound, Reader.bind_apply]
    cases takeSymbol? .leftParen cursor with
    | failed after => rfl
    | read found after =>
      cases found with
      | none => rfl
      | some token =>
        simp only [Reader.bind_apply, ih]
        cases arguments bound argument after with
        | failed further => rfl
        | read values further =>
          dsimp only
          cases needSymbol .rightParen .closeAfterArguments further with
          | failed final => rfl
          | read close final => rfl

/-- After these tokens the reader is in a round of its loop, with enough rounds left. -/
def Reader.Loops (reader : Reader α) (round : Nat → α → Reader (Option α)) (bound : Nat)
    (tokens : List Token) (follow : List Token → Prop) (holds : α → Prop) : Prop :=
  ∀ cursor rest, cursor.rest = tokens ++ rest → follow rest → ∃ left value nextId,
    bound < left + tokens.length ∧
      reader cursor =
        rounds round left value { cursor with rest := rest, nextId := nextId } ∧ holds value

variable {reader : Reader α} {round : Nat → α → Reader (Option α)} {bound : Nat}
  {tokens before after : List Token} {follow middle : List Token → Prop} {holds done : α → Prop}

theorem Reader.Takes.loops (takes : reader.Takes tokens follow holds) (some : 0 < tokens.length) :
    (reader >>= rounds round bound).Loops round bound tokens follow holds := by
  intro cursor rest here followed
  obtain ⟨value, nextId, read, true⟩ := takes cursor rest here followed
  refine ⟨bound, value, nextId, Nat.lt_add_of_pos_right some, ?_, true⟩
  rw [Reader.bind_apply, read]

theorem Reader.Loops.more (loops : reader.Loops round bound before middle holds)
    (enough : before.length ≤ bound) (some : 0 < after.length)
    (lead : ∀ rest, follow rest → middle (after ++ rest))
    (further : ∀ left value, bound ≤ left + before.length → holds value →
      (round left value).Takes after follow fun next => ∃ made, next = .some made ∧ done made) :
    reader.Loops round bound (before ++ after) follow done := by
  intro cursor rest here followed
  rw [List.append_assoc] at here
  obtain ⟨left, value, nextId, rounds, read, true⟩ :=
    loops cursor (after ++ rest) here (lead rest followed)
  -- a round is left, because there were as many rounds as there have been tokens
  obtain ⟨fewer, rfl⟩ := Nat.exists_eq_succ_of_ne_zero (show left ≠ 0 by omega)
  obtain ⟨_, finalId, readOn, next, rfl, made⟩ := further fewer value (by omega) true
    { cursor with rest := after ++ rest, nextId := nextId } rest rfl followed
  refine ⟨fewer, next, finalId, ?_, ?_, made⟩
  · rw [List.length_append]
    omega
  · rw [read, Grammar.rounds, Reader.bind_apply, readOn]

theorem Reader.Loops.takes (loops : reader.Loops round bound tokens middle holds)
    (lead : ∀ rest, follow rest → middle rest)
    (stop : ∀ left value, (round left value).Takes [] follow (· = none)) :
    reader.Takes tokens follow holds := by
  intro cursor rest here followed
  obtain ⟨left, value, nextId, _, read, true⟩ := loops cursor rest here (lead rest followed)
  cases left with
  | zero => exact ⟨value, nextId, read, true⟩
  | succ left =>
    obtain ⟨_, finalId, stopped, rfl⟩ :=
      stop left value { cursor with rest := rest, nextId := nextId } rest rfl followed
    refine ⟨value, finalId, ?_, true⟩
    rw [read, rounds, Reader.bind_apply, stopped]
    rfl

end Rounds

/-- Trees of this rank and above are read from their tokens, up to this many. -/
def Reader.Covers (reader : Reader Expr) (loosest : Rank) (length : Nat) : Prop :=
  ∀ tree tokens, WellLevelled tree → loosest ≤ rank tree → Spells tree tokens →
    tokens.length ≤ length →
    reader.Takes tokens loosest.Ends fun found => found.erase = tree.erase

section Chains

variable {level : Level} {operand : Reader Expr} {bound length : Nat}

theorem chain_eq (bound : Nat) (level : Level) (operand : Reader Expr) :
    chain bound level operand = operand >>= rounds (chainRound level operand) bound := by
  unfold chain
  rw [funext (chainFrom_eq level operand bound)]

theorem takes_chainRound {operator : Operator} (same : operator.level = level) {sign : Token}
    (kind : sign.kind = operator.kind) {site : Site} (line : sign.line = site.line)
    {tree right value : Expr} {tokens : List Token}
    (takes : operand.Takes tokens level.tighter.Ends fun found => found.erase = right.erase)
    (left : Nat) (alike : value.erase = tree.erase) :
    (chainRound level operand left value).Takes (sign :: tokens) level.tighter.Ends fun next =>
      ∃ made, next = some made ∧ made.erase = (operator.apply site tree right).erase := by
  have chosen : level.operator? sign.kind = some operator := operator?_eq_some.mpr ⟨same, kind.symm⟩
  refine .bind_cons (takes_takeIf? chosen) fun found this => ?_
  subst this
  rw [← List.append_nil tokens]
  refine takes.bind (fun rest ends => ends) fun other alikeRight => ?_
  refine .bind_nil (takes_newSite _) (fun _ _ => trivial) fun fresh sameLine => .pure ⟨_, rfl, ?_⟩
  have erased : fresh.erase = site.erase := congrArg (Site.mk 0) (sameLine.trans line)
  rw [erase_apply, erase_apply, alike, alikeRight, erased]

theorem leaves_chainRound (level : Level) (operand : Reader Expr) (left : Nat) (value : Expr) :
    (chainRound level operand left value).Takes [] (Rank.chain level).Ends (· = none) := by
  refine .bind_nil (leaves_takeIf? _) (fun rest ends => ends.not_operator) fun found this => ?_
  subst this
  exact .pure rfl

/-- The tree on the left of an operator has been read when the round of the operator starts. -/
theorem loops_chain (operands : operand.Covers level.tighter length) (enough : length ≤ bound)
    {tree : Expr} {tokens : List Token} (levelled : WellLevelled tree)
    (tight : .chain level ≤ rank tree) (spells : Spells tree tokens)
    (short : tokens.length ≤ length) :
    (chain bound level operand).Loops (chainRound level operand) bound tokens level.tighter.Ends
      fun found => found.erase = tree.erase := by
  induction size : tokens.length using Nat.strongRecOn generalizing tree tokens with
  | _ size ih =>
    subst size
    rcases Nat.lt_or_eq_of_le tight with tighter | same
    · rw [chain_eq]
      exact (operands tree tokens levelled (Level.tighter_le tighter) spells short).loops
        spells.length_pos
    -- The left operand is a tree of the same level, read in the rounds before this one.
    · obtain ⟨operator, site, left, right, rfl, rfl⟩ := rank_eq_chain (Rank.height_inj same).symm
      obtain ⟨before, sign, after, rfl, spellsLeft, kind, line, spellsRight⟩ := spells.operator
      obtain ⟨levelledLeft, tightLeft, levelledRight, tightRight⟩ := levelled.operator
      rw [List.length_append, List.length_cons] at short
      have ahead := ih before.length (by simp) levelledLeft tightLeft spellsLeft (by omega) rfl
      refine ahead.more (by omega) (Nat.succ_pos _) (fun rest _ => ?_)
        fun rounds value _ alike => ?_
      · rintro _ ⟨⟩
        exact Operator.not_continues kind operator.level.lt_tighter
      · exact takes_chainRound rfl kind line (operands right after levelledRight
          (Level.tighter_le tightRight) spellsRight (by omega)) rounds alike

theorem covers_chain (operands : operand.Covers level.tighter length) (enough : length ≤ bound) :
    (chain bound level operand).Covers (.chain level) length :=
  fun _ _ levelled tight spells short =>
    (loops_chain operands enough levelled tight spells short).takes
      (fun _ ends => ends.tighten (Nat.le_of_lt level.lt_tighter))
      (leaves_chainRound level operand)

theorem covers_disjunction (operands : operand.Covers .unary length) (enough : length ≤ bound) :
    (disjunction bound operand).Covers (.chain .disjunction) length := by
  have factors : (factor bound operand).Covers (.chain .factor) length :=
    covers_chain operands enough
  have terms : (term bound operand).Covers (.chain .term) length := covers_chain factors enough
  have comparisons : (comparison bound operand).Covers (.chain .comparison) length :=
    covers_chain terms enough
  have equalities : (equality bound operand).Covers (.chain .equality) length :=
    covers_chain comparisons enough
  have conjunctions : (conjunction bound operand).Covers (.chain .conjunction) length :=
    covers_chain equalities enough
  exact covers_chain conjunctions enough

end Chains
section Calls

variable {argument inner right : Reader Expr} {bound length : Nat}

def closesArguments (rest : List Token) : Prop :=
  ∃ closing more, rest = closing :: more ∧ closing.kind = .symbol .rightParen

theorem closesArguments.closing {rest : List Token} (closes : closesArguments rest) :
    ∀ token ∈ rest.head?, token.kind = .symbol .rightParen := by
  obtain ⟨closing, more, rfl, kind⟩ := closes
  rintro _ ⟨⟩
  exact kind

theorem closesArguments.ends {rest : List Token} (closes : closesArguments rest) (rank : Rank) :
    rank.Ends rest :=
  rank.ends_of_closing fun token next => by rw [closes.closing token next]; rfl

theorem reports_argumentsFrom (covers : argument.Covers .assignment length)
    {entries : List (Expr × Token)} {tokens : List Token}
    (separated : Separated (Begins Spells) entries tokens)
    (levelled : ∀ entry ∈ entries, WellLevelled entry.1) (short : tokens.length ≤ length)
    {bound count : Nat} (enough : tokens.length ≤ bound) (done : List Expr) :
    (argumentsFrom argument bound count done).Reports tokens
      (surplus .tooManyArguments (maxItems - count) (entries.map Prod.snd)) closesArguments
      fun found => Expr.eraseAll found = Expr.eraseAll (done.reverse ++ entries.map Prod.fst) := by
  induction separated generalizing bound count done with
  | @last entry tokens begins =>
    obtain ⟨value, token⟩ := entry
    obtain ⟨spells, first⟩ : Spells value tokens ∧ tokens.head? = some token := begins
    obtain ⟨others, rfl⟩ := List.head?_eq_some_iff.mp first
    obtain ⟨bound, rfl⟩ := Nat.exists_eq_add_one_of_ne_zero
      (show bound ≠ 0 from fun none => by simp [none] at enough)
    refine Reader.Reports.checked ?_
    rw [List.map_nil, surplus_nil, Reader.reports_nil, ← List.append_nil (token :: others)]
    refine (covers value _ (levelled _ (.head _)) (Nat.zero_le _) spells short).bind
      (fun rest closes => closes.ends _) fun next alike => ?_
    refine .bind_nil (leaves_takeKind? _) (fun rest closes token first => ?_) fun found this => ?_
    · rw [closes.closing token first]
      decide
    · subst this
      refine .pure ?_
      simp [Expr.eraseAll_eq_map, alike]
  -- Behind the comma one more is counted, and the rest is read by induction.
  | @more entry rest before after comma begins kind _ ih =>
    obtain ⟨value, token⟩ := entry
    obtain ⟨spells, first⟩ : Spells value before ∧ before.head? = some token := begins
    obtain ⟨others, rfl⟩ := List.head?_eq_some_iff.mp first
    simp only [List.length_append, List.length_cons] at short enough
    obtain ⟨bound, rfl⟩ := Nat.exists_eq_add_one_of_ne_zero (show bound ≠ 0 by omega)
    refine Reader.Reports.checked (.bind_silent
      (covers value _ (levelled _ (.head _)) (Nat.zero_le _) spells
        (by rw [List.length_cons]; omega))
      (fun _ _ => Rank.ends_of_closing _ ?_) fun next alike => ?_)
    · rintro _ ⟨⟩
      rw [kind]
      rfl
    · refine .bind_cons (takes_takeKind? kind) fun found this => ?_
      subst this
      refine (ih (fun value member => levelled value (.tail _ member)) (by omega) (by omega)
        (next :: done)).weaken (fun _ closes => closes) fun found all => ?_
      rw [all]
      simp [Expr.eraseAll_eq_map, alike]

theorem arguments_eq_nil {cursor : Cursor} (closing : cursor.token.kind = .symbol .rightParen) :
    arguments bound argument cursor = .read [] cursor := by
  rw [arguments, Reader.bind_apply]
  simp only [peek]
  rw [if_pos closing]
  rfl

theorem arguments_eq_from {cursor : Cursor} (apart : cursor.token.kind ≠ .symbol .rightParen) :
    arguments bound argument cursor = argumentsFrom argument bound 0 [] cursor := by
  rw [arguments, Reader.bind_apply]
  simp only [peek]
  rw [if_neg apart]

theorem reports_arguments (covers : argument.Covers .assignment length)
    {entries : List (Expr × Token)} {tokens : List Token}
    (listed : Listed (Begins Spells) entries tokens)
    (levelled : ∀ entry ∈ entries, WellLevelled entry.1) (short : tokens.length ≤ length)
    (enough : tokens.length ≤ bound) :
    (arguments bound argument).Reports tokens
      (surplus .tooManyArguments maxItems (entries.map Prod.snd)) closesArguments
      fun found => Expr.eraseAll found = Expr.eraseAll (entries.map Prod.fst) := by
  intro cursor rest here closes
  cases listed with
  | none =>
    obtain ⟨closing, more, rfl, kind⟩ := closes
    refine ⟨[], cursor.nextId, ?_, rfl⟩
    rw [arguments_eq_nil (by rw [Cursor.token_eq here, kind])]
    cases cursor
    cases here
    simp [surplus]
  | some separated =>
    obtain ⟨first, others, rfl, starts⟩ : ∃ first others, tokens = first :: others ∧
        startsExpression first.kind = true := by
      cases separated with
      | last begins => exact begins.1.head
      | more begins _ _ =>
        obtain ⟨first, others, rfl, starts⟩ := begins.1.head
        exact ⟨first, _, rfl, starts⟩
    have apart : cursor.token.kind ≠ .symbol .rightParen := by
      rw [Cursor.token_eq here]
      intro same
      rw [same] at starts
      cases starts
    rw [arguments_eq_from apart]
    exact reports_argumentsFrom covers separated levelled short enough [] cursor rest here closes

theorem reports_callsRound (covers : argument.Covers .assignment length)
    {entries : List (Expr × Token)} {tokens : List Token}
    (listed : Listed (Begins Spells) entries tokens)
    (levelled : ∀ entry ∈ entries, WellLevelled entry.1) (short : tokens.length ≤ length)
    (enough : tokens.length ≤ bound) {opening closing : Token}
    (opens : opening.kind = .symbol .leftParen) (closes : closing.kind = .symbol .rightParen)
    (callee : Expr) :
    (callsRound argument bound callee).Reports (opening :: (tokens ++ [closing]))
      (surplus .tooManyArguments maxItems (entries.map Prod.snd)) (fun _ => True) fun next =>
      ∃ site values, next = some (.call site callee values) ∧ site.line = closing.line ∧
        Expr.eraseAll values = Expr.eraseAll (entries.map Prod.fst) := by
  refine .bind_cons (takes_takeKind? opens) fun found this => ?_
  subst this
  refine (reports_arguments covers listed levelled short enough).bind_last
    (fun rest _ => ⟨closing, rest, rfl, closes⟩) fun values all => ?_
  refine .bind_cons (takes_needSymbol closes _) fun close this => ?_
  subst this
  exact .bind_nil (takes_newSite _) (fun _ _ => trivial) fun fresh line =>
    .pure ⟨fresh, values, rfl, line, all⟩

theorem takes_callsRound (covers : argument.Covers .assignment length) {values : List Expr}
    {tokens : List Token} (listed : Listed Spells values tokens)
    (levelled : ∀ value ∈ values, WellLevelled value) (short : tokens.length ≤ length)
    (enough : tokens.length ≤ bound) (within : values.length ≤ maxItems) {opening closing : Token}
    (opens : opening.kind = .symbol .leftParen) (closes : closing.kind = .symbol .rightParen)
    {site : Site} (line : closing.line = site.line) {tree callee : Expr}
    (alike : callee.erase = tree.erase) :
    (callsRound argument bound callee).Takes (opening :: (tokens ++ [closing])) (fun _ => True)
      fun next => ∃ made, next = some made ∧ made.erase = (Expr.call site tree values).erase := by
  obtain ⟨entries, rfl, begun⟩ := listed.begins fun _ _ spells => spells.length_pos
  have reports := reports_callsRound covers begun
    (fun entry member => levelled _ (List.mem_map_of_mem member)) short enough opens closes callee
  refine (reports.takes (by simpa using within)).weaken (fun _ follows => follows) ?_
  rintro _ ⟨fresh, values, rfl, sameLine, all⟩
  have erased : fresh.erase = site.erase := congrArg (Site.mk 0) (sameLine.trans line)
  exact ⟨_, rfl, by rw [Expr.erase, Expr.erase, alike, all, erased]⟩

theorem leaves_callsRound (argument : Reader Expr) (left : Nat) (callee : Expr) :
    (callsRound argument left callee).Takes [] Rank.call.Ends (· = none) := by
  refine .bind_nil (leaves_takeKind? _) (fun rest ends => ends.not_paren) fun found this => ?_
  subst this
  exact .pure rfl

theorem takes_literal (token first : Token) (value : Literal) (id : Nat) :
    (literal token value).Takes [first] (fun _ => True)
      fun found => found.erase = (Expr.literal ⟨id, token.line⟩ value).erase := by
  refine .bind_cons takes_take fun _ _ => ?_
  refine .bind_nil (takes_newSite _) (fun _ _ => trivial) fun fresh line => .pure ?_
  rw [Expr.erase, Expr.erase, Site.erase, line, Site.erase]

theorem takes_variable (token first : Token) (id : Nat) :
    (do
      let _ ← take
      let site ← newSite token.line
      pure (.variable site token.lexeme) : Reader Expr).Takes [first] (fun _ => True)
      fun found => found.erase = (Expr.variable ⟨id, token.line⟩ token.lexeme).erase := by
  refine .bind_cons takes_take fun _ _ => ?_
  refine .bind_nil (takes_newSite _) (fun _ _ => trivial) fun fresh line => .pure ?_
  rw [Expr.erase, Expr.erase, Site.erase, line, Site.erase]

theorem takes_group {tokens : List Token} {tree : Expr}
    (takes : inner.Takes tokens Rank.assignment.Ends fun found => found.erase = tree.erase)
    (opening : Token) {closing : Token} (closes : closing.kind = .symbol .rightParen) (id : Nat) :
    (group inner).Takes (opening :: (tokens ++ [closing])) (fun _ => True)
      fun found => found.erase = (Expr.group ⟨id, opening.line⟩ tree).erase := by
  refine .bind_cons takes_take fun paren this => ?_
  subst this
  refine takes.bind (fun _ _ => Rank.ends_of_closing _ ?_) fun found alike => ?_
  · rintro _ ⟨⟩
    rw [closes]
    rfl
  · refine .bind_cons (takes_needSymbol closes _) fun _ _ => ?_
    refine .bind_nil (takes_newSite _) (fun _ _ => trivial) fun fresh line => .pure ?_
    rw [Expr.erase, Expr.erase, alike, Site.erase, line, Site.erase]

theorem primary_eq_literal {cursor : Cursor} {value : Literal}
    (stands : cursor.token.value? = some value) :
    primary inner right cursor = literal cursor.token value cursor := by
  rw [primary, Reader.bind_apply]
  simp only [peek]
  unfold Token.value? at stands
  split at stands
  case h_4 | h_5 =>
    rename_i kind
    simp only [kind, stands]
  case h_6 => cases stands
  all_goals
    rename_i kind
    cases stands
    simp only [kind]

theorem primary_eq_variable {cursor : Cursor} (kind : cursor.token.kind = .identifier) :
    primary inner right cursor =
      (do
        let _ ← take
        let site ← newSite cursor.token.line
        pure (.variable site cursor.token.lexeme) : Reader Expr) cursor := by
  rw [primary, Reader.bind_apply]
  simp only [peek, kind]

theorem primary_eq_group {cursor : Cursor} (kind : cursor.token.kind = .symbol .leftParen) :
    primary inner right cursor = group inner cursor := by
  rw [primary, Reader.bind_apply]
  simp only [peek, kind]

theorem takes_primary (covers : inner.Covers .assignment length) {tree : Expr} {tokens : List Token}
    (levelled : WellLevelled tree) (tight : .primary ≤ rank tree) (spells : Spells tree tokens)
    (short : tokens.length ≤ length + 1) :
    (primary inner right).Takes tokens (fun _ => True) fun found => found.erase = tree.erase := by
  intro cursor rest here _
  cases spells with
  | @literal id token value stands =>
    rw [primary_eq_literal (by rw [Cursor.token_eq here, stands]), Cursor.token_eq here]
    exact takes_literal token token value id cursor rest here trivial
  | @«variable» id token kind =>
    rw [primary_eq_variable (by rw [Cursor.token_eq here, kind]), Cursor.token_eq here]
    exact takes_variable token token id cursor rest here trivial
  | @group id opening closing tree tokens opens spells closes =>
    cases levelled with
    | group levelled =>
      rw [List.length_cons, List.length_append] at short
      rw [primary_eq_group (by rw [Cursor.token_eq here, opens])]
      exact takes_group (covers tree tokens levelled (Nat.zero_le _) spells (by omega)) opening closes
        id cursor rest here trivial
  | binary _ _ _ => exact absurd tight (Operator.not_tight (.binary _) (by decide))
  | logical _ _ _ => exact absurd tight (Operator.not_tight (.logical _) (by decide))
  | assign _ _ _ => exact absurd (show Rank.primary ≤ .assignment from tight) (by decide)
  | unary _ _ => exact absurd (show Rank.primary ≤ .unary from tight) (by decide)
  | call _ _ _ _ => exact absurd (show Rank.primary ≤ .call from tight) (by decide)

theorem call_eq (bound : Nat) (inner right : Reader Expr) :
    call bound inner right = primary inner right >>= rounds (callsRound inner) bound := by
  unfold call
  rw [funext (callsFrom_eq inner bound)]

theorem loops_call (covers : inner.Covers .assignment length) (enough : length < bound) {tree : Expr}
    {tokens : List Token} (levelled : WellLevelled tree) (tight : .call ≤ rank tree)
    (spells : Spells tree tokens) (short : tokens.length ≤ length + 1) :
    (call bound inner right).Loops (callsRound inner) bound tokens (fun _ => True)
      fun found => found.erase = tree.erase := by
  induction size : tokens.length using Nat.strongRecOn generalizing tree tokens with
  | _ size ih =>
    subst size
    rcases Nat.lt_or_eq_of_le tight with tighter | same
    · rw [call_eq]
      exact (takes_primary covers levelled tighter spells short).loops spells.length_pos
    · obtain ⟨site, callee, values, rfl⟩ := rank_eq_call (Rank.height_inj same).symm
      cases spells with
      | @call id opening closing _ _ before inside spells opens listed closes =>
        cases levelled with
        | call levelled tightCallee within levelledAll =>
          rw [List.length_append, List.length_cons, List.length_append,
            List.length_singleton] at short
          have ahead := ih before.length (by simp) levelled tightCallee spells (by omega) rfl
          refine ahead.more (by omega) (Nat.succ_pos _) (fun _ _ => trivial)
            fun left value rounds alike => ?_
          exact takes_callsRound covers listed levelledAll (by omega) (by omega) within opens closes
            rfl alike

theorem covers_call (covers : inner.Covers .assignment length) (enough : length < bound) :
    (call bound inner right).Covers .call (length + 1) :=
  fun _ _ levelled tight spells short =>
    (loops_call covers enough levelled tight spells short).takes (fun _ _ => trivial)
      (leaves_callsRound inner)

end Calls

section Expressions

theorem takes_unaryOr {operand otherwise : Reader Expr} {op : UnaryOp} {sign : Token}
    (kind : sign.kind = op.kind) {tree : Expr} {tokens : List Token}
    (takes : operand.Takes tokens Rank.unary.Ends fun found => found.erase = tree.erase) (id : Nat) :
    (unaryOr operand otherwise).Takes (sign :: tokens) Rank.unary.Ends
      fun found => found.erase = (Expr.unary ⟨id, sign.line⟩ op tree).erase := by
  have chosen : unaryOperator? sign.kind = some op := unaryOperator?_eq_some.mpr kind.symm
  refine .bind_cons (takes_takeIf? chosen) fun found this => ?_
  subst this
  rw [← List.append_nil tokens]
  refine takes.bind (fun rest ends => ends) fun found alike => ?_
  refine .bind_nil (takes_newSite _) (fun _ _ => trivial) fun fresh line => .pure ?_
  rw [Expr.erase, Expr.erase, alike, Site.erase, line, Site.erase]

theorem Spells.not_unary {tree : Expr} {tokens : List Token} (spells : Spells tree tokens)
    (levelled : WellLevelled tree) (tight : .call ≤ rank tree) :
    ∀ token ∈ tokens.head?, unaryOperator? token.kind = none := by
  match spells with
  | .literal stands =>
    rintro token ⟨⟩
    unfold Token.value? at stands
    split at stands
    case h_6 => cases stands
    all_goals
      rename_i kind
      rw [kind]
      rfl
  | .variable kind =>
    rintro token ⟨⟩
    rw [kind]
    rfl
  | .group opens _ _ =>
    rintro token ⟨⟩
    rw [opens]
    rfl
  | .call callee _ _ _ =>
    cases levelled with
    | call levelled tightCallee _ _ =>
      have ahead := callee.not_unary levelled tightCallee
      obtain ⟨first, rest, rfl, _⟩ := callee.head
      rintro token ⟨⟩
      exact ahead first rfl
  | .binary _ _ _ => exact absurd tight (Operator.not_tight (.binary _) (by decide))
  | .logical _ _ _ => exact absurd tight (Operator.not_tight (.logical _) (by decide))
  | .assign _ _ _ => exact absurd (show Rank.call ≤ .assignment from tight) (by decide)
  | .unary _ _ => exact absurd (show Rank.call ≤ .unary from tight) (by decide)

theorem covers_unaryOr {operand inner right : Reader Expr} {bound length : Nat}
    (operands : operand.Covers .unary length) (covers : inner.Covers .assignment length)
    (enough : length < bound) :
    (unaryOr operand (call bound inner right)).Covers .unary (length + 1) := by
  intro tree tokens levelled tight spells short
  rcases Nat.lt_or_eq_of_le tight with tighter | same
  · refine .bind_nil (leaves_takeIf? _) (fun rest _ => ?_) fun found this => ?_
    · have apart := spells.not_unary levelled tighter
      obtain ⟨first, others, rfl, _⟩ := spells.head
      rintro token ⟨⟩
      exact apart first rfl
    · subst this
      exact (covers_call covers enough tree tokens levelled tighter spells short).weaken
        (fun _ ends => ends.tighten (by decide)) fun _ alike => alike
  · obtain ⟨site, op, operand, rfl⟩ := rank_eq_unary (Rank.height_inj same).symm
    cases spells with
    | @unary id _ sign _ tokens kind spells =>
      cases levelled with
      | unary levelled tightOperand =>
        exact takes_unaryOr kind (operands operand tokens levelled tightOperand spells
          (Nat.le_of_succ_le_succ short)) id

theorem variable_of_erase {found : Expr} {site : Site} {name : String}
    (alike : found.erase = (Expr.variable site name).erase) :
    ∃ fresh : Site, found = .variable fresh name ∧ fresh.line = site.line := by
  cases found with
  | «variable» fresh other =>
    rw [Expr.erase, Expr.erase] at alike
    obtain ⟨same, rfl⟩ := Expr.variable.inj alike
    have line : fresh.erase.line = site.erase.line := congrArg Site.line same
    exact ⟨fresh, rfl, line⟩
  | _ => cases alike

theorem takes_assign {target value : Reader Expr} {token sign : Token} {id : Nat} {name : String}
    (takesTarget : target.Takes [token] (fun rest => ∀ next ∈ rest.head?, next.kind = .symbol .equal)
      fun found => found.erase = (Expr.variable ⟨id, token.line⟩ name).erase)
    (equal : sign.kind = .symbol .equal) {tokens : List Token} {tree : Expr}
    (takesValue : value.Takes tokens Rank.assignment.Ends fun found => found.erase = tree.erase) :
    (assignment target value).Takes (token :: sign :: tokens) Rank.assignment.Ends
      fun found => found.erase = (Expr.assign ⟨id, token.line⟩ name tree).erase := by
  change Reader.Takes _ ([token] ++ sign :: tokens) _ _
  refine takesTarget.bind (fun rest _ => ?_) fun found alike => ?_
  · rintro _ ⟨⟩
    exact equal
  · obtain ⟨old, rfl, sameLine⟩ := variable_of_erase alike
    refine .bind_cons (takes_takeKind? equal) fun _ this => ?_
    subst this
    rw [← List.append_nil tokens]
    refine takesValue.bind (fun _ ends => ends) fun made alikeValue => ?_
    refine .bind_nil (takes_newSite _) (fun _ _ => trivial) fun fresh line => .pure ?_
    rw [Expr.erase, Expr.erase, alikeValue, Site.erase, line, sameLine, Site.erase]

/-- A target is read like any other tree, and only then turns out to stand before an equals sign. -/
theorem covers_assignment {target value : Reader Expr} {length : Nat}
    (targets : target.Covers (.chain .disjunction) (length + 1))
    (values : value.Covers .assignment length) :
    (assignment target value).Covers .assignment (length + 1) := by
  intro tree tokens levelled _ spells short
  rcases Nat.lt_or_eq_of_le (Nat.zero_le (rank tree).height) with tighter | same
  · rw [← List.append_nil tokens]
    refine (targets tree tokens levelled tighter spells short).bind
      (fun _ ends => ends.tighten (by decide)) fun found alike => ?_
    refine .bind_nil (leaves_takeKind? _) (fun rest ends token next same => ?_) fun sign this => ?_
    · exact ends token next (.inr (.inl ⟨rfl, same⟩))
    · subst this
      exact .pure alike
  -- The target is read as a variable, and the equals sign shows what it is.
  · have assigns : Rank.assignment = rank tree := Rank.height_inj same
    obtain ⟨site, target, value, rfl⟩ := rank_eq_assignment assigns.symm
    cases spells with
    | @assign id token sign _ tokens kind equal spells =>
      cases levelled with
      | assign name levelled =>
        rw [List.length_cons, List.length_cons] at short
        have tight : Rank.chain .disjunction ≤ .primary := by decide
        refine takes_assign ((targets _ [token] (.variable name) tight (.variable kind)
          (by simp)).weaken (fun _ sign => Rank.ends_of_equal (by decide) sign) fun _ alike => alike)
          equal (values value tokens levelled (Nat.zero_le _) spells (by omega))

theorem Reader.Covers.zero (reader : Reader Expr) (loosest : Rank) : reader.Covers loosest 0 :=
  fun _ _ _ _ spells short => absurd spells.length_pos (Nat.not_lt.mpr short)

/-- How much of the bound a tree needs. -/
theorem covers_expression_unary (length bound : Nat) :
    (2 * length < bound → Reader.Covers (expression bound) .assignment length) ∧
      (2 * length ≤ bound → Reader.Covers (unary bound) .unary length) := by
  induction length generalizing bound with
  | zero => exact ⟨fun _ => .zero _ _, fun _ => .zero _ _⟩
  | succ length ih =>
    have unaryCovers (bound : Nat) (enough : 2 * (length + 1) ≤ bound) :
        Reader.Covers (unary bound) .unary (length + 1) := by
      obtain ⟨less, rfl⟩ := Nat.exists_eq_add_one_of_ne_zero (show bound ≠ 0 by omega)
      exact covers_unaryOr ((ih less).2 (by omega)) ((ih less).1 (by omega)) (by omega)
    refine ⟨fun enough => ?_, unaryCovers bound⟩
    obtain ⟨less, rfl⟩ := Nat.exists_eq_add_one_of_ne_zero (show bound ≠ 0 by omega)
    exact covers_assignment (covers_disjunction (unaryCovers less (by omega)) (by omega))
      ((ih less).1 (by omega))

theorem takes_expression {tree : Expr} {tokens : List Token} (levelled : WellLevelled tree)
    (spells : Spells tree tokens) {bound : Nat} (enough : 2 * tokens.length < bound) :
    Reader.Takes (expression bound) tokens Rank.assignment.Ends
      fun found => found.erase = tree.erase :=
  (covers_expression_unary tokens.length bound).1 enough tree tokens levelled (Nat.zero_le _) spells
    (Nat.le_refl _)

end Expressions
end LoxLang.Grammar

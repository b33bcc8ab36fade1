import LoxLang.Proofs.Grammar.Progress
import LoxLang.Proofs.Grammar.Precedence

/-!
Readers on well-formed input. A reader that is due some tokens takes just these, reports nothing and
gives what they spell, provided that what follows does not go on with it.
-/
namespace LoxLang.Grammar

variable {α β : Type}

/-- In front of what may follow, the reader takes these tokens and reports nothing. -/
def Reader.Takes (reader : Reader α) (tokens : List Token) (follow : List Token → Prop)
    (holds : α → Prop) : Prop :=
  ∀ cursor rest, cursor.rest = tokens ++ rest → follow rest → ∃ value nextId,
    reader cursor = .read value { cursor with rest := rest, nextId := nextId } ∧ holds value

theorem Reader.bind_assoc {γ : Type} (first : Reader α) (next : α → Reader β) (last : β → Reader γ) :
    (first >>= next) >>= last = first >>= fun value => next value >>= last := by
  funext cursor
  simp only [bind_apply]
  cases first cursor <;> rfl

namespace Reader.Takes

variable {first reader : Reader α} {next : α → Reader β} {token : Token}
  {tokens before after : List Token} {follow middle : List Token → Prop} {holds : α → Prop}
  {last : β → Prop}

theorem pure {value : α} (true : holds value) :
    (Pure.pure value : Reader α).Takes [] follow holds := by
  rintro ⟨left, finish, faults, nextId⟩ rest here _
  cases here
  exact ⟨value, nextId, rfl, true⟩

theorem bind (ahead : first.Takes before middle holds)
    (lead : ∀ rest, follow rest → middle (after ++ rest))
    (further : ∀ value, holds value → (next value).Takes after follow last) :
    (first >>= next).Takes (before ++ after) follow last := by
  intro cursor rest here followed
  rw [List.append_assoc] at here
  obtain ⟨value, nextId, read, true⟩ := ahead cursor (after ++ rest) here (lead rest followed)
  obtain ⟨result, finalId, readRest, done⟩ := further value true
    { cursor with rest := after ++ rest, nextId := nextId } rest rfl followed
  exact ⟨result, finalId, bind_eq_read.mpr ⟨value, _, read, readRest⟩, done⟩

theorem bind_cons (ahead : first.Takes [token] (fun _ => True) holds)
    (further : ∀ value, holds value → (next value).Takes after follow last) :
    (first >>= next).Takes (token :: after) follow last :=
  bind ahead (fun _ _ => trivial) further

theorem bind_nil (ahead : first.Takes [] middle holds)
    (lead : ∀ rest, follow rest → middle (tokens ++ rest))
    (further : ∀ value, holds value → (next value).Takes tokens follow last) :
    (first >>= next).Takes tokens follow last :=
  bind ahead lead further

theorem weaken {narrow : List Token → Prop} {less : α → Prop}
    (takes : reader.Takes tokens follow holds) (followed : ∀ rest, narrow rest → follow rest)
    (weaker : ∀ value, holds value → less value) : reader.Takes tokens narrow less := by
  intro cursor rest here allowed
  obtain ⟨value, nextId, read, true⟩ := takes cursor rest here (followed rest allowed)
  exact ⟨value, nextId, read, weaker value true⟩

theorem map {change : α → β} (takes : reader.Takes tokens follow holds)
    (changed : ∀ value, holds value → last (change value)) :
    (change <$> reader).Takes tokens follow last := by
  intro cursor rest here followed
  obtain ⟨value, nextId, read, true⟩ := takes cursor rest here followed
  exact ⟨change value, nextId, map_eq_read.mpr ⟨value, read, rfl⟩, changed value true⟩

end Reader.Takes

/-- The reader takes these tokens and goes on, and just these faults are added on the way. -/
def Reader.Reports (reader : Reader α) (tokens : List Token) (fresh : List StaticFault)
    (follow : List Token → Prop) (holds : α → Prop) : Prop :=
  ∀ cursor rest, cursor.rest = tokens ++ rest → follow rest → ∃ value nextId,
    reader cursor =
        .read value ⟨rest, cursor.finish, cursor.faults ++ fresh.toArray, nextId⟩ ∧ holds value

theorem Reader.reports_nil {reader : Reader α} {tokens : List Token} {follow : List Token → Prop}
    {holds : α → Prop} : reader.Reports tokens [] follow holds ↔ reader.Takes tokens follow holds := by
  simp [Reports, Takes]

namespace Reader.Reports

variable {first reader : Reader α} {next : α → Reader β} {token : Token}
  {tokens before after : List Token} {fresh early late : List StaticFault}
  {follow middle : List Token → Prop} {holds : α → Prop} {last : β → Prop}

theorem bind (ahead : first.Reports before early middle holds)
    (lead : ∀ rest, follow rest → middle (after ++ rest))
    (further : ∀ value, holds value → (next value).Reports after late follow last) :
    (first >>= next).Reports (before ++ after) (early ++ late) follow last := by
  intro cursor rest here followed
  rw [List.append_assoc] at here
  obtain ⟨value, nextId, read, true⟩ := ahead cursor (after ++ rest) here (lead rest followed)
  obtain ⟨result, finalId, readRest, done⟩ := further value true
    ⟨after ++ rest, cursor.finish, cursor.faults ++ early.toArray, nextId⟩ rest rfl followed
  refine ⟨result, finalId, bind_eq_read.mpr ⟨value, _, read, ?_⟩, done⟩
  simpa using readRest

theorem bind_silent (ahead : first.Takes before middle holds)
    (lead : ∀ rest, follow rest → middle (after ++ rest))
    (further : ∀ value, holds value → (next value).Reports after fresh follow last) :
    (first >>= next).Reports (before ++ after) fresh follow last :=
  bind (reports_nil.mpr ahead) lead further

theorem bind_cons (ahead : first.Takes [token] (fun _ => True) holds)
    (further : ∀ value, holds value → (next value).Reports after fresh follow last) :
    (first >>= next).Reports (token :: after) fresh follow last :=
  bind_silent ahead (fun _ _ => trivial) further

theorem bind_nil (ahead : first.Takes [] middle holds)
    (lead : ∀ rest, follow rest → middle (tokens ++ rest))
    (further : ∀ value, holds value → (next value).Reports tokens fresh follow last) :
    (first >>= next).Reports tokens fresh follow last :=
  bind_silent ahead lead further

theorem bind_last (ahead : first.Reports before fresh middle holds)
    (lead : ∀ rest, follow rest → middle (after ++ rest))
    (further : ∀ value, holds value → (next value).Takes after follow last) :
    (first >>= next).Reports (before ++ after) fresh follow last := by
  have silent (value : α) (true : holds value) : (next value).Reports after [] follow last :=
    reports_nil.mpr (further value true)
  simpa using bind ahead lead silent

theorem weaken {narrow : List Token → Prop} {less : α → Prop}
    (reports : reader.Reports tokens fresh follow holds) (followed : ∀ rest, narrow rest → follow rest)
    (weaker : ∀ value, holds value → less value) : reader.Reports tokens fresh narrow less := by
  intro cursor rest here allowed
  obtain ⟨value, nextId, read, true⟩ := reports cursor rest here (followed rest allowed)
  exact ⟨value, nextId, read, weaker value true⟩

end Reader.Reports

section Primitives

variable {token : Token}

theorem takes_takeIf? {choose : TokenKind → Option α} {use : α}
    (chosen : choose token.kind = some use) :
    (takeIf? choose).Takes [token] (fun _ => True) (· = some (use, token)) := by
  rintro ⟨left, finish, faults, nextId⟩ rest here _
  cases here
  exact ⟨_, nextId, by simp [takeIf?, chosen], rfl⟩

theorem leaves_takeIf? (choose : TokenKind → Option α) :
    (takeIf? choose).Takes [] (fun rest => ∀ token ∈ rest.head?, choose token.kind = none)
      (· = none) := by
  rintro ⟨left, finish, faults, nextId⟩ rest here apart
  cases here
  refine ⟨none, nextId, ?_, rfl⟩
  cases left with
  | nil => rfl
  | cons token rest => simp [takeIf?, apart token rfl]

theorem takes_takeKind? {kind : TokenKind} (same : token.kind = kind) :
    (takeKind? kind).Takes [token] (fun _ => True) (· = some token) := by
  refine .bind_cons (takes_takeIf? (if_pos same)) fun found chosen => ?_
  subst chosen
  exact .pure rfl

theorem leaves_takeKind? (kind : TokenKind) :
    (takeKind? kind).Takes [] (fun rest => ∀ token ∈ rest.head?, token.kind ≠ kind) (· = none) := by
  refine .bind_nil (leaves_takeIf? _) (fun rest apart token next => if_neg (apart token next))
    fun found chosen => ?_
  subst chosen
  exact .pure rfl

theorem takes_needSymbol {symbol : Symbol} (same : token.kind = .symbol symbol) (part : Part) :
    (needSymbol symbol part).Takes [token] (fun _ => True) (· = token) := by
  refine .bind_cons (takes_takeKind? same) fun found chosen => ?_
  subst chosen
  exact .pure rfl

theorem takes_needName (same : token.kind = .identifier) (part : Part) :
    (needName part).Takes [token] (fun _ => True) (· = ⟨token.lexeme, token.line⟩) := by
  refine .bind_cons (takes_takeKind? same) fun found chosen => ?_
  subst chosen
  exact .pure rfl

theorem takes_newSite (line : Nat) :
    (newSite line).Takes [] (fun _ => True) (·.line = line) := by
  rintro ⟨left, finish, faults, nextId⟩ rest here _
  cases here
  exact ⟨_, nextId + 1, rfl, rfl⟩

theorem takes_take : take.Takes [token] (fun _ => True) (· = token) := by
  rintro ⟨left, finish, faults, nextId⟩ rest here _
  cases here
  exact ⟨token, nextId, rfl, rfl⟩

theorem Cursor.token_eq {cursor : Cursor} {tokens : List Token}
    (here : cursor.rest = token :: tokens) : cursor.token = token := by
  rw [Cursor.token, here]

/-- What is reported of items that begin with these tokens, if so many of them are allowed. -/
def surplus (cause : StaticCause) (allowed : Nat) (starts : List Token) : List StaticFault :=
  (starts.drop allowed).map fun token => ⟨token.line, token.place, cause⟩

theorem surplus_nil (cause : StaticCause) (allowed : Nat) : surplus cause allowed [] = [] := by
  rw [surplus, List.drop_nil, List.map_nil]

theorem surplus_eq_nil {cause : StaticCause} {allowed : Nat} {starts : List Token} :
    surplus cause allowed starts = [] ↔ starts.length ≤ allowed := by
  rw [surplus, List.map_eq_nil_iff, List.drop_eq_nil_iff]

theorem length_surplus (cause : StaticCause) (allowed : Nat) (starts : List Token) :
    (surplus cause allowed starts).length = starts.length - allowed := by
  rw [surplus, List.length_map, List.length_drop]

theorem surplus_tail (cause : StaticCause) (allowed : Nat) (starts : List Token) :
    surplus cause allowed starts.tail = surplus cause (allowed + 1) starts := by
  rw [surplus, surplus, List.drop_tail]

theorem Reader.Reports.takes {reader : Reader α} {tokens starts : List Token} {cause : StaticCause}
    {allowed : Nat} {follow : List Token → Prop} {holds : α → Prop}
    (reports : reader.Reports tokens (surplus cause allowed starts) follow holds)
    (within : starts.length ≤ allowed) : reader.Takes tokens follow holds := by
  rw [surplus_eq_nil.mpr within] at reports
  exact reports_nil.mp reports

theorem Reader.Reports.checked {first : Token} {others : List Token} {starts : List Token}
    {count : Nat} {cause : StaticCause} {reader : Reader α} {follow : List Token → Prop}
    {holds : α → Prop}
    (reports : reader.Reports (first :: others)
      (surplus cause (maxItems - (count + 1)) starts) follow holds) :
    (checkLimit count cause >>= fun _ => reader).Reports (first :: others)
      (surplus cause (maxItems - count) (first :: starts)) follow holds := by
  intro cursor rest here followed
  rw [Reader.bind_apply, checkLimit]
  by_cases beyond : maxItems ≤ count
  · rw [if_pos beyond, Cursor.token_eq here]
    obtain ⟨value, nextId, read, true⟩ := reports
      { cursor with faults := cursor.faults.push ⟨first.line, first.place, cause⟩ } rest here followed
    refine ⟨value, nextId, read.trans ?_, true⟩
    simp [surplus, Nat.sub_eq_zero_of_le, beyond, Nat.le_succ_of_le]
  · rw [if_neg beyond]
    obtain ⟨value, nextId, read, true⟩ := reports cursor rest here followed
    refine ⟨value, nextId, read.trans ?_, true⟩
    rw [show maxItems - count = maxItems - (count + 1) + 1 by omega]
    rfl

theorem takes_peek {next : Token → Reader α} {tokens : List Token} {follow : List Token → Prop}
    {holds : α → Prop} (further : (next token).Takes (token :: tokens) follow holds) :
    (peek >>= next).Takes (token :: tokens) follow holds := by
  intro cursor rest here followed
  change ∃ value nextId, next cursor.token cursor = _ ∧ holds value
  rw [Cursor.token_eq here]
  exact further cursor rest here followed

end Primitives
end LoxLang.Grammar

import Mathlib
import LoxLang.Proofs.Grammar.Standing

/-!
Reading by index. A stream keeps all its tokens and an index, and only the operations guard the index
against the end; whatever is made of these operations stays at the first end token and reads nothing
behind it. Every reader of the grammar is one that is made of them.
-/
namespace LoxLang.Grammar

structure TokenStream where
  tokens : List Token
  current : Nat
  faults : Array StaticFault
  nextId : Nat

namespace TokenStream

def start (nextId : Nat) (tokens : List Token) : TokenStream := ⟨tokens, 0, #[], nextId⟩

/-- Behind the list it is the last token for ever. -/
def token (stream : TokenStream) : Token :=
  (stream.tokens[min stream.current (stream.tokens.length - 1)]?).getD (.finish .start)

def next (stream : TokenStream) : TokenStream :=
  if stream.token.isFinish then stream else { stream with current := stream.current + 1 }

/-- To the next boundary; there are no more rounds than tokens. -/
def synchronizeFrom : Nat → TokenStream → TokenStream
  | 0, stream => stream
  | rounds + 1, stream =>
    match stream.token.kind with
    | .finish => stream
    | .symbol .semicolon => stream.next
    | .keyword keyword =>
      if keyword.startsStatement then stream else synchronizeFrom rounds stream.next
    | _ => synchronizeFrom rounds stream.next

def synchronize (stream : TokenStream) : TokenStream :=
  synchronizeFrom stream.tokens.length stream

end TokenStream

/-- Gives a value or gives up, and leaves the stream somewhere in both cases. -/
def Action (α : Type) : Type := TokenStream → Option α × TokenStream

namespace Action

def bind {α β : Type} (first : Action α) (next : α → Action β) : Action β := fun stream =>
  match first stream with
  | (some value, after) => next value after
  | (none, after) => (none, after)

instance : Monad Action where
  pure value := fun stream => (some value, stream)
  bind := bind

theorem bind_apply {α β : Type} (first : Action α) (next : α → Action β) (stream : TokenStream) :
    (first >>= next) stream =
      match first stream with
      | (some value, after) => next value after
      | (none, after) => (none, after) := rfl

def peek : Action Token := fun stream => (some stream.token, stream)

def next : Action Token := fun stream => (some stream.token, stream.next)

def index : Action Nat := fun stream => (some stream.current, stream)

def synchronize : Action Unit := fun stream => (some (), stream.synchronize)

def report (token : Token) (cause : StaticCause) : Action Unit := fun stream =>
  (some (), { stream with faults := stream.faults.push ⟨token.line, token.place, cause⟩ })

def giveUp {α : Type} : Action α := fun stream => (none, stream)

def newId : Action Nat := fun stream =>
  (some stream.nextId, { stream with nextId := stream.nextId + 1 })

def attempt {α : Type} (action : Action α) : Action (Option α) := fun stream =>
  let (result, after) := action stream
  (some result, after)

/-- Goes on also if `action` gives up, with the reports there were before. -/
def silently {α : Type} (action : Action α) : Action Unit := fun stream =>
  (some (), { (action { stream with faults := #[] }).2 with faults := stream.faults })

/-- Takes the next token if `choose` has a use for its kind; the end token is never asked for. -/
def nextIf? {α : Type} (choose : TokenKind → Option α) : Action (Option (α × Token)) :=
  peek >>= fun token =>
    if token.isFinish then pure none
    else
      match choose token.kind with
      | none => pure none
      | some use => next >>= fun token => pure (some (use, token))

/-- What is done about a declaration that gives up: something is taken in any case. -/
def orRecover {α : Type} (declaration : Action α) : Action (Option α) :=
  index >>= fun start => attempt declaration >>= fun found =>
    match found with
    | some value => pure (some value)
    | none => index >>= fun reached =>
      (if reached = start then next >>= fun _ => synchronize else synchronize) >>= fun _ => pure none

theorem orRecover_apply {α : Type} (declaration : Action α) (stream : TokenStream) :
    declaration.orRecover stream =
      match declaration stream with
      | (some value, after) => (some (some value), after)
      | (none, after) => (some none,
          if after.current = stream.current then after.next.synchronize else after.synchronize) := by
  rw [orRecover, bind_apply]
  simp only [index, bind_apply, attempt]
  rcases declaration stream with ⟨_ | value, after⟩
  · by_cases stuck : after.current = stream.current
    · simp only [bind_apply, index, stuck, if_true]
      rfl
    · simp only [bind_apply, index, stuck, if_false]
      rfl
  · rfl

/-- Made of operations that look at the stream through its guarded index only. -/
inductive Guarded : {α : Type} → Action α → Prop
  | pure {α : Type} (value : α) : Guarded (Pure.pure value : Action α)
  | bind {α β : Type} {first : Action α} {next : α → Action β} : Guarded first →
    (∀ value, Guarded (next value)) → Guarded (first >>= next)
  | peek : Guarded peek
  | next : Guarded next
  | index : Guarded index
  | synchronize : Guarded synchronize
  | report (token : Token) (cause : StaticCause) : Guarded (report token cause)
  | giveUp {α : Type} : Guarded (giveUp : Action α)
  | newId : Guarded newId
  | attempt {α : Type} {action : Action α} : Guarded action → Guarded (attempt action)
  | silently {α : Type} {action : Action α} : Guarded action → Guarded (silently action)

theorem Guarded.nextIf? {α : Type} (choose : TokenKind → Option α) :
    (Action.nextIf? choose).Guarded := by
  refine .bind .peek fun token => ?_
  split
  · exact .pure none
  · split
    · exact .pure none
    · exact .bind .next fun _ => .pure _

theorem Guarded.orRecover {α : Type} {declaration : Action α} (guarded : declaration.Guarded) :
    declaration.orRecover.Guarded := by
  refine .bind .index fun start => .bind guarded.attempt fun found => ?_
  cases found with
  | some value => exact .pure _
  | none =>
    refine .bind .index fun reached => .bind ?_ fun _ => .pure none
    split
    · exact .bind .next fun _ => .synchronize
    · exact .synchronize

end Action

section Guard

variable {front : List Token} {finish : Token} {first second : TokenStream}

/-- Two streams at the same place in front of the first end token, with anything behind it. -/
structure TokenStream.Alike (front : List Token) (finish : Token) (first second : TokenStream) :
    Prop where
  shape : ∃ behind, first.tokens = front ++ finish :: behind
  twinShape : ∃ behind, second.tokens = front ++ finish :: behind
  current : first.current = second.current
  within : first.current ≤ front.length
  faults : first.faults = second.faults
  nextId : first.nextId = second.nextId

namespace TokenStream

theorem token_eq {stream : TokenStream} {behind : List Token}
    (shape : stream.tokens = front ++ finish :: behind) (within : stream.current ≤ front.length) :
    (front ++ [finish])[stream.current]? = some stream.token := by
  have inside : stream.current < (front ++ [finish]).length := by
    rw [List.length_append, List.length_singleton]
    omega
  have split : stream.tokens = (front ++ [finish]) ++ behind := by simp [shape]
  have least : min stream.current (stream.tokens.length - 1) = stream.current := by
    rw [shape, List.length_append, List.length_cons]
    omega
  rw [token, least, split, List.getElem?_append_left inside, List.getElem?_eq_getElem inside]
  rfl

namespace Alike

theorem token (alike : Alike front finish first second) : first.token = second.token := by
  obtain ⟨_, shape⟩ := alike.shape
  obtain ⟨_, twinShape⟩ := alike.twinShape
  have here := token_eq shape alike.within
  have there := token_eq twinShape (alike.current ▸ alike.within)
  rw [← alike.current, here] at there
  exact Option.some.inj there

theorem next (ends : finish.kind = .finish) (alike : Alike front finish first second) :
    Alike front finish first.next second.next ∧ first.current ≤ first.next.current := by
  rw [TokenStream.next, TokenStream.next, ← alike.token]
  split
  · exact ⟨alike, Nat.le_refl _⟩
  · rename_i goes
    refine ⟨⟨alike.shape, alike.twinShape, congrArg (· + 1) alike.current, ?_, alike.faults,
      alike.nextId⟩, Nat.le_succ _⟩
    obtain ⟨_, shape⟩ := alike.shape
    refine Nat.lt_of_le_of_ne alike.within fun last => goes ?_
    have here := token_eq shape alike.within
    rw [last, List.getElem?_concat_length, Option.some.injEq] at here
    rw [← here, Token.isFinish, ends]
    rfl

/-- With as many rounds as there are tokens up to the end, both come to the same boundary. -/
theorem synchronizeFrom (ends : finish.kind = .finish) {rounds others : Nat}
    (alike : Alike front finish first second) (room : front.length < rounds + first.current)
    (otherRoom : front.length < others + first.current) :
    Alike front finish (TokenStream.synchronizeFrom rounds first)
        (TokenStream.synchronizeFrom others second) ∧
      first.current ≤ (TokenStream.synchronizeFrom rounds first).current := by
  induction rounds generalizing others first second with
  | zero => exact absurd alike.within (by omega)
  | succ rounds ih =>
    cases others with
    | zero => exact absurd alike.within (by omega)
    | succ others =>
      have on (goes : first.token.isFinish = false) :
          Alike front finish (TokenStream.synchronizeFrom rounds first.next)
              (TokenStream.synchronizeFrom others second.next) ∧
            first.current ≤ (TokenStream.synchronizeFrom rounds first.next).current := by
        have moved : first.next.current = first.current + 1 := by simp [TokenStream.next, goes]
        obtain ⟨further, later⟩ := ih (alike.next ends).1
          (show front.length < rounds + first.next.current by omega)
          (show front.length < others + first.next.current by omega)
        exact ⟨further, by omega⟩
      rw [TokenStream.synchronizeFrom, TokenStream.synchronizeFrom, ← alike.token]
      split
      · exact ⟨alike, Nat.le_refl _⟩
      · exact alike.next ends
      · rename_i keyword kind
        split
        · exact ⟨alike, Nat.le_refl _⟩
        · exact on (by simp [Token.isFinish, kind])
      · rename_i apart _ _
        exact on (by simpa [Token.isFinish] using apart)

theorem synchronize (ends : finish.kind = .finish) (alike : Alike front finish first second) :
    Alike front finish first.synchronize second.synchronize ∧
      first.current ≤ first.synchronize.current := by
  obtain ⟨behind, shape⟩ := alike.shape
  obtain ⟨others, twinShape⟩ := alike.twinShape
  refine alike.synchronizeFrom ends ?_ ?_
  · rw [shape, List.length_append, List.length_cons]
    omega
  · rw [twinShape, List.length_append, List.length_cons]
    omega

end Alike
end TokenStream

/-- The guard of the operations is enough: nothing that is made of them goes back, passes the first end
token or depends on what stands behind it. -/
theorem Action.Guarded.alike {α : Type} {action : Action α} (guarded : action.Guarded)
    (ends : finish.kind = .finish) (alike : first.Alike front finish second) :
    (action first).1 = (action second).1 ∧
      (action first).2.Alike front finish (action second).2 ∧
      first.current ≤ (action first).2.current := by
  induction guarded generalizing first second with
  | pure value => exact ⟨rfl, alike, Nat.le_refl _⟩
  | @bind α β action next _ _ ih further =>
    obtain ⟨same, alike, onward⟩ := ih alike
    change (Action.bind action next first).1 = (Action.bind action next second).1 ∧
      (Action.bind action next first).2.Alike front finish (Action.bind action next second).2 ∧
      first.current ≤ (Action.bind action next first).2.current
    unfold Action.bind
    rcases ran : action first with ⟨_ | value, after⟩ <;>
      rcases ranToo : action second with ⟨_ | other, twin⟩ <;>
      rw [ran, ranToo] at same alike <;> rw [ran] at onward <;> cases same
    · exact ⟨rfl, alike, onward⟩
    · obtain ⟨same, alike, later⟩ := further value alike
      exact ⟨same, alike, Nat.le_trans onward later⟩
  | peek => exact ⟨congrArg some alike.token, alike, Nat.le_refl _⟩
  | next => exact ⟨congrArg some alike.token, alike.next ends⟩
  | index => exact ⟨congrArg some alike.current, alike, Nat.le_refl _⟩
  | synchronize => exact ⟨rfl, alike.synchronize ends⟩
  | report token cause =>
    exact ⟨rfl, ⟨alike.shape, alike.twinShape, alike.current, alike.within,
      congrArg (·.push ⟨token.line, token.place, cause⟩) alike.faults, alike.nextId⟩, Nat.le_refl _⟩
  | giveUp => exact ⟨rfl, alike, Nat.le_refl _⟩
  | newId =>
    exact ⟨congrArg some alike.nextId, ⟨alike.shape, alike.twinShape, alike.current, alike.within,
      alike.faults, congrArg (· + 1) alike.nextId⟩, Nat.le_refl _⟩
  | attempt _ ih =>
    obtain ⟨same, further, onward⟩ := ih alike
    exact ⟨congrArg some same, further, onward⟩
  | silently _ ih =>
    have muted : TokenStream.Alike front finish { first with faults := #[] }
        { second with faults := #[] } :=
      ⟨alike.shape, alike.twinShape, alike.current, alike.within, rfl, alike.nextId⟩
    obtain ⟨_, further, onward⟩ := ih muted
    exact ⟨rfl, ⟨further.shape, further.twinShape, further.current, further.within, alike.faults,
      further.nextId⟩, onward⟩

end Guard

/-- Cursor and stream stand at the same token of the list and have reported the same. -/
structure Cursor.Reads (tokens : List Token) (cursor : Cursor) (stream : TokenStream) : Prop where
  whole : stream.tokens = tokens
  stands : cursor.Stands tokens stream.current
  faults : stream.faults = cursor.faults
  nextId : stream.nextId = cursor.nextId

inductive Reading.Agrees (tokens : List Token) {α : Type} : Reading α → Option α × TokenStream → Prop
  | read {value : α} {after : Cursor} {stream : TokenStream} : after.Reads tokens stream →
    Agrees tokens (.read value after) (some value, stream)
  | failed {after : Cursor} {stream : TokenStream} : after.Reads tokens stream →
    Agrees tokens (.failed after) (none, stream)

def Reader.Follows {α : Type} (reader : Reader α) (action : Action α) : Prop :=
  ∀ tokens cursor stream, cursor.Reads tokens stream →
    (reader cursor).Agrees tokens (action stream)

def Reader.Indexed {α : Type} (reader : Reader α) : Prop :=
  ∃ action : Action α, action.Guarded ∧ reader.Follows action

section Reads

variable {tokens : List Token} {cursor : Cursor} {stream : TokenStream}

theorem Cursor.Reads.token (reads : cursor.Reads tokens stream) : stream.token = cursor.token := by
  have here := reads.stands.token
  have inside := (List.getElem?_eq_some_iff.mp here).1
  have least : min stream.current (tokens.length - 1) = stream.current := by omega
  rw [TokenStream.token, reads.whole, least, here]
  rfl

theorem Cursor.Stands.rest_nil {index : Nat} (stands : cursor.Stands tokens index) :
    cursor.rest = [] ↔ cursor.token.isFinish = true := by
  constructor
  · intro empty
    rw [Cursor.token, empty]
    exact beq_iff_eq.mpr stands.ends
  · intro finish
    cases left : cursor.rest with
    | nil => rfl
    | cons token more =>
      have member : token ∈ beforeFinish tokens :=
        List.mem_of_mem_drop (i := index) (by rw [← stands.rest, left]; exact List.mem_cons_self)
      have plain := List.mem_takeWhile_imp member
      rw [token_eq left] at finish
      rw [finish] at plain
      cases plain

theorem Cursor.Reads.next (reads : cursor.Reads tokens stream) :
    cursor.advance.Reads tokens stream.next := by
  rw [TokenStream.next, reads.token]
  split
  · rename_i finish
    have empty := reads.stands.rest_nil.mpr finish
    have same : cursor.advance = cursor := by
      cases cursor
      simp_all [Cursor.advance]
    rwa [same]
  · rename_i goes
    have left := reads.stands.rest_length
    have some : cursor.rest ≠ [] := mt reads.stands.rest_nil.mp goes
    have positive := List.length_pos_iff.mpr some
    have further : stream.current + 1 ≤ (beforeFinish tokens).length := by omega
    refine ⟨reads.whole, ⟨further, ?_, reads.stands.finish, reads.stands.ends⟩, reads.faults,
      reads.nextId⟩
    rw [Cursor.advance, reads.stands.rest, List.tail_drop]

theorem Cursor.Reads.synchronizeFrom {rounds : Nat} (reads : cursor.Reads tokens stream)
    (room : cursor.rest.length < rounds) :
    Cursor.Reads tokens { cursor with rest := fromBoundary cursor.rest }
      (stream.synchronizeFrom rounds) := by
  induction rounds generalizing cursor stream with
  | zero => cases room
  | succ rounds ih =>
    rw [TokenStream.synchronizeFrom, reads.token]
    cases left : cursor.rest with
    -- At the end token both stay where they are.
    | nil =>
      have finish : cursor.token.kind = .finish := beq_iff_eq.mp (reads.stands.rest_nil.mp left)
      rw [finish]
      have same : { cursor with rest := fromBoundary [] } = cursor := by
        cases cursor
        simp_all [fromBoundary]
      rwa [same]
    | cons token more =>
      have goes : cursor.token.kind ≠ .finish := by
        intro finish
        rw [reads.stands.rest_nil.mpr (beq_iff_eq.mpr finish)] at left
        cases left
      have shown : cursor.token = token := token_eq left
      have moved : cursor.advance = { cursor with rest := more } := by
        rw [Cursor.advance, left]
        rfl
      have further := reads.next
      rw [moved] at further
      have on : Cursor.Reads tokens { cursor with rest := fromBoundary more }
          (stream.next.synchronizeFrom rounds) := by
        refine ih further ?_
        rw [left, List.length_cons] at room
        exact Nat.lt_of_succ_lt_succ room
      have stay : { cursor with rest := token :: more } = cursor := by
        cases cursor
        simp_all
      rw [shown] at goes ⊢
      -- Both decide by this one token: behind a semicolon, in front of a keyword, or further on.
      unfold fromBoundary
      split
      · rename_i kind
        simpa only [kind] using further
      · rename_i keyword kind
        simp only [kind]
        split
        · rwa [stay]
        · exact on
      · split
        · exact absurd ‹_› goes
        · exact absurd ‹_› ‹token.kind = .symbol .semicolon → False›
        · rename_i keyword _
          exact absurd ‹_› (‹∀ keyword, token.kind = .keyword keyword → False› keyword)
        · exact on

theorem Cursor.Reads.synchronize (reads : cursor.Reads tokens stream) :
    Cursor.Reads tokens { cursor with rest := fromBoundary cursor.rest } stream.synchronize := by
  refine reads.synchronizeFrom ?_
  have left := reads.stands.rest_length
  have inside := (List.getElem?_eq_some_iff.mp reads.stands.finish).1
  rw [reads.whole]
  omega

end Reads

section Following

variable {α β : Type} {tokens : List Token} {cursor after : Cursor} {stream further : TokenStream}

theorem Reader.Follows.bind {first : Reader α} {next : α → Reader β} {action : Action α}
    {actions : α → Action β} (follows : first.Follows action)
    (onward : ∀ value, (next value).Follows (actions value)) :
    (first >>= next).Follows (action >>= actions) := by
  intro tokens cursor stream reads
  have here := follows tokens cursor stream reads
  rw [Reader.bind_apply]
  change Reading.Agrees tokens _ (Action.bind action actions stream)
  unfold Action.bind
  cases ran : first cursor with
  | read value after =>
    rw [ran] at here
    cases acted : action stream with
    | mk result later =>
      rw [acted] at here
      cases here with
      | read reads => exact onward value tokens after later reads
  | failed after =>
    rw [ran] at here
    cases acted : action stream with
    | mk result later =>
      rw [acted] at here
      cases here with
      | failed reads => exact .failed reads

theorem follows_peek : peek.Follows Action.peek := by
  intro tokens cursor stream reads
  rw [Action.peek, reads.token]
  exact .read reads

theorem follows_take : take.Follows Action.next := by
  intro tokens cursor stream reads
  rw [Action.next, reads.token]
  exact .read reads.next

theorem follows_report (token : Token) (cause : StaticCause) :
    (report token cause).Follows (Action.report token cause) := by
  intro tokens cursor stream reads
  exact .read ⟨reads.whole, ⟨reads.stands.within, reads.stands.rest, reads.stands.finish,
    reads.stands.ends⟩, congrArg (·.push ⟨token.line, token.place, cause⟩) reads.faults,
    reads.nextId⟩

theorem follows_giveUp : (giveUp : Reader α).Follows Action.giveUp :=
  fun _ _ _ reads => .failed reads

end Following

section Indexing

variable {α β : Type}

theorem indexed_pure (value : α) : (pure value : Reader α).Indexed :=
  ⟨pure value, .pure value, fun _ _ _ reads => .read reads⟩

theorem Reader.Indexed.bind {first : Reader α} {next : α → Reader β} (indexed : first.Indexed)
    (onward : ∀ value, (next value).Indexed) : (first >>= next).Indexed := by
  obtain ⟨action, guarded, follows⟩ := indexed
  choose actions guardedToo further using onward
  exact ⟨action >>= actions, guarded.bind guardedToo, follows.bind further⟩

theorem indexed_peek : peek.Indexed := ⟨.peek, .peek, follows_peek⟩

theorem indexed_take : take.Indexed := ⟨.next, .next, follows_take⟩

theorem indexed_report (token : Token) (cause : StaticCause) : (report token cause).Indexed :=
  ⟨.report token cause, .report token cause, follows_report token cause⟩

theorem indexed_giveUp : (giveUp : Reader α).Indexed := ⟨.giveUp, .giveUp, follows_giveUp⟩

theorem indexed_newSite (line : Nat) : (newSite line).Indexed := by
  refine ⟨Action.newId >>= fun id => pure ⟨id, line⟩, Action.Guarded.newId.bind fun id => .pure _,
    fun tokens cursor stream reads => ?_⟩
  have same : (Action.newId >>= fun id => pure (Site.mk id line)) stream =
      (some ⟨cursor.nextId, line⟩, { stream with nextId := cursor.nextId + 1 }) := by
    rw [← reads.nextId]
    rfl
  rw [same]
  exact .read ⟨reads.whole, ⟨reads.stands.within, reads.stands.rest, reads.stands.finish,
    reads.stands.ends⟩, reads.faults, rfl⟩

theorem indexed_fail (cause : StaticCause) : (fail cause : Reader α).Indexed := by
  have parts : (fail cause : Reader α) =
      (peek >>= fun token => report token cause >>= fun _ => giveUp) := rfl
  rw [parts]
  exact indexed_peek.bind fun token => (indexed_report token cause).bind fun _ => indexed_giveUp

theorem indexed_checkLimit (count : Nat) (cause : StaticCause) : (checkLimit count cause).Indexed := by
  have parts : checkLimit count cause =
      if maxItems ≤ count then (peek >>= fun token => report token cause) else pure () := by
    funext cursor
    unfold checkLimit
    split <;> rfl
  rw [parts]
  split
  · exact indexed_peek.bind fun token => indexed_report token cause
  · exact indexed_pure ()

theorem indexed_takeIf {choose : TokenKind → Option α} : (takeIf? choose).Indexed := by
  refine ⟨.nextIf? choose, .nextIf? choose, fun tokens cursor stream reads => ?_⟩
  have acted : Action.nextIf? choose stream =
      if cursor.token.isFinish then (some none, stream)
      else match choose cursor.token.kind with
        | none => (some none, stream)
        | some use => (some (some (use, cursor.token)), stream.next) := by
    change (if stream.token.isFinish then pure none else _ : Action _) stream = _
    rw [reads.token]
    split
    · rfl
    · cases choose cursor.token.kind with
      | none => rfl
      | some use =>
        change (some (some (use, stream.token)), stream.next) = _
        rw [reads.token]
  rw [acted]
  cases left : cursor.rest with
  | nil =>
    rw [if_pos (reads.stands.rest_nil.mp left), takeIf?, left]
    exact .read reads
  | cons token more =>
    -- The token that is left is no end token, so that the guard lets the index go on.
    have goes : ¬cursor.token.isFinish = true := by
      rw [← reads.stands.rest_nil, left]
      exact List.cons_ne_nil _ _
    have moved : cursor.advance = { cursor with rest := more } := by
      rw [Cursor.advance, left]
      rfl
    rw [if_neg goes, takeIf?, left, Cursor.token_eq left]
    dsimp only
    cases choose token.kind with
    | none => exact .read reads
    | some use => exact .read (moved ▸ reads.next)

theorem indexed_takeKind (kind : TokenKind) : (takeKind? kind).Indexed := by
  refine indexed_takeIf.bind fun found => ?_
  cases found with
  | none => exact indexed_pure none
  | some found => exact indexed_pure (some found.2)

theorem Reader.Indexed.silently {reader : Reader α} (indexed : reader.Indexed) :
    (Grammar.silently reader).Indexed := by
  obtain ⟨action, guarded, follows⟩ := indexed
  refine ⟨.silently action, guarded.silently, fun tokens cursor stream reads => ?_⟩
  have muted : Cursor.Reads tokens { cursor with faults := #[] } { stream with faults := #[] } :=
    ⟨reads.whole, ⟨reads.stands.within, reads.stands.rest, reads.stands.finish, reads.stands.ends⟩,
      rfl, reads.nextId⟩
  have here := follows tokens _ _ muted
  have last : (reader { cursor with faults := #[] }).cursor.Reads tokens
      (action { stream with faults := #[] }).2 := by
    generalize reader { cursor with faults := #[] } = reading at here
    generalize action { stream with faults := #[] } = acted at here
    cases here with
    | read reads => exact reads
    | failed reads => exact reads
  exact .read ⟨last.whole, ⟨last.stands.within, last.stands.rest, last.stands.finish,
    last.stands.ends⟩, reads.faults, last.nextId⟩

theorem Cursor.Reads.recover {tokens : List Token} {before after : Cursor}
    {start reached : TokenStream} (begun : before.Reads tokens start)
    (ended : after.Reads tokens reached) :
    (before.recover after).Reads tokens
      (if reached.current = start.current then reached.next.synchronize else reached.synchronize) := by
  have first := begun.stands.rest_length
  have last := ended.stands.rest_length
  unfold Cursor.recover
  split
  · rename_i stuck
    rw [if_pos (by omega)]
    exact ended.next.synchronize
  · rename_i moved
    rw [if_neg (by omega)]
    exact ended.synchronize

theorem Reader.Indexed.orRecover {declaration : Reader Stmt} (indexed : declaration.Indexed) :
    (Grammar.orRecover declaration).Indexed := by
  obtain ⟨action, guarded, follows⟩ := indexed
  refine ⟨action.orRecover, guarded.orRecover, fun tokens cursor stream reads => ?_⟩
  have here := follows tokens cursor stream reads
  rw [Action.orRecover_apply, Grammar.orRecover]
  cases ran : declaration cursor with
  | read statement after =>
    rw [ran] at here
    rcases acted : action stream with ⟨result, later⟩
    rw [acted] at here
    cases here with
    | read reads => exact .read reads
  | failed after =>
    rw [ran] at here
    rcases acted : action stream with ⟨result, later⟩
    rw [acted] at here
    cases here with
    | failed ended => exact .read (reads.recover ended)

/-- Every reader of the grammar is made of operations of a stream. -/
theorem indexed : Uniform @Reader.Indexed where
  pure := indexed_pure
  bind := Reader.Indexed.bind
  fail := indexed_fail
  peek := indexed_peek
  take := indexed_take
  newSite := indexed_newSite
  takeIf? _ := indexed_takeIf
  checkLimit := indexed_checkLimit
  assignment target value := by
    refine target.bind fun left => (indexed_takeKind _).bind fun found => ?_
    split
    · exact indexed_pure _
    · refine value.bind fun right => ?_
      split
      · exact (indexed_newSite _).bind fun site => indexed_pure _
      · exact (indexed_report _ _).bind fun _ => indexed_pure _
  misplaced right :=
    indexed_peek.bind fun _ => (indexed_report _ _).bind fun _ => indexed_take.bind fun _ =>
      right.silently.bind fun _ => indexed_giveUp
  orRecover := Reader.Indexed.orRecover

end Indexing

end LoxLang.Grammar

import LoxLang.Proofs.Grammar.Progress
import LoxLang.Proofs.Grammar.Completeness

/-!
Two runs of the readers side by side: one over a list of tokens and one over the same list with more
tokens behind it. As long as the first list goes on, they do the same; the place where it ends is the
seam. With an empty continuation the same relation says that bounds, node numbers and earlier faults
decide nothing.
-/
namespace LoxLang.Grammar

variable {α β γ δ : Type}

/-- What stands behind a list of tokens in a longer one, the end tokens of both, and when the list is
sure to go on: then it goes on behind any token but a semicolon, and behind a semicolon it goes on or
is at its end. -/
structure Seam where
  tail : List Token
  finish : Token
  otherFinish : Token
  ahead : List Token → Prop
  ends : finish.kind = .finish
  step : ∀ {token rest}, ahead (token :: rest) → token.kind ≠ .symbol .semicolon → ahead rest
  pass : ∀ {token rest}, ahead (token :: rest) → ahead rest ∨ rest = []
  stop : ahead [] → tail = [] ∧ otherFinish = finish
  noElse : ∀ token ∈ tail.head?, token.kind ≠ .keyword .else
  /-- Behind the end of a declaration the list is not down to one last semicolon. -/
  settle : ∀ {front last rest}, ahead (front ++ last :: rest) →
    last.kind = .symbol .semicolon ∨ last.kind = .symbol .rightBrace →
    rest = [] ∨ ahead rest ∧ ahead rest.tail

namespace Seam

def Open (seam : Seam) (rest : List Token) : Prop := seam.ahead rest ∨ rest = []

/-- What is left of both lists is the same up to the seam. -/
structure Meets (seam : Seam) (left right : Cursor) : Prop where
  finish : left.finish = seam.finish
  otherFinish : right.finish = seam.otherFinish
  rest : right.rest = left.rest ++ seam.tail

/-- Both runs have come to the same place again, with the same reports. -/
structure Moved (seam : Seam) (left right left' right' : Cursor) : Prop where
  meets : seam.Meets left' right'
  faults : ∃ fresh, left'.faults.toList = left.faults.toList ++ fresh ∧
    right'.faults.toList = right.faults.toList ++ fresh

/-- Both readings give the same up to `view`, or both give up. -/
inductive Agree (seam : Seam) (after : List Token → Prop) (view : α → γ) (left right : Cursor) :
    Reading α → Reading α → Prop
  | read {value other : α} {left' right' : Cursor} : view value = view other → after left'.rest →
    seam.Moved left right left' right' →
    Agree seam after view left right (.read value left') (.read other right')
  | failed {left' right' : Cursor} : seam.ahead left'.rest → seam.Moved left right left' right' →
    Agree seam after view left right (.failed left') (.failed right')

/-- In front of fewer tokens than `length` the readers agree, unless the run over the shorter list is
lost. -/
structure Along (seam : Seam) (lost : Cursor → Prop) (length : Nat) (before after : List Token → Prop)
    (view : α → γ) (first second : Reader α) : Prop where
  forward : first.Forward
  agree : ∀ left right, seam.Meets left right → before left.rest → left.rest.length < length →
    lost (first left).cursor ∨ seam.Agree after view left right (first left) (second right)

/-- The run over the shorter list has run out of it and reported that. -/
def Starved (seam : Seam) (cursor : Cursor) : Prop :=
  ¬ seam.ahead [] ∧ ∃ fault ∈ cursor.faults.toList, fault.place = .finish

def Never (_ : Cursor) : Prop := False

def Persists (lost : Cursor → Prop) : Prop :=
  ∀ {before after : Cursor}, before.Onward after → lost before → lost after

theorem persists_never : Persists Never := fun _ never => never

theorem persists_starved (seam : Seam) : Persists seam.Starved := by
  rintro before after ahead ⟨apart, fault, member, place⟩
  exact ⟨apart, fault, ahead.faults.subset member, place⟩

variable {seam : Seam} {lost : Cursor → Prop} {length : Nat} {before middle after : List Token → Prop}
  {view : α → γ} {other : β → δ}

namespace Moved

theorem refl {left right : Cursor} (meets : seam.Meets left right) :
    seam.Moved left right left right :=
  ⟨meets, [], (List.append_nil _).symm, (List.append_nil _).symm⟩

theorem trans {left right left' right' left'' right'' : Cursor}
    (first : seam.Moved left right left' right') (second : seam.Moved left' right' left'' right'') :
    seam.Moved left right left'' right'' := by
  obtain ⟨fresh, same, sameOther⟩ := first.faults
  obtain ⟨more, further, furtherOther⟩ := second.faults
  refine ⟨second.meets, fresh ++ more, ?_, ?_⟩
  · rw [further, same, List.append_assoc]
  · rw [furtherOther, sameOther, List.append_assoc]

end Moved

theorem Meets.token {left right : Cursor} (meets : seam.Meets left right)
    (ahead : seam.ahead left.rest) : right.token = left.token := by
  unfold Cursor.token
  rw [meets.rest, meets.finish, meets.otherFinish]
  cases here : left.rest with
  | nil =>
    rw [here] at ahead
    obtain ⟨none, same⟩ := seam.stop ahead
    rw [none, same]
    rfl
  | cons token rest => rfl

theorem Agree.extend {left right left' right' : Cursor} {first second : Reading α}
    (moved : seam.Moved left right left' right')
    (agree : seam.Agree after view left' right' first second) :
    seam.Agree after view left right first second := by
  cases agree with
  | read same here further => exact .read same here (moved.trans further)
  | failed here further => exact .failed here (moved.trans further)

theorem Agree.weaken {left right : Cursor} {first second : Reading α} {wide : List Token → Prop}
    (weaker : ∀ rest, after rest → wide rest)
    (agree : seam.Agree after view left right first second) :
    seam.Agree wide view left right first second := by
  cases agree with
  | read same there moved => exact .read same (weaker _ there) moved
  | failed there moved => exact .failed there moved

namespace Along

theorem zero {first second : Reader α} (forward : first.Forward) :
    seam.Along lost 0 before after view first second :=
  ⟨forward, fun _ _ _ _ short => absurd short (Nat.not_lt_zero _)⟩

theorem shorter {first second : Reader α} {more : Nat}
    (along : seam.Along lost more before after view first second) (fewer : length ≤ more) :
    seam.Along lost length before after view first second :=
  ⟨along.forward, fun left right meets here short =>
    along.agree left right meets here (Nat.lt_of_lt_of_le short fewer)⟩

theorem weaken {first second : Reader α} {narrow wide : List Token → Prop}
    (along : seam.Along lost length before after view first second)
    (allowed : ∀ rest, narrow rest → before rest) (weaker : ∀ rest, after rest → wide rest) :
    seam.Along lost length narrow wide view first second := by
  refine ⟨along.forward, fun left right meets here short => ?_⟩
  exact (along.agree left right meets (allowed _ here) short).imp_right (.weaken weaker)

theorem seen {first second : Reader α} {token : Token}
    (along : seam.Along lost length before after view first second) :
    seam.Along lost length (fun rest => before rest ∧ rest.headD seam.finish = token) after view first
      second :=
  along.weaken (fun _ here => here.1) fun _ here => here

theorem loose {first second : Reader α}
    (along : seam.Along Never length before after view first second) :
    seam.Along lost length before after view first second :=
  ⟨along.forward, fun left right meets here short =>
    (along.agree left right meets here short).imp_left False.elim⟩

theorem pure {value twin : α} (same : view value = view twin) :
    seam.Along lost length before before view (Pure.pure value) (Pure.pure twin) :=
  ⟨.pure value, fun _ _ meets here _ => .inr (.read same here (.refl meets))⟩

theorem bind (persists : Persists lost) {first second : Reader α} {next twin : α → Reader β}
    (start : seam.Along lost length before middle view first second)
    (further : ∀ value made, view value = view made →
      seam.Along lost length middle after other (next value) (twin made)) :
    seam.Along lost length before after other (first >>= next) (second >>= twin) := by
  refine ⟨start.forward.bind fun value => (further value value rfl).forward,
    fun left right meets here short => ?_⟩
  have ahead := start.forward left
  have agree := start.agree left right meets here short
  rw [Reader.bind_apply, Reader.bind_apply]
  cases result : first left with
  | read value left' =>
    rw [result] at ahead agree
    rcases agree with gone | agree
    · exact .inl (persists ((further value value rfl).forward.onward left') gone)
    · revert agree
      generalize second right = reading
      rintro (⟨same, there, moved⟩ | _)
      have short' := Nat.lt_of_le_of_lt ahead.rest.length_le short
      exact ((further _ _ same).agree _ _ moved.meets there short').imp_right (.extend moved)
  | failed left' =>
    rw [result] at agree
    refine agree.imp_right fun agree => ?_
    revert agree
    generalize second right = reading
    rintro (_ | ⟨there, moved⟩)
    exact .failed there moved

theorem map (persists : Persists lost) {first second : Reader α} {change twin : α → β}
    (start : seam.Along lost length before after view first second)
    (changed : ∀ value made, view value = view made → other (change value) = other (twin made)) :
    seam.Along lost length before after other (change <$> first) (twin <$> second) :=
  start.bind persists fun value made same => .pure (changed value made same)

end Along

section Primitives

theorem along_fail (cause : StaticCause) :
    seam.Along lost length seam.ahead after view (fail cause) (fail cause) := by
  refine ⟨forward_fail cause, fun left right meets here _ => .inr ?_⟩
  have token := meets.token here
  refine .failed here ⟨⟨meets.finish, meets.otherFinish, meets.rest⟩,
    [⟨left.token.line, left.token.place, cause⟩], ?_, ?_⟩
  · simp [Cursor.reportAt]
  · simp [Cursor.reportAt, token]

theorem along_report (token : Token) (cause : StaticCause) :
    seam.Along lost length before before (id : Unit → Unit) (report token cause)
      (report token cause) := by
  refine ⟨forward_report token cause, fun left right meets here _ => .inr ?_⟩
  refine .read rfl here ⟨⟨meets.finish, meets.otherFinish, meets.rest⟩,
    [⟨token.line, token.place, cause⟩], ?_, ?_⟩
  · simp [Cursor.reportAt]
  · simp [Cursor.reportAt]

theorem along_newSite (line : Nat) :
    seam.Along lost length before before Site.erase (newSite line) (newSite line) :=
  ⟨forward_newSite line, fun _ _ meets here _ => .inr (.read rfl here
    ⟨⟨meets.finish, meets.otherFinish, meets.rest⟩, [], (List.append_nil _).symm,
      (List.append_nil _).symm⟩)⟩

theorem along_checkLimit (count : Nat) (cause : StaticCause) :
    seam.Along lost length seam.ahead seam.ahead (id : Unit → Unit) (checkLimit count cause)
      (checkLimit count cause) := by
  refine ⟨forward_checkLimit count cause, fun left right meets here short => ?_⟩
  unfold checkLimit
  rw [meets.token here]
  split
  · exact (along_report left.token cause).agree left right meets here short
  · exact .inr (.read rfl here (.refl meets))

theorem Along.bind_peek (goes : ∀ rest, before rest → seam.ahead rest) {next twin : Token → Reader β}
    (further : ∀ token, seam.Along lost length
      (fun rest => before rest ∧ rest.headD seam.finish = token) after other
        (next token) (twin token)) :
    seam.Along lost length before after other (peek >>= next) (peek >>= twin) := by
  refine ⟨forward_peek.bind fun token => (further token).forward, fun left right meets here short => ?_⟩
  have token : left.rest.headD seam.finish = left.token := by
    unfold Cursor.token
    rw [← meets.finish]
    cases left.rest <;> rfl
  rw [Reader.bind_apply, Reader.bind_apply]
  simp only [peek]
  rw [meets.token (goes _ here)]
  exact (further left.token).agree left right meets ⟨here, token⟩ short

theorem Along.bind_take {next twin : Token → Reader β} {token : Token}
    (proper : token.kind ≠ .finish) (inner : token.kind ≠ .symbol .semicolon)
    (further : ∀ token, seam.Along lost (length - 1) seam.ahead after other (next token) (twin token)) :
    seam.Along lost length (fun rest => seam.ahead rest ∧ rest.headD seam.finish = token) after other
      (take >>= next) (take >>= twin) := by
  refine ⟨forward_take.bind fun token => (further token).forward, ?_⟩
  rintro ⟨rest, finish, faults, nextId⟩ right meets ⟨here, same⟩ short
  cases rest with
  | nil => exact absurd seam.ends (by rw [← same] at proper; exact proper)
  | cons found rest =>
    obtain rfl : found = token := same
    have moved : seam.Moved ⟨found :: rest, finish, faults, nextId⟩ right
        ⟨rest, finish, faults, nextId⟩ right.advance := by
      refine ⟨⟨meets.finish, meets.otherFinish, ?_⟩, [], (List.append_nil _).symm,
        (List.append_nil _).symm⟩
      change right.rest.tail = rest ++ seam.tail
      rw [meets.rest]
      rfl
    have token := meets.token here
    rw [Reader.bind_apply, Reader.bind_apply]
    simp only [take]
    rw [token]
    exact ((further _).agree _ _ moved.meets (seam.step here inner)
      (Nat.lt_sub_of_add_lt short)).imp_right (.extend moved)

theorem Along.bind_takeIf {choose : TokenKind → Option α} {next twin : Option (α × Token) → Reader β}
    (through : ∀ {token rest use}, seam.ahead (token :: rest) → choose token.kind = some use →
      middle rest)
    (leaves : seam.Along lost length seam.ahead after other (next none) (twin none))
    (takes : ∀ use token, choose token.kind = some use →
      seam.Along lost (length - 1) middle after other (next (some (use, token)))
        (twin (some (use, token)))) :
    seam.Along lost length seam.ahead after other (takeIf? choose >>= next)
      (takeIf? choose >>= twin) := by
  constructor
  · rintro ⟨rest, finish, faults, nextId⟩
    have ahead := forward_takeIf? choose ⟨rest, finish, faults, nextId⟩
    rw [Reader.bind_apply]
    cases rest with
    | nil => exact leaves.forward _
    | cons token rest =>
      simp only [takeIf?] at ahead ⊢
      cases chosen : choose token.kind with
      | none => exact leaves.forward _
      | some use =>
        rw [chosen] at ahead
        exact .extend ahead ((takes use token chosen).forward _)
  · rintro ⟨rest, finish, faults, nextId⟩ ⟨rest', finish', faults', nextId'⟩ meets here short
    obtain rfl : rest' = rest ++ seam.tail := meets.rest
    rw [Reader.bind_apply, Reader.bind_apply]
    cases rest with
    | nil =>
      -- At the end of the list both choices fall on the end token.
      obtain ⟨none, same⟩ := seam.stop here
      simp only [takeIf?, none, List.append_nil]
      exact leaves.agree _ _ ⟨meets.finish, meets.otherFinish, by rw [none]; rfl⟩ here short
    | cons token rest =>
      simp only [takeIf?, List.cons_append]
      cases chosen : choose token.kind with
      | none => exact leaves.agree _ _ meets here short
      | some use =>
        have moved : seam.Moved ⟨token :: rest, finish, faults, nextId⟩
            ⟨token :: (rest ++ seam.tail), finish', faults', nextId'⟩ ⟨rest, finish, faults, nextId⟩
            ⟨rest ++ seam.tail, finish', faults', nextId'⟩ :=
          ⟨⟨meets.finish, meets.otherFinish, rfl⟩, [], (List.append_nil _).symm,
            (List.append_nil _).symm⟩
        exact ((takes use token chosen).agree _ _ moved.meets (through here chosen)
          (Nat.lt_sub_of_add_lt short)).imp_right (.extend moved)

theorem Along.bind_takeKind {kind : TokenKind} {next twin : Option Token → Reader β}
    (through : ∀ {token rest}, seam.ahead (token :: rest) → token.kind = kind → middle rest)
    (leaves : seam.Along lost length seam.ahead after other (next none) (twin none))
    (takes : ∀ token, token.kind = kind →
      seam.Along lost (length - 1) middle after other (next (some token)) (twin (some token))) :
    seam.Along lost length seam.ahead after other (takeKind? kind >>= next)
      (takeKind? kind >>= twin) := by
  have chosen {found : TokenKind} {use : Unit} (same : (if found = kind then some () else none) = some use) :
      found = kind := by
    split at same
    · assumption
    · cases same
  rw [takeKind?, Reader.bind_assoc, Reader.bind_assoc]
  exact .bind_takeIf (fun here same => through here (chosen same)) leaves
    fun _ token same => takes token (chosen same)

theorem inside {kind : TokenKind} (apart : kind ≠ .symbol .semicolon) {token : Token}
    {rest : List Token} (here : seam.ahead (token :: rest)) (same : token.kind = kind) :
    seam.ahead rest :=
  seam.step here (same ▸ apart)

theorem along_needSymbol {symbol : Symbol} (part : Part)
    (through : ∀ {token rest}, seam.ahead (token :: rest) → token.kind = .symbol symbol →
      middle rest) :
    seam.Along lost length seam.ahead middle (id : Token → Token) (needSymbol symbol part)
      (needSymbol symbol part) :=
  .bind_takeKind through (along_fail _) fun _ _ => .pure rfl

theorem along_needName (part : Part) :
    seam.Along lost length seam.ahead seam.ahead (id : Ident → Ident) (needName part)
      (needName part) :=
  .bind_takeKind (inside (by decide)) (along_fail _) fun _ _ => .pure rfl

/-- What is read silently leaves no report, and it is passed over as well if it gives up. -/
theorem along_silently {first second : Reader α}
    (along : seam.Along Never length seam.ahead seam.ahead view first second) :
    seam.Along lost length seam.ahead seam.ahead (id : Unit → Unit) (silently first)
      (silently second) := by
  refine ⟨forward_silently along.forward, fun left right meets here short => .inr ?_⟩
  have agree := (along.agree { left with faults := #[] } { right with faults := #[] }
    ⟨meets.finish, meets.otherFinish, meets.rest⟩ here short).resolve_left id
  unfold silently
  revert agree
  generalize first { left with faults := #[] } = reading
  generalize second { right with faults := #[] } = twin
  rintro (⟨_, there, moved⟩ | ⟨there, moved⟩)
  · exact .read rfl there ⟨⟨moved.meets.finish, moved.meets.otherFinish, moved.meets.rest⟩, [],
      (List.append_nil _).symm, (List.append_nil _).symm⟩
  · exact .read rfl there ⟨⟨moved.meets.finish, moved.meets.otherFinish, moved.meets.rest⟩, [],
      (List.append_nil _).symm, (List.append_nil _).symm⟩

end Primitives
end Seam
end LoxLang.Grammar

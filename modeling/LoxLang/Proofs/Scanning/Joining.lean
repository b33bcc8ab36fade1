import Mathlib.Data.List.TakeWhile
import LoxLang.Scan

/-!
Two texts with a line break between them. As long as no string of the first is left open, the pieces
of both stay what they were, and what the scan makes of the second text only stands further down.
-/
namespace LoxLang

/-- So many lines further down. -/
def Position.down (lines : Nat) (position : Position) : Position :=
  ⟨position.line + lines, position.column⟩

def Token.down (lines : Nat) (token : Token) : Token :=
  { token with position := token.position.down lines }

def Scanned.down (lines : Nat) : Scanned → Scanned
  | .token found => .token (found.down lines)
  | .fault found => .fault { found with position := found.position.down lines }

def newlines (text : List Char) : Nat := text.count '\n'

namespace Position

theorem next_down (lines : Nat) (position : Position) (char : Char) :
    (position.down lines).next char = (position.next char).down lines := by
  by_cases breaks : char = '\n'
  · simp only [next, down, breaks, ↓reduceIte]
    congr 1
    omega
  · simp only [next, down, breaks, ↓reduceIte]

theorem after_down (lines : Nat) (position : Position) (text : List Char) :
    (position.down lines).after text = (position.after text).down lines := by
  induction text generalizing position with
  | nil => rfl
  | cons char rest ih => simp only [after_cons, next_down, ih]

theorem line_after (position : Position) (text : List Char) :
    (position.after text).line = position.line + newlines text := by
  induction text generalizing position with
  | nil => rfl
  | cons char rest ih =>
    rw [after_cons, ih]
    by_cases breaks : char = '\n'
    · simp only [next, breaks, ↓reduceIte, newlines, List.count_cons_self]
      omega
    · simp only [next, breaks, ↓reduceIte, newlines, List.count_cons_of_ne breaks]

/-- Behind a line break everything begins again, further down. -/
theorem after_break (text : List Char) :
    (start.after text).next '\n' = start.down (newlines text + 1) := by
  have line := line_after start text
  simp only [next, down, ↓reduceIte, line]
  congr 1

end Position

theorem Piece.scanned_down (lines : Nat) (position : Position) (piece : Piece) :
    piece.scanned (position.down lines) = (piece.scanned position).map (Scanned.down lines) := by
  cases piece with
  | unclosed text => simp only [scanned, Position.after_down, Option.map_some, Scanned.down]
  | _ => rfl

theorem place_down (lines : Nat) (position : Position) (pieces : List Piece) :
    place (position.down lines) pieces = (place position pieces).map (Scanned.down lines) := by
  induction pieces generalizing position with
  | nil => rfl
  | cons piece rest ih =>
    rw [place_cons, place_cons, List.map_append, Piece.scanned_down, Position.after_down, ih]
    cases piece.scanned position <;> rfl

def placeAmong (position : Position) : List Piece → List Scanned
  | [] => []
  | piece :: rest =>
    (piece.scanned position).toList ++ placeAmong (position.after piece.text) rest

theorem place_append (position : Position) (first last : List Piece) :
    place position (first ++ last) =
      placeAmong position first ++ place (position.after (first.flatMap Piece.text)) last := by
  induction first generalizing position with
  | nil => rfl
  | cons piece rest ih =>
    rw [List.cons_append, place_cons, ih, placeAmong, List.flatMap_cons, Position.after_append,
      List.append_assoc]

theorem place_eq (position : Position) (pieces : List Piece) :
    place position pieces = placeAmong position pieces ++
      [.token (.finish (position.after (pieces.flatMap Piece.text)))] := by
  have whole := place_append position pieces []
  rwa [List.append_nil] at whole

namespace Piece

def isUnclosed : Piece → Bool
  | .unclosed _ => true
  | _ => false

variable {test : Char → Bool} {rest more : List Char}

/-- What is taken while a test holds ends in front of the line break at the latest. -/
theorem takeWhile_break (stops : test '\n' = false) :
    (rest ++ '\n' :: more).takeWhile test = rest.takeWhile test := by
  induction rest with
  | nil => simp [stops]
  | cons first rest ih =>
    by_cases passes : test first = true
    · simpa [passes] using ih
    · simp [passes]

theorem dropWhile_break (stops : test '\n' = false) :
    (rest ++ '\n' :: more).dropWhile test = rest.dropWhile test ++ '\n' :: more := by
  induction rest with
  | nil => simp [stops]
  | cons first rest ih =>
    by_cases passes : test first = true
    · simpa [passes] using ih
    · simp [passes]

/-- A test that fails somewhere in the text never comes to what is added behind it. -/
theorem takeWhile_of_stop (test : Char → Bool) {rest : List Char} (more : List Char)
    (stops : rest.dropWhile test ≠ []) :
    (rest ++ more).takeWhile test = rest.takeWhile test ∧
      (rest ++ more).dropWhile test = rest.dropWhile test ++ more := by
  induction rest with
  | nil => simp at stops
  | cons first rest ih =>
    by_cases passes : test first = true
    · simpa [passes] using ih (by simpa [passes] using stops)
    · simp [passes]

/-- The text behind the break does not change the piece in front of it. -/
def Keeps (alone joined : Piece × List Char) (more : List Char) : Prop :=
  joined = (alone.1, alone.2 ++ '\n' :: more)

theorem keeps_cutComment : Keeps (cutComment rest) (cutComment (rest ++ '\n' :: more)) more := by
  unfold Keeps cutComment
  rw [takeWhile_break (by decide), dropWhile_break (by decide)]

theorem keeps_cutString (closed : (cutString rest).1.isUnclosed = false) :
    Keeps (cutString rest) (cutString (rest ++ '\n' :: more)) more := by
  cases found : rest.dropWhile (· != '"') with
  | nil =>
    -- without a quote the string would be left open
    simp only [cutString, found, isUnclosed] at closed
    cases closed
  | cons quote tail =>
    obtain ⟨taken, dropped⟩ := takeWhile_of_stop (· != '"') ('\n' :: more)
      (show rest.dropWhile (· != '"') ≠ [] by simp [found])
    rw [found, List.cons_append] at dropped
    simp only [Keeps, cutString, found, taken, dropped]

theorem keeps_cutNumber (first : Char) :
    Keeps (cutNumber first rest) (cutNumber first (rest ++ '\n' :: more)) more := by
  have stops : Char.isDigit '\n' = false := by decide
  unfold Keeps cutNumber
  rw [takeWhile_break stops, dropWhile_break stops]
  cases found : rest.dropWhile Char.isDigit with
  | nil => rfl
  | cons point behind =>
    by_cases fractional : point = '.'
    · subst fractional
      -- a point at the very end has a line break behind it now, which is no digit either
      cases behind with
      | nil => rfl
      | cons digit tail =>
        by_cases further : digit.isDigit = true
        · simp only [List.cons_append, further, ↓reduceIte, takeWhile_break stops,
            dropWhile_break stops]
        · simp only [List.cons_append, further]
          rfl
    · split
      · rename_i same
        exact absurd (List.cons.inj same).1 fractional
      · split
        · rename_i same
          exact absurd (List.cons.inj same).1 fractional
        · rfl

theorem keeps_cutWord (first : Char) :
    Keeps (cutWord first rest) (cutWord first (rest ++ '\n' :: more)) more := by
  have stops : Char.isAlphanum '\n' = false := by decide
  unfold Keeps cutWord
  rw [takeWhile_break stops, dropWhile_break stops]

theorem keeps_cutSymbol (sign : Symbol) (first : Char) :
    Keeps (cutSymbol sign first rest) (cutSymbol sign first (rest ++ '\n' :: more)) more := by
  unfold Keeps cutSymbol
  cases sign.withEqual? with
  | none => rfl
  | some longer =>
    -- at the very end a line break follows, and that makes no longer symbol
    cases rest with
    | nil => rfl
    | cons second tail =>
      by_cases equal : second = '='
      · subst equal
        rfl
      · split
        · rename_i same
          exact absurd (List.cons.inj same).1 equal
        · split
          · rename_i same
            exact absurd (List.cons.inj same).1 equal
          · rfl

theorem keeps_cut (first : Char) (closed : (cut first rest).1.isUnclosed = false) :
    Keeps (cut first rest) (cut first (rest ++ '\n' :: more)) more := by
  unfold cut at closed ⊢
  by_cases blank : isBlank first = true
  · simp only [blank, ↓reduceIte]
    rfl
  simp only [blank, Bool.false_eq_true, ↓reduceIte] at closed ⊢
  by_cases quote : (first == '"') = true
  · simp only [quote, ↓reduceIte] at closed ⊢
    exact keeps_cutString closed
  simp only [quote, Bool.false_eq_true, ↓reduceIte] at closed ⊢
  -- whether a comment begins is seen from the character behind the slash
  have slash : ((rest ++ '\n' :: more).head? == some '/') = (rest.head? == some '/') := by
    cases rest <;> rfl
  rw [slash]
  by_cases slashes : (first == '/' && rest.head? == some '/') = true
  · simp only [slashes, ↓reduceIte]
    exact keeps_cutComment
  simp only [slashes, Bool.false_eq_true, ↓reduceIte]
  by_cases digit : first.isDigit = true
  · simp only [digit, ↓reduceIte]
    exact keeps_cutNumber first
  simp only [digit, Bool.false_eq_true, ↓reduceIte]
  by_cases letter : first.isAlpha = true
  · simp only [letter, ↓reduceIte]
    exact keeps_cutWord first
  simp only [letter, Bool.false_eq_true, ↓reduceIte]
  cases Symbol.ofChar? first with
  | some sign => exact keeps_cutSymbol sign first
  | none => rfl

theorem all_joined (first last : List Char)
    (closed : ∀ piece ∈ all first, piece.isUnclosed = false) :
    all (first ++ '\n' :: last) = all first ++ .blank '\n' :: all last := by
  -- by the length of the first text, of which every cut takes something
  induction size : first.length using Nat.strongRecOn generalizing first with
  | _ size ih =>
    subst size
    cases first with
    | nil => rw [List.nil_append, all_cons, all_nil]; rfl
    | cons char rest =>
      have shorter := cut_length char rest
      rw [all_cons] at closed ⊢
      have here : Keeps (cut char rest) (cut char (rest ++ '\n' :: last)) last :=
        keeps_cut char (closed _ List.mem_cons_self)
      have behind := ih _ shorter (cut char rest).2
        (fun piece member => closed piece (List.mem_cons_of_mem _ member)) rfl
      rw [List.cons_append, all_cons, here]
      simp only [behind, List.cons_append]

theorem flatMap_text_all (source : List Char) : (all source).flatMap text = source := by
  induction size : source.length using Nat.strongRecOn generalizing source with
  | _ size ih =>
    subst size
    cases source with
    | nil => simp
    | cons first rest =>
      rw [all_cons, List.flatMap_cons, ih _ (cut_length first rest) _ rfl, cut_text]

end Piece

def scanAmong (source : String) : List Scanned := placeAmong .start (Piece.all source.toList)

theorem scan_eq (source : String) :
    scan source = scanAmong source ++ [.token (.finish (Position.start.after source.toList))] := by
  rw [scan, place_eq, Piece.flatMap_text_all]
  rfl

theorem unterminated_of_unclosed {pieces : List Piece} {piece : Piece} (position : Position)
    (member : piece ∈ pieces) (unclosed : piece.isUnclosed = true) :
    ∃ fault ∈ Scanned.faults (placeAmong position pieces), fault.cause = .unterminatedString := by
  induction pieces generalizing position with
  | nil => simp at member
  | cons first rest ih =>
    rw [placeAmong, Scanned.faults, List.filterMap_append]
    rcases List.mem_cons.mp member with here | later
    · subst here
      cases piece with
      | unclosed text => exact ⟨_, List.mem_append_left _ (List.mem_singleton.mpr rfl), rfl⟩
      | _ => simp [Piece.isUnclosed] at unclosed
    · obtain ⟨fault, found, cause⟩ := ih (position.after first.text) later
      exact ⟨fault, List.mem_append_right _ found, cause⟩

theorem closed_of_faults {source : String}
    (terminated : ∀ fault ∈ Scanned.faults (scan source), fault.cause ≠ .unterminatedString) :
    ∀ piece ∈ Piece.all source.toList, piece.isUnclosed = false := by
  intro piece member
  by_contra unclosed
  obtain ⟨fault, found, cause⟩ :=
    unterminated_of_unclosed .start member (by simpa using unclosed)
  refine terminated fault ?_ cause
  rw [scan_eq, Scanned.faults, List.filterMap_append]
  exact List.mem_append_left _ found

/-- The first text ends without its end token, and the second stands as many lines further down as the
first has line breaks, and one more. -/
theorem scan_joined (first last : String)
    (closed : ∀ piece ∈ Piece.all first.toList, piece.isUnclosed = false) :
    scan (first ++ "\n" ++ last) =
      scanAmong first ++ (scan last).map (Scanned.down (newlines first.toList + 1)) := by
  have text : (first ++ "\n" ++ last).toList = first.toList ++ '\n' :: last.toList := by
    simp [String.toList_append]
  rw [scan, text, Piece.all_joined _ _ closed, place_append, place_cons, Piece.flatMap_text_all,
    scan, ← place_down, ← Position.after_break]
  rfl

/-- As long as the first text leaves no string open, a line break behind it cuts the scan in two: first
come its own items without the end token, then those of the second text as they are alone, each on a
line further down and in the same column. -/
theorem scan_across_break {first : String}
    (terminated : ∀ fault ∈ Scanned.faults (scan first), fault.cause ≠ .unterminatedString)
    (last : String) :
    ∃ front position, scan first = front ++ [.token (.finish position)] ∧
      scan (first ++ "\n" ++ last) =
        front ++ (scan last).map (Scanned.down (newlines first.toList + 1)) := by
  have closed := closed_of_faults terminated
  exact ⟨scanAmong first, _, scan_eq first, scan_joined first last closed⟩

/-- A stray character, a point without a fraction and half of an operator in front of the break. -/
theorem scan_across_break_half_operator :
    (∀ fault ∈ Scanned.faults (scan "$7. <"), fault.cause ≠ .unterminatedString) ∧
      ∃ front position, scan "$7. <" = front ++ [.token (.finish position)] ∧
        scan ("$7. <" ++ "\n" ++ "= 5") = front ++ (scan "= 5").map (Scanned.down 1) := by
  have terminated : ∀ fault ∈ Scanned.faults (scan "$7. <"), fault.cause ≠ .unterminatedString := by
    decide +kernel
  have unbroken : newlines "$7. <".toList = 0 := by decide +kernel
  have across := scan_across_break terminated "= 5"
  rw [unbroken] at across
  exact ⟨terminated, across⟩

end LoxLang

import Mathlib
import LoxLang.Proofs.Scanning.Places

/-!
Positions are true. Line and column say how many line breaks and how many characters of its line are in
front of an item, wherever in the source it lies. Counters that go on by bytes over every token but a
string come to the same positions, since such a token has one byte a character and stays on its line.
-/
namespace LoxLang

/-- The position of what has this much of the source in front of it. -/
structure Position.Behind (position : Position) (before : List Char) : Prop where
  line : position.line = newlines before + 1
  column : position.column = (before.rtakeWhile (· != '\n')).length

theorem Position.behind_after (before : List Char) : (start.after before).Behind before := by
  refine ⟨line_from_start before, ?_⟩
  induction before using List.reverseRecOn with
  | nil => rfl
  | append_singleton before char ih =>
    rw [after_append, after_cons, after_nil, next, List.rtakeWhile_concat]
    by_cases breaks : char = '\n'
    · simp [breaks]
    · simp [breaks, ih]

/-- What is in front of the item, or all of the source where its end is meant. -/
def Scanned.front (before source : List Char) : Scanned → List Char
  | .token found => if found.isFinish then source else before
  | .fault ⟨.unexpectedCharacter, _⟩ => before
  | .fault ⟨.unterminatedString, _⟩ => source

def Scanned.position : Scanned → Position
  | .token found => found.position
  | .fault found => found.position

theorem position_of_finish {source : String} {token : Token} (member : .token token ∈ scan source)
    (finish : token.isFinish = true) : token.position = Position.start.after source.toList := by
  rw [scan_eq, List.mem_append, List.mem_singleton] at member
  rcases member with among | last
  · have unfinished := scanAmong_unfinished source token
      (List.mem_filterMap.mpr ⟨.token token, among, rfl⟩)
    rw [finish] at unfinished
    cases unfinished
  · cases last
    rfl

theorem Scanned.StandsAt.position_eq {source : String} {before : List Char} {item : Scanned}
    (stands : item.StandsAt (Position.start.after before) (Position.start.after source.toList))
    (member : item ∈ scan source) :
    item.position = Position.start.after (item.front before source.toList) := by
  cases item with
  | token found =>
    rw [front]
    split
    · rename_i finish
      exact position_of_finish member finish
    · exact stands
  | fault found =>
    obtain ⟨cause, position⟩ := found
    cases cause with
    | unexpectedCharacter => exact stands
    | unterminatedString => exact stands

namespace Piece

def bytes (text : List Char) : Nat := (text.map Char.utf8Size).sum

/-- The counters behind a piece as they are kept on the way: over a token by the bytes between two
offsets, over a comment by its length, over a string by each character. -/
def counted (position : Position) : Piece → Position
  | .blank char =>
    if char = '\n' then ⟨position.line + 1, 0⟩ else ⟨position.line, position.column + 1⟩
  | .comment text => ⟨position.line, position.column + text.length⟩
  | .token .string text => position.after text
  | .token _ text => ⟨position.line, position.column + bytes text⟩
  | .stray _ => ⟨position.line, position.column + 1⟩
  | .unclosed text => position.after text

end Piece

/-- A character of one byte that stays on its line. -/
structure IsPlain (char : Char) : Prop where
  byte : char.utf8Size = 1
  inline : char ≠ '\n'

instance (char : Char) : Decidable (IsPlain char) :=
  decidable_of_iff (char.utf8Size = 1 ∧ char ≠ '\n')
    ⟨fun both => ⟨both.1, both.2⟩, fun plain => ⟨plain.byte, plain.inline⟩⟩

theorem isPlain_alphanum {char : Char} (is : char.isAlphanum = true) : IsPlain char := by
  constructor
  · rw [Char.utf8Size_eq_one_iff]
    simp only [Char.isAlphanum, Char.isAlpha, Char.isUpper, Char.isLower, Char.isDigit] at is
    grind
  · rintro rfl
    cases is

theorem isPlain_digit {char : Char} (is : char.isDigit = true) : IsPlain char :=
  isPlain_alphanum (by simp [Char.isAlphanum, is])

theorem isPlain_letter {char : Char} (is : char.isAlpha = true) : IsPlain char :=
  isPlain_alphanum (by simp [Char.isAlphanum, is])

theorem isPlain_symbol (sign : Symbol) : ∀ char ∈ sign.spelling.toList, IsPlain char := by
  have all : sign.spelling.toList.all (fun char => decide (IsPlain char)) = true := by
    cases sign <;> decide
  simpa using all

theorem TokenKind.Spelt.plain {kind : TokenKind} {text : List Char} {literal : Option Literal}
    (spelt : kind.Spelt text literal) (apart : kind ≠ .string) : ∀ char ∈ text, IsPlain char := by
  have word {first : Char} {rest : List Char} (letter : first.isAlpha = true)
      (others : ∀ char ∈ rest, char.isAlphanum = true) : ∀ char ∈ first :: rest, IsPlain char :=
    List.forall_mem_cons.mpr ⟨isPlain_letter letter, fun char member =>
      isPlain_alphanum (others char member)⟩
  cases spelt with
  | symbol sign => exact isPlain_symbol sign
  | keyword letter others _ => exact word letter others
  | identifier letter others _ => exact word letter others
  | string _ => exact absurd rfl apart
  | whole _ digits => exact fun char member => isPlain_digit (digits char member)
  | fraction _ digits _ fractional =>
    intro char member
    rcases List.mem_append.mp member with whole | behind
    · exact isPlain_digit (digits char whole)
    · rcases List.mem_cons.mp behind with rfl | part
      · decide
      · exact isPlain_digit (fractional char part)

namespace Piece

theorem bytes_plain {text : List Char} (plain : ∀ char ∈ text, IsPlain char) :
    bytes text = text.length := by
  induction text with
  | nil => rfl
  | cons first rest ih =>
    obtain ⟨here, later⟩ := List.forall_mem_cons.mp plain
    have rest := ih later
    simp only [bytes, List.map_cons, List.sum_cons, List.length_cons, here.byte] at rest ⊢
    omega

theorem after_inline {text : List Char} (inline : '\n' ∉ text) (position : Position) :
    position.after text = ⟨position.line, position.column + text.length⟩ := by
  induction text generalizing position with
  | nil => rfl
  | cons first rest ih =>
    obtain ⟨here, later⟩ := List.ne_and_not_mem_of_not_mem_cons inline
    rw [Position.after_cons, ih later, Position.next, if_neg here.symm]
    simp only [List.length_cons]
    congr 1
    omega

/-- However the counters go on over a piece, they end up behind its text. -/
theorem counted_eq {piece : Piece} {rest : List Char} (fits : piece.Fits rest)
    (position : Position) : piece.counted position = position.after piece.text := by
  cases piece with
  | blank char => rfl
  | comment text =>
    obtain ⟨inner, rfl, inline, _⟩ := fits
    exact (after_inline (by simpa using inline) position).symm
  | token kind text =>
    by_cases string : kind = .string
    · subst string
      rfl
    -- All other tokens stay on their line, and their characters are bytes.
    · have plain := TokenKind.Spelt.plain fits string
      have inline : '\n' ∉ text := fun member => (plain _ member).inline rfl
      have bytewise : counted position (.token kind text) =
          ⟨position.line, position.column + bytes text⟩ := by
        cases kind <;> first | rfl | exact absurd rfl string
      rw [bytewise, bytes_plain plain]
      exact (after_inline inline position).symm
  | stray char =>
    have inline : '\n' ∉ [char] := by
      rw [List.mem_singleton]
      rintro rfl
      cases fits.blank
    exact (after_inline inline position).symm
  | unclosed text => rfl

end Piece

/-- The scan with such counters. -/
def placeCounted (position : Position) : List Piece → List Scanned
  | [] => [.token (.finish position)]
  | piece :: rest =>
    (piece.scanned position).toList ++ placeCounted (piece.counted position) rest

theorem placeCounted_all (source : List Char) (position : Position) :
    placeCounted position (Piece.all source) = place position (Piece.all source) := by
  induction size : source.length using Nat.strongRecOn generalizing source position with
  | _ size ih =>
    subst size
    cases source with
    | nil => rw [Piece.all_nil, placeCounted, place_nil]
    | cons first rest =>
      have shorter := Piece.cut_length first rest
      rw [Piece.all_cons, placeCounted, place_cons, Piece.counted_eq (Piece.fits_cut first rest),
        ih _ shorter _ _ rfl]

/-- Each item stands where its position says, and counting on the way gives the same positions. -/
theorem positions_true (source : String) :
    (∃ placed, placed.map Prod.snd = scan source ∧ Tiles 0 source.toList placed ∧
      ∀ item ∈ placed, ∃ before after, source.toList = before ++ after ∧ item.1 = before.length ∧
        item.2.Begins after ∧ item.2.position.Behind (item.2.front before source.toList)) ∧
    placeCounted .start (Piece.all source.toList) = scan source := by
  refine ⟨?_, placeCounted_all source.toList .start⟩
  obtain ⟨placed, same, tiles, standing⟩ := scan_standsAt source
  refine ⟨placed, same, tiles, fun item member => ?_⟩
  obtain ⟨before, after, whole, place, begins, stands⟩ := standing item member
  have among : item.2 ∈ scan source := same ▸ List.mem_map_of_mem member
  exact ⟨before, after, whole, place, begins, stands.position_eq among ▸ Position.behind_after _⟩

/-- A string is as wide as it has characters, and what follows it is on the line where it ends. -/
example : (scan "\n\"né\nx\";").map Scanned.position = [⟨2, 0⟩, ⟨3, 2⟩, ⟨3, 3⟩] := by
  decide +kernel

end LoxLang

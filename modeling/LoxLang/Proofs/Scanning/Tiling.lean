import Mathlib.Data.List.TakeWhile
import LoxLang.Proofs.Scanning.Stepping

/-!
Scanning loses nothing. A source is tiled by what the scan makes of it: tokens that are spelt as their
kind asks for, blanks, comments, stray characters, and at most one string that is never closed. Each
token is a slice of the source, and no two of them overlap.
-/
namespace LoxLang

/-- How a token of a kind is spelt, and the literal that goes with the spelling. -/
inductive TokenKind.Spelt : TokenKind → List Char → Option Literal → Prop
  | symbol (sign : Symbol) : Spelt (.symbol sign) sign.spelling.toList none
  | keyword {first : Char} {rest : List Char} {word : Keyword} : first.isAlpha = true →
    (∀ char ∈ rest, char.isAlphanum = true) → word.spelling = String.ofList (first :: rest) →
    Spelt (.keyword word) (first :: rest) none
  | identifier {first : Char} {rest : List Char} : first.isAlpha = true →
    (∀ char ∈ rest, char.isAlphanum = true) →
    (∀ word ∈ Keyword.all, word.spelling ≠ String.ofList (first :: rest)) →
    Spelt .identifier (first :: rest) none
  | string {inner : List Char} : '"' ∉ inner →
    Spelt .string ('"' :: (inner ++ ['"'])) (some (.string (String.ofList inner)))
  | whole {digits : List Char} : digits ≠ [] → (∀ char ∈ digits, char.isDigit = true) →
    Spelt .number digits (some (.number (Double.ofDigits digits [])))
  | fraction {whole part : List Char} : whole ≠ [] → (∀ char ∈ whole, char.isDigit = true) →
    part ≠ [] → (∀ char ∈ part, char.isDigit = true) →
    Spelt .number (whole ++ '.' :: part) (some (.number (Double.ofDigits whole part)))

/-- A character that begins no token, no comment and no blank. -/
structure IsStray (char : Char) : Prop where
  blank : Piece.isBlank char = false
  quote : char ≠ '"'
  digit : char.isDigit = false
  letter : char.isAlpha = false
  symbol : Symbol.ofChar? char = none

/-- From `offset` on a source goes on as `text`, of which the scan makes the items, each placed where it
begins. -/
inductive Tiles : Nat → List Char → List (Nat × Scanned) → Prop
  | finish (offset : Nat) (position : Position) :
    Tiles offset [] [(offset, .token (.finish position))]
  | blank {offset : Nat} {char : Char} {rest : List Char} {placed : List (Nat × Scanned)} :
    Piece.isBlank char = true → Tiles (offset + 1) rest placed → Tiles offset (char :: rest) placed
  | comment {offset : Nat} {text rest : List Char} {placed : List (Nat × Scanned)} : '\n' ∉ text →
    (∀ char ∈ rest.head?, char = '\n') → Tiles (offset + (text.length + 2)) rest placed →
    Tiles offset ('/' :: '/' :: (text ++ rest)) placed
  | token {offset : Nat} {token : Token} {rest : List Char} {placed : List (Nat × Scanned)} :
    token.kind.Spelt token.lexeme.toList token.literal →
    Tiles (offset + token.lexeme.length) rest placed →
    Tiles offset (token.lexeme.toList ++ rest) ((offset, .token token) :: placed)
  | stray {offset : Nat} {char : Char} {rest : List Char} {placed : List (Nat × Scanned)}
    (position : Position) : IsStray char → Tiles (offset + 1) rest placed →
    Tiles offset (char :: rest) ((offset, .fault ⟨.unexpectedCharacter, position⟩) :: placed)
  | unclosed {offset : Nat} {text : List Char} (noticed position : Position) : '"' ∉ text →
    Tiles offset ('"' :: text)
      [(offset, .fault ⟨.unterminatedString, noticed⟩),
        (offset + (text.length + 1), .token (.finish position))]

theorem TokenKind.Spelt.ne_nil {kind : TokenKind} {text : List Char} {literal : Option Literal}
    (spelt : kind.Spelt text literal) : text ≠ [] := by
  cases spelt with
  | symbol sign => cases sign <;> decide
  | keyword _ _ _ => simp
  | identifier _ _ _ => simp
  | string _ => simp
  | whole some _ => exact some
  | fraction _ _ _ _ => simp

theorem TokenKind.Spelt.ne_finish {kind : TokenKind} {text : List Char} {literal : Option Literal}
    (spelt : kind.Spelt text literal) : kind ≠ .finish := by
  cases spelt <;> exact nofun

namespace Piece

/-- The piece is what it is called, if this is what comes behind it. -/
def Fits (piece : Piece) (rest : List Char) : Prop :=
  match piece with
  | .blank char => isBlank char = true
  | .comment text =>
    ∃ inner, text = '/' :: '/' :: inner ∧ '\n' ∉ inner ∧ ∀ char ∈ rest.head?, char = '\n'
  | .token kind text => kind.Spelt text (literal kind text)
  | .stray char => IsStray char
  | .unclosed text => rest = [] ∧ ∃ inner, text = '"' :: inner ∧ '"' ∉ inner

theorem head_of_dropWhile (test : Char → Bool) (text : List Char) {char : Char}
    (ahead : char ∈ (text.dropWhile test).head?) : test char = false := by
  have stops := List.head?_dropWhile_not test text
  rw [ahead] at stops
  simpa using stops

theorem fits_cutComment {rest : List Char} (slash : rest.head? = some '/') :
    (cutComment rest).1.Fits (cutComment rest).2 := by
  cases rest with
  | nil => simp at slash
  | cons second tail =>
    obtain rfl : second = '/' := by simpa using slash
    refine ⟨tail.takeWhile (· != '\n'), by simp, ?_, ?_⟩
    · intro member
      simpa using List.mem_takeWhile_imp member
    · intro char ahead
      have stops := head_of_dropWhile (· != '\n') ('/' :: tail) ahead
      simpa using stops

theorem fits_cutString (rest : List Char) : (cutString rest).1.Fits (cutString rest).2 := by
  have inside : '"' ∉ rest.takeWhile (· != '"') := by
    intro member
    simpa using List.mem_takeWhile_imp member
  unfold cutString
  split
  · rename_i none
    -- without another quote the whole rest was skipped
    have whole : rest.takeWhile (· != '"') = rest := by
      simpa [none] using List.takeWhile_append_dropWhile (p := (· != '"')) (l := rest)
    exact ⟨rfl, rest, rfl, whole ▸ inside⟩
  · rename_i quote tail found
    have closes : quote = '"' := by
      have stops := head_of_dropWhile (· != '"') rest (by rw [found]; rfl)
      simpa using stops
    subst closes
    have spelt := TokenKind.Spelt.string inside
    simpa [Fits, literal] using spelt

theorem takeWhile_digits {digits : List Char} (all : ∀ char ∈ digits, char.isDigit = true) :
    digits.takeWhile Char.isDigit = digits ∧ digits.dropWhile Char.isDigit = [] := by
  constructor
  · exact List.takeWhile_eq_self_iff.mpr all
  · exact List.dropWhile_eq_nil_iff.mpr all

theorem literal_whole {digits : List Char} (all : ∀ char ∈ digits, char.isDigit = true) :
    literal .number digits = some (.number (Double.ofDigits digits [])) := by
  obtain ⟨taken, dropped⟩ := takeWhile_digits all
  simp only [literal, taken, dropped, List.tail_nil]

theorem literal_fraction {whole : List Char} (part : List Char)
    (all : ∀ char ∈ whole, char.isDigit = true) :
    literal .number (whole ++ '.' :: part) = some (.number (Double.ofDigits whole part)) := by
  have point : Char.isDigit '.' = false := by decide
  have taken : (whole ++ '.' :: part).takeWhile Char.isDigit = whole := by
    rw [List.takeWhile_append_of_pos all, List.takeWhile_cons, point]
    simp
  have dropped : (whole ++ '.' :: part).dropWhile Char.isDigit = '.' :: part := by
    rw [List.dropWhile_append_of_pos all, List.dropWhile_cons, point]
    simp
  simp only [literal, taken, dropped, List.tail_cons]

theorem fits_cutNumber {first : Char} (digit : first.isDigit = true) (rest : List Char) :
    (cutNumber first rest).1.Fits (cutNumber first rest).2 := by
  have all : ∀ char ∈ first :: rest.takeWhile Char.isDigit, char.isDigit = true := by
    intro char member
    rcases List.mem_cons.mp member with same | later
    · rw [same, digit]
    · exact List.mem_takeWhile_imp later
  have whole : TokenKind.Spelt .number (first :: rest.takeWhile Char.isDigit)
      (literal .number (first :: rest.takeWhile Char.isDigit)) := by
    rw [literal_whole all]
    exact .whole (by simp) all
  unfold cutNumber
  split
  · rename_i second tail found
    by_cases fractional : second.isDigit = true
    · rw [if_pos fractional]
      have part : ∀ char ∈ second :: tail.takeWhile Char.isDigit, char.isDigit = true := by
        intro char member
        rcases List.mem_cons.mp member with same | later
        · rw [same, fractional]
        · exact List.mem_takeWhile_imp later
      have spelt := TokenKind.Spelt.fraction (by simp) all (by simp) part
      rw [← literal_fraction _ all] at spelt
      exact spelt
    -- a point that no digit follows is left to the next piece
    · rw [if_neg fractional]
      exact whole
  · exact whole

theorem fits_cutWord {first : Char} (letter : first.isAlpha = true) (rest : List Char) :
    (cutWord first rest).1.Fits (cutWord first rest).2 := by
  have others : ∀ char ∈ rest.takeWhile Char.isAlphanum, char.isAlphanum = true :=
    fun _ member => List.mem_takeWhile_imp member
  change TokenKind.Spelt (wordKind _) _ _
  unfold wordKind
  cases listed : Keyword.ofSpelling? (String.ofList (first :: rest.takeWhile Char.isAlphanum)) with
  | some word =>
    have same := List.find?_some listed
    exact .keyword letter others (by simpa using same)
  | none =>
    have absent := List.find?_eq_none.mp listed
    exact .identifier letter others fun word member => by simpa using absent word member

theorem spelling_of_ofChar? {char : Char} {sign : Symbol} (found : Symbol.ofChar? char = some sign) :
    sign.spelling.toList = [char] := by
  unfold Symbol.ofChar? at found
  split at found <;> cases found <;> rfl

theorem spelling_of_withEqual? {sign longer : Symbol} (found : sign.withEqual? = some longer) :
    longer.spelling.toList = sign.spelling.toList ++ ['='] := by
  cases sign <;> cases found <;> rfl

theorem fits_cutSymbol {first : Char} {sign : Symbol} (found : Symbol.ofChar? first = some sign)
    (rest : List Char) : (cutSymbol sign first rest).1.Fits (cutSymbol sign first rest).2 := by
  have alone := spelling_of_ofChar? found
  unfold cutSymbol
  split
  · rename_i longer tail twice
    have both := spelling_of_withEqual? twice
    rw [alone] at both
    have spelt := TokenKind.Spelt.symbol longer
    rw [both] at spelt
    exact spelt
  · have spelt := TokenKind.Spelt.symbol sign
    rw [alone] at spelt
    exact spelt

theorem fits_cut (first : Char) (rest : List Char) : (cut first rest).1.Fits (cut first rest).2 := by
  unfold cut
  -- In the order of the tests: what has failed before is known of the first character.
  by_cases blank : isBlank first = true
  · rw [if_pos blank]
    exact blank
  rw [if_neg blank]
  by_cases quote : first == '"'
  · rw [if_pos quote]
    exact fits_cutString rest
  rw [if_neg quote]
  by_cases slashes : (first == '/' && rest.head? == some '/') = true
  · rw [if_pos slashes]
    exact fits_cutComment (eq_of_beq (Bool.and_eq_true_iff.mp slashes).2)
  rw [if_neg slashes]
  by_cases digit : first.isDigit = true
  · rw [if_pos digit]
    exact fits_cutNumber digit rest
  rw [if_neg digit]
  by_cases letter : first.isAlpha = true
  · rw [if_pos letter]
    exact fits_cutWord letter rest
  rw [if_neg letter]
  cases found : Symbol.ofChar? first with
  | some sign => exact fits_cutSymbol found rest
  | none => exact ⟨by simpa using blank, by simpa using quote, by simpa using digit,
      by simpa using letter, found⟩

end Piece

/-- A text that begins with the item: with the token, with the stray character, or with the quote of a
string that is never closed. -/
def Scanned.Begins (text : List Char) : Scanned → Prop
  | .token found => found.lexeme.toList <+: text
  | .fault ⟨.unexpectedCharacter, _⟩ => ∃ char ∈ text.head?, IsStray char
  | .fault ⟨.unterminatedString, _⟩ => ∃ inner, text = '"' :: inner ∧ '"' ∉ inner

/-- The item has the position of its beginning. Of an open string, that is where the text ends. -/
def Scanned.StandsAt (begins ends : Position) : Scanned → Prop
  | .token found => found.position = begins
  | .fault ⟨.unexpectedCharacter, position⟩ => position = begins
  | .fault ⟨.unterminatedString, position⟩ => position = ends

/-- The items have the positions of their places, if the text begins at this offset and position. -/
def InPosition (source : List Char) (offset : Nat) (position : Position)
    (placed : List (Nat × Scanned)) : Prop :=
  ∀ item ∈ placed, ∃ before after, source = before ++ after ∧ item.1 = offset + before.length ∧
    item.2.StandsAt (position.after before) (position.after source)

namespace InPosition

variable {source : List Char} {offset : Nat} {position : Position} {placed : List (Nat × Scanned)}

theorem behind (text : List Char)
    (positions : InPosition source (offset + text.length) (position.after text) placed) :
    InPosition (text ++ source) offset position placed := by
  intro item member
  obtain ⟨before, after, rfl, place, stands⟩ := positions item member
  refine ⟨text ++ before, after, by simp, by simp [place, Nat.add_assoc], ?_⟩
  simpa only [Position.after_append] using stands

theorem cons {item : Scanned} (here : item.StandsAt position (position.after source))
    (later : InPosition source offset position placed) :
    InPosition source offset position ((offset, item) :: placed) := by
  intro other member
  rcases List.mem_cons.mp member with rfl | among
  · exact ⟨[], source, rfl, rfl, here⟩
  · exact later other among

theorem finish (source : List Char) (offset : Nat) (position : Position) :
    InPosition source offset position
      [(offset + source.length, .token (.finish (position.after source)))] := by
  intro item member
  rw [List.mem_singleton.mp member]
  exact ⟨source, [], by simp, rfl, rfl⟩

end InPosition

/-- One piece after the other, whatever the place they are put to, and each in its position. -/
theorem tiles_inPosition (source : List Char) (offset : Nat) (position : Position) :
    ∃ placed, placed.map Prod.snd = place position (Piece.all source) ∧
      Tiles offset source placed ∧ InPosition source offset position placed := by
  induction size : source.length using Nat.strongRecOn generalizing source offset position with
  | _ size ih =>
    subst size
    cases source with
    | nil => exact ⟨_, by simp, .finish offset position, .finish [] offset position⟩
    | cons first rest =>
      have shorter := Piece.cut_length first rest
      have fits := Piece.fits_cut first rest
      have whole := Piece.cut_text first rest
      rw [Piece.all_cons, place_cons]
      obtain ⟨placed, same, tiles, positions⟩ := ih _ shorter (Piece.cut first rest).2
        (offset + (Piece.cut first rest).1.text.length)
        (position.after (Piece.cut first rest).1.text) rfl
      have behind := positions.behind (Piece.cut first rest).1.text
      -- the piece that is cut off decides how the tiling begins
      rw [whole] at behind
      revert fits whole same tiles
      generalize (Piece.cut first rest).2 = after
      cases (Piece.cut first rest).1 with
      | blank char =>
        intro fits whole same tiles
        rw [← whole] at behind ⊢
        exact ⟨placed, same, .blank fits tiles, behind⟩
      | comment text =>
        rintro ⟨inner, rfl, apart, ahead⟩ whole same tiles
        rw [← whole] at behind ⊢
        exact ⟨placed, same, .comment apart ahead tiles, behind⟩
      | token kind text =>
        intro fits whole same tiles
        let token : Token := ⟨kind, String.ofList text, Piece.literal kind text, position⟩
        have lexeme : token.lexeme.toList = text := String.toList_ofList
        have length : token.lexeme.length = text.length := by simp [token]
        refine ⟨(offset, .token token) :: placed, by simpa [Piece.scanned, token] using same, ?_,
          .cons rfl behind⟩
        rw [← whole]
        change Tiles offset (text ++ after) _
        rw [← lexeme]
        exact .token (by rw [lexeme]; exact fits) (by rw [length]; exact tiles)
      | stray char =>
        intro fits whole same tiles
        refine ⟨(offset, .fault ⟨.unexpectedCharacter, position⟩) :: placed,
          by simpa [Piece.scanned] using same, ?_, .cons rfl behind⟩
        rw [← whole]
        exact .stray position fits tiles
      | unclosed text =>
        rintro ⟨rfl, inner, rfl, apart⟩ whole same tiles
        rw [← whole, show (Piece.unclosed ('"' :: inner)).text = '"' :: inner from rfl,
          List.append_nil]
        exact ⟨_, by simp [Piece.scanned], .unclosed _ _ apart,
          .cons rfl (.finish ('"' :: inner) offset position)⟩

theorem tiles_place (source : List Char) (offset : Nat) (position : Position) :
    ∃ placed, placed.map Prod.snd = place position (Piece.all source) ∧
      Tiles offset source placed := by
  obtain ⟨placed, same, tiles, _⟩ := tiles_inPosition source offset position
  exact ⟨placed, same, tiles⟩

namespace Tiles

variable {offset : Nat} {text : List Char} {placed : List (Nat × Scanned)}

theorem finished (tiles : Tiles offset text placed) :
    ∃ front position, placed.map Prod.snd = front ++ [.token (.finish position)] ∧
      ∀ token, .token token ∈ front → token.kind.Spelt token.lexeme.toList token.literal := by
  induction tiles with
  | finish offset position => exact ⟨[], position, rfl, nofun⟩
  | blank _ _ ih => exact ih
  | comment _ _ _ ih => exact ih
  | token spelt _ ih =>
    obtain ⟨front, position, same, all⟩ := ih
    refine ⟨.token _ :: front, position, by rw [List.map_cons, same]; rfl, ?_⟩
    intro token member
    rcases List.mem_cons.mp member with here | later
    · cases here
      exact spelt
    · exact all token later
  | stray position _ _ ih =>
    obtain ⟨front, last, same, all⟩ := ih
    refine ⟨.fault _ :: front, last, by rw [List.map_cons, same]; rfl, ?_⟩
    intro token member
    exact all token (by simpa using member)
  | unclosed noticed position _ => exact ⟨[.fault _], position, rfl, by simp⟩

theorem from_offset (tiles : Tiles offset text placed) : ∀ item ∈ placed, offset ≤ item.1 := by
  induction tiles with
  | finish offset position => simp
  | blank _ _ ih => exact fun item member => Nat.le_of_succ_le (ih item member)
  | comment _ _ _ ih => exact fun item member => Nat.le_trans (Nat.le_add_right _ _) (ih item member)
  | token _ _ ih =>
    intro item member
    rcases List.mem_cons.mp member with here | later
    · exact Nat.le_of_eq (congrArg Prod.fst here.symm)
    · exact Nat.le_trans (Nat.le_add_right _ _) (ih item later)
  | stray position _ _ ih =>
    intro item member
    rcases List.mem_cons.mp member with here | later
    · exact Nat.le_of_eq (congrArg Prod.fst here.symm)
    · exact Nat.le_of_succ_le (ih item later)
  | unclosed noticed position _ => simp

end Tiles

/-- What the item takes of the source at least; a fault takes the character that it begins at. -/
def Scanned.width : Scanned → Nat
  | .token found => found.lexeme.length
  | .fault _ => 1

namespace Tiles

variable {offset : Nat} {text : List Char} {placed : List (Nat × Scanned)}

theorem apart (tiles : Tiles offset text placed) :
    placed.Pairwise fun first second =>
      first.1 < second.1 ∧ first.1 + first.2.width ≤ second.1 := by
  induction tiles with
  | finish offset position => simp
  | blank _ _ ih => exact ih
  | comment _ _ _ ih => exact ih
  | token spelt rest ih =>
    have some := List.length_pos_iff.mpr spelt.ne_nil
    rw [String.length_toList] at some
    refine List.pairwise_cons.mpr ⟨fun item member => ?_, ih⟩
    have behind := rest.from_offset item member
    constructor
    · exact Nat.lt_of_lt_of_le (Nat.lt_add_of_pos_right some) behind
    · exact behind
  | stray position _ rest ih =>
    refine List.pairwise_cons.mpr ⟨fun item member => ?_, ih⟩
    have behind := rest.from_offset item member
    exact ⟨behind, behind⟩
  | unclosed noticed position _ => simp [Scanned.width]

theorem begins (tiles : Tiles offset text placed) :
    ∀ item ∈ placed, ∃ before after, text = before ++ after ∧ item.1 = offset + before.length ∧
      item.2.Begins after := by
  induction tiles with
  | finish offset position =>
    intro item member
    rw [List.mem_singleton.mp member]
    exact ⟨[], [], rfl, rfl, List.prefix_refl []⟩
  | @blank _ char _ _ _ _ ih =>
    intro item member
    obtain ⟨before, after, rfl, place, there⟩ := ih item member
    exact ⟨char :: before, after, rfl, by simp only [place, List.length_cons]; omega, there⟩
  | @comment _ inner _ _ _ _ _ ih =>
    intro item member
    obtain ⟨before, after, rfl, place, there⟩ := ih item member
    refine ⟨'/' :: '/' :: (inner ++ before), after, by simp, ?_, there⟩
    simp only [place, List.length_cons, List.length_append]
    omega
  | @token _ first rest _ _ _ ih =>
    intro item member
    rcases List.mem_cons.mp member with rfl | later
    · exact ⟨[], _, rfl, rfl, List.prefix_append _ rest⟩
    · obtain ⟨before, after, rfl, place, there⟩ := ih item later
      refine ⟨first.lexeme.toList ++ before, after, by simp, ?_, there⟩
      simp only [place, List.length_append, String.length_toList]
      omega
  | @stray _ char _ _ position stray _ ih =>
    intro item member
    rcases List.mem_cons.mp member with rfl | later
    · exact ⟨[], _, rfl, rfl, char, rfl, stray⟩
    · obtain ⟨before, after, rfl, place, there⟩ := ih item later
      exact ⟨char :: before, after, rfl, by simp only [place, List.length_cons]; omega, there⟩
  -- only the end is still a token there, behind the open string
  | @unclosed _ inner noticed position apart =>
    intro item member
    rcases List.mem_cons.mp member with rfl | later
    · exact ⟨[], _, rfl, rfl, inner, rfl, apart⟩
    · rw [List.mem_singleton.mp later]
      exact ⟨'"' :: inner, [], by simp, rfl, List.prefix_refl []⟩

theorem slice (tiles : Tiles offset text placed) {place : Nat} {token : Token}
    (member : (place, Scanned.token token) ∈ placed) :
    ∃ before after, text = before ++ (token.lexeme.toList ++ after) ∧
      place = offset + before.length := by
  obtain ⟨before, _, whole, here, after, rfl⟩ := tiles.begins _ member
  exact ⟨before, after, whole, here⟩

theorem ended (tiles : Tiles offset text placed) {front back : List Scanned} {fault : ScanFault}
    (split : placed.map Prod.snd = front ++ .fault fault :: back)
    (unterminated : fault.cause = .unterminatedString) :
    ∃ position, back = [.token (.finish position)] := by
  induction tiles generalizing front with
  | finish offset position => cases front <;> simp at split
  | blank _ _ ih => exact ih split
  | comment _ _ _ ih => exact ih split
  | token _ _ ih =>
    cases front with
    | nil => simp at split
    | cons first front =>
      rw [List.map_cons, List.cons_append] at split
      exact ih (List.cons.inj split).2
  | stray _ _ _ ih =>
    cases front with
    | nil =>
      -- a stray character has another cause
      rw [List.map_cons, List.nil_append] at split
      cases (List.cons.inj split).1
      cases unterminated
    | cons first front =>
      rw [List.map_cons, List.cons_append] at split
      exact ih (List.cons.inj split).2
  | unclosed noticed position _ =>
    cases front with
    | nil => exact ⟨position, (List.cons.inj split).2.symm⟩
    | cons first front => cases front <;> simp at split

end Tiles

/-- The items of a scan with their places tile the source; the end comes once, last, and behind a
string that is never closed; the items lie apart in order, and the tokens among them are slices. A
scanner gives them out one by one, and nothing after them. -/
theorem lossless_tiling (source : String) :
    (∀ calls, ((fun scanner : Scanner => scanner.next.2)^[calls] (.new source)).next.1 =
      (scan source)[calls]?) ∧
    ∃ placed, placed.map Prod.snd = scan source ∧ Tiles 0 source.toList placed ∧
      (∃ front position, scan source = front ++ [.token (.finish position)] ∧
        ∀ token, .token token ∈ front → token.kind.Spelt token.lexeme.toList token.literal) ∧
      (placed.Pairwise fun first second =>
        first.1 < second.1 ∧ first.1 + first.2.width ≤ second.1) ∧
      (∀ place token, (place, Scanned.token token) ∈ placed →
        ∃ before after, source.toList = before ++ (token.lexeme.toList ++ after) ∧
          place = before.length) ∧
      ∀ front fault back, scan source = front ++ .fault fault :: back →
        fault.cause = .unterminatedString → ∃ position, back = [.token (.finish position)] := by
  -- The pieces with their offsets tile the source; all else follows from that.
  obtain ⟨placed, same, tiles⟩ := tiles_place source.toList 0 .start
  have items : placed.map Prod.snd = scan source := same
  refine ⟨Scanner.call_new source, placed, items, tiles, ?_, tiles.apart, ?_, ?_⟩
  · rw [← items]
    exact tiles.finished
  · intro place token member
    obtain ⟨before, after, whole, here⟩ := tiles.slice member
    exact ⟨before, after, whole, by simpa using here⟩
  · intro front fault back split unterminated
    exact tiles.ended (items.trans split) unterminated

end LoxLang

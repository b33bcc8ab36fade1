import Mathlib
import LoxLang.Proofs.Scanning.Joining
import LoxLang.Proofs.Scanning.Tiling

/-!
Lexemes and the gaps between them. Lexemes with a blank behind each are read back one by one, and a
token is always the longest lexeme that the rest of the source begins with; two slashes begin a
comment instead.
-/
namespace LoxLang

/-- A word of the language: a text that spells a kind, with what it stands for. -/
structure Lexeme where
  kind : TokenKind
  text : List Char
  literal : Option Literal
  spelt : kind.Spelt text literal

/-- Blanks and comments in any order, each comment with the line break that ends it. -/
inductive IsGap : List Char → Prop
  | nil : IsGap []
  | blank {char : Char} {rest : List Char} : Piece.isBlank char = true → IsGap rest →
    IsGap (char :: rest)
  | comment {text rest : List Char} : '\n' ∉ text → IsGap rest →
    IsGap ('/' :: '/' :: (text ++ '\n' :: rest))

/-- A gap that a blank begins. -/
structure Separator where
  first : Char
  rest : List Char
  blank : Piece.isBlank first = true
  gap : IsGap rest

def Separator.text (separator : Separator) : List Char := separator.first :: separator.rest

def laidOut : List (Lexeme × Separator) → List Char
  | [] => []
  | (lexeme, separator) :: rest => lexeme.text ++ (separator.text ++ laidOut rest)

def Lexeme.token (lexeme : Lexeme) (position : Position) : Token :=
  ⟨lexeme.kind, String.ofList lexeme.text, lexeme.literal, position⟩

def tokensFrom (position : Position) : List (Lexeme × Separator) → List Token
  | [] => [.finish position]
  | (lexeme, separator) :: rest =>
    lexeme.token position :: tokensFrom ((position.after lexeme.text).after separator.text) rest

def IsLexeme (text : List Char) : Prop := ∃ kind literal, TokenKind.Spelt kind text literal

/-- Of all that a text begins with, the longest lexeme. -/
structure LongestLexeme (text remaining : List Char) : Prop where
  lexeme : IsLexeme text
  begins : text <+: remaining
  longest : ∀ other, IsLexeme other → other <+: remaining → other.length ≤ text.length

namespace Piece

theorem blank_cases {char : Char} (blank : isBlank char = true) :
    char = ' ' ∨ char = '\r' ∨ char = '\t' ∨ char = '\n' := by
  simpa [isBlank, or_assoc] using blank

theorem cut_blank {char : Char} (blank : isBlank char = true) (rest : List Char) :
    cut char rest = (.blank char, rest) := by
  rw [cut, if_pos blank]

theorem alphanum_begins {first : Char} (plain : first.isAlphanum = true) :
    isBlank first = false ∧ (first == '"') = false ∧ (first == '/') = false := by
  refine ⟨?_, ?_, ?_⟩
  · by_contra blank
    obtain rfl | rfl | rfl | rfl := blank_cases (by simpa using blank) <;> cases plain
  · rw [beq_eq_false_iff_ne]
    rintro rfl
    cases plain
  · rw [beq_eq_false_iff_ne]
    rintro rfl
    cases plain

theorem cut_digit {first : Char} (digit : first.isDigit = true) (rest : List Char) :
    cut first rest = cutNumber first rest := by
  have plain : first.isAlphanum = true := by simp [Char.isAlphanum, digit]
  obtain ⟨blank, quote, slash⟩ := alphanum_begins plain
  simp only [cut, blank, quote, slash, digit, Bool.false_and, Bool.false_eq_true, ↓reduceIte]

theorem isDigit_of_letter {char : Char} (letter : char.isAlpha = true) : char.isDigit = false := by
  by_contra digit
  simp only [Char.isAlpha, Char.isUpper, Char.isLower, Char.isDigit] at letter digit
  grind

theorem cut_letter {first : Char} (letter : first.isAlpha = true) (rest : List Char) :
    cut first rest = cutWord first rest := by
  have plain : first.isAlphanum = true := by simp [Char.isAlphanum, letter]
  obtain ⟨blank, quote, slash⟩ := alphanum_begins plain
  have digit := isDigit_of_letter letter
  simp only [cut, blank, quote, slash, digit, letter, Bool.false_and, Bool.false_eq_true,
    ↓reduceIte]

theorem all_word {first : Char} {rest : List Char} (letter : first.isAlpha = true)
    (others : ∀ char ∈ rest, char.isAlphanum = true) (more : List Char) :
    all (first :: rest ++ more) =
      .token (wordKind (first :: rest ++ more.takeWhile Char.isAlphanum))
        (first :: rest ++ more.takeWhile Char.isAlphanum) ::
          all (more.dropWhile Char.isAlphanum) := by
  rw [List.cons_append, all_cons, cut_letter letter, cutWord,
    List.takeWhile_append_of_pos others, List.dropWhile_append_of_pos others]
  rfl

theorem all_string {inner : List Char} (closed : '"' ∉ inner) (more : List Char) :
    all ('"' :: (inner ++ ['"']) ++ more) = .token .string ('"' :: (inner ++ ['"'])) :: all more := by
  have inside : ∀ char ∈ inner, (char != '"') = true := by
    intro char member
    rw [bne_iff_ne]
    rintro rfl
    exact closed member
  have whole : '"' :: (inner ++ ['"']) ++ more = '"' :: (inner ++ '"' :: more) := by simp
  have taken : (inner ++ '"' :: more).takeWhile (· != '"') = inner := by
    simp [List.takeWhile_append_of_pos inside]
  have dropped : (inner ++ '"' :: more).dropWhile (· != '"') = '"' :: more := by
    simp [List.dropWhile_append_of_pos inside]
  have cuts : cut '"' (inner ++ '"' :: more) = cutString (inner ++ '"' :: more) := rfl
  rw [whole, all_cons, cuts, cutString, dropped, taken]

theorem all_fraction {whole part : List Char} (some : whole ≠ [])
    (digits : ∀ char ∈ whole, char.isDigit = true) (further : part ≠ [])
    (fractional : ∀ char ∈ part, char.isDigit = true) (more : List Char) :
    all (whole ++ '.' :: part ++ more) =
      .token .number (whole ++ '.' :: part ++ more.takeWhile Char.isDigit) ::
        all (more.dropWhile Char.isDigit) := by
  obtain ⟨first, rest, rfl⟩ := List.exists_cons_of_ne_nil some
  obtain ⟨second, tail, rfl⟩ := List.exists_cons_of_ne_nil further
  obtain ⟨digit, others⟩ := List.forall_mem_cons.mp digits
  obtain ⟨behind, tenths⟩ := List.forall_mem_cons.mp fractional
  have point : Char.isDigit '.' = false := by decide
  have joined : first :: rest ++ '.' :: second :: tail ++ more =
      first :: (rest ++ '.' :: second :: (tail ++ more)) := by simp
  have taken : (rest ++ '.' :: second :: (tail ++ more)).takeWhile Char.isDigit = rest := by
    simp [List.takeWhile_append_of_pos others, point]
  have dropped : (rest ++ '.' :: second :: (tail ++ more)).dropWhile Char.isDigit =
      '.' :: second :: (tail ++ more) := by
    simp [List.dropWhile_append_of_pos others, point]
  rw [joined, all_cons, cut_digit digit, cutNumber, dropped, taken]
  simp only [behind, ↓reduceIte, List.takeWhile_append_of_pos tenths,
    List.dropWhile_append_of_pos tenths]
  simp

theorem wordKind_identifier {text : List Char} {literal : Option Literal}
    (spelt : TokenKind.identifier.Spelt text literal) : wordKind text = .identifier := by
  cases spelt with
  | @identifier first rest _ _ unlisted =>
    have absent : Keyword.ofSpelling? (String.ofList (first :: rest)) = none := by
      rw [Keyword.ofSpelling?, List.find?_eq_none]
      intro word member
      simpa using unlisted word member
    rw [wordKind, absent]

theorem all_lexeme {kind : TokenKind} {text : List Char} {literal : Option Literal}
    (spelt : kind.Spelt text literal) {char : Char} (blank : isBlank char = true)
    (more : List Char) :
    all (text ++ char :: more) = .token kind text :: all (char :: more) := by
  have word : char.isAlphanum = false := by
    obtain rfl | rfl | rfl | rfl := blank_cases blank <;> decide
  have digit : char.isDigit = false := by
    obtain rfl | rfl | rfl | rfl := blank_cases blank <;> decide
  cases spelt with
  | symbol sign =>
    obtain rfl | rfl | rfl | rfl := blank_cases blank <;> cases sign <;> exact all_cons _ _
  | @keyword first rest found letter others spelling =>
    have listed : wordKind (first :: rest) = .keyword found := by
      rw [wordKind, ← spelling]
      cases found <;> rfl
    rw [all_word letter others, List.takeWhile_cons_of_neg (by simp [word]),
      List.dropWhile_cons_of_neg (by simp [word]), List.append_nil, listed]
  | identifier letter others unlisted =>
    rw [all_word letter others, List.takeWhile_cons_of_neg (by simp [word]),
      List.dropWhile_cons_of_neg (by simp [word]), List.append_nil,
      wordKind_identifier (.identifier letter others unlisted)]
  | string closed => exact all_string closed _
  | whole some digits =>
    obtain ⟨first, rest, rfl⟩ := List.exists_cons_of_ne_nil some
    obtain ⟨leading, others⟩ := List.forall_mem_cons.mp digits
    have taken : (rest ++ char :: more).takeWhile Char.isDigit = rest := by
      simp [List.takeWhile_append_of_pos others, digit]
    have dropped : (rest ++ char :: more).dropWhile Char.isDigit = char :: more := by
      simp [List.dropWhile_append_of_pos others, digit]
    rw [List.cons_append, all_cons, cut_digit leading, cutNumber, dropped, taken]
    -- a blank is no point
    obtain rfl | rfl | rfl | rfl := blank_cases blank <;> rfl
  | fraction some digits further fractional =>
    rw [all_fraction some digits further fractional, List.takeWhile_cons_of_neg (by simp [digit]),
      List.dropWhile_cons_of_neg (by simp [digit]), List.append_nil]

theorem first_begins_cut (first : Char) (rest : List Char) : [first] <+: (cut first rest).1.text := by
  have whole := cut_text first rest
  obtain ⟨char, others, taken⟩ := List.exists_cons_of_ne_nil (cut_text_ne_nil first rest)
  rw [taken, List.cons_append] at whole
  rw [taken, (List.cons.inj whole).1]
  exact ⟨others, rfl⟩

theorem literal_of_spelt {kind : TokenKind} {text : List Char} {literal : Option Literal}
    (spelt : kind.Spelt text literal) : Piece.literal kind text = literal := by
  cases spelt with
  | symbol _ => rfl
  | keyword _ _ _ => rfl
  | identifier _ _ _ => rfl
  | string _ => simp [Piece.literal]
  | whole _ digits => exact literal_whole digits
  | fraction _ digits _ _ => exact literal_fraction _ digits

/-- What follows a lexeme can make the piece longer and never shorter. -/
theorem lexeme_begins_piece {kind : TokenKind} {text : List Char} {literal : Option Literal}
    (spelt : kind.Spelt text literal) (more : List Char) :
    ∃ piece rest, all (text ++ more) = piece :: rest ∧ text <+: piece.text := by
  cases spelt with
  | symbol sign =>
    cases sign with
    -- the equals sign is taken along
    | bangEqual | equalEqual | greaterEqual | lessEqual =>
      exact ⟨_, _, all_cons _ _, List.prefix_rfl⟩
    | _ => exact ⟨_, _, all_cons _ _, first_begins_cut _ _⟩
  | keyword letter others _ =>
    exact ⟨_, _, all_word letter others more, List.prefix_append _ _⟩
  | identifier letter others _ =>
    exact ⟨_, _, all_word letter others more, List.prefix_append _ _⟩
  | string closed => exact ⟨_, _, all_string closed more, List.prefix_rfl⟩
  | whole some digits =>
    obtain ⟨first, rest, rfl⟩ := List.exists_cons_of_ne_nil some
    obtain ⟨leading, others⟩ := List.forall_mem_cons.mp digits
    rw [List.cons_append, all_cons, cut_digit leading]
    refine ⟨_, _, rfl, ?_⟩
    rw [cutNumber, List.takeWhile_append_of_pos others]
    split
    · split
      · simp [text]
      · simp [text]
    · simp [text]
  | fraction some digits further fractional =>
    exact ⟨_, _, all_fraction some digits further fractional more, List.prefix_append _ _⟩

theorem all_suffix {source : List Char} {front back : List Piece} (split : all source = front ++ back) :
    all (back.flatMap text) = back := by
  induction front generalizing source with
  | nil => rw [← List.nil_append back, ← split, flatMap_text_all]
  | cons piece front ih =>
    cases source with
    | nil => simp at split
    | cons first rest =>
      rw [all_cons, List.cons_append] at split
      exact ih (List.cons.inj split).2

theorem spelt_of_cut {source : List Char} {front back : List Piece} {kind : TokenKind}
    {lexeme : List Char} (split : all source = front ++ .token kind lexeme :: back) :
    kind.Spelt lexeme (literal kind lexeme) := by
  have here := all_suffix split
  cases remaining : (Piece.token kind lexeme :: back).flatMap text with
  | nil =>
    rw [remaining, all_nil] at here
    cases here
  | cons first rest =>
    have fits := fits_cut first rest
    rw [remaining, all_cons] at here
    rw [(List.cons.inj here).1] at fits
    exact fits

theorem longest_of_cut {source : List Char} {front back : List Piece} {kind : TokenKind}
    {lexeme : List Char} (split : all source = front ++ .token kind lexeme :: back) :
    LongestLexeme lexeme (lexeme ++ back.flatMap text) := by
  have here : all (lexeme ++ back.flatMap text) = .token kind lexeme :: back := all_suffix split
  refine ⟨⟨_, _, spelt_of_cut split⟩, List.prefix_append _ _, ?_⟩
  -- another lexeme here would begin the piece that is cut off here, and that is the token
  rintro other ⟨_, _, spelt⟩ ⟨more, whole⟩
  obtain ⟨piece, rest, first, longer⟩ := lexeme_begins_piece spelt more
  rw [whole, here] at first
  obtain rfl := (List.cons.inj first).1
  exact longer.length_le

theorem comment_of_slashes {source : List Char} {front back : List Piece} {piece : Piece}
    (split : all source = front ++ piece :: back)
    (slashes : ['/', '/'] <+: (piece :: back).flatMap text) : ∃ inner, piece = .comment inner := by
  obtain ⟨more, whole⟩ := slashes
  have here := all_suffix split
  rw [← whole] at here
  have cuts : cut '/' ('/' :: more) = cutComment ('/' :: more) := rfl
  rw [List.cons_append, all_cons, List.singleton_append, cuts, cutComment] at here
  exact ⟨_, (List.cons.inj here).1.symm⟩

end Piece

theorem place_gap {gap : List Char} (is : IsGap gap) (position : Position) (more : List Char) :
    place position (Piece.all (gap ++ more)) = place (position.after gap) (Piece.all more) := by
  induction is generalizing position with
  | nil => rfl
  | blank blank _ ih =>
    rw [List.cons_append, Piece.all_cons, Piece.cut_blank blank, place_cons, ih]
    rfl
  | @comment inner rest apart _ ih =>
    have inside : ∀ char ∈ '/' :: inner, (char != '\n') = true := by
      intro char member
      rw [bne_iff_ne]
      rintro rfl
      exact apart (by simpa using member)
    have joined : '/' :: '/' :: (inner ++ '\n' :: rest) ++ more =
        '/' :: ('/' :: inner ++ '\n' :: (rest ++ more)) := by simp
    have cuts : Piece.cut '/' ('/' :: inner ++ '\n' :: (rest ++ more)) =
        Piece.cutComment ('/' :: inner ++ '\n' :: (rest ++ more)) := rfl
    have taken : ('/' :: inner ++ '\n' :: (rest ++ more)).takeWhile (· != '\n') = '/' :: inner := by
      rw [List.takeWhile_append_of_pos inside]
      simp
    have dropped : ('/' :: inner ++ '\n' :: (rest ++ more)).dropWhile (· != '\n') =
        '\n' :: (rest ++ more) := by
      rw [List.dropWhile_append_of_pos inside]
      simp
    rw [joined, Piece.all_cons, cuts, Piece.cutComment, taken, dropped, place_cons, Piece.all_cons,
      Piece.cut_blank rfl, place_cons, ih]
    simp [Piece.scanned, Piece.text, Position.after_append]

theorem place_separator (separator : Separator) (position : Position) (more : List Char) :
    place position (Piece.all (separator.text ++ more)) =
      place (position.after separator.text) (Piece.all more) :=
  place_gap (.blank separator.blank separator.gap) position more

theorem place_lexeme (lexeme : Lexeme) (separator : Separator) (position : Position)
    (more : List Char) :
    place position (Piece.all (lexeme.text ++ (separator.text ++ more))) =
      .token (lexeme.token position) ::
        place (position.after lexeme.text) (Piece.all (separator.text ++ more)) := by
  rw [Separator.text, List.cons_append, Piece.all_lexeme lexeme.spelt separator.blank, place_cons]
  simp [Piece.scanned, Lexeme.token, Piece.literal_of_spelt lexeme.spelt, Piece.text]

/-- Lexemes laid out with separators are read back as they are, each at its own place. -/
theorem scan_laidOut (lead : Separator) (parts : List (Lexeme × Separator)) :
    scan (String.ofList (lead.text ++ laidOut parts)) =
      (tokensFrom (Position.start.after lead.text) parts).map .token := by
  rw [scan, String.toList_ofList, place_separator]
  -- the induction goes over every place that the first lexeme may stand at
  generalize Position.start.after lead.text = position
  induction parts generalizing position with
  | nil => simp [laidOut, tokensFrom]
  | cons part rest ih =>
    obtain ⟨lexeme, separator⟩ := part
    rw [laidOut, place_lexeme, place_separator, ih]
    rfl

theorem parts_of_tokensFrom (position : Position) (parts : List (Lexeme × Separator)) :
    (tokensFrom position parts).map (fun token => (token.kind, token.lexeme, token.literal)) =
      parts.map (fun part => (part.1.kind, String.ofList part.1.text, part.1.literal)) ++
        [(.finish, "", none)] := by
  induction parts generalizing position with
  | nil => rfl
  | cons part rest ih =>
    rw [tokensFrom, List.map_cons, ih]
    rfl

theorem tokens_map_token (tokens : List Token) :
    Scanned.tokens (tokens.map .token) = tokens ∧ Scanned.faults (tokens.map .token) = [] := by
  constructor
  · rw [Scanned.tokens, List.filterMap_map]
    exact List.filterMap_some
  · simp [Scanned.faults, Scanned.fault?]

/-- A token that is no end token comes from a piece, and stands where this begins. -/
theorem piece_of_placed {pieces : List Piece} {position : Position} {front back : List Scanned}
    {token : Token} (split : place position pieces = front ++ .token token :: back)
    (proper : token.kind ≠ .finish) :
    ∃ before after, pieces = before ++ .token token.kind token.lexeme.toList :: after ∧
      token.position = position.after (before.flatMap Piece.text) := by
  induction pieces generalizing position front with
  | nil =>
    cases front with
    | nil =>
      rw [place_nil, List.nil_append] at split
      cases split
      exact absurd rfl proper
    | cons first front => simp at split
  | cons piece rest ih =>
    rw [place_cons] at split
    -- the token is made of this piece, or of one behind it
    have later {front : List Scanned}
        (behind : place (position.after piece.text) rest = front ++ .token token :: back) :
        ∃ before after, piece :: rest =
            before ++ .token token.kind token.lexeme.toList :: after ∧
          token.position = position.after (before.flatMap Piece.text) := by
      obtain ⟨before, after, same, place⟩ := ih behind
      refine ⟨piece :: before, after, by rw [same]; rfl, ?_⟩
      rw [place, List.flatMap_cons, Position.after_append]
    cases found : piece.scanned position with
    | none =>
      rw [found] at split
      exact later split
    | some item =>
      rw [found, Option.toList_some, List.singleton_append] at split
      cases front with
      | cons first front => exact later (List.cons.inj split).2
      | nil =>
        obtain rfl := (List.cons.inj split).1
        cases piece with
        | token kind text =>
          cases found
          exact ⟨[], rest, by rw [String.toList_ofList]; rfl, rfl⟩
        | _ => cases found

/-- Lexemes laid out with separators are scanned without a report, and come back with their kinds, their
texts and what they stand for, in order and with the end behind them. In every source a token is the
longest lexeme that the source goes on with at the token's place, and two slashes are never a token:
wherever a piece begins with them, it is a comment. -/
theorem lexemes_read_back_and_longest (lead : Separator) (parts : List (Lexeme × Separator))
    (source : String) :
    (Scanned.faults (scan (String.ofList (lead.text ++ laidOut parts))) = [] ∧
      (Scanned.tokens (scan (String.ofList (lead.text ++ laidOut parts)))).map
          (fun token => (token.kind, token.lexeme, token.literal)) =
        parts.map (fun part => (part.1.kind, String.ofList part.1.text, part.1.literal)) ++
          [(.finish, "", none)]) ∧
      (∀ front token back, scan source = front ++ .token token :: back → token.kind ≠ .finish →
        ∃ before remaining, source.toList = before ++ remaining ∧
          token.position = Position.start.after before ∧
          LongestLexeme token.lexeme.toList remaining ∧ ¬ ['/', '/'] <+: remaining) ∧
      ∀ front piece back, Piece.all source.toList = front ++ piece :: back →
        ['/', '/'] <+: (piece :: back).flatMap Piece.text → ∃ text, piece = .comment text := by
  refine ⟨?_, ?_, ?_⟩
  · rw [scan_laidOut]
    obtain ⟨tokens, faults⟩ := tokens_map_token (tokensFrom (Position.start.after lead.text) parts)
    rw [tokens, faults, parts_of_tokensFrom]
    exact ⟨rfl, rfl⟩
  · intro front token back split proper
    -- The token is a piece of the source, and cutting takes the longest.
    obtain ⟨before, after, pieces, place⟩ := piece_of_placed split proper
    refine ⟨before.flatMap Piece.text, token.lexeme.toList ++ after.flatMap Piece.text, ?_, place,
      Piece.longest_of_cut pieces, ?_⟩
    · rw [← Piece.flatMap_text_all source.toList, pieces, List.flatMap_append, List.flatMap_cons]
      rfl
    · intro slashes
      obtain ⟨text, same⟩ := Piece.comment_of_slashes pieces slashes
      cases same
  · intro front piece back split slashes
    exact Piece.comment_of_slashes split slashes

/-- A string may hold slashes and a line break, a less sign and an equals sign with a blank between
them stay two, and without it they are one. -/
theorem less_and_equal_apart_and_together :
    (Scanned.tokens (scan " < = \"//\n\" //\"\n")).map
        (fun token => (token.kind, token.lexeme, token.literal)) =
      [(.symbol .less, "<", none), (.symbol .equal, "=", none),
        (.string, "\"//\n\"", some (.string "//\n")), (.finish, "", none)] ∧
      ∃ before remaining, "a<=b//c".toList = before ++ remaining ∧
        (⟨1, 1⟩ : Position) = Position.start.after before ∧
        LongestLexeme "<=".toList remaining ∧ ¬ ['/', '/'] <+: remaining := by
  let lead : Separator := ⟨' ', [], rfl, .nil⟩
  let less : Lexeme := ⟨_, _, _, .symbol .less⟩
  let equal : Lexeme := ⟨_, _, _, .symbol .equal⟩
  let text : Lexeme := ⟨_, _, _, .string (show '"' ∉ ['/', '/', '\n'] by decide)⟩
  let comment : Separator :=
    ⟨' ', '/' :: '/' :: (['"'] ++ ['\n']), rfl, .comment (by decide) .nil⟩
  have joined : " < = \"//\n\" //\"\n" =
      String.ofList (lead.text ++ laidOut [(less, lead), (equal, lead), (text, comment)]) := by
    decide +kernel
  have both := lexemes_read_back_and_longest lead [(less, lead), (equal, lead), (text, comment)]
    "a<=b//c"
  rw [joined]
  refine ⟨both.1.2, ?_⟩
  exact both.2.1 [.token ⟨.identifier, "a", none, ⟨1, 0⟩⟩] ⟨.symbol .lessEqual, "<=", none, ⟨1, 1⟩⟩
    [.token ⟨.identifier, "b", none, ⟨1, 3⟩⟩, .token (.finish ⟨1, 7⟩)] (by cbv) (by decide)

end LoxLang

import Mathlib.Data.List.Forall2
import LoxLang.Proofs.Scanning.Lexemes

/-!
A word in the place of another. If an identifier is replaced in some of the places where it stands, the
source is scanned as before, with the new word for the old one in these places, and nothing moves to
another line.
-/
namespace LoxLang

/-- The text is a word of the language and no keyword. -/
def IsIdentifier (text : List Char) : Prop := TokenKind.identifier.Spelt text none

namespace IsIdentifier

theorem head {text : List Char} (word : IsIdentifier text) :
    ∃ first rest, text = first :: rest ∧ first.isAlpha = true := by
  cases word with
  | @identifier first rest letter _ _ => exact ⟨first, rest, rfl, letter⟩

theorem newlines_eq {text : List Char} (word : IsIdentifier text) : newlines text = 0 := by
  cases word with
  | @identifier first rest letter others _ =>
    refine List.count_eq_zero.mpr fun member => ?_
    rcases List.mem_cons.mp member with rfl | later
    · cases letter
    · exact absurd (others _ later) (by decide)

end IsIdentifier

/-- The same token, or the new identifier for the old one. -/
inductive Token.Respelt (old fresh : String) : Token → Token → Prop
  | kept (token : Token) : Respelt old fresh token token
  | changed {token : Token} : token.kind = .identifier → token.lexeme = old →
    Respelt old fresh token { token with lexeme := fresh }

/-- The tokens say the same, wherever in their line they stand. -/
structure Token.SameWord (token other : Token) : Prop where
  kind : other.kind = token.kind
  lexeme : other.lexeme = token.lexeme
  literal : other.literal = token.literal
  line : other.line = token.line

namespace Piece

/-- The same piece, or the new identifier for the old one. -/
inductive Respelt (old fresh : String) : Piece → Piece → Prop
  | kept (piece : Piece) : Respelt old fresh piece piece
  | changed : Respelt old fresh (.token .identifier old.toList) (.token .identifier fresh.toList)

/-- Both texts begin with the same character or with a letter each, or both are empty. -/
def BeginAlike (text other : List Char) : Prop :=
  Option.Rel (fun first second => second = first ∨ first.isAlpha = true ∧ second.isAlpha = true)
    text.head? other.head?

/-- As far as a cut looks ahead there is no difference: two characters at a point, else one. -/
structure AheadAlike (text other : List Char) : Prop where
  first : BeginAlike text other
  second : text.head? = some '.' → BeginAlike text.tail other.tail

theorem BeginAlike.refl (text : List Char) : BeginAlike text text := by
  unfold BeginAlike
  cases text.head? with
  | none => exact .none
  | some char => exact .some (.inl rfl)

theorem BeginAlike.same {text other : List Char} (alike : BeginAlike text other) {sign : Char}
    (plain : sign.isAlpha = false) (ahead : other.head? = some sign) : text.head? = some sign := by
  unfold BeginAlike at alike
  rw [ahead] at alike
  cases found : text.head? with
  | none =>
    rw [found] at alike
    cases alike
  | some first =>
    rw [found] at alike
    cases alike with
    | some same =>
      rcases same with rfl | ⟨_, letter⟩
      · rfl
      · cases plain.symm.trans letter

theorem BeginAlike.stops {text other : List Char} (alike : BeginAlike text other)
    {test : Char → Bool}
    (letters : ∀ first second : Char, first.isAlpha = true → second.isAlpha = true →
      test second = test first)
    (stops : ∀ char ∈ text.head?, test char = false) : ∀ char ∈ other.head?, test char = false := by
  intro char member
  unfold BeginAlike at alike
  rw [Option.mem_def.mp member] at alike
  cases found : text.head? with
  | none =>
    rw [found] at alike
    cases alike
  | some first =>
    rw [found] at alike
    cases alike with
    | some same =>
      rcases same with rfl | ⟨letter, otherLetter⟩
      · exact stops char found
      · rw [letters first char letter otherLetter]
        exact stops first found

theorem span_exact {test : Char → Bool} {inner rest : List Char}
    (inside : ∀ char ∈ inner, test char = true) (stops : ∀ char ∈ rest.head?, test char = false) :
    (inner ++ rest).takeWhile test = inner ∧ (inner ++ rest).dropWhile test = rest := by
  rw [List.takeWhile_append_of_pos inside, List.dropWhile_append_of_pos inside]
  cases rest with
  | nil => simp
  | cons first rest => simp [stops first rfl]

theorem span_alike {test : Char → Bool}
    (letters : ∀ first second : Char, first.isAlpha = true → second.isAlpha = true →
      test second = test first) {rest other : List Char}
    (alike : BeginAlike (rest.dropWhile test) other) :
    (rest.takeWhile test ++ other).takeWhile test = rest.takeWhile test ∧
      (rest.takeWhile test ++ other).dropWhile test = other :=
  span_exact (fun _ member => List.mem_takeWhile_imp member)
    (alike.stops letters fun _ ahead => head_of_dropWhile test rest ahead)

theorem ne_of_letter {char sign : Char} (letter : char.isAlpha = true)
    (plain : sign.isAlpha = false) : char ≠ sign := by
  rintro rfl
  exact absurd (plain.symm.trans letter) (by simp)

/-- The same piece is cut off in front of a text that begins alike. -/
def CutsAlike (cut : Piece × List Char) (first : Char) (again : List Char → Piece × List Char) : Prop :=
  ∀ other, AheadAlike cut.2 other →
    ∃ inner, cut.1.text = first :: inner ∧ again (inner ++ other) = (cut.1, other)

variable {rest : List Char}

theorem alike_cutComment : CutsAlike (cutComment rest) '/' cutComment := by
  intro other alike
  have letters (first second : Char) (letter : first.isAlpha = true)
      (otherLetter : second.isAlpha = true) : (second != '\n') = (first != '\n') := by
    rw [bne_iff_ne.mpr (ne_of_letter letter (by decide)),
      bne_iff_ne.mpr (ne_of_letter otherLetter (by decide))]
  obtain ⟨taken, dropped⟩ := span_alike letters alike.first
  refine ⟨_, rfl, ?_⟩
  rw [cutComment, taken, dropped]
  rfl

theorem AheadAlike.of_nil {other : List Char} (alike : AheadAlike [] other) : other = [] := by
  cases other with
  | nil => rfl
  | cons first rest => cases alike.first

theorem alike_cutString : CutsAlike (cutString rest) '"' cutString := by
  intro other alike
  cases found : rest.dropWhile (· != '"') with
  | nil =>
    simp only [cutString, found] at alike ⊢
    obtain rfl := alike.of_nil
    exact ⟨rest, rfl, by rw [List.append_nil, found]⟩
  | cons quote tail =>
    -- the closing quote belongs to the string, so nothing behind it matters
    have closes : ∀ char ∈ (quote :: other).head?, (char != '"') = false := by
      rintro _ ⟨⟩
      exact head_of_dropWhile (· != '"') rest (by rw [found]; rfl)
    have before : ∀ char ∈ rest.takeWhile (· != '"'), (char != '"') = true :=
      fun _ member => (List.mem_takeWhile_imp member :)
    obtain ⟨taken, dropped⟩ := span_exact before closes
    refine ⟨rest.takeWhile (· != '"') ++ [quote], by simp only [cutString, found]; rfl, ?_⟩
    rw [List.append_assoc, List.singleton_append]
    simp only [cutString, found, taken, dropped]

theorem alike_cutWord (first : Char) : CutsAlike (cutWord first rest) first (cutWord first) := by
  intro other alike
  have letters (first second : Char) (letter : first.isAlpha = true)
      (otherLetter : second.isAlpha = true) : second.isAlphanum = first.isAlphanum := by
    simp [Char.isAlphanum, letter, otherLetter]
  obtain ⟨taken, dropped⟩ := span_alike letters alike.first
  refine ⟨_, rfl, ?_⟩
  rw [cutWord, taken, dropped]
  rfl

theorem alike_cutSymbol (symbol : Symbol) (first : Char) :
    CutsAlike (cutSymbol symbol first rest) first (cutSymbol symbol first) := by
  intro other alike
  cases longer : symbol.withEqual? with
  | none =>
    simp only [cutSymbol, longer] at alike ⊢
    exact ⟨[], rfl, rfl⟩
  | some sign =>
    by_cases equal : rest.head? = some '='
    · obtain ⟨tail, rfl⟩ := List.head?_eq_some_iff.mp equal
      simp only [cutSymbol, longer] at alike ⊢
      exact ⟨['='], rfl, rfl⟩
    · have alone {behind : List Char} (apart : behind.head? ≠ some '=') :
          cutSymbol symbol first behind = (.token (.symbol symbol) [first], behind) := by
        unfold cutSymbol
        rw [longer]
        split
        · exact absurd rfl apart
        · rfl
      rw [alone equal] at alike ⊢
      exact ⟨[], rfl, alone fun same => equal (alike.first.same (by decide) same)⟩

theorem digits_letters (first second : Char) (letter : first.isAlpha = true)
    (otherLetter : second.isAlpha = true) : second.isDigit = first.isDigit := by
  rw [isDigit_of_letter letter, isDigit_of_letter otherLetter]

def Pointed (text : List Char) : Prop :=
  ∃ digit tail, text = '.' :: digit :: tail ∧ digit.isDigit = true

theorem cutNumber_of_pointed {first digit : Char} {text tail : List Char}
    (found : text.dropWhile Char.isDigit = '.' :: digit :: tail) (fractional : digit.isDigit = true) :
    cutNumber first text = (.token .number (first :: text.takeWhile Char.isDigit ++
      '.' :: digit :: tail.takeWhile Char.isDigit), tail.dropWhile Char.isDigit) := by
  simp only [cutNumber, found, fractional, ↓reduceIte]

theorem cutNumber_of_not_pointed {first : Char} {text : List Char}
    (plain : ¬Pointed (text.dropWhile Char.isDigit)) :
    cutNumber first text =
      (.token .number (first :: text.takeWhile Char.isDigit), text.dropWhile Char.isDigit) := by
  unfold cutNumber
  split
  · rename_i digit tail found
    split
    · rename_i fractional
      exact absurd ⟨digit, tail, found, fractional⟩ plain
    · rw [found]
  · rfl

theorem AheadAlike.not_pointed {text other : List Char} (alike : AheadAlike text other)
    (plain : ¬Pointed text) : ¬Pointed other := by
  rintro ⟨digit, tail, rfl, fractional⟩
  have point := alike.first.same (by decide) rfl
  have letter : digit.isAlpha = false := by
    by_contra letter
    exact absurd ((isDigit_of_letter (by simpa using letter)).symm.trans fractional) (by simp)
  have behind := (alike.second point).same letter rfl
  obtain ⟨rest, rfl⟩ := List.head?_eq_some_iff.mp point
  obtain ⟨more, same⟩ := List.head?_eq_some_iff.mp behind
  exact plain ⟨digit, more, congrArg _ same, fractional⟩

theorem alike_cutNumber (first : Char) :
    CutsAlike (cutNumber first rest) first (cutNumber first) := by
  intro other alike
  by_cases pointed : Pointed (rest.dropWhile Char.isDigit)
  · obtain ⟨digit, tail, found, fractional⟩ := pointed
    rw [cutNumber_of_pointed found fractional] at alike ⊢
    obtain ⟨taken, dropped⟩ := span_alike digits_letters alike.first
    have before : ∀ char ∈ rest.takeWhile Char.isDigit, char.isDigit = true :=
      fun _ member => List.mem_takeWhile_imp member
    have point : ∀ char ∈ ('.' :: digit :: (tail.takeWhile Char.isDigit ++ other)).head?,
        char.isDigit = false := by
      rintro _ ⟨⟩
      decide
    obtain ⟨whole, behind⟩ := span_exact before point
    refine ⟨rest.takeWhile Char.isDigit ++ '.' :: digit :: tail.takeWhile Char.isDigit, rfl, ?_⟩
    rw [List.append_assoc, List.cons_append, List.cons_append,
      cutNumber_of_pointed behind fractional, whole, taken, dropped]
  · rw [cutNumber_of_not_pointed pointed] at alike ⊢
    obtain ⟨taken, dropped⟩ := span_alike digits_letters alike.first
    refine ⟨rest.takeWhile Char.isDigit, rfl, ?_⟩
    rw [cutNumber_of_not_pointed (dropped.symm ▸ alike.not_pointed pointed), taken, dropped]

theorem cut_slash_alone {rest : List Char} (alone : rest.head? ≠ some '/') :
    cut '/' rest = (.token (.symbol .slash) ['/'], rest) := by
  have single : ('/' == '/' && rest.head? == some '/') = false := by simpa using alone
  unfold cut
  rw [single]
  rfl

theorem alike_cut_slash : CutsAlike (cut '/' rest) '/' (cut '/') := by
  intro other alike
  by_cases second : rest.head? = some '/'
  · obtain ⟨tail, rfl⟩ := List.head?_eq_some_iff.mp second
    -- of a comment, the second slash is kept as well
    have cuts : cut '/' ('/' :: tail) = cutComment ('/' :: tail) := rfl
    rw [cuts] at alike ⊢
    obtain ⟨inner, text, again⟩ := alike_cutComment other alike
    obtain rfl : '/' :: tail.takeWhile (· != '\n') = inner := (List.cons.inj text).2
    exact ⟨_, rfl, again⟩
  · rw [cut_slash_alone second] at alike ⊢
    exact ⟨[], rfl, cut_slash_alone fun same => second (alike.first.same (by decide) same)⟩

theorem cut_sign {first : Char} (blank : isBlank first = false) (quote : first ≠ '"')
    (slash : first ≠ '/') (digit : first.isDigit = false) (letter : first.isAlpha = false)
    (rest : List Char) :
    cut first rest = match Symbol.ofChar? first with
      | some symbol => cutSymbol symbol first rest
      | none => (.stray first, rest) := by
  cases found : Symbol.ofChar? first <;>
    simp only [cut, blank, beq_false_of_ne quote, beq_false_of_ne slash, digit, letter, found,
      Bool.false_and, Bool.false_eq_true, ↓reduceIte]

theorem alike_cut (first : Char) : CutsAlike (cut first rest) first (cut first) := by
  by_cases blank : isBlank first = true
  · rw [cut_blank blank]
    exact fun other _ => ⟨[], rfl, cut_blank blank other⟩
  by_cases quote : first = '"'
  · subst quote
    exact alike_cutString
  by_cases slash : first = '/'
  · subst slash
    exact alike_cut_slash
  by_cases digit : first.isDigit = true
  · rw [funext (cut_digit digit)]
    exact alike_cutNumber first
  by_cases letter : first.isAlpha = true
  · rw [funext (cut_letter letter)]
    exact alike_cutWord first
  rw [Bool.not_eq_true] at blank digit letter
  rw [funext (cut_sign blank quote slash digit letter)]
  cases Symbol.ofChar? first with
  | some symbol => exact alike_cutSymbol symbol first
  | none => exact fun other _ => ⟨[], rfl, rfl⟩

theorem BeginAlike.append {text other : List Char} (alike : BeginAlike text other)
    (inner : List Char) : BeginAlike (inner ++ text) (inner ++ other) := by
  cases inner with
  | nil => exact alike
  | cons first inner => exact .some (.inl rfl)

theorem alphanum_letters (first second : Char) (letter : first.isAlpha = true)
    (otherLetter : second.isAlpha = true) : second.isAlphanum = first.isAlphanum := by
  simp [Char.isAlphanum, letter, otherLetter]

theorem all_identifier {text rest : List Char} (word : IsIdentifier text)
    (stops : ∀ char ∈ rest.head?, char.isAlphanum = false) :
    all (text ++ rest) = .token .identifier text :: all rest := by
  have nothing : ∀ char ∈ ([] : List Char), char.isAlphanum = true := nofun
  obtain ⟨taken, dropped⟩ := span_exact nothing stops
  rw [List.nil_append] at taken dropped
  have kind := wordKind_identifier word
  cases word with
  | identifier letter others _ =>
    rw [all_word letter others, taken, dropped, List.append_nil, kind]

theorem all_changed {old fresh : String} (word : IsIdentifier fresh.toList) {first : Char}
    {rest after : List Char} (cuts : cut first rest = (.token .identifier old.toList, after))
    {other : List Char} (alike : BeginAlike after other) :
    first.isAlpha = true ∧
      all (fresh.toList ++ other) = .token .identifier fresh.toList :: all other := by
  have fits := fits_cut first rest
  have whole := cut_text first rest
  rw [cuts] at fits whole
  have letter : first.isAlpha = true := by
    cases spelling : old.toList with
    | nil =>
      rw [spelling] at fits
      cases fits
    | cons char others =>
      rw [spelling] at fits whole
      obtain rfl := (List.cons.inj whole).1
      cases fits with
      | identifier letter _ _ => exact letter
  rw [cut_letter letter] at cuts
  obtain rfl : rest.dropWhile Char.isAlphanum = after := congrArg Prod.snd cuts
  exact ⟨letter, all_identifier word (alike.stops alphanum_letters fun _ ahead =>
    head_of_dropWhile Char.isAlphanum rest ahead)⟩

/-- With another word in some places, the other pieces are cut off as they were. -/
theorem all_respelt {old fresh : String} (word : IsIdentifier fresh.toList) (source : List Char)
    {pieces : List Piece} (respelt : List.Forall₂ (Respelt old fresh) (all source) pieces) :
    all (pieces.flatMap text) = pieces ∧ AheadAlike source (pieces.flatMap text) := by
  -- a piece is cut off with a look at what follows, so it must be known how the rest begins
  induction size : source.length using Nat.strongRecOn generalizing source pieces with
  | _ size ih =>
    subst size
    cases source with
    | nil =>
      rw [all_nil] at respelt
      cases respelt
      exact ⟨all_nil, .refl _, nofun⟩
    | cons first rest =>
      have shorter := cut_length first rest
      have whole := cut_text first rest
      have keeps : CutsAlike (cut first rest) first (cut first) := alike_cut first
      rw [all_cons] at respelt
      generalize cuts : cut first rest = found at respelt shorter whole keeps
      obtain ⟨piece, after⟩ := found
      cases respelt with
      | @cons _ other _ more here later =>
        obtain ⟨again, alike⟩ := ih _ shorter _ later rfl
        rw [List.flatMap_cons]
        -- what is kept is cut off as before, since what follows begins alike; the new word is one piece
        cases here with
        | kept =>
          obtain ⟨inner, spelling, same⟩ := keeps _ alike
          rw [spelling, List.cons_append] at whole
          rw [spelling, List.cons_append, all_cons, same, again, ← whole]
          exact ⟨rfl, .some (.inl rfl), fun _ => alike.first.append inner⟩
        | changed =>
          obtain ⟨letter, changed⟩ := all_changed word cuts alike.first
          refine ⟨changed.trans (congrArg _ again), ?_, ?_⟩
          · obtain ⟨char, others, spelling, otherLetter⟩ := word.head
            rw [Piece.text, spelling]
            exact .some (.inr ⟨letter, otherLetter⟩)
          · intro point
            cases Option.some.inj point
            cases letter

end Piece
section Scanning

variable {old fresh : String}

theorem tokens_append (items others : List Scanned) :
    Scanned.tokens (items ++ others) = Scanned.tokens items ++ Scanned.tokens others :=
  List.filterMap_append

theorem faults_append (items others : List Scanned) :
    Scanned.faults (items ++ others) = Scanned.faults items ++ Scanned.faults others :=
  List.filterMap_append

theorem placeAmong_respelt (freshWord : IsIdentifier fresh.toList) {pieces : List Piece}
    (oldWord : .token .identifier old.toList ∈ pieces → IsIdentifier old.toList)
    {position : Position} {words : List Token}
    (clean : Scanned.faults (placeAmong position pieces) = [])
    (respelt : List.Forall₂ (Token.Respelt old fresh)
      (Scanned.tokens (placeAmong position pieces)) words) :
    ∃ others, List.Forall₂ (Piece.Respelt old fresh) pieces others ∧
      ∀ further : Position, further.line = position.line →
        Scanned.faults (placeAmong further others) = [] ∧
        List.Forall₂ Token.SameWord words (Scanned.tokens (placeAmong further others)) := by
  -- columns change on the way, lines do not, so a piece is placed wherever its line is the same
  induction pieces generalizing position words with
  | nil =>
    cases respelt
    exact ⟨[], .nil, fun _ _ => ⟨rfl, .nil⟩⟩
  | cons piece rest ih =>
    have later := fun member => oldWord (List.mem_cons_of_mem piece member)
    rw [placeAmong, faults_append, List.append_eq_nil_iff] at clean
    rw [placeAmong, tokens_append] at respelt
    have level {further : Position} (same : further.line = position.line) :
        (further.after piece.text).line = (position.after piece.text).line := by
      rw [Position.line_after, Position.line_after, same]
    cases piece with
    | blank char =>
      obtain ⟨others, pieces, placed⟩ := ih later clean.2 respelt
      exact ⟨_, .cons (.kept _) pieces, fun further same => placed _ (level same)⟩
    | comment text =>
      obtain ⟨others, pieces, placed⟩ := ih later clean.2 respelt
      exact ⟨_, .cons (.kept _) pieces, fun further same => placed _ (level same)⟩
    -- these would have been reported
    | stray char => cases clean.1
    | unclosed text => cases clean.1
    | token kind text =>
      cases respelt with
      | @cons _ word _ words here behind =>
        obtain ⟨others, pieces, placed⟩ := ih later clean.2 behind
        cases here with
        | kept =>
          refine ⟨_, .cons (.kept _) pieces, fun further same => ?_⟩
          obtain ⟨silent, sames⟩ := placed _ (level same)
          exact ⟨silent, .cons ⟨rfl, rfl, rfl, same⟩ sames⟩
        | changed kind_eq lexeme_eq =>
          obtain rfl : kind = .identifier := kind_eq
          obtain rfl : text = old.toList := by
            rw [← lexeme_eq, String.toList_ofList]
          refine ⟨_, .cons .changed pieces, fun further same => ?_⟩
          -- neither word takes a line break along
          have onward : (further.after fresh.toList).line =
              (position.after old.toList).line := by
            rw [Position.line_after, Position.line_after, freshWord.newlines_eq,
              (oldWord List.mem_cons_self).newlines_eq, same]
          obtain ⟨silent, sames⟩ := placed _ onward
          exact ⟨silent, .cons ⟨rfl, String.ofList_toList, rfl, same⟩ sames⟩

/-- The other text is the same, but that in some places it has the one identifier for the other. -/
def Respelling (old fresh source other : String) : Prop :=
  List.Forall₂ (Piece.Respelt old fresh) (Piece.all source.toList) (Piece.all other.toList)

/-- Tokens respelt are the tokens of a source that is respelt in the same places. -/
theorem scan_respelt (freshWord : IsIdentifier fresh.toList) {source : String} {words : List Token}
    (clean : Scanned.faults (scan source) = [])
    (respelt : List.Forall₂ (Token.Respelt old fresh) (Scanned.tokens (scanAmong source)) words) :
    ∃ other, Respelling old fresh source other ∧ Scanned.faults (scan other) = [] ∧
      List.Forall₂ Token.SameWord words (Scanned.tokens (scanAmong other)) := by
  rw [scan_eq, faults_append, List.append_eq_nil_iff] at clean
  have oldWord (member : .token .identifier old.toList ∈ Piece.all source.toList) :
      IsIdentifier old.toList := by
    obtain ⟨front, back, split⟩ := List.append_of_mem member
    exact Piece.spelt_of_cut split
  obtain ⟨pieces, same, placed⟩ := placeAmong_respelt freshWord oldWord clean.1 respelt
  obtain ⟨silent, sames⟩ := placed .start rfl
  have cut : Piece.all (String.ofList (pieces.flatMap Piece.text)).toList = pieces := by
    rw [String.toList_ofList]
    exact (Piece.all_respelt freshWord _ same).1
  refine ⟨String.ofList (pieces.flatMap Piece.text), ?_, ?_, ?_⟩
  · rwa [Respelling, cut]
  · rw [scan_eq, faults_append, scanAmong, cut, silent]
    rfl
  · rwa [scanAmong, cut]

end Scanning
end LoxLang

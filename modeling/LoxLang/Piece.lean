import LoxLang.Token
/-!
A source text cut into pieces: tokens, blanks, comments, and the characters that belong to none of
these. Pieces know their text and no positions; joined in order they give the source back.
-/
namespace LoxLang

inductive Piece where
  | blank (char : Char)
  | comment (text : List Char)
  | token (kind : TokenKind) (text : List Char)
  | stray (char : Char)
  | unclosed (text : List Char)

namespace Piece

def text : Piece → List Char
  | .blank char => [char]
  | .comment text => text
  | .token _ text => text
  | .stray char => [char]
  | .unclosed text => text

def isBlank (char : Char) : Bool :=
  char == ' ' || char == '\r' || char == '\t' || char == '\n'

/-- A comment runs up to its line break and leaves that outside. -/
def cutComment (rest : List Char) : Piece × List Char :=
  (.comment ('/' :: rest.takeWhile (· != '\n')), rest.dropWhile (· != '\n'))

/-- A string runs to the next quote, over any line breaks. -/
def cutString (rest : List Char) : Piece × List Char :=
  match rest.dropWhile (· != '"') with
  | [] => (.unclosed ('"' :: rest), [])
  | quote :: tail => (.token .string ('"' :: (rest.takeWhile (· != '"') ++ [quote])), tail)

/-- A number has a fraction only if a digit follows the point. -/
def cutNumber (first : Char) (rest : List Char) : Piece × List Char :=
  let whole := first :: rest.takeWhile Char.isDigit
  match rest.dropWhile Char.isDigit with
  | '.' :: digit :: tail =>
    if digit.isDigit then
      (.token .number (whole ++ '.' :: digit :: tail.takeWhile Char.isDigit),
        tail.dropWhile Char.isDigit)
    else (.token .number whole, '.' :: digit :: tail)
  | tail => (.token .number whole, tail)

def wordKind (word : List Char) : TokenKind :=
  match Keyword.ofSpelling? (String.ofList word) with
  | some keyword => .keyword keyword
  | none => .identifier

def cutWord (first : Char) (rest : List Char) : Piece × List Char :=
  let word := first :: rest.takeWhile Char.isAlphanum
  (.token (wordKind word) word, rest.dropWhile Char.isAlphanum)

def cutSymbol (symbol : Symbol) (first : Char) (rest : List Char) : Piece × List Char :=
  match symbol.withEqual?, rest with
  | some longer, '=' :: tail => (.token (.symbol longer) [first, '='], tail)
  | _, _ => (.token (.symbol symbol) [first], rest)

/-- The piece that starts at a character, and what comes after it. -/
def cut (first : Char) (rest : List Char) : Piece × List Char :=
  if isBlank first then (.blank first, rest)
  else if first == '"' then cutString rest
  else if first == '/' && rest.head? == some '/' then cutComment rest
  else if first.isDigit then cutNumber first rest
  else if first.isAlpha then cutWord first rest
  else
    match Symbol.ofChar? first with
    | some symbol => cutSymbol symbol first rest
    | none => (.stray first, rest)

theorem cutComment_text (rest : List Char) :
    (cutComment rest).1.text ++ (cutComment rest).2 = '/' :: rest := by
  simp [cutComment, text, List.takeWhile_append_dropWhile]

theorem cutString_text (rest : List Char) :
    (cutString rest).1.text ++ (cutString rest).2 = '"' :: rest := by
  have whole : rest.takeWhile (· != '"') ++ rest.dropWhile (· != '"') = rest :=
    List.takeWhile_append_dropWhile
  unfold cutString
  split
  · simp [text]
  · rename_i quote tail found
    rw [found] at whole
    simpa [text] using whole

theorem cutNumber_text (first : Char) (rest : List Char) :
    (cutNumber first rest).1.text ++ (cutNumber first rest).2 = first :: rest := by
  have whole : rest.takeWhile Char.isDigit ++ rest.dropWhile Char.isDigit = rest :=
    List.takeWhile_append_dropWhile
  unfold cutNumber
  split
  · rename_i digit tail found
    rw [found] at whole
    split <;> simp [text, List.takeWhile_append_dropWhile, whole]
  · simp [text, List.takeWhile_append_dropWhile]

theorem cutWord_text (first : Char) (rest : List Char) :
    (cutWord first rest).1.text ++ (cutWord first rest).2 = first :: rest := by
  simp [cutWord, text, List.takeWhile_append_dropWhile]

theorem cutSymbol_text (symbol : Symbol) (first : Char) (rest : List Char) :
    (cutSymbol symbol first rest).1.text ++ (cutSymbol symbol first rest).2 = first :: rest := by
  unfold cutSymbol
  split <;> simp [text]

/-- Nothing is lost and nothing is moved. -/
theorem cut_text (first : Char) (rest : List Char) :
    (cut first rest).1.text ++ (cut first rest).2 = first :: rest := by
  unfold cut
  split
  · simp [text]
  · split
    · rename_i quote
      rw [cutString_text, eq_of_beq quote]
    · split
      · rename_i slashes
        rw [cutComment_text, eq_of_beq (Bool.and_eq_true_iff.mp slashes).1]
      · split
        · exact cutNumber_text first rest
        · split
          · exact cutWord_text first rest
          · split
            · exact cutSymbol_text _ first rest
            · simp [text]

theorem cut_text_ne_nil (first : Char) (rest : List Char) : (cut first rest).1.text ≠ [] := by
  unfold cut cutString cutComment cutNumber cutWord cutSymbol
  repeat' split
  all_goals simp [text]

theorem cut_length (first : Char) (rest : List Char) :
    (cut first rest).2.length < (first :: rest).length := by
  have whole := congrArg List.length (cut_text first rest)
  have consumed := List.length_pos_iff.mpr (cut_text_ne_nil first rest)
  rw [List.length_append] at whole
  omega

def cutAll (source : List Char) (done : List Piece) : List Piece :=
  match source with
  | [] => done.reverse
  | first :: rest => cutAll (cut first rest).2 ((cut first rest).1 :: done)
termination_by source.length
decreasing_by exact cut_length first rest

def all (source : List Char) : List Piece := cutAll source []

theorem cutAll_eq (source : List Char) (done : List Piece) :
    cutAll source done = done.reverse ++ all source := by
  induction size : source.length using Nat.strongRecOn generalizing source done with
  | _ size ih =>
    subst size
    cases source with
    | nil => simp [all, cutAll]
    | cons first rest =>
      have shorter := cut_length first rest
      rw [all, cutAll, cutAll, ih _ shorter _ _ rfl, ih _ shorter _ _ rfl]
      simp

@[simp] theorem all_nil : all [] = [] := by simp [all, cutAll]

theorem all_cons (first : Char) (rest : List Char) :
    all (first :: rest) = (cut first rest).1 :: all (cut first rest).2 := by
  rw [all, cutAll, cutAll_eq]
  rfl

end Piece
end LoxLang

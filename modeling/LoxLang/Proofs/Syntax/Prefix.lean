import LoxLang.Syntax.Prefix
import LoxLang.Proofs.Syntax.Parts
import LoxLang.Proofs.Scanning.Respelling

/-!
Trees from their text with the operators in front. Blanks and brackets show where each part of such a
text ends, and the word behind a bracket shows what the parts are for, so that the text leaves no
choice; only a number is not told from others that are printed as it is.
-/
namespace LoxLang

/-- A character that parts of a text end at. -/
def isBreak (letter : Char) : Bool := letter == ' ' || letter == '(' || letter == ')'

theorem isBreak_of_passes {test : Char → Bool} (blank : test ' ' = false)
    (opening : test '(' = false) (closing : test ')' = false) {letter : Char}
    (passes : test letter = true) : isBreak letter = false := by
  cases broken : isBreak letter with
  | false => rfl
  | true =>
    simp only [isBreak, Bool.or_eq_true, beq_iff_eq] at broken
    rcases broken with (rfl | rfl) | rfl
    · exact absurd passes (by simp [blank])
    · exact absurd passes (by simp [opening])
    · exact absurd passes (by simp [closing])

/-- A text that no part ends inside of. -/
def Unbroken (text : String) : Prop := ∀ letter ∈ text.toList, isBreak letter = false

/-- What comes behind a part that is complete. -/
def Ended (rest : List Char) : Prop := ∀ letter ∈ rest.head?, letter = ' ' ∨ letter = ')'

/-- A text in brackets is a word with further texts behind it. -/
inductive Form where
  | word (text : String)
  | list (head : String) (items : List Form)

namespace Form

mutual

def text : Form → List Char
  | .word text => text.toList
  | .list head items => '(' :: (head.toList ++ texts items)

def texts : List Form → List Char
  | [] => [')']
  | first :: rest => ' ' :: (text first ++ texts rest)

end

mutual

def Whole : Form → Prop
  | .word text => Unbroken text
  | .list head items => Unbroken head ∧ WholeAll items

def WholeAll : List Form → Prop
  | [] => True
  | first :: rest => Whole first ∧ WholeAll rest

end

section Reading

variable {rest others : List Char}

theorem takeWhile_word {word : String} (unbroken : Unbroken word) (ended : Ended rest) :
    (word.toList ++ rest).takeWhile (!isBreak ·) = word.toList := by
  have inside : ∀ letter ∈ word.toList, (!isBreak letter) = true := by
    intro letter member
    rw [unbroken letter member]
    rfl
  have stops : ∀ letter ∈ rest.head?, (!isBreak letter) = false := by
    intro letter next
    rcases ended letter next with rfl | rfl <;> rfl
  exact (Piece.span_exact inside stops).1

theorem word_append_inj {first second : String} (unbroken : Unbroken first)
    (further : Unbroken second) (ended : Ended rest) (finished : Ended others)
    (same : first.toList ++ rest = second.toList ++ others) : first = second ∧ rest = others := by
  have words := congrArg (List.takeWhile (!isBreak ·)) same
  rw [takeWhile_word unbroken ended, takeWhile_word further finished] at words
  obtain rfl := String.toList_injective words
  exact ⟨rfl, List.append_cancel_left same⟩

theorem word_append_ne {word : String} (unbroken : Unbroken word) (ended : Ended rest) :
    word.toList ++ rest ≠ '(' :: others := by
  intro same
  have words := congrArg (List.takeWhile (!isBreak ·)) same
  rw [takeWhile_word unbroken ended] at words
  have empty : word.toList = [] := by simpa [isBreak] using words
  rw [empty, List.nil_append] at same
  subst same
  simpa using ended '(' rfl

theorem ended_texts (items : List Form) (rest : List Char) : Ended (texts items ++ rest) := by
  cases items <;> simp [Ended, texts]

mutual

theorem text_append_inj : ∀ first second : Form, first.Whole → second.Whole →
    ∀ rest others, Ended rest → Ended others → first.text ++ rest = second.text ++ others →
      first = second ∧ rest = others
  | .word first, .word second, whole, further, rest, others, ended, finished, same => by
    obtain ⟨rfl, left⟩ := word_append_inj whole further ended finished same
    exact ⟨rfl, left⟩
  | .word first, .list _ _, whole, _, rest, others, ended, _, same =>
    absurd same (word_append_ne whole ended)
  | .list _ _, .word second, _, further, rest, others, _, finished, same =>
    absurd same.symm (word_append_ne further finished)
  | .list head items, .list other further, ⟨headWhole, whole⟩, ⟨otherWhole, furtherWhole⟩, rest,
      others, ended, finished, same => by
    simp only [text, List.cons_append, List.append_assoc, List.cons.injEq, true_and] at same
    obtain ⟨rfl, behind⟩ := word_append_inj headWhole otherWhole (ended_texts items rest)
      (ended_texts further others) same
    obtain ⟨rfl, left⟩ := texts_append_inj items further whole furtherWhole rest others behind
    exact ⟨rfl, left⟩

theorem texts_append_inj : ∀ items further : List Form, WholeAll items → WholeAll further →
    ∀ rest others, texts items ++ rest = texts further ++ others → items = further ∧ rest = others
  | [], [], _, _, rest, others, same => by simpa [texts] using same
  | [], _ :: _, _, _, rest, others, same => by simp [texts] at same
  | _ :: _, [], _, _, rest, others, same => by simp [texts] at same
  | first :: items, second :: further, ⟨firstWhole, whole⟩, ⟨secondWhole, furtherWhole⟩, rest,
      others, same => by
    simp only [texts, List.cons_append, List.append_assoc, List.cons.injEq, true_and] at same
    obtain ⟨rfl, behind⟩ := text_append_inj first second firstWhole secondWhole _ _
      (ended_texts items rest) (ended_texts further others) same
    obtain ⟨rfl, left⟩ := texts_append_inj items further whole furtherWhole rest others behind
    exact ⟨rfl, left⟩

end

end Reading
end Form

section Numerals

open Double

/-- The characters of a number that is one and not infinite. -/
def isNumeral (letter : Char) : Bool := letter.isDigit || letter == '.' || letter == '-'

theorem isNumeral_toDigits {number : Nat} {letter : Char} (member : letter ∈ Nat.toDigits 10 number) :
    isNumeral letter = true := by
  have digit := Nat.isDigit_of_mem_toDigits (by decide) (by decide) member
  simp [isNumeral, digit]

theorem isNumeral_fractionText {digits places : Nat} {letter : Char}
    (member : letter ∈ fractionText digits places) : isNumeral letter = true := by
  have inside := (List.dropWhile_sublist _).subset (List.mem_reverse.mp member)
  rcases List.mem_append.mp (List.mem_reverse.mp inside) with filled | shown
  · rw [List.eq_of_mem_replicate filled]
    rfl
  · exact isNumeral_toDigits shown

theorem isNumeral_positional {digits grid : Nat} {letter : Char}
    (member : letter ∈ positional digits grid) : isNumeral letter = true := by
  unfold positional at member
  split at member
  · exact isNumeral_toDigits member
  · dsimp only at member
    split at member
    · exact isNumeral_toDigits member
    · rcases List.mem_append.mp member with whole | behind
      · exact isNumeral_toDigits whole
      · rcases List.mem_cons.mp behind with rfl | fraction
        · rfl
        · exact isNumeral_fractionText fraction

theorem isNumeral_signed {negative : Bool} {shown : List Char}
    (numeral : ∀ letter ∈ shown, isNumeral letter = true) :
    ∀ letter ∈ signed negative shown, isNumeral letter = true := by
  intro letter member
  cases negative with
  | false => exact numeral letter member
  | true =>
    rcases List.mem_cons.mp member with rfl | inside
    · rfl
    · exact numeral letter inside

theorem isNumeral_finite (negative : Bool) (mantissa scale : Nat) :
    ∀ letter ∈ (Parts.finite negative mantissa scale).text, isNumeral letter = true := by
  cases mantissa with
  | zero => exact isNumeral_signed (by simp [isNumeral])
  | succ mantissa =>
    rw [Parts.text]
    · rcases shortest (mantissa + 1) scale with ⟨digits, grid⟩
      exact isNumeral_signed fun _ => isNumeral_positional
    · simp

/-- A number is printed as a word only if it is none or infinite. -/
theorem text_cases (number : Float) :
    Double.text number ∈ ["NaN", "inf", "-inf"] ∨
      ∀ letter ∈ (Double.text number).toList, isNumeral letter = true := by
  unfold Double.text
  cases parts number with
  | notANumber => exact .inl (by decide)
  | infinite negative => cases negative <;> exact .inl (by decide)
  | finite negative mantissa scale =>
    rw [String.toList_ofList]
    exact .inr (isNumeral_finite negative mantissa scale)

theorem unbroken_number (number : Float) : Unbroken (Double.text number) := by
  intro letter member
  rcases text_cases number with word | numeral
  · simp only [List.mem_cons, List.not_mem_nil, or_false] at word
    rcases word with same | same | same <;>
      · rw [same] at member
        revert member
        simp +contextual [isBreak, or_imp]
  · exact isBreak_of_passes rfl rfl rfl (numeral letter member)

theorem number_ne_word (number : Float) :
    Double.text number ≠ "true" ∧ Double.text number ≠ "false" ∧ Double.text number ≠ "nil" := by
  rcases text_cases number with word | numeral
  · simp only [List.mem_cons, List.not_mem_nil, or_false] at word
    rcases word with same | same | same <;> rw [same] <;> decide
  · refine ⟨?_, ?_, ?_⟩ <;> intro same <;> simp [same, isNumeral] at numeral

end Numerals
mutual

/-- The form that a tree is printed as. -/
def Expr.form : Expr → Form
  | .literal _ value => .word value.text
  | .variable _ name => .list "ident" [.word name]
  | .assign _ target value => .list "=" [.word target, value.form]
  | .group _ inner => .list "group" [inner.form]
  | .unary _ op operand => .list op.text [operand.form]
  | .binary _ op left right => .list op.text [left.form, right.form]
  | .logical _ op left right => .list op.text [left.form, right.form]
  | .call _ callee arguments => .list "call" (callee.form :: Expr.forms arguments)

def Expr.forms : List Expr → List Form
  | [] => []
  | first :: rest => first.form :: Expr.forms rest

end

mutual

theorem Expr.toList_prefixText : ∀ expr : Expr, expr.prefixText.toList = expr.form.text
  | .literal _ value => rfl
  | .variable _ name => by simp [prefixText, toString, form, Form.text, Form.texts]
  | .assign _ target value => by
    simp [prefixText, toString, form, Form.text, Form.texts, toList_prefixText value]
  | .group _ inner => by simp [prefixText, toString, form, Form.text, Form.texts, toList_prefixText inner]
  | .unary _ op operand => by
    simp [prefixText, toString, form, Form.text, Form.texts, toList_prefixText operand]
  | .binary _ op left right => by
    simp [prefixText, toString, form, Form.text, Form.texts, toList_prefixText left, toList_prefixText right]
  | .logical _ op left right => by
    simp [prefixText, toString, form, Form.text, Form.texts, toList_prefixText left, toList_prefixText right]
  | .call _ callee arguments => by
    simp [prefixText, toString, form, Form.text, Form.texts, toList_prefixText callee,
      ← toList_prefixTexts arguments]

theorem Expr.toList_prefixTexts : ∀ values : List Expr,
    (Expr.prefixTexts values).toList ++ [')'] = Form.texts (Expr.forms values)
  | [] => by simp [prefixTexts, forms, Form.texts]
  | first :: rest => by
    simp [prefixTexts, toString, forms, Form.texts, toList_prefixText first, ← toList_prefixTexts rest]

end

/-- No string, and no name of anything but letters and digits. -/
def Expr.isPlain : Expr → Bool
  | .literal _ (.string _) => false
  | .variable _ name => name.toList.all Char.isAlphanum
  | .assign _ target _ => target.toList.all Char.isAlphanum
  | _ => true

inductive Literal.Alike : Literal → Literal → Prop
  | number {value other : Float} : Double.text value = Double.text other →
    Alike (.number value) (.number other)
  | string (text : String) : Alike (.string text) (.string text)
  | boolean (value : Bool) : Alike (.boolean value) (.boolean value)
  | nil : Alike .nil .nil

theorem Literal.Alike.text_eq {value other : Literal} (alike : value.Alike other) :
    value.text = other.text := by
  cases alike with
  | number same => exact same
  | string _ | boolean _ | nil => rfl

/-- The same tree node for node, wherever its nodes are from, but that a number may be another one with
the same text. -/
inductive Expr.Alike : Expr → Expr → Prop
  | literal {site twin : Site} {value other : Literal} : value.Alike other →
    Alike (.literal site value) (.literal twin other)
  | variable {site twin : Site} (name : String) : Alike (.variable site name) (.variable twin name)
  | assign {site twin : Site} (target : String) {value other : Expr} : Alike value other →
    Alike (.assign site target value) (.assign twin target other)
  | group {site twin : Site} {inner other : Expr} : Alike inner other →
    Alike (.group site inner) (.group twin other)
  | unary {site twin : Site} (op : UnaryOp) {operand other : Expr} : Alike operand other →
    Alike (.unary site op operand) (.unary twin op other)
  | binary {site twin : Site} (op : BinaryOp) {left other right further : Expr} :
    Alike left other → Alike right further →
    Alike (.binary site op left right) (.binary twin op other further)
  | logical {site twin : Site} (op : LogicalOp) {left other right further : Expr} :
    Alike left other → Alike right further →
    Alike (.logical site op left right) (.logical twin op other further)
  | call {site twin : Site} {callee other : Expr} {arguments others : List Expr} :
    Alike callee other → List.Forall₂ Alike arguments others →
    Alike (.call site callee arguments) (.call twin other others)

section Operators

theorem UnaryOp.text_injective {op other : UnaryOp} (same : op.text = other.text) : op = other := by
  cases op <;> cases other <;> first | rfl | simp [text] at same

theorem BinaryOp.text_injective {op other : BinaryOp} (same : op.text = other.text) : op = other := by
  cases op <;> cases other <;> first | rfl | simp [text] at same

theorem LogicalOp.text_injective {op other : LogicalOp} (same : op.text = other.text) :
    op = other := by
  cases op <;> cases other <;> first | rfl | simp [text] at same

theorem BinaryOp.text_ne (op : BinaryOp) (other : LogicalOp) : op.text ≠ other.text := by
  cases op <;> cases other <;> simp [text, LogicalOp.text]

theorem UnaryOp.unbroken (op : UnaryOp) : Unbroken op.text := by
  cases op <;> simp [Unbroken, text, isBreak]

theorem BinaryOp.unbroken (op : BinaryOp) : Unbroken op.text := by
  cases op <;> simp [Unbroken, text, isBreak]

theorem LogicalOp.unbroken (op : LogicalOp) : Unbroken op.text := by
  cases op <;> simp [Unbroken, text, isBreak]

end Operators

theorem unbroken_name {name : String} (plain : name.toList.all Char.isAlphanum = true) :
    Unbroken name := by
  intro letter member
  exact isBreak_of_passes rfl rfl rfl (List.all_eq_true.mp plain letter member)

theorem Literal.unbroken {value : Literal} (plain : ∀ text, value ≠ .string text) :
    Unbroken value.text := by
  cases value with
  | number value => exact unbroken_number value
  | string text => exact absurd rfl (plain text)
  | boolean value => cases value <;> simp [Unbroken, text, isBreak]
  | nil => simp [Unbroken, text, isBreak]

theorem Literal.alike_of_text {value other : Literal} (plain : ∀ text, value ≠ .string text)
    (further : ∀ text, other ≠ .string text) (same : value.text = other.text) : value.Alike other := by
  cases value with
  | string text => exact absurd rfl (plain text)
  | number number =>
    obtain ⟨noTrue, noFalse, noNil⟩ := number_ne_word number
    cases other with
    | number => exact .number same
    | string text => exact absurd rfl (further text)
    | boolean value => cases value <;> first | exact absurd same noTrue | exact absurd same noFalse
    | nil => exact absurd same noNil
  | boolean value =>
    cases other with
    | number number =>
      obtain ⟨noTrue, noFalse, _⟩ := number_ne_word number
      cases value <;> first | exact absurd same.symm noTrue | exact absurd same.symm noFalse
    | string text => exact absurd rfl (further text)
    | boolean other => cases value <;> cases other <;> first | exact .boolean _ | simp [text] at same
    | nil => cases value <;> simp [text] at same
  | nil =>
    cases other with
    | number number => exact absurd same.symm (number_ne_word number).2.2
    | string text => exact absurd rfl (further text)
    | boolean value => cases value <;> simp [text] at same
    | nil => exact .nil

namespace Expr

theorem not_string {site : Site} {value : Literal} (plain : (Expr.literal site value).isPlain = true) :
    ∀ text, value ≠ .string text := by
  rintro text rfl
  cases plain

mutual

theorem whole_form : ∀ expr : Expr, (∀ node ∈ expr.nodes, node.isPlain = true) → expr.form.Whole
  | .literal site value, plain => Literal.unbroken (not_string (plain _ (.head _)))
  | .variable site name, plain => by
    have named := unbroken_name (plain _ (.head _))
    exact ⟨by simp [Unbroken, isBreak], named, trivial⟩
  | .assign site target value, plain => by
    simp only [nodes, List.forall_mem_cons] at plain
    have named := unbroken_name plain.1
    exact ⟨by simp [Unbroken, isBreak], named, whole_form value plain.2, trivial⟩
  | .group site inner, plain => by
    simp only [nodes, List.forall_mem_cons] at plain
    exact ⟨by simp [Unbroken, isBreak], whole_form inner plain.2, trivial⟩
  | .unary site op operand, plain => by
    simp only [nodes, List.forall_mem_cons] at plain
    exact ⟨op.unbroken, whole_form operand plain.2, trivial⟩
  | .binary site op left right, plain => by
    simp only [nodes, List.forall_mem_cons, List.forall_mem_append] at plain
    exact ⟨op.unbroken, whole_form left plain.2.1, whole_form right plain.2.2, trivial⟩
  | .logical site op left right, plain => by
    simp only [nodes, List.forall_mem_cons, List.forall_mem_append] at plain
    exact ⟨op.unbroken, whole_form left plain.2.1, whole_form right plain.2.2, trivial⟩
  | .call site callee arguments, plain => by
    simp only [nodes, List.forall_mem_cons, List.forall_mem_append] at plain
    exact ⟨by simp [Unbroken, isBreak], whole_form callee plain.2.1,
      whole_forms arguments plain.2.2⟩

theorem whole_forms : ∀ values : List Expr, (∀ node ∈ nodesAll values, node.isPlain = true) →
    Form.WholeAll (forms values)
  | [], _ => trivial
  | first :: rest, plain => by
    simp only [nodesAll, List.forall_mem_append] at plain
    exact ⟨whole_form first plain.1, whole_forms rest plain.2⟩

end

mutual

theorem alike_of_form : ∀ left right : Expr, (∀ node ∈ left.nodes, node.isPlain = true) →
    (∀ node ∈ right.nodes, node.isPlain = true) → left.form = right.form → left.Alike right
  | .literal site value, right, plain, further, same => by
    cases right with
    | literal twin other =>
      have texts : value.text = other.text := by simpa [form] using same
      exact .literal (Literal.alike_of_text (not_string (plain _ (.head _)))
        (not_string (further _ (.head _))) texts)
    | _ => simp [form] at same
  | .variable site name, right, plain, further, same => by
    cases right with
    | «variable» twin other =>
      obtain rfl : name = other := by simpa [form] using same
      exact .variable name
    -- The head of an operator is only told apart once the operator is known.
    | unary twin op operand => cases op <;> simp [form, UnaryOp.text] at same
    | _ => simp [form] at same
  | .assign site target value, right, plain, further, same => by
    cases right with
    | assign twin other given =>
      simp only [nodes, List.forall_mem_cons] at plain further
      obtain ⟨rfl, values⟩ : target = other ∧ value.form = given.form := by simpa [form] using same
      exact .assign target (alike_of_form value given plain.2 further.2 values)
    | binary twin op first second => cases op <;> simp [form, BinaryOp.text] at same
    | logical twin op first second => cases op <;> simp [form, LogicalOp.text] at same
    | _ => simp [form] at same
  | .group site inner, right, plain, further, same => by
    cases right with
    | group twin other =>
      simp only [nodes, List.forall_mem_cons] at plain further
      have inners : inner.form = other.form := by simpa [form] using same
      exact .group (alike_of_form inner other plain.2 further.2 inners)
    | unary twin op operand => cases op <;> simp [form, UnaryOp.text] at same
    | _ => simp [form] at same
  | .unary site op operand, right, plain, further, same => by
    cases right with
    | unary twin other inner =>
      simp only [nodes, List.forall_mem_cons] at plain further
      obtain ⟨ops, operands⟩ : op.text = other.text ∧ operand.form = inner.form := by
        simpa [form] using same
      obtain rfl := UnaryOp.text_injective ops
      exact .unary op (alike_of_form operand inner plain.2 further.2 operands)
    | _ => cases op <;> simp [form, UnaryOp.text] at same
  | .binary site op left right, whole, plain, further, same => by
    cases whole with
    | binary twin other first second =>
      simp only [nodes, List.forall_mem_cons, List.forall_mem_append] at plain further
      obtain ⟨ops, lefts, rights⟩ : op.text = other.text ∧ left.form = first.form ∧
          right.form = second.form := by simpa [form] using same
      obtain rfl := BinaryOp.text_injective ops
      exact .binary op (alike_of_form left first plain.2.1 further.2.1 lefts)
        (alike_of_form right second plain.2.2 further.2.2 rights)
    -- No text stands for an operator of both sorts.
    | logical twin other first second => simp [form, op.text_ne other] at same
    | _ => cases op <;> simp [form, BinaryOp.text] at same
  | .logical site op left right, whole, plain, further, same => by
    cases whole with
    | logical twin other first second =>
      simp only [nodes, List.forall_mem_cons, List.forall_mem_append] at plain further
      obtain ⟨ops, lefts, rights⟩ : op.text = other.text ∧ left.form = first.form ∧
          right.form = second.form := by simpa [form] using same
      obtain rfl := LogicalOp.text_injective ops
      exact .logical op (alike_of_form left first plain.2.1 further.2.1 lefts)
        (alike_of_form right second plain.2.2 further.2.2 rights)
    | binary twin other first second => simp [form, (other.text_ne op).symm] at same
    | _ => cases op <;> simp [form, LogicalOp.text] at same
  | .call site callee arguments, right, plain, further, same => by
    cases right with
    | call twin other others =>
      simp only [nodes, List.forall_mem_cons, List.forall_mem_append] at plain further
      obtain ⟨callees, all⟩ : callee.form = other.form ∧ forms arguments = forms others := by
        simpa [form] using same
      exact .call (alike_of_form callee other plain.2.1 further.2.1 callees)
        (alike_of_forms arguments others plain.2.2 further.2.2 all)
    | unary twin op operand => cases op <;> simp [form, UnaryOp.text] at same
    | binary twin op first second => cases op <;> simp [form, BinaryOp.text] at same
    | logical twin op first second => cases op <;> simp [form, LogicalOp.text] at same
    | _ => simp [form] at same

theorem alike_of_forms : ∀ values others : List Expr,
    (∀ node ∈ nodesAll values, node.isPlain = true) →
    (∀ node ∈ nodesAll others, node.isPlain = true) → forms values = forms others →
    List.Forall₂ Alike values others
  | [], [], _, _, _ => .nil
  | [], _ :: _, _, _, same => by simp [forms] at same
  | _ :: _, [], _, _, same => by simp [forms] at same
  | first :: rest, second :: others, plain, further, same => by
    simp only [nodesAll, List.forall_mem_append] at plain further
    obtain ⟨heads, tails⟩ : first.form = second.form ∧ forms rest = forms others := by
      simpa [forms] using same
    exact .cons (alike_of_form first second plain.1 further.1 heads)
      (alike_of_forms rest others plain.2 further.2 tails)

end

mutual

theorem Alike.form_eq : ∀ {left right : Expr}, left.Alike right → left.form = right.form
  | .literal _ _, _, alike => by
    cases alike with
    | literal values => rw [form, form, values.text_eq]
  | .variable _ _, _, alike => by
    cases alike with
    | «variable» name => rfl
  | .assign _ _ _, _, alike => by
    cases alike with
    | assign target values => rw [form, form, values.form_eq]
  | .group _ _, _, alike => by
    cases alike with
    | group inners => rw [form, form, inners.form_eq]
  | .unary _ _ _, _, alike => by
    cases alike with
    | unary op operands => rw [form, form, operands.form_eq]
  | .binary _ _ _ _, _, alike => by
    cases alike with
    | binary op lefts rights => rw [form, form, lefts.form_eq, rights.form_eq]
  | .logical _ _ _ _, _, alike => by
    cases alike with
    | logical op lefts rights => rw [form, form, lefts.form_eq, rights.form_eq]
  | .call _ _ _, _, alike => by
    cases alike with
    | call callees all => rw [form, form, callees.form_eq, forms_eq all]

theorem Alike.forms_eq : ∀ {values others : List Expr}, List.Forall₂ Alike values others →
    forms values = forms others
  | [], [], _ => rfl
  | first :: rest, second :: others, .cons heads tails => by
    rw [forms, forms, heads.form_eq, forms_eq tails]

end

end Expr

/-- Trees without strings, with names of letters and digits, are printed alike just if they are alike
node for node. -/
theorem prefix_text_unambiguous {left right : Expr}
    (plain : ∀ node ∈ left.nodes, node.isPlain = true)
    (further : ∀ node ∈ right.nodes, node.isPlain = true) :
    left.prefixText = right.prefixText ↔ left.Alike right := by
  rw [← String.toList_inj, left.toList_prefixText, right.toList_prefixText]
  constructor
  · intro same
    have ended : Ended [] := by simp [Ended]
    have forms := Form.text_append_inj left.form right.form (left.whole_form plain)
      (right.whole_form further) [] [] ended ended (by rw [same])
    exact left.alike_of_form right plain further forms.1
  · intro alike
    rw [alike.form_eq]

/-- Both minus signs, a call and a group, from two places of a source. -/
theorem prefix_text_unambiguous_minus :
    let tree (line : Nat) : Expr := .binary ⟨0, line⟩ .subtract
      (.unary ⟨1, line⟩ .negative (.variable ⟨2, line⟩ "a"))
      (.call ⟨3, line⟩ (.variable ⟨4, line⟩ "f") [.literal ⟨5, line⟩ .nil,
        .group ⟨6, line⟩ (.assign ⟨7, line⟩ "b2" (.literal ⟨8, line⟩ (.boolean true)))])
    (tree 1).prefixText = "(- (- (ident a)) (call (ident f) nil (group (= b2 true))))" ∧
      (tree 2).prefixText = (tree 1).prefixText ∧ (tree 2).Alike (tree 1) := by
  intro tree
  have text (line : Nat) : (tree line).prefixText =
      "(- (- (ident a)) (call (ident f) nil (group (= b2 true))))" := by rfl
  have plain (line : Nat) : ∀ node ∈ (tree line).nodes, node.isPlain = true := by
    simp [tree, Expr.nodes, Expr.nodesAll, Expr.isPlain]
  have same := (text 2).trans (text 1).symm
  exact ⟨text 1, same, (prefix_text_unambiguous (plain 2) (plain 1)).mp same⟩

end LoxLang

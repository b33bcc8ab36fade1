/-!
Positions in a source text: the line, counted from one, and the number of characters since the
last line break.
-/
namespace LoxLang

structure Position where
  line : Nat
  column : Nat
deriving DecidableEq

namespace Position

def start : Position := ⟨1, 0⟩

def next (position : Position) (char : Char) : Position :=
  if char = '\n' then ⟨position.line + 1, 0⟩ else ⟨position.line, position.column + 1⟩

def after (position : Position) (text : List Char) : Position :=
  text.foldl next position

def text (position : Position) : String := s!"{position.line}:{position.column}"

@[simp] theorem after_nil (position : Position) : position.after [] = position := rfl

@[simp] theorem after_cons (position : Position) (char : Char) (rest : List Char) :
    position.after (char :: rest) = (position.next char).after rest := rfl

theorem after_append (position : Position) (first last : List Char) :
    position.after (first ++ last) = (position.after first).after last := by
  simp [after]

end Position
end LoxLang

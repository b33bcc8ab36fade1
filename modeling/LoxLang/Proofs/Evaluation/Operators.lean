import LoxLang.Value

/-!
What the operators come to. None of them gives a function, and each refuses its operands for one reason.
-/
namespace LoxLang

variable {Closure : Type} {value first second : ValueOver Closure} {cause : RuntimeCause}

/-- Nothing that can be called. -/
def ValueOver.Plain : ValueOver Closure → Prop
  | .callable _ _ => False
  | _ => True

theorem ValueOver.plain_ofLiteral (literal : Literal) : (ofLiteral literal : ValueOver Closure).Plain := by
  cases literal <;> trivial

namespace UnaryOp

variable {op : UnaryOp}

theorem apply_plain (applied : op.apply first = .ok value) : value.Plain := by
  cases op with
  | not =>
    cases applied
    trivial
  | negative =>
    cases first with
    | number number =>
      cases applied
      trivial
    | _ => cases applied

theorem apply_eq_error (refused : op.apply first = .error cause) :
    op = .negative ∧ cause = .operandNotNumber := by
  cases op with
  | not => cases refused
  | negative =>
    cases first with
    | number number => cases refused
    | _ =>
      cases refused
      exact ⟨rfl, rfl⟩

end UnaryOp
namespace BinaryOp

variable {op : BinaryOp} {compute : Float → Float → ValueOver Closure}

theorem onNumbers_plain (applied : onNumbers compute first second = .ok value)
    (plain : ∀ x y, (compute x y).Plain) : value.Plain := by
  unfold onNumbers at applied
  split at applied <;> cases applied
  exact plain _ _

theorem onNumbers_eq_error (refused : onNumbers compute first second = .error cause) :
    cause = .operandsNotNumbers := by
  unfold onNumbers at refused
  split at refused <;> cases refused
  rfl

theorem sum_plain (applied : sum first second = .ok value) : value.Plain := by
  unfold sum at applied
  split at applied <;> cases applied <;> trivial

theorem sum_eq_error (refused : sum first second = .error cause) :
    cause = .operandsNotNumbersOrStrings := by
  unfold sum at refused
  split at refused <;> cases refused
  rfl

theorem apply_plain (applied : op.apply first second = .ok value) : value.Plain := by
  cases op with
  | equal | notEqual =>
    cases applied
    trivial
  | add => exact sum_plain applied
  | _ => exact onNumbers_plain applied fun _ _ => trivial

theorem apply_eq_error (refused : op.apply first second = .error cause) :
    op = .add ∧ cause = .operandsNotNumbersOrStrings ∨
      op ≠ .add ∧ op ≠ .equal ∧ op ≠ .notEqual ∧ cause = .operandsNotNumbers := by
  cases op with
  | equal | notEqual => cases refused
  | add => exact .inl ⟨rfl, sum_eq_error refused⟩
  | less | lessEqual | greater | greaterEqual | subtract | multiply | divide =>
    exact .inr ⟨nofun, nofun, nofun, onNumbers_eq_error refused⟩

end BinaryOp
end LoxLang

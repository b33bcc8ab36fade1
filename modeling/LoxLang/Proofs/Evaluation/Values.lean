import Mathlib.Data.List.Forall2
import LoxLang.Value

/-!
Values that are the same but for what can be called, and what the operators make of them. Whatever it
is that goes together among the callables, they only have to agree on what can be seen of them.
-/
namespace LoxLang

variable {First Second : Type} {targets wider : CallableOver First → CallableOver Second → Prop}

inductive ValueOver.Alike (targets : CallableOver First → CallableOver Second → Prop) :
    ValueOver First → ValueOver Second → Prop
  | string (text : String) : Alike targets (.string text) (.string text)
  | number (value : Float) : Alike targets (.number value) (.number value)
  | boolean (value : Bool) : Alike targets (.boolean value) (.boolean value)
  | nil : Alike targets .nil .nil
  | callable {target : CallableOver First} {other : CallableOver Second} (identity : Nat) :
    targets target other → Alike targets (.callable identity target) (.callable identity other)

inductive AlikeResult (values : ValueOver First → ValueOver Second → Prop) :
    Except RuntimeCause (ValueOver First) → Except RuntimeCause (ValueOver Second) → Prop
  | ok {value : ValueOver First} {other : ValueOver Second} : values value other →
    AlikeResult values (.ok value) (.ok other)
  | error (cause : RuntimeCause) : AlikeResult values (.error cause) (.error cause)

theorem forall_getD {α : Type} {good : α → Prop} {values : List α}
    (all : ∀ value ∈ values, good value) (plain : α) (behind : good plain) (place : Nat) :
    good (values[place]?.getD plain) := by
  cases found : values[place]? with
  | none => exact behind
  | some value => exact all value (List.mem_of_getElem? found)

theorem rel_getD {α β : Type} {relation : α → β → Prop} {values : List α} {others : List β}
    (related : List.Forall₂ relation values others) {plain : α} {otherPlain : β}
    (behind : relation plain otherPlain) (place : Nat) :
    relation (values[place]?.getD plain) (others[place]?.getD otherPlain) := by
  induction related generalizing place with
  | nil => exact behind
  | cons first _ ih =>
    cases place with
    | zero => exact first
    | succ place => exact ih place

theorem rel_option {α β : Type} {relation : α → β → Prop} {here : Option α} {there : Option β}
    (related : Option.Rel relation here there) :
    (here = none ∧ there = none) ∨
      ∃ value other, here = some value ∧ there = some other ∧ relation value other := by
  cases related with
  | none => exact .inl ⟨rfl, rfl⟩
  | some related => exact .inr ⟨_, _, rfl, rfl, related⟩

namespace ValueOver

theorem alike_ofLiteral (literal : Literal) :
    Alike targets (.ofLiteral literal) (.ofLiteral literal) := by
  cases literal with
  | number value => exact .number value
  | string text => exact .string text
  | boolean value => exact .boolean value
  | nil => exact .nil

namespace Alike

variable {value second : ValueOver First} {other later : ValueOver Second}

theorem imp (alike : value.Alike targets other)
    (weaken : ∀ target same, targets target same → wider target same) :
    value.Alike wider other := by
  cases alike with
  | string text => exact .string text
  | number value => exact .number value
  | boolean value => exact .boolean value
  | nil => exact .nil
  | callable identity alike => exact .callable identity (weaken _ _ alike)

theorem truthy (alike : value.Alike targets other) : value.truthy = other.truthy := by
  cases alike <;> rfl

theorem text (texts : ∀ target same, targets target same → target.text = same.text)
    (alike : value.Alike targets other) : value.text = other.text := by
  cases alike with
  | callable identity alike => exact texts _ _ alike
  | _ => rfl

theorem same (alike : value.Alike targets other) (further : second.Alike targets later) :
    value.same second = other.same later := by
  cases alike <;> cases further <;> rfl

theorem decides (op : LogicalOp) (alike : value.Alike targets other) :
    op.decides value = op.decides other := by
  cases op with
  | and => exact congrArg not alike.truthy
  | or => exact alike.truthy

theorem unary (op : UnaryOp) (alike : value.Alike targets other) :
    AlikeResult (Alike targets) (op.apply value) (op.apply other) := by
  cases op with
  | not =>
    rw [UnaryOp.apply, UnaryOp.apply, alike.truthy]
    exact .ok (.boolean _)
  | negative =>
    cases alike with
    | number value => exact .ok (.number (-value))
    | _ => exact .error _

theorem onNumbers {compute : Float → Float → ValueOver First}
    {model : Float → Float → ValueOver Second} (alike : value.Alike targets other)
    (further : second.Alike targets later) (same : ∀ x y, (compute x y).Alike targets (model x y)) :
    AlikeResult (Alike targets) (BinaryOp.onNumbers compute value second)
      (BinaryOp.onNumbers model other later) := by
  cases alike with
  | number x =>
    cases further with
    | number y => exact .ok (same x y)
    | _ => exact .error _
  | _ => exact .error _

theorem sum (alike : value.Alike targets other) (further : second.Alike targets later) :
    AlikeResult (Alike targets) (BinaryOp.sum value second) (BinaryOp.sum other later) := by
  cases alike with
  | number x =>
    cases further with
    | number y => exact .ok (.number (x + y))
    | _ => exact .error _
  | string x =>
    cases further with
    | string y => exact .ok (.string (x ++ y))
    | _ => exact .error _
  | _ => exact .error _

theorem binary (op : BinaryOp) (alike : value.Alike targets other)
    (further : second.Alike targets later) :
    AlikeResult (Alike targets) (op.apply value second) (op.apply other later) := by
  cases op with
  | equal | notEqual =>
    rw [BinaryOp.apply, BinaryOp.apply, alike.same further]
    exact .ok (.boolean _)
  | less | lessEqual | greater | greaterEqual => exact alike.onNumbers further fun _ _ => .boolean _
  | add => exact alike.sum further
  | subtract | multiply | divide => exact alike.onNumbers further fun _ _ => .number _

end Alike
end ValueOver
end LoxLang

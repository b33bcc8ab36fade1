import LoxLang.Proofs.Lexical.Companions

/-!
Running the model on two sides. The sides may have different bounds, since a further scope costs the one
that has it a level of nesting; a side that ends is then followed by the other, which may need more.
-/
namespace LoxLang.Lexical

variable {α β γ δ : Type}

/-- Which side is followed by the other, or that both take the same way with the same bound. -/
inductive Pace where
  | forth
  | back
  | even
deriving DecidableEq

namespace Pace

/-- Every level of the one side may be two levels of the other. -/
def Allows : Pace → Nat → Nat → Prop
  | .forth, bound, other => 2 * bound ≤ other
  | .back, bound, other => other ≤ bound
  | .even, bound, other => bound = other

theorem Allows.pred {pace : Pace} {bound other : Nat} (allows : pace.Allows (bound + 1) (other + 1)) :
    pace.Allows bound other := by
  cases pace <;> simp only [Allows] at allows ⊢ <;> omega

theorem Allows.further {pace : Pace} {bound other : Nat} (apart : pace ≠ .even)
    (allows : pace.Allows (bound + 1) (other + 2)) : pace.Allows bound other := by
  cases pace with
  | even => exact absurd rfl apart
  | forth | back => simp only [Allows] at allows ⊢; omega

end Pace

variable {pace : Pace} {further : Prop}

/-- Both end in the same way in memories that are akin, unless the side that is followed has not come to
its end. -/
inductive Meets (pace : Pace) (further : Prop) (before : Memory)
    (after : α → β → Memory → Prop) :
    EStateM.Result Stop Memory α → EStateM.Result Stop Memory β → Prop
  | done {value : α} {other : β} {memory twin : Memory} : before.Keeps memory →
    memory.Akin further twin → after value other memory →
    Meets pace further before after (.ok value memory) (.ok other twin)
  | stopped {stop : Stop} {memory twin : Memory} : memory.Akin further twin →
    Meets pace further before after (.error stop memory) (.error stop twin)
  | first {memory : Memory} {result : EStateM.Result Stop Memory β} : pace = .forth →
    Meets pace further before after (.error .unfinished memory) result
  | second {twin : Memory} {result : EStateM.Result Stop Memory α} : pace = .back →
    Meets pace further before after result (.error .unfinished twin)

def Together (pace : Pace) (further : Prop) (before : Memory → Prop) (exec : Exec α)
    (other : Exec β) (after : α → β → Memory → Prop) : Prop :=
  ∀ memory twin : Memory, memory.Akin further twin → before memory →
    Meets pace further memory after (exec memory) (other twin)

theorem Meets.from_ {first middle : Memory} {after : α → β → Memory → Prop}
    {result : EStateM.Result Stop Memory α} {other : EStateM.Result Stop Memory β}
    (keeps : first.Keeps middle) (meets : Meets pace further middle after result other) :
    Meets pace further first after result other := by
  cases meets with
  | done later akin holds => exact .done (keeps.trans later) akin holds
  | stopped akin => exact .stopped akin
  | first forth => exact .first forth
  | second back => exact .second back

theorem Meets.imp {before : Memory} {after later : α → β → Memory → Prop}
    {result : EStateM.Result Stop Memory α} {other : EStateM.Result Stop Memory β}
    (meets : Meets pace further before after result other)
    (finish : ∀ value same memory, before.Keeps memory → after value same memory →
      later value same memory) : Meets pace further before later result other := by
  cases meets with
  | done keeps akin holds => exact .done keeps akin (finish _ _ _ keeps holds)
  | stopped akin => exact .stopped akin
  | first forth => exact .first forth
  | second back => exact .second back

namespace Together

variable {before condition : Memory → Prop} {after : α → β → Memory → Prop} {exec : Exec α}
  {other : Exec β}

theorem pure {value : α} {result : β} (holds : ∀ memory, before memory → after value result memory) :
    Together pace further before (Pure.pure value) (Pure.pure result) after :=
  fun memory _ akin start => .done (.refl memory) akin (holds memory start)

theorem stopped (stop : Stop) :
    Together pace further before (throw stop : Exec α) (throw stop : Exec β) after :=
  fun _ _ akin _ => .stopped akin

theorem vacuous (never : ∀ memory, ¬before memory) :
    Together pace further before exec other after :=
  fun memory _ _ start => absurd start (never memory)

theorem bind {middle : α → β → Memory → Prop} {last : γ → δ → Memory → Prop}
    {next : α → Exec γ} {later : β → Exec δ} (ahead : Together pace further before exec other middle)
    (behind : ∀ value result, Together pace further (middle value result) (next value)
      (later result) last) :
    Together pace further before (exec >>= next) (other >>= later) last := by
  intro memory twin akin start
  have meets := ahead memory twin akin start
  rw [Exec.bind_apply, Exec.bind_apply]
  revert meets
  generalize exec memory = one
  generalize other twin = two
  intro meets
  cases meets with
  | done keeps agree holds => exact (behind _ _ _ _ agree holds).from_ keeps
  | stopped agree => exact .stopped agree
  -- the side that is followed has already run out of levels, whatever the other one does
  | first forth => cases two <;> exact .first forth
  | second back => cases one <;> exact .second back

theorem weaken {weaker : Memory → Prop} {stronger : α → β → Memory → Prop}
    (together : Together pace further weaker exec other stronger)
    (start : ∀ memory, before memory → weaker memory)
    (finish : ∀ value result memory, stronger value result memory → after value result memory) :
    Together pace further before exec other after :=
  fun memory twin akin holds => (together memory twin akin (start memory holds)).imp
    fun value result reached _ ends => finish value result reached ends

theorem keep (together : Together pace further before exec other after)
    (enduring : Enduring condition) (start : ∀ memory, condition memory → before memory) :
    Together pace further condition exec other
      fun value result memory => condition memory ∧ after value result memory :=
  fun memory twin akin holds => (together memory twin akin (start memory holds)).imp
    fun _ _ reached keeps ends => ⟨enduring memory reached keeps holds, ends⟩

end Together

section Steps

variable {known : Renaming} {pending : Option String} {environment twin : Environment}

theorem together_readVariable {site twinSite : Site} {name other : String}
    (line : twinSite.line = site.line) (avoids : pending ≠ some name)
    (relates : known.Relates name other) :
    Together pace further (Surrounds known pending environment twin)
      (readVariable environment site name) (readVariable twin twinSite other)
      fun value result memory => Akin further memory value result := by
  intro memory twinMemory akin surrounds
  unfold readVariable Memory.lookUp?
  rcases surrounds.paired.lookup relates with ⟨location, here, there⟩ | ⟨here, there, rfl⟩
  · -- a local name has a content, so that neither side reports its name
    have has := surrounds.filled name location here avoids
    simp only [here, there]
    rcases rel_option (akin.cells location) with ⟨none, _⟩ | ⟨value, result, found, same, values⟩
    · simp [none] at has
    · simp only [found, same]
      exact .done (.refl memory) akin values
  · simp only [here, there]
    rcases rel_option (akin.globals other) with ⟨none, same⟩ | ⟨value, result, found, same, values⟩
    · simp only [none, same, line]
      exact .stopped akin
    · simp only [found, same]
      exact .done (.refl memory) akin values

theorem together_assignVariable {site twinSite : Site} {name other : String}
    (line : twinSite.line = site.line) (relates : known.Relates name other) {value result : Value} :
    Together pace further
      (fun memory => Surrounds known pending environment twin memory ∧
        Akin further memory value result)
      (assignVariable environment site name value) (assignVariable twin twinSite other result)
      fun _ _ memory => Akin further memory value result := by
  intro memory twinMemory akin start
  obtain ⟨surrounds, values⟩ := start
  unfold assignVariable
  rcases surrounds.paired.lookup relates with ⟨location, here, there⟩ | ⟨here, there, rfl⟩
  · have keeps := keeps_fill location value memory
    have later := enduring_akin further value result _ _ keeps values
    simp only [here, there]
    exact .done keeps (akin.fill later) later
  · simp only [here, there]
    rcases rel_option (akin.globals other) with ⟨none, same⟩ | ⟨_, _, found, same, _⟩
    · simp only [none, same, line]
      exact .stopped akin
    · have keeps : memory.Keeps (memory.setGlobal other value) := .of_cells rfl
      simp only [found, same]
      exact .done keeps (akin.setGlobal other values)
        (enduring_akin further value result _ _ keeps values)

theorem together_atLine {before : Memory → Prop} {line twinLine : Nat} (same : twinLine = line)
    {result other : Except RuntimeCause Value}
    (alike : ∀ memory, before memory → AlikeResult (Akin further memory) result other) :
    Together pace further before (atLine line result) (atLine twinLine other)
      fun value result memory => Akin further memory value result := by
  intro memory twin akin start
  subst same
  cases alike memory start with
  | ok values => exact .done (.refl memory) akin values
  | error cause => exact .stopped akin

theorem together_allocate {content other : Option Value} :
    Together pace further (fun memory => Option.Rel (Akin further memory) content other)
      (allocate content) (allocate other)
      fun location twin memory => twin = location ∧ location < memory.cells.size ∧
        (content.isSome → memory.cells[location]?.join.isSome) := by
  intro memory twin akin contents
  unfold allocate
  rw [akin.size]
  refine .done (keeps_allocate content memory) (akin.allocate contents) ⟨rfl, ?_, ?_⟩
  · simp
  · intro has
    simpa using has

theorem together_store {location : Location} {value other : Value} :
    Together pace further
      (fun memory => location < memory.cells.size ∧
        Akin further (memory.fill location value) value other)
      (store location value) (store location other)
      fun _ _ memory => memory.cells[location]?.join.isSome := by
  intro memory twin akin start
  refine .done (keeps_fill location value memory) (akin.fill start.2) ?_
  rw [filled_fill value start.1]
  rfl

theorem together_defineGlobal {name : String} {value other : Value} :
    Together pace further (fun memory => Akin further memory value other)
      (defineGlobal name value) (defineGlobal name other) fun _ _ _ => True :=
  fun _ _ akin values => .done (.of_cells rfl) (akin.setGlobal name values) trivial

theorem together_makeCallable (target other : Callable) :
    Together pace further (fun _ => True) (makeCallable target) (makeCallable other)
      fun value result _ =>
        ∃ identity, value = .callable identity target ∧ result = .callable identity other := by
  intro memory twin akin _
  refine .done (.of_cells rfl) ?_ ⟨memory.callables, rfl, by rw [akin.callables]⟩
  exact akin.of_same ⟨rfl, rfl⟩ ⟨rfl, rfl⟩
    ⟨akin.output, congrArg (· + 1) akin.callables, akin.clock, akin.readings⟩

theorem together_write {value other : Value} :
    Together pace further (fun memory => Akin further memory value other) (write value) (write other)
      fun _ _ _ => True := by
  intro memory twin akin values
  refine .done (.of_cells rfl) ?_ trivial
  refine akin.of_same ⟨rfl, rfl⟩ ⟨rfl, rfl⟩ ⟨?_, akin.callables, akin.clock, akin.readings⟩
  simp only [akin.output, values.text fun _ _ targets => targets.text]

theorem together_readClock :
    Together pace further (fun _ => True) readClock readClock
      fun value result memory => Akin further memory value result := by
  intro memory twin akin _
  have same : twin.clock twin.readings = memory.clock memory.readings := by
    rw [akin.clock, akin.readings]
  refine .done (.of_cells rfl) ?_ ?_
  · exact akin.of_same ⟨rfl, rfl⟩ ⟨rfl, rfl⟩
      ⟨akin.output, akin.callables, akin.clock, congrArg (· + 1) akin.readings⟩
  · rw [same]
    exact .number _

end Steps
end LoxLang.Lexical

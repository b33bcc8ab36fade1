import LoxLang.Proofs.Lexical.Worlds

/-!
Running machine and memory side by side. Two computations simulate each other if from agreeing worlds
they end in the same way, in worlds that agree again; the rules below build such pairs from smaller
ones.
-/
namespace LoxLang.Lexical

variable {table : Distances} {limit : Nat} {here : Option FrameId} {α β γ δ : Type}

def Matches (table : Distances) (limit : Nat) (here : Option FrameId) (world : World)
    (after : α → β → World → Prop) : Step α → EStateM.Result Stop Memory β → Prop
  | .done value machine, .ok other memory =>
    ∃ links, world.Extends here ⟨links, machine, memory⟩ ∧
      World.Agrees table limit ⟨links, machine, memory⟩ ∧
      after value other ⟨links, machine, memory⟩
  | .stopped stop machine, .error same memory =>
    stop = same ∧ ∃ links, world.Extends here ⟨links, machine, memory⟩ ∧
      World.Agrees table limit ⟨links, machine, memory⟩
  | _, _ => False

def Simulates (table : Distances) (limit : Nat) (here : Option FrameId) (before : World → Prop)
    (exec : LoxLang.Exec α) (model : Exec β) (after : α → β → World → Prop) : Prop :=
  ∀ world : World, world.Agrees table limit → before world →
    Matches table limit here world after (exec world.machine) (model world.memory)

def Lasting (here : Option FrameId) (condition : World → Prop) : Prop :=
  ∀ before after : World, before.Extends here after → condition before → condition after

theorem Lasting.and {first second : World → Prop} (ahead : Lasting here first)
    (further : Lasting here second) : Lasting here fun world => first world ∧ second world :=
  fun before after wider both =>
    ⟨ahead before after wider both.1, further before after wider both.2⟩

namespace Matches

variable {world middle : World} {after later : α → β → World → Prop} {step : Step α}
  {result : EStateM.Result Stop Memory β}

theorem from_ (ahead : world.Extends here middle)
    (matched : Matches table limit here middle after step result) :
    Matches table limit here world after step result := by
  match step, result, matched with
  | .done _ _, .ok _ _, ⟨links, wider, agrees, holds⟩ =>
    exact ⟨links, ahead.trans wider, agrees, holds⟩
  | .stopped _ _, .error _ _, ⟨same, links, wider, agrees⟩ =>
    exact ⟨same, links, ahead.trans wider, agrees⟩

theorem imp {wide : Option FrameId} (matched : Matches table limit here world after step result)
    (extends_ : ∀ final, world.Extends here final → world.Extends wide final)
    (finish : ∀ value other final, world.Extends here final → after value other final →
      later value other final) :
    Matches table limit wide world later step result := by
  match step, result, matched with
  | .done _ _, .ok _ _, ⟨links, wider, agrees, holds⟩ =>
    exact ⟨links, extends_ _ wider, agrees, finish _ _ _ wider holds⟩
  | .stopped _ _, .error _ _, ⟨same, links, wider, agrees⟩ =>
    exact ⟨same, links, extends_ _ wider, agrees⟩

end Matches

namespace Simulates

variable {before condition : World → Prop} {after : α → β → World → Prop}
  {exec : LoxLang.Exec α} {model : Exec β}

theorem pure {value : α} {other : β} (holds : ∀ world, before world → after value other world) :
    Simulates table limit here before (Pure.pure value) (Pure.pure other) after :=
  fun world agrees start => ⟨world.links, .refl here world, agrees, holds world start⟩

theorem stopped (stop : Stop) :
    Simulates table limit here before (fun machine => .stopped stop machine : LoxLang.Exec α)
      (throw stop : Exec β) after :=
  fun world agrees _ => ⟨rfl, world.links, .refl here world, agrees⟩

theorem vacuous (never : ∀ world, ¬before world) :
    Simulates table limit here before exec model after :=
  fun world _ start => absurd start (never world)

theorem bind {middle : α → β → World → Prop} {last : γ → δ → World → Prop}
    {next : α → LoxLang.Exec γ} {further : β → Exec δ}
    (ahead : Simulates table limit here before exec model middle)
    (later : ∀ value other, Simulates table limit here (middle value other) (next value)
      (further other) last) :
    Simulates table limit here before (exec >>= next) (model >>= further) last := by
  intro world agrees start
  have matched := ahead world agrees start
  rw [LoxLang.Exec.bind_apply, Exec.bind_apply]
  revert matched
  match exec world.machine, model world.memory with
  | .done value machine, .ok same memory =>
    rintro ⟨links, wider, agree, holds⟩
    exact (later value same ⟨links, machine, memory⟩ agree holds).from_ wider
  | .stopped stop machine, .error same memory => exact fun ended => ended
  | .done _ _, .error _ _ => exact False.elim
  | .stopped _ _, .ok _ _ => exact False.elim

theorem weaken {weaker : World → Prop} {stronger : α → β → World → Prop}
    (simulates : Simulates table limit here weaker exec model stronger)
    (start : ∀ world, before world → weaker world)
    (finish : ∀ value other world, stronger value other world → after value other world) :
    Simulates table limit here before exec model after :=
  fun world agrees holds => (simulates world agrees (start world holds)).imp (fun _ wider => wider)
    fun value other final _ reached => finish value other final reached

theorem carry (simulates : Simulates table limit here before exec model after)
    (lasting : Lasting here condition) :
    Simulates table limit here (fun world => condition world ∧ before world) exec model
      fun value other world => condition world ∧ after value other world :=
  fun world agrees holds => (simulates world agrees holds.2).imp (fun _ wider => wider)
    fun _ _ final wider reached => ⟨lasting world final wider holds.1, reached⟩

theorem keep (simulates : Simulates table limit here before exec model after)
    (lasting : Lasting here condition) (start : ∀ world, condition world → before world) :
    Simulates table limit here condition exec model
      fun value other world => condition world ∧ after value other world :=
  (simulates.carry lasting).weaken (fun world holds => ⟨holds, start world holds⟩)
    fun _ _ _ both => both

/-- The model may still change its result, in view of the world that both started from. -/
theorem change {turn : β → δ} {later : α → δ → World → Prop}
    (simulates : Simulates table limit here before exec model after)
    (turned : ∀ world final value other, before world → world.Extends here final →
      after value other final → later value (turn other) final) :
    Simulates table limit here before exec (model >>= fun other => Pure.pure (turn other)) later := by
  intro world agrees start
  have matched := simulates world agrees start
  rw [Exec.bind_apply]
  revert matched
  match exec world.machine, model world.memory with
  | .done value machine, .ok other memory =>
    rintro ⟨links, wider, agree, holds⟩
    exact ⟨links, wider, agree, turned _ _ value other start wider holds⟩
  | .stopped stop machine, .error same memory => exact fun ended => ended
  | .done _ _, .error _ _ => exact False.elim
  | .stopped _ _, .ok _ _ => exact False.elim

theorem anywhere (simulates : Simulates table limit none before exec model after) :
    Simulates table limit here before exec model after :=
  fun world agrees holds => (simulates world agrees holds).imp (fun _ wider => wider.anywhere)
    fun _ _ _ _ reached => reached

/-- The memory gets a location for a name that the frame does not have yet. -/
theorem link (frame : FrameId) (name : String) {after : α → β → World → Prop}
    {exec : LoxLang.Exec α} {model : Location → Exec β} (middle : Location → World → Prop)
    (new : ∀ world, before world → frame ≠ world.machine.globals ∧
      frame < world.machine.store.next ∧ (frame, name) ∉ world.links)
    (linked : ∀ world, before world → middle world.links.length (world.link frame name))
    (simulates : ∀ location, Simulates table limit (some frame)
      (fun world => world.links[location]? = some (frame, name) ∧ middle location world) exec
      (model location) after) :
    Simulates table limit (some frame) before exec (allocate none >>= model) after := by
  intro world agrees start
  obtain ⟨apart, room, fresh⟩ := new world start
  have matched := simulates world.links.length (world.link frame name) (agrees.link apart room fresh)
    ⟨List.getElem?_concat_length, linked world start⟩
  rw [Exec.bind_apply]
  rw [show world.links.length = world.memory.cells.size from agrees.size] at matched
  exact matched.from_ (extends_link world)

theorem currentFrame {frame : FrameId} {after : α → β → World → Prop}
    {exec : FrameId → LoxLang.Exec α} {model : Exec β}
    (current : ∀ world, before world → world.machine.current = frame)
    (simulates : Simulates table limit here before (exec frame) model after) :
    Simulates table limit here before (LoxLang.currentFrame >>= exec) model after := by
  intro world agrees start
  have matched := simulates world agrees start
  rw [← current world start] at matched
  exact matched

theorem openInside {parent : FrameId} {after : α → β → World → Prop}
    {exec : FrameId → LoxLang.Exec α} {model : Exec β} (middle : FrameId → World → Prop)
    (opened : ∀ world, world.Agrees table limit → before world →
      middle world.machine.store.next (world.openFrame parent))
    (simulates : ∀ frame, Simulates table limit (some frame) (middle frame) (exec frame) model
      after) :
    Simulates table limit none before (LoxLang.openInside parent >>= exec) model after := by
  intro world agrees start
  have matched := (simulates world.machine.store.next (world.openFrame parent)
    (agrees.openFrame parent) (opened world agrees start)).from_ (extends_openFrame _ world parent)
  exact matched.imp (fun _ wider => wider.inside (Nat.le_refl _)) fun _ _ _ _ holds => holds

/-- Another current frame for the time being, which the memory does not know of. -/
theorem within {frame : FrameId} {inside : World → Prop} {inner : α → β → World → Prop}
    (simulates : Simulates table limit here inside exec model inner)
    (start : ∀ world, before world → inside (world.enter frame))
    (finish : ∀ value other world place, inner value other world →
      after value other (world.enter place)) :
    Simulates table limit here before (LoxLang.within frame exec) model after := by
  intro world agrees holds
  have matched := simulates (world.enter frame) (agrees.enter frame) (start world holds)
  have back {final : World} (wider : (world.enter frame).Extends here final) :
      world.Extends here (final.enter world.machine.current) :=
    ⟨⟨wider.machine.store, wider.machine.globals, rfl, wider.machine.distances,
      wider.machine.clock⟩, wider.links, wider.fresh⟩
  change Matches table limit here (world.enter frame) inner
    (exec { world.machine with current := frame }) (model world.memory) at matched
  unfold LoxLang.within
  cases ran : exec { world.machine with current := frame } with
  | done value machine =>
    rw [ran] at matched
    cases modelRan : model world.memory with
    | ok same memory =>
      rw [modelRan] at matched
      obtain ⟨links, wider, agree, ended⟩ := matched
      exact ⟨links, back wider, agree.enter _, finish _ _ _ _ ended⟩
    | error same memory =>
      rw [modelRan] at matched
      exact False.elim matched
  | stopped stop machine =>
    rw [ran] at matched
    cases modelRan : model world.memory with
    | ok same memory =>
      rw [modelRan] at matched
      exact False.elim matched
    | error same memory =>
      rw [modelRan] at matched
      obtain ⟨equal, links, wider, agree⟩ := matched
      exact ⟨equal, links, back wider, agree.enter _⟩

end Simulates
end LoxLang.Lexical

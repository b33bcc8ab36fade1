import LoxLang.Proofs.Evaluation.Values
import LoxLang.Proofs.Lexical.Simulation

/-!
The single steps side by side: operations on like values, references, definitions, and the rest of
what a machine does.
-/
namespace LoxLang
namespace Lexical

variable {table : Distances} {limit : Nat} {here : Option FrameId} {world : World}

section Operations

variable {value second : LoxLang.Value} {other later : Value}

inductive LikeResult (table : Distances) (limit : Nat) (world : World) :
    Except RuntimeCause LoxLang.Value → Except RuntimeCause Value → Prop
  | ok {value : LoxLang.Value} {other : Value} : Like table limit world value other →
    LikeResult table limit world (.ok value) (.ok other)
  | error (cause : RuntimeCause) : LikeResult table limit world (.error cause) (.error cause)

theorem like_iff_alike :
    Like table limit world value other ↔ value.Alike (LikeCallable table limit world) other := by
  constructor <;> intro same <;> cases same <;> constructor <;> assumption

theorem LikeResult.of_alike {result : Except RuntimeCause LoxLang.Value}
    {model : Except RuntimeCause Value}
    (results : AlikeResult (ValueOver.Alike (LikeCallable table limit world)) result model) :
    LikeResult table limit world result model := by
  cases results with
  | ok alike => exact .ok (like_iff_alike.mpr alike)
  | error cause => exact .error cause

theorem like_ofLiteral (literal : Literal) :
    Like table limit world (.ofLiteral literal) (.ofLiteral literal) :=
  like_iff_alike.mpr (ValueOver.alike_ofLiteral literal)

theorem LikeCallable.text {target : LoxLang.Callable} {same : Callable}
    (like : LikeCallable table limit world target same) : target.text = same.text := by
  cases like <;> rfl

theorem LikeCallable.arity {target : LoxLang.Callable} {same : Callable}
    (like : LikeCallable table limit world target same) : target.arity = same.arity := by
  cases like <;> rfl

theorem Like.truthy (like : Like table limit world value other) : value.truthy = other.truthy :=
  (like_iff_alike.mp like).truthy

theorem Like.text (like : Like table limit world value other) : value.text = other.text :=
  (like_iff_alike.mp like).text fun _ _ like => like.text

theorem Like.decides (op : LogicalOp) (like : Like table limit world value other) :
    op.decides value = op.decides other :=
  (like_iff_alike.mp like).decides op

theorem Like.unary (op : UnaryOp) (like : Like table limit world value other) :
    LikeResult table limit world (op.apply value) (op.apply other) :=
  .of_alike ((like_iff_alike.mp like).unary op)

theorem Like.binary (op : BinaryOp) (like : Like table limit world value other)
    (further : Like table limit world second later) :
    LikeResult table limit world (op.apply value second) (op.apply other later) :=
  .of_alike ((like_iff_alike.mp like).binary op (like_iff_alike.mp further))

end Operations

section References

variable {nesting : Nesting} {environment : Environment} {site : Site} {name : String}

theorem holder?_outermost {store : Store} {frame : FrameId} (outermost : store.parent? frame = none) :
    store.holder? frame name = (store.bound? frame name).map fun _ => frame := by
  rw [Store.holder?]
  cases store.bound? frame name with
  | none => simp only [outermost, Option.map_none]
  | some value => rfl

theorem World.Agrees.readFrame?_local (agrees : world.Agrees table limit) {distance : Nat}
    (known : table[site.id]? = some distance) :
    world.machine.readFrame? site.id name =
      world.machine.store.ancestor? world.machine.current distance := by
  unfold Machine.readFrame?
  rw [agrees.distances, known]

theorem World.Agrees.readFrame?_global (agrees : world.Agrees table limit)
    (unknown : table[site.id]? = none) :
    world.machine.readFrame? site.id name =
      (world.machine.store.bound? world.machine.globals name).map fun _ =>
        world.machine.globals := by
  unfold Machine.readFrame?
  rw [agrees.distances, unknown]
  exact holder?_outermost agrees.outermost

theorem World.Agrees.lookUp? (agrees : world.Agrees table limit)
    (carries : world.Carries nesting world.machine.current environment)
    (resolved : table[site.id]? = nesting.distance? name) :
    Option.Rel (Like table limit world) (world.machine.lookUp? site.id name)
      (world.memory.lookUp? environment name) := by
  unfold Machine.lookUp? Memory.lookUp?
  cases found : nesting.distance? name with
  | none =>
    rw [agrees.readFrame?_global (resolved.trans found), Carries.lookup_none carries found]
    have same := agrees.globals name
    cases bound : world.machine.store.bound? world.machine.globals name with
    | none =>
      rw [bound] at same
      exact same
    | some value =>
      rw [bound] at same
      simpa only [Option.map_some, bound] using same
  | some distance =>
    obtain ⟨holder, location, away, located, linked⟩ := Carries.lookup_some carries found
    rw [agrees.readFrame?_local (resolved.trans found), away, located]
    exact agrees.cells location holder name linked

theorem simulates_readVariable (resolved : table[site.id]? = nesting.distance? name) :
    Simulates table limit here
      (fun world => world.Carries nesting world.machine.current environment)
      (LoxLang.readVariable site name) (readVariable environment site name)
      fun value other world => Like table limit world value other := by
  intro world agrees carries
  have same := agrees.lookUp? carries resolved
  unfold LoxLang.readVariable readVariable
  cases found : world.machine.lookUp? site.id name with
  | none =>
    cases sought : world.memory.lookUp? environment name with
    | none => exact ⟨rfl, world.links, .refl here world, agrees⟩
    | some other =>
      rw [found, sought] at same
      cases same
  | some value =>
    cases sought : world.memory.lookUp? environment name with
    | none =>
      rw [found, sought] at same
      cases same
    | some other =>
      rw [found, sought] at same
      cases same with
      | some like => exact ⟨world.links, .refl here world, agrees, like⟩

theorem simulates_assignVariable {value : LoxLang.Value} {other : Value}
    (resolved : table[site.id]? = nesting.distance? name) :
    Simulates table limit here
      (fun world => world.Carries nesting world.machine.current environment ∧
        Like table limit world value other)
      (LoxLang.assignVariable site name value) (assignVariable environment site name other)
      fun _ _ world => Like table limit world value other := by
  intro world agrees start
  obtain ⟨carries, like⟩ := start
  unfold LoxLang.assignVariable assignVariable
  cases found : nesting.distance? name with
  | none =>
    rw [agrees.readFrame?_global (resolved.trans found), Carries.lookup_none carries found]
    have same := agrees.globals name
    cases bound : world.machine.store.bound? world.machine.globals name with
    | none =>
      rw [bound] at same
      cases missing : world.memory.globals[name]? with
      | none => exact ⟨rfl, world.links, .refl here world, agrees⟩
      | some found =>
        rw [missing] at same
        cases same
    | some old =>
      rw [bound] at same
      cases present : world.memory.globals[name]? with
      | none =>
        rw [present] at same
        cases same
      | some found =>
        have wider : world.Extends here (world.setGlobal name value other) :=
          extends_setGlobal here world
        exact ⟨world.links, wider, agrees.setGlobal like, like.extends wider⟩
  | some distance =>
    obtain ⟨holder, location, away, located, linked⟩ := Carries.lookup_some carries found
    rw [agrees.readFrame?_local (resolved.trans found), away, located]
    -- The frame that the distance leads to is the one that the location is linked to.
    have wider : world.Extends here (world.fill holder name value location other) :=
      extends_fill here world
    exact ⟨world.links, wider, agrees.fill linked like, like.extends wider⟩

end References
section Effects

variable {value : LoxLang.Value} {other : Value}

theorem simulates_atLine {before : World → Prop} (line : Nat)
    {result : Except RuntimeCause LoxLang.Value} {model : Except RuntimeCause Value}
    (like : ∀ world, before world → LikeResult table limit world result model) :
    Simulates table limit here before (LoxLang.Exec.atLine line result) (atLine line model)
      fun value other world => Like table limit world value other := by
  intro world agrees start
  cases like world start with
  | ok same => exact ⟨world.links, .refl here world, agrees, same⟩
  | error cause => exact ⟨rfl, world.links, .refl here world, agrees⟩

theorem simulates_makeCallable {target : LoxLang.Callable} {same : Callable} :
    Simulates table limit here (fun world => LikeCallable table limit world target same)
      (LoxLang.makeCallable target) (makeCallable same)
      fun value other world => Like table limit world value other := by
  intro world agrees like
  have wider : world.Extends here ⟨world.links, (world.machine.newCallable target).2,
      { world.memory with callables := world.memory.callables + 1 }⟩ :=
    ⟨grows_makeCallable target world.machine, List.prefix_refl _, fun _ member => .inl member⟩
  have made : Like table limit world (.callable world.machine.callables target)
      (.callable world.memory.callables same) := by
    rw [agrees.callables]
    exact .callable _ like
  refine ⟨world.links, wider, ?_, made.extends wider⟩
  exact agrees.of_same (fun like => like.extends wider) agrees.distances ⟨rfl, rfl, rfl, rfl, rfl⟩
    ⟨agrees.output, congrArg (· + 1) agrees.callables, agrees.clock, agrees.readings⟩

theorem simulates_write :
    Simulates table limit here (fun world => Like table limit world value other)
      (LoxLang.write value) (write other) fun _ _ _ => True := by
  intro world agrees like
  have wider : world.Extends here ⟨world.links, world.machine.write value,
      { world.memory with output := world.memory.output ++ other.text ++ "\n" }⟩ :=
    ⟨grows_write value world.machine, List.prefix_refl _, fun _ member => .inl member⟩
  refine ⟨world.links, wider, ?_, trivial⟩
  refine agrees.of_same (fun like => like.extends wider) agrees.distances ⟨rfl, rfl, rfl, rfl, rfl⟩
    ⟨?_, agrees.callables, agrees.clock, agrees.readings⟩
  simp only [Machine.write, agrees.output, like.text]

theorem simulates_readClock :
    Simulates table limit here (fun _ => True) LoxLang.readClock readClock
      fun value other world => Like table limit world value other := by
  intro world agrees _
  have wider : world.Extends here ⟨world.links,
      { world.machine with readings := world.machine.readings + 1 },
      { world.memory with readings := world.memory.readings + 1 }⟩ :=
    ⟨grows_readClock world.machine, List.prefix_refl _, fun _ member => .inl member⟩
  refine ⟨world.links, wider, ?_, ?_⟩
  · exact agrees.of_same (fun like => like.extends wider) agrees.distances
      ⟨rfl, rfl, rfl, rfl, rfl⟩ ⟨agrees.output, agrees.callables, agrees.clock,
      congrArg (· + 1) agrees.readings⟩
  · rw [agrees.clock, agrees.readings]
    exact .number _

theorem simulates_defineGlobal {name : String} :
    Simulates table limit here
      (fun world => world.machine.current = world.machine.globals ∧
        Like table limit world value other)
      (defineHere name value) (defineGlobal name other) fun _ _ _ => True := by
  intro world agrees start
  have wider : world.Extends here (world.setGlobal name value other) := extends_setGlobal here world
  unfold defineHere
  rw [start.1]
  exact ⟨world.links, wider, agrees.setGlobal start.2, trivial⟩

theorem simulates_store {frame : FrameId} {name : String} {location : Location} :
    Simulates table limit here
      (fun world => world.machine.current = frame ∧
        world.links[location]? = some (frame, name) ∧ Like table limit world value other)
      (defineHere name value) (store location other) fun _ _ _ => True := by
  intro world agrees start
  obtain ⟨rfl, linked, like⟩ := start
  exact ⟨world.links, extends_fill here world, agrees.fill linked like, trivial⟩

theorem simulates_defineIn {frame : FrameId} {name : String} {location : Location} :
    Simulates table limit here
      (fun world => world.links[location]? = some (frame, name) ∧
        Like table limit world value other)
      (defineIn frame name value) (store location other) fun _ _ _ => True :=
  fun world agrees start =>
    ⟨world.links, extends_fill here world, agrees.fill start.1 start.2, trivial⟩

theorem allocate_some (content : Value) :
    allocate (some content) = allocate none >>= fun location =>
      store location content >>= fun _ => pure location := by
  funext memory
  have filled : (memory.cells.push none).setIfInBounds memory.cells.size (some content) =
      memory.cells.push (some content) := by
    apply Array.toList_inj.mp
    simp
  change EStateM.Result.ok memory.cells.size _ = EStateM.Result.ok memory.cells.size
    (Memory.fill memory.cells.size content { memory with cells := memory.cells.push none })
  simp only [Memory.fill, filled]

end Effects
end Lexical
end LoxLang

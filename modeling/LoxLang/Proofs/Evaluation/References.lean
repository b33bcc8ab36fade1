import LoxLang.Proofs.Evaluation.Raising

/-!
References at run time. One that has a distance finds a frame there, not the global one, and in it the
name; an assignment may come before its variable is bound, but only inside the variable's own
initializer. So a name can be missing only where a reference has no distance.
-/
namespace LoxLang

/-- At a reference with a distance the frame is where the distance says. The frame stays there while
the value of an assignment is evaluated. -/
def Moment.Placed : Moment → Prop
  | .evaluating _ _ (.variable site name) machine =>
    ∀ distance, machine.distances[site.id]? = some distance →
      ∃ frame value, machine.store.ancestor? machine.current distance = some frame ∧
        frame ≠ machine.globals ∧ machine.store.bound? frame name = some value ∧
        readVariable site name machine = .done value machine
  | .evaluating bound initializing (.assign site target value) machine =>
    ∀ distance, machine.distances[site.id]? = some distance →
      ∃ frame, machine.store.ancestor? machine.current distance = some frame ∧
        frame ≠ machine.globals ∧
        ((machine.store.bound? frame target).isSome ∨
          distance = 0 ∧ ∃ name, initializing = some name ∧ name.name = target) ∧
        ∀ result after, evaluate (bound - 1) value machine = .done result after →
          assignVariable site target result after = .done () (after.define frame target result)
  | _ => True

/-- The moment is at a reference to this name on this line, which has no distance. -/
def Moment.Dangling (name : String) (line : Nat) : Moment → Prop
  | .evaluating _ _ (.variable site sought) machine =>
    sought = name ∧ site.line = line ∧ machine.distances[site.id]? = none
  | .evaluating _ _ (.assign site target _) machine =>
    target = name ∧ site.line = line ∧ machine.distances[site.id]? = none
  | _ => False

section Placing

variable {table : Distances} {limit : Nat} {machine : Machine} {nesting : Nesting}

theorem distance?_during {initializing : Option Ident} {name : String} {distance : Nat}
    (found : (nesting.during initializing).1.distance? name = some distance) :
    nesting.distance? name = some distance ∨
      (nesting ≠ [] ∧ distance = 0 ∧ (nesting.during initializing).2 = some name ∧
        ∃ declared, initializing = some declared ∧ declared.name = name) := by
  cases initializing with
  | none => exact .inl found
  | some declared =>
    cases nesting with
    | nil => exact .inl found
    | cons names outer =>
      simp only [Nesting.during, Nesting.declare, Nesting.distance?_cons] at found ⊢
      by_cases same : declared.name = name
      · refine .inr ⟨List.cons_ne_nil _ _, ?_, by simp [Nesting.pending, same], declared, rfl, same⟩
        simpa [same] using found.symm
      · refine .inl ?_
        simpa only [List.mem_cons, Ne.symm same, false_or] using found

theorem placed_variable {site : Site} {name : String} {initializing : Option Ident}
    (sound : machine.Sound table limit) (stands : machine.Stands nesting)
    (resolved : (Expr.variable site name).Resolved table (nesting.during initializing).1
      (nesting.during initializing).2) {distance : Nat}
    (known : machine.distances[site.id]? = some distance) :
    ∃ frame value, machine.store.ancestor? machine.current distance = some frame ∧
      frame ≠ machine.globals ∧ machine.store.bound? frame name = some value ∧
      readVariable site name machine = .done value machine := by
  have found : (nesting.during initializing).1.distance? name = some distance := by
    rw [← resolved.2, ← sound.distances]
    exact known
  rcases distance?_during found with outside | ⟨_, _, pending, _⟩
  · obtain ⟨frame, away, apart, has⟩ := stands.ancestor outside
    obtain ⟨value, bound⟩ := Option.isSome_iff_exists.mp has
    refine ⟨frame, value, away, apart, bound, ?_⟩
    simp only [readVariable, Machine.lookUp?, Machine.readFrame?, known, away, bound]
  · exact absurd pending resolved.1

theorem placed_assign {site : Site} {target : String} {value : Expr} {initializing : Option Ident}
    (sound : machine.Sound table limit) (stands : machine.Stands nesting)
    (resolved : (Expr.assign site target value).Resolved table (nesting.during initializing).1
      (nesting.during initializing).2) {distance : Nat}
    (known : machine.distances[site.id]? = some distance) :
    ∃ frame, machine.store.ancestor? machine.current distance = some frame ∧
      frame ≠ machine.globals ∧
      ((machine.store.bound? frame target).isSome ∨
        distance = 0 ∧ ∃ name, initializing = some name ∧ name.name = target) := by
  have found : (nesting.during initializing).1.distance? target = some distance := by
    rw [← resolved.2, ← sound.distances]
    exact known
  rcases distance?_during found with outside | ⟨inside, rfl, _, own⟩
  · obtain ⟨frame, away, apart, has⟩ := stands.ancestor outside
    exact ⟨frame, away, apart, .inl has⟩
  · obtain ⟨names, outer, rfl⟩ := List.exists_cons_of_ne_nil inside
    exact ⟨machine.current, rfl, stands.1, .inr ⟨rfl, own⟩⟩

theorem assignVariable_of_ancestor {site : Site} {target : String} {value : Value}
    {distance : Nat} {frame : FrameId} (known : machine.distances[site.id]? = some distance)
    (away : machine.store.ancestor? machine.current distance = some frame) :
    assignVariable site target value machine = .done () (machine.define frame target value) := by
  simp only [assignVariable, Machine.readFrame?, known, away]

theorem Moment.Sound.placed {moment : Moment} (sound : moment.Sound table limit) :
    moment.Placed := by
  match moment, sound with
  | .evaluating bound initializing (.variable site name) machine, sound =>
    obtain ⟨kept, nesting, stands, resolved⟩ := sound
    exact fun distance known => placed_variable kept stands resolved known
  | .evaluating bound initializing (.assign site target value) machine, sound =>
    obtain ⟨kept, nesting, stands, resolved⟩ := sound
    intro distance known
    obtain ⟨frame, away, apart, has⟩ := placed_assign kept stands resolved known
    refine ⟨frame, away, apart, has, fun result after evaluated => ?_⟩
    have grows := (grows_evaluate (bound - 1) value).done evaluated
    refine assignVariable_of_ancestor (grows.distances ▸ known) ?_
    rw [grows.current]
    exact grows.store.ancestor away
  | .evaluating _ _ (.literal _ _) _, _ => trivial
  | .evaluating _ _ (.group _ _) _, _ => trivial
  | .evaluating _ _ (.unary _ _ _) _, _ => trivial
  | .evaluating _ _ (.binary _ _ _ _) _, _ => trivial
  | .evaluating _ _ (.logical _ _ _ _) _, _ => trivial
  | .evaluating _ _ (.call _ _ _) _, _ => trivial
  | .executing _ _ _, _ => trivial

end Placing
section Missing

variable {name : String} {table : Distances} {limit : Nat}

theorem unary_ne_undefined {op : UnaryOp} {operand : Value} :
    op.apply operand ≠ .error (.undefinedVariable name) := by
  intro applied
  cases op with
  | not => cases applied
  | negative => cases operand <;> cases applied

theorem onNumbers_ne_undefined {compute : Float → Float → Value} {left right : Value} :
    BinaryOp.onNumbers compute left right ≠ .error (.undefinedVariable name) := by
  intro applied
  unfold BinaryOp.onNumbers at applied
  split at applied <;> cases applied

theorem sum_ne_undefined {left right : Value} :
    BinaryOp.sum left right ≠ .error (.undefinedVariable name) := by
  intro applied
  unfold BinaryOp.sum at applied
  split at applied <;> cases applied

theorem binary_ne_undefined {op : BinaryOp} {left right : Value} :
    op.apply left right ≠ .error (.undefinedVariable name) := by
  cases op with
  | equal | notEqual => exact nofun
  | add => exact sum_ne_undefined
  | _ => exact onNumbers_ne_undefined

theorem refusal?_ne_undefined {callee : Value} {arguments : List Value} :
    callee.refusal? arguments ≠ some (.undefinedVariable name) := by
  intro refused
  unfold ValueOver.refusal? at refused
  split at refused
  · split at refused <;> cases refused
  · cases refused

/-- A reference with a distance does not miss its name, and nothing but a reference does. -/
theorem Raises.dangling {moment : Moment} {site : Site} (placed : moment.Placed)
    (raises : Raises moment site (.undefinedVariable name)) : moment.Dangling name site.line := by
  cases raises with
  | @unread bound initializing site name machine missing =>
    cases known : machine.distances[site.id]? with
    | none => exact ⟨rfl, rfl, known⟩
    | some distance =>
      obtain ⟨_, value, _, _, _, reads⟩ := placed distance known
      unfold readVariable at reads
      rw [missing] at reads
      cases reads
  | @unassigned bound initializing site target value machine result after evaluated missing =>
    cases known : machine.distances[site.id]? with
    | none => exact ⟨rfl, rfl, known⟩
    | some distance =>
      obtain ⟨_, _, _, _, assigns⟩ := placed distance known
      have assigned := assigns result after evaluated
      unfold assignVariable at assigned
      rw [missing] at assigned
      cases assigned
  | operand _ applied => exact absurd applied unary_ne_undefined
  | operands _ _ applied => exact absurd applied binary_ne_undefined
  | refused _ _ refused => exact absurd refused refusal?_ne_undefined

/-- Whoever misses a name comes to a reference that has no distance. -/
theorem Moment.Sound.dangling {moment : Moment} {line : Nat} (sound : moment.Sound table limit)
    (misses : moment.Stops ⟨.undefinedVariable name, line⟩) :
    ∃ inner, Reaches moment inner ∧ inner.Dangling name line := by
  obtain ⟨inner, site, cause, reaches, raises, same⟩ := misses.raised
  cases same
  exact ⟨inner, reaches, raises.dangling (sound.reaches reaches).placed⟩

end Missing
end LoxLang

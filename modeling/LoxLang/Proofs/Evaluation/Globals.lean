import LoxLang.Proofs.Evaluation.Effects
import LoxLang.Proofs.Evaluation.References

/-!
Which names the global frame binds. Whatever an execution comes to below its outermost statements
declares in a frame of its own, and assigns only what is bound already; so only a declaration among
those outermost statements, once it has been run to its end, adds a name.
-/
namespace LoxLang

/-- The name that the statement itself declares in the frame that it is run in. -/
def Stmt.declared? : Stmt → Option String
  | .var name _ => some name.name
  | .function name _ _ => some name.name
  | _ => none

def Machine.Knows (name : String) (machine : Machine) : Prop :=
  (machine.store.bound? machine.globals name).isSome = true

/-- The global frame is the same and binds the same names. -/
structure Machine.SameGlobals (before after : Machine) : Prop where
  globals : after.globals = before.globals
  knows : ∀ name, after.Knows name ↔ before.Knows name

namespace Machine.SameGlobals

theorem traceable : Machine.Traceable Machine.SameGlobals where
  refl _ := ⟨rfl, fun _ => .rfl⟩
  trans ahead further :=
    ⟨further.globals.trans ahead.globals, fun name => (further.knows name).trans (ahead.knows name)⟩
  move _ _ := ⟨rfl, fun _ => .rfl⟩

theorem of_store {before after : Machine} (store : after.store = before.store)
    (globals : after.globals = before.globals) : before.SameGlobals after := by
  refine ⟨globals, fun name => ?_⟩
  unfold Machine.Knows
  rw [store, globals]

theorem openInside {parent frame : FrameId} {before after : Machine}
    (opens : LoxLang.openInside parent before = .done frame after) : before.SameGlobals after := by
  cases opens
  refine ⟨rfl, fun name => ?_⟩
  change ((before.store.push (some parent)).bound? before.globals name).isSome = true ↔ _
  rw [Store.bound?_push]
  rfl

theorem define {machine : Machine} {frame : FrameId} {name : String} (value : Value)
    (old : frame = machine.globals → machine.Knows name) :
    machine.SameGlobals (machine.define frame name value) := by
  refine ⟨rfl, fun sought => ?_⟩
  change ((machine.store.define frame name value).bound? machine.globals sought).isSome = true ↔ _
  rw [Store.bound?_define]
  split
  · rename_i here
    obtain ⟨rfl, rfl, _⟩ := here
    simpa using old rfl
  · exact .rfl

theorem bindParameters {frame : FrameId} {names : List Ident} {values : List Value}
    {before after : Machine} (apart : frame ≠ before.globals)
    (binds : LoxLang.bindParameters frame names values before = .done () after) :
    before.SameGlobals after := by
  induction names generalizing before values with
  | nil =>
    cases binds
    exact traceable.refl _
  | cons name rest ih =>
    cases values with
    | nil =>
      cases binds
      exact traceable.refl _
    | cons value values =>
      have first : before.SameGlobals (before.define frame name.name value) :=
        .define value fun same => absurd same apart
      have later : LoxLang.bindParameters frame rest values (before.define frame name.name value) =
          .done () after := binds
      exact traceable.trans first (ih apart later)

end Machine.SameGlobals

theorem Store.bound?_of_holder? {store : Store} {frame holder : FrameId} {name : String}
    (found : store.holder? frame name = some holder) : (store.bound? holder name).isSome := by
  induction frame using Nat.strongRecOn with
  | ind frame ih =>
    rw [Store.holder?] at found
    cases bound : store.bound? frame name with
    | some value =>
      rw [bound] at found
      cases found
      rw [bound]
      rfl
    | none =>
      rw [bound] at found
      cases above : store.parent? frame with
      | none => simp [above] at found
      | some parent =>
        simp only [above] at found
        by_cases older : parent < frame
        · rw [if_pos older] at found
          exact ih parent older found
        · rw [if_neg older] at found
          cases found

/-- Declarations at the moment go to a frame that is not the global one. -/
def Moment.Local : Moment → Prop
  | .evaluating _ _ _ _ => True
  | .executing _ stmt machine => stmt.declared? ≠ none → machine.current ≠ machine.globals

section Moments

variable {table : Distances} {limit : Nat} {moment inner : Moment} {machine reached : Machine}

theorem Stmt.declared?_eq_none {stmt : Stmt} (plain : stmt.isDeclaration = false) :
    stmt.declared? = none := by
  cases stmt <;> first | rfl | cases plain

theorem local_of_plain {bound : Nat} {stmt : Stmt} (plain : stmt.isDeclaration = false) :
    (Moment.executing bound stmt machine).Local :=
  fun declares => absurd (Stmt.declared?_eq_none plain) declares

theorem local_of_comesUp {bound : Nat} {body : List Stmt} {stmt : Stmt}
    (apart : machine.current ≠ machine.globals)
    (comesUp : ComesUp (execute bound) body machine stmt reached) :
    (Moment.executing bound stmt reached).Local := by
  obtain ⟨before, _, _, ran⟩ := comesUp
  have grows := (grows_runAll (grows_execute bound) before).done ran
  intro _
  rw [grows.current, grows.globals]
  exact apart

theorem Moment.Sound.local_starts (sound : moment.Sound table limit) (starts : Starts moment inner) :
    inner.Local := by
  cases starts with
  | called calls ready enough opens binds comesUp =>
    obtain ⟨kept, nesting, stands, resolved⟩ := sound
    obtain ⟨keptCallee, standsCallee, _⟩ := after_evaluate kept stands calls
    obtain ⟨keptReady, _, _⟩ := after_evaluateAll keptCallee standsCallee ready
    cases opens
    have grows := (grows_bindParameters _ _ _).done binds
    refine local_of_comesUp ?_ comesUp
    rw [grows.globals]
    exact Nat.ne_of_gt keptReady.globals
  | block opens comesUp =>
    obtain ⟨kept, _⟩ := sound
    cases opens
    exact local_of_comesUp (Nat.ne_of_gt kept.globals) comesUp
  | yesThen =>
    obtain ⟨_, _, _, resolved, _⟩ := sound
    exact local_of_plain resolved.2.1
  | yesElse =>
    obtain ⟨_, _, _, resolved, _⟩ := sound
    exact local_of_plain resolved.2.1.1
  | noElse =>
    obtain ⟨_, _, _, resolved, _⟩ := sound
    exact local_of_plain resolved.2.2.1
  | bodyLoop =>
    obtain ⟨_, _, _, resolved, _⟩ := sound
    exact local_of_plain resolved.2.1
  | _ => trivial

theorem Moment.Sound.local_reaches (sound : moment.Sound table limit) (own : moment.Local)
    (reaches : Reaches moment inner) : inner.Local := by
  cases Relation.ReflTransGen.cases_tail reaches with
  | inl same => exact same ▸ own
  | inr last =>
    obtain ⟨middle, before, starts⟩ := last
    exact (sound.reaches before).local_starts starts

theorem sameGlobals_assigns {bound : Nat} {initializing : Option Ident} {site : Site}
    {target : String} {value : Expr} {result : Value} {after final : Machine}
    (sound : (Moment.evaluating (bound + 1) initializing (.assign site target value) machine).Sound
      table limit)
    (evaluated : evaluate bound value machine = .done result after)
    (assigned : assignVariable site target result after = .done () final) :
    after.SameGlobals final := by
  have grows := (grows_evaluate bound value).done evaluated
  cases known : machine.distances[site.id]? with
  | some distance =>
    obtain ⟨frame, _, apart, _, assigns⟩ := sound.placed distance known
    rw [assigns result after evaluated] at assigned
    cases assigned
    refine .define result fun same => absurd ?_ apart
    rw [same, grows.globals]
  | none =>
    have searched : after.readFrame? site.id target = after.store.holder? after.globals target := by
      simp only [Machine.readFrame?, grows.distances, known]
    unfold assignVariable at assigned
    rw [searched] at assigned
    cases found : after.store.holder? after.globals target with
    | none => simp [found] at assigned
    | some holder =>
      rw [found] at assigned
      cases assigned
      refine .define result fun same => ?_
      subst same
      exact Store.bound?_of_holder? found

/-- No single act below the outermost statements changes the names of the global frame. -/
theorem Acts.sameGlobals {before after : Machine} (acts : Acts moment before after)
    (sound : moment.Sound table limit) (own : moment.Local) : before.SameGlobals after := by
  cases acts with
  | assigns evaluated assigned => exact sameGlobals_assigns sound evaluated assigned
  | @answers _ _ _ _ _ _ _ builtin _ _ _ _ _ _ _ ran =>
    obtain ⟨_, _, rule⟩ := builtin
    cases rule with
    | clock =>
      cases ran
      exact .of_store rfl rfl
    | argument place =>
      cases ran
      exact .of_store rfl rfl
  -- The new frame is younger than the global one.
  | enters calls ready opens binds =>
    obtain ⟨kept, nesting, stands, resolved⟩ := sound
    obtain ⟨keptCallee, standsCallee, _⟩ := after_evaluate kept stands calls
    obtain ⟨keptReady, _, _⟩ := after_evaluateAll keptCallee standsCallee ready
    cases opens
    exact Machine.SameGlobals.traceable.trans (.openInside rfl)
      (.bindParameters (Nat.ne_of_gt keptReady.globals) binds)
  | binds evaluated =>
    have grows := (grows_evaluateOr (grows_evaluate _) _).done evaluated
    refine .define _ fun same => absurd ?_ (own nofun)
    rw [← grows.current, same, grows.globals]
  | makes ran =>
    cases ran
    have made : before.SameGlobals { before with callables := before.callables + 1 } :=
      .of_store rfl rfl
    exact Machine.SameGlobals.traceable.trans made (.define _ fun same => absurd same (own nofun))
  | prints _ => exact .of_store rfl rfl
  | opens opened => exact .openInside opened

/-- Below its outermost statements an execution leaves the names of the global frame alone. -/
theorem Moment.Sound.sameGlobals (sound : moment.Sound table limit) (own : moment.Local) :
    moment.machine.SameGlobals moment.final :=
  Machine.SameGlobals.traceable.final moment fun _ _ _ reaches acts =>
    acts.sameGlobals (sound.reaches reaches) (sound.local_reaches own reaches)

end Moments
section Outermost

variable {table : Distances} {limit bound : Nat} {machine : Machine}

/-- A declaration of this name is run to its end at the moment. -/
def Moment.Introduces (name : String) : Moment → Prop
  | .evaluating _ _ _ _ => False
  | .executing bound stmt machine =>
    stmt.declared? = some name ∧ ∃ final, execute bound stmt machine = .done .next final

theorem Machine.SameGlobals.declares {after : Machine} {declared name : String} (value : Value)
    (same : machine.SameGlobals after) (room : after.globals < after.store.next)
    (outside : after.current = after.globals) :
    (after.define after.current declared value).Knows name ↔
      machine.Knows name ∨ declared = name := by
  rw [← same.knows name]
  change ((after.store.define after.current declared value).bound? after.globals name).isSome = true ↔
    (after.store.bound? after.globals name).isSome = true ∨ declared = name
  rw [Store.bound?_define]
  by_cases own : declared = name
  · simp [own, outside, room]
  · simp [own]

theorem knows_var {name : Ident} {initial : Option Expr}
    (sound : (Moment.executing (bound + 1) (.var name initial) machine).Sound table limit)
    (outside : machine.current = machine.globals) (sought : String) :
    (execute (bound + 1) (.var name initial) machine).machine.Knows sought ↔
      machine.Knows sought ∨
        (Moment.executing (bound + 1) (.var name initial) machine).Introduces sought := by
  have inside : machine.SameGlobals (evaluateOr (evaluate bound) initial machine).machine := by
    cases initial with
    | none => exact Machine.SameGlobals.traceable.refl machine
    | some value => exact (sound.starts .initializer).sameGlobals trivial
  have ran : execute (bound + 1) (.var name initial) machine =
      (evaluateOr (evaluate bound) initial >>= fun value =>
        defineHere name.name value >>= fun _ => pure .next) machine := rfl
  change _ ↔ _ ∨ some name.name = some sought ∧
    ∃ final, execute (bound + 1) (.var name initial) machine = .done .next final
  rw [ran, Exec.bind_apply]
  cases evaluated : evaluateOr (evaluate bound) initial machine with
  | stopped stop after =>
    rw [evaluated] at inside
    simpa [Step.machine] using inside.knows sought
  | done value after =>
    rw [evaluated] at inside
    have grows := (grows_evaluateOr (grows_evaluate bound) initial).done evaluated
    have room : after.globals < after.store.next := by
      rw [grows.globals]
      exact Nat.lt_of_lt_of_le sound.1.globals grows.store.next
    have here : after.current = after.globals := by rw [grows.current, grows.globals, outside]
    refine (inside.declares value room here).trans ?_
    simp [Exec.bind_apply, defineHere]

theorem knows_function {name : Ident} {parameters : List Ident} {body : List Stmt}
    (sound : (Moment.executing (bound + 1) (.function name parameters body) machine).Sound table limit)
    (outside : machine.current = machine.globals) (sought : String) :
    (execute (bound + 1) (.function name parameters body) machine).machine.Knows sought ↔
      machine.Knows sought ∨
        (Moment.executing (bound + 1) (.function name parameters body) machine).Introduces sought := by
  have made : machine.SameGlobals { machine with callables := machine.callables + 1 } :=
    .of_store rfl rfl
  refine (made.declares (.callable machine.callables
    (.function ⟨name, parameters, body⟩ machine.current)) sound.1.globals outside).trans ?_
  have ends : ∃ final, execute (bound + 1) (.function name parameters body) machine =
      .done .next final := ⟨_, rfl⟩
  simp [Moment.Introduces, Stmt.declared?, ends]

/-- In the global frame, too, a declaration adds its own name only, and only at its end. -/
theorem knows_execute {stmt : Stmt}
    (sound : (Moment.executing bound stmt machine).Sound table limit)
    (outside : machine.current = machine.globals) (name : String) :
    (execute bound stmt machine).machine.Knows name ↔
      machine.Knows name ∨ (Moment.executing bound stmt machine).Introduces name := by
  by_cases plain : stmt.declared? = none
  · have own : (Moment.executing bound stmt machine).Local := fun some => absurd plain some
    rw [show (execute bound stmt machine).machine.Knows name ↔ machine.Knows name from
      (sound.sameGlobals own).knows name]
    simp [Moment.Introduces, plain]
  · cases bound with
    | zero => simp [execute, Exec.unfinished, Step.machine, Moment.Introduces]
    | succ bound =>
      cases stmt with
      | var declared initial => exact knows_var sound outside name
      | function declared parameters body => exact knows_function sound outside name
      | _ => exact absurd rfl plain

theorem comesUp_cons {run : Stmt → Exec Flow} {first stmt : Stmt} {rest : List Stmt}
    {reached : Machine} :
    ComesUp run (first :: rest) machine stmt reached ↔
      (stmt = first ∧ reached = machine) ∨
        ∃ middle, run first machine = .done .next middle ∧ ComesUp run rest middle stmt reached := by
  constructor
  · rintro ⟨before, others, split, ran⟩
    cases before with
    | nil =>
      cases split
      cases ran
      exact .inl ⟨rfl, rfl⟩
    | cons front before =>
      cases split
      obtain ⟨flow, middle, done, later⟩ := Exec.bind_eq_done.mp ran
      cases flow with
      | next => exact .inr ⟨middle, done, before, others, rfl, later⟩
      | returned value => cases later
  · rintro (⟨rfl, rfl⟩ | ⟨middle, done, before, others, rfl, ran⟩)
    · exact ⟨[], rest, rfl, rfl⟩
    · exact ⟨first :: before, others, rfl, Exec.bind_eq_done.mpr ⟨.next, middle, done, ran⟩⟩

section Running

variable {run : Stmt → Exec Flow} {first stmt : Stmt} {rest : List Stmt} {middle reached : Machine}

theorem runAll_of_next (done : run first machine = .done .next middle) :
    runAll run (first :: rest) machine = runAll run rest middle := Exec.bind_of_done done

theorem runAll_of_ends (ends : ∀ middle, run first machine ≠ .done .next middle) :
    (runAll run (first :: rest) machine).machine = (run first machine).machine := by
  refine (congrArg Step.machine (Exec.bind_apply (run first) _ machine)).trans ?_
  cases ran : run first machine with
  | stopped stop after => rfl
  | done flow after =>
    cases flow with
    | next => exact absurd ran (ends after)
    | returned value => rfl

theorem comesUp_of_next (done : run first machine = .done .next middle) :
    ComesUp run (first :: rest) machine stmt reached ↔
      (stmt = first ∧ reached = machine) ∨ ComesUp run rest middle stmt reached := by
  rw [comesUp_cons]
  refine or_congr_right ⟨?_, fun comesUp => ⟨middle, done, comesUp⟩⟩
  rintro ⟨other, again, comesUp⟩
  cases done.symm.trans again
  exact comesUp

theorem comesUp_of_ends (ends : ∀ middle, run first machine ≠ .done .next middle) :
    ComesUp run (first :: rest) machine stmt reached ↔ stmt = first ∧ reached = machine := by
  rw [comesUp_cons]
  refine or_iff_left ?_
  rintro ⟨middle, done, _⟩
  exact ends middle done

end Running

/-- Of the statements of a program only those count that have been run to their end. -/
theorem knows_runAll (bound : Nat) {body : List Stmt} (kept : machine.Sound table limit)
    (stands : machine.Stands []) (resolved : Stmt.ResolvedAll table [] body)
    (older : Older limit (Stmt.idsAll body)) (name : String) :
    (runAll (execute bound) body machine).machine.Knows name ↔
      machine.Knows name ∨ ∃ stmt reached, ComesUp (execute bound) body machine stmt reached ∧
        (Moment.executing bound stmt reached).Introduces name := by
  induction body generalizing machine with
  | nil => simp [runAll, Step.machine, ComesUp]
  | cons first rest ih =>
    have sound : (Moment.executing bound first machine).Sound table limit :=
      ⟨kept, [], stands, resolved.1, older.left⟩
    have here := knows_execute sound stands name
    -- The rest comes up only if the first statement neither returns nor is stopped.
    by_cases goes : ∃ middle, execute bound first machine = .done .next middle
    · obtain ⟨middle, done⟩ := goes
      obtain ⟨keptMiddle, standsMiddle⟩ :=
        (sound_execute bound first [] resolved.1 older.left).done kept stands done
      have outermost : Nesting.after [] first = [] := by cases first <;> rfl
      rw [done] at here
      have after : middle.Knows name ↔ _ := here
      have later := ih keptMiddle (Flow.Sound.of_after standsMiddle) (outermost ▸ resolved.2)
        older.right
      rw [runAll_of_next done, later, after]
      simp only [comesUp_of_next done, or_and_right, exists_or, and_assoc, exists_and_left,
        exists_eq_left, or_assoc]
    · have ends (middle : Machine) : execute bound first machine ≠ .done .next middle :=
        fun done => goes ⟨middle, done⟩
      rw [runAll_of_ends ends, here]
      simp only [comesUp_of_ends ends, and_assoc, exists_and_left, exists_eq_left]

end Outermost
end LoxLang

import Mathlib.Logic.Relation
import LoxLang.Proofs.Evaluation.Preservation

/-!
The moments of an execution. Evaluating an expression or running a statement starts further
evaluations and runs, each on the machine that those before it have left; the moments of an execution
are all that are started so, at whatever depth, whether or not the execution ever ends.
-/
namespace LoxLang

/-- What is about to be done, and on which machine. While the initializer of a variable is evaluated,
the declaration goes with it. -/
inductive Moment where
  | evaluating (bound : Nat) (initializing : Option Ident) (expr : Expr) (machine : Machine)
  | executing (bound : Nat) (stmt : Stmt) (machine : Machine)

/-- So many full rounds of a loop lead from one machine to the other. -/
inductive Rounds (test : Exec Value) (body : Exec Flow) : Nat → Machine → Machine → Prop
  | none (machine : Machine) : Rounds test body 0 machine machine
  | more {rounds : Nat} {again : Value} {first tested finished last : Machine} :
    test first = .done again tested → again.truthy = true → body tested = .done .next finished →
    Rounds test body rounds finished last → Rounds test body (rounds + 1) first last

/-- The statement comes up while a list of statements is run, after those in front of it. -/
def ComesUp (run : Stmt → Exec Flow) (body : List Stmt) (machine : Machine) (stmt : Stmt)
    (reached : Machine) : Prop :=
  ∃ before rest, body = before ++ stmt :: rest ∧ runAll run before machine = .done .next reached

theorem runAll_behind {run : Stmt → Exec Flow} {before : List Stmt} {machine reached : Machine}
    (ran : runAll run before machine = .done .next reached) (rest : List Stmt) :
    runAll run (before ++ rest) machine = runAll run rest reached := by
  induction before generalizing machine with
  | nil =>
    cases ran
    rfl
  | cons first others ih =>
    obtain ⟨flow, middle, done, later⟩ := Exec.bind_eq_done.mp ran
    cases flow with
    | next =>
      rw [List.cons_append, runAll, Exec.bind_apply, done]
      exact ih later
    | returned value => cases later

theorem Rounds.iterate {test : Exec Value} {body : Exec Flow} {rounds : Nat}
    {machine reached : Machine} (all : Rounds test body rounds machine reached) (bound : Nat) :
    LoxLang.iterate test body (rounds + bound) machine = LoxLang.iterate test body bound reached := by
  induction all with
  | none machine => rw [Nat.zero_add]
  | more tested goes ran _ ih =>
    rw [Nat.succ_add, LoxLang.iterate, Exec.bind_apply, tested]
    dsimp only
    rw [if_pos goes, Exec.bind_apply, ran]
    exact ih

inductive Starts : Moment → Moment → Prop
  | assigned {bound initializing site target value machine} :
    Starts (.evaluating (bound + 1) initializing (.assign site target value) machine)
      (.evaluating bound initializing value machine)
  | grouped {bound initializing site inner machine} :
    Starts (.evaluating (bound + 1) initializing (.group site inner) machine)
      (.evaluating bound initializing inner machine)
  | operand {bound initializing site op operand machine} :
    Starts (.evaluating (bound + 1) initializing (.unary site op operand) machine)
      (.evaluating bound initializing operand machine)
  | leftOperand {bound initializing site op left right machine} :
    Starts (.evaluating (bound + 1) initializing (.binary site op left right) machine)
      (.evaluating bound initializing left machine)
  | rightOperand {bound initializing site op left right machine first after} :
    evaluate bound left machine = .done first after →
    Starts (.evaluating (bound + 1) initializing (.binary site op left right) machine)
      (.evaluating bound initializing right after)
  | leftChoice {bound initializing site op left right machine} :
    Starts (.evaluating (bound + 1) initializing (.logical site op left right) machine)
      (.evaluating bound initializing left machine)
  | rightChoice {bound initializing site} {op : LogicalOp} {left right machine first after} :
    evaluate bound left machine = .done first after → op.decides first = false →
    Starts (.evaluating (bound + 1) initializing (.logical site op left right) machine)
      (.evaluating bound initializing right after)
  | callee {bound initializing site callee arguments machine} :
    Starts (.evaluating (bound + 1) initializing (.call site callee arguments) machine)
      (.evaluating bound initializing callee machine)
  | argument {bound initializing site callee arguments machine target called before argument rest
      values ready} :
    evaluate bound callee machine = .done target called →
    arguments = before ++ argument :: rest →
    evaluateAll (evaluate bound) before called = .done values ready →
    Starts (.evaluating (bound + 1) initializing (.call site callee arguments) machine)
      (.evaluating bound initializing argument ready)
  | called {bound initializing site callee arguments machine identity} {declaration : Function}
      {closure called values ready frame opened entered stmt reached} :
    evaluate bound callee machine =
      .done (.callable identity (.function declaration closure)) called →
    evaluateAll (evaluate bound) arguments called = .done values ready →
    values.length = declaration.parameters.length →
    openInside closure ready = .done frame opened →
    bindParameters frame declaration.parameters values opened = .done () entered →
    ComesUp (execute bound) declaration.body { entered with current := frame } stmt reached →
    Starts (.evaluating (bound + 1) initializing (.call site callee arguments) machine)
      (.executing bound stmt reached)
  | initializer {bound name value machine} :
    Starts (.executing (bound + 1) (.var name (some value)) machine)
      (.evaluating bound (some name) value machine)
  | expression {bound value machine} :
    Starts (.executing (bound + 1) (.expression value) machine)
      (.evaluating bound none value machine)
  | printed {bound value machine} :
    Starts (.executing (bound + 1) (.print value) machine) (.evaluating bound none value machine)
  | result {bound line value machine} :
    Starts (.executing (bound + 1) (.return line (some value)) machine)
      (.evaluating bound none value machine)
  | block {bound body machine frame opened stmt reached} :
    openInside machine.current machine = .done frame opened →
    ComesUp (execute bound) body { opened with current := frame } stmt reached →
    Starts (.executing (bound + 1) (.block body) machine) (.executing bound stmt reached)
  | testThen {bound test yes machine} :
    Starts (.executing (bound + 1) (.ifThen test yes) machine) (.evaluating bound none test machine)
  | yesThen {bound test yes machine chosen after} :
    evaluate bound test machine = .done chosen after → chosen.truthy = true →
    Starts (.executing (bound + 1) (.ifThen test yes) machine) (.executing bound yes after)
  | testElse {bound test yes no machine} :
    Starts (.executing (bound + 1) (.ifElse test yes no) machine)
      (.evaluating bound none test machine)
  | yesElse {bound test yes no machine chosen after} :
    evaluate bound test machine = .done chosen after → chosen.truthy = true →
    Starts (.executing (bound + 1) (.ifElse test yes no) machine) (.executing bound yes after)
  | noElse {bound test yes no machine chosen after} :
    evaluate bound test machine = .done chosen after → chosen.truthy = false →
    Starts (.executing (bound + 1) (.ifElse test yes no) machine) (.executing bound no after)
  | testLoop {bound test body machine rounds reached} :
    Rounds (evaluate bound test) (execute bound body) rounds machine reached → rounds < bound →
    Starts (.executing (bound + 1) (.loop test body) machine) (.evaluating bound none test reached)
  | bodyLoop {bound test body machine rounds reached again tested} :
    Rounds (evaluate bound test) (execute bound body) rounds machine reached → rounds < bound →
    evaluate bound test reached = .done again tested → again.truthy = true →
    Starts (.executing (bound + 1) (.loop test body) machine) (.executing bound body tested)

abbrev Reaches : Moment → Moment → Prop := Relation.ReflTransGen Starts

/-- What an expression sees of the scopes around it: a variable is there while its own initializer is
evaluated, but pending. -/
def Nesting.during (nesting : Nesting) : Option Ident → Nesting × Option String
  | none => (nesting, none)
  | some name => (nesting.declare name.name, nesting.pending name.name)

/-- At a sound moment the machine is sound and stands where the code was resolved. -/
def Moment.Sound (table : Distances) (limit : Nat) : Moment → Prop
  | .evaluating _ initializing expr machine =>
    machine.Sound table limit ∧ ∃ nesting : Nesting, machine.Stands nesting ∧
      expr.Resolved table (nesting.during initializing).1 (nesting.during initializing).2
  | .executing _ stmt machine =>
    machine.Sound table limit ∧ ∃ nesting : Nesting, machine.Stands nesting ∧
      stmt.Resolved table nesting ∧ Older limit stmt.ids

section Steps

variable {table : Distances} {limit bound : Nat} {machine after : Machine} {nesting : Nesting}

theorem after_evaluate {expr : Expr} {value : Value} (sound : machine.Sound table limit)
    (stands : machine.Stands nesting) (result : evaluate bound expr machine = .done value after) :
    after.Sound table limit ∧ after.Stands nesting ∧ value.Sound table limit after :=
  ((sound_evaluate bound).standing (grows_evaluate bound) nesting expr).done sound stands result

theorem after_evaluateAll {values : List Expr} {results : List Value}
    (sound : machine.Sound table limit) (stands : machine.Stands nesting)
    (result : evaluateAll (evaluate bound) values machine = .done results after) :
    after.Sound table limit ∧ after.Stands nesting ∧
      ∀ value ∈ results, value.Sound table limit after :=
  ((ensures_evaluateAll (sound_evaluate bound) (grows_evaluate bound) values).keep
    (grows_evaluateAll (grows_evaluate bound) values) (lasting_stands nesting)
    fun _ _ => trivial).done sound stands result

theorem sound_comesUp {body : List Stmt} {stmt : Stmt} (sound : machine.Sound table limit)
    (stands : machine.Stands nesting) (resolved : Stmt.ResolvedAll table nesting body)
    (older : Older limit (Stmt.idsAll body)) (comesUp : ComesUp (execute bound) body machine stmt after) :
    Moment.Sound table limit (.executing bound stmt after) := by
  obtain ⟨before, rest, rfl, result⟩ := comesUp
  rw [Stmt.resolvedAll_append] at resolved
  rw [Stmt.idsAll_append] at older
  obtain ⟨kept, standing⟩ :=
    (ensures_runAll (sound_execute bound) before resolved.1 older.left).done sound stands result
  exact ⟨kept, nesting.afterAll before, standing, resolved.2.1, older.right.left⟩

theorem sound_rounds {test : Expr} {body : Stmt} {rounds : Nat}
    (resolved : (Stmt.loop test body).Resolved table nesting)
    (older : Older limit (Stmt.loop test body).ids) (sound : machine.Sound table limit)
    (stands : machine.Stands nesting)
    (all : Rounds (evaluate bound test) (execute bound body) rounds machine after) :
    after.Sound table limit ∧ after.Stands nesting := by
  induction all with
  | none machine => exact ⟨sound, stands⟩
  | more tested _ ran _ ih =>
    obtain ⟨soundTested, standsTested, _⟩ := after_evaluate sound stands tested
    obtain ⟨soundRan, standsRan⟩ := (sound_execute bound body nesting resolved.2.2 older.right).done
      soundTested standsTested ran
    exact ih soundRan (Flow.Sound.of_after standsRan)

theorem sound_called {declaration : Function} {closure frame : FrameId} {identity : Nat}
    {values : List Value} {opened entered : Machine} {stmt : Stmt}
    (sound : machine.Sound table limit)
    (callee : ValueOver.Sound table limit machine (.callable identity (.function declaration closure)))
    (good : ∀ value ∈ values, value.Sound table limit machine)
    (enough : values.length = declaration.parameters.length)
    (opens : openInside closure machine = .done frame opened)
    (binds : bindParameters frame declaration.parameters values opened = .done () entered)
    (comesUp : ComesUp (execute bound) declaration.body { entered with current := frame } stmt after) :
    Moment.Sound table limit (.executing bound stmt after) := by
  obtain ⟨nesting, framed, resolved, older⟩ := callee
  have lasts := (lasting_framed nesting closure).and (lasting_values table limit values)
  obtain ⟨soundOpened, kept, inside⟩ := ((ensures_openInside closure).keep
    (grows_openInside closure) lasts fun _ _ => trivial).done sound ⟨framed, good⟩ opens
  obtain ⟨soundEntered, ⟨standing, insideEntered⟩, named⟩ :=
    ((ensures_bindParameters frame declaration.parameters values enough).keep
      (grows_bindParameters _ _ _) (lasts.and (lasting_inside frame closure))
      fun _ start => ⟨start.2.2.1, start.1.2⟩).done soundOpened ⟨kept, inside⟩ binds
  refine sound_comesUp (soundEntered.enter frame) ?_ resolved older comesUp
  exact standing.1.cons insideEntered.1 insideEntered.2.2 fun name member =>
    named name (List.mem_reverse.mp member)

theorem sound_block {body : List Stmt} {frame : FrameId} {opened : Machine} {stmt : Stmt}
    (sound : machine.Sound table limit) (stands : machine.Stands nesting)
    (resolved : Stmt.ResolvedAll table ([] :: nesting) body)
    (older : Older limit (Stmt.idsAll body))
    (opens : openInside machine.current machine = .done frame opened)
    (comesUp : ComesUp (execute bound) body { opened with current := frame } stmt after) :
    Moment.Sound table limit (.executing bound stmt after) := by
  obtain ⟨soundOpened, kept, inside⟩ := ((ensures_openInside machine.current).keep
    (grows_openInside machine.current) (lasting_framed nesting machine.current)
    fun _ _ => trivial).done sound stands opens
  refine sound_comesUp (soundOpened.enter frame) ?_ resolved older comesUp
  exact kept.cons inside.1 inside.2.2 fun _ member => nomatch member

/-- One step from a sound moment leads to a sound moment. -/
theorem Moment.Sound.starts {moment inner : Moment} (sound : moment.Sound table limit)
    (starts : Starts moment inner) : inner.Sound table limit := by
  cases starts with
  | assigned =>
    obtain ⟨kept, nesting, stands, resolved⟩ := sound
    exact ⟨kept, nesting, stands, resolved.1⟩
  | grouped =>
    obtain ⟨kept, nesting, stands, resolved⟩ := sound
    exact ⟨kept, nesting, stands, resolved⟩
  | operand =>
    obtain ⟨kept, nesting, stands, resolved⟩ := sound
    exact ⟨kept, nesting, stands, resolved⟩
  | leftOperand =>
    obtain ⟨kept, nesting, stands, resolved⟩ := sound
    exact ⟨kept, nesting, stands, resolved.1⟩
  -- What was run in between has only let the machine grow, so the code still stands where it did.
  | rightOperand first =>
    obtain ⟨kept, nesting, stands, resolved⟩ := sound
    obtain ⟨keptFirst, standsFirst, _⟩ := after_evaluate kept stands first
    exact ⟨keptFirst, nesting, standsFirst, resolved.2⟩
  | leftChoice =>
    obtain ⟨kept, nesting, stands, resolved⟩ := sound
    exact ⟨kept, nesting, stands, resolved.1⟩
  | rightChoice first _ =>
    obtain ⟨kept, nesting, stands, resolved⟩ := sound
    obtain ⟨keptFirst, standsFirst, _⟩ := after_evaluate kept stands first
    exact ⟨keptFirst, nesting, standsFirst, resolved.2⟩
  | callee =>
    obtain ⟨kept, nesting, stands, resolved⟩ := sound
    exact ⟨kept, nesting, stands, resolved.1⟩
  | argument calls among ready =>
    obtain ⟨kept, nesting, stands, resolved⟩ := sound
    obtain ⟨keptCallee, standsCallee, _⟩ := after_evaluate kept stands calls
    obtain ⟨keptReady, standsReady, _⟩ := after_evaluateAll keptCallee standsCallee ready
    exact ⟨keptReady, nesting, standsReady, Expr.ResolvedAll.mem resolved.2 (by simp [among])⟩
  -- The callee was there before the arguments, and its soundness is carried over them.
  | called calls ready enough opens binds comesUp =>
    obtain ⟨kept, nesting, stands, resolved⟩ := sound
    obtain ⟨keptCallee, standsCallee, callee⟩ := after_evaluate kept stands calls
    obtain ⟨keptReady, _, good⟩ := after_evaluateAll keptCallee standsCallee ready
    have callee := lasting_value table limit _ _ _
      ((grows_evaluateAll (grows_evaluate _) _).done ready) callee
    exact sound_called keptReady callee good enough opens binds comesUp
  | initializer =>
    obtain ⟨kept, nesting, stands, resolved, _⟩ := sound
    exact ⟨kept, nesting, stands, resolved.2 _ rfl⟩
  | expression =>
    obtain ⟨kept, nesting, stands, resolved, _⟩ := sound
    exact ⟨kept, nesting, stands, resolved⟩
  | printed =>
    obtain ⟨kept, nesting, stands, resolved, _⟩ := sound
    exact ⟨kept, nesting, stands, resolved⟩
  | result =>
    obtain ⟨kept, nesting, stands, resolved, _⟩ := sound
    exact ⟨kept, nesting, stands, resolved _ rfl⟩
  | block opens comesUp =>
    obtain ⟨kept, nesting, stands, resolved, older⟩ := sound
    exact sound_block kept stands resolved older opens comesUp
  | testThen =>
    obtain ⟨kept, nesting, stands, resolved, _⟩ := sound
    exact ⟨kept, nesting, stands, resolved.1⟩
  | yesThen tested _ =>
    obtain ⟨kept, nesting, stands, resolved, older⟩ := sound
    obtain ⟨keptTested, standsTested, _⟩ := after_evaluate kept stands tested
    exact ⟨keptTested, nesting, standsTested, resolved.2.2, older.right⟩
  | testElse =>
    obtain ⟨kept, nesting, stands, resolved, _⟩ := sound
    exact ⟨kept, nesting, stands, resolved.1⟩
  | yesElse tested _ =>
    obtain ⟨kept, nesting, stands, resolved, older⟩ := sound
    obtain ⟨keptTested, standsTested, _⟩ := after_evaluate kept stands tested
    exact ⟨keptTested, nesting, standsTested, resolved.2.1.2, older.right.left⟩
  | noElse tested _ =>
    obtain ⟨kept, nesting, stands, resolved, older⟩ := sound
    obtain ⟨keptTested, standsTested, _⟩ := after_evaluate kept stands tested
    exact ⟨keptTested, nesting, standsTested, resolved.2.2.2, older.right.right⟩
  -- However many rounds there were, the machine stands where the loop was resolved.
  | testLoop rounds _ =>
    obtain ⟨kept, nesting, stands, resolved, older⟩ := sound
    obtain ⟨keptRounds, standsRounds⟩ := sound_rounds resolved older kept stands rounds
    exact ⟨keptRounds, nesting, standsRounds, resolved.1⟩
  | bodyLoop rounds _ tested _ =>
    obtain ⟨kept, nesting, stands, resolved, older⟩ := sound
    obtain ⟨keptRounds, standsRounds⟩ := sound_rounds resolved older kept stands rounds
    obtain ⟨keptTested, standsTested, _⟩ := after_evaluate keptRounds standsRounds tested
    exact ⟨keptTested, nesting, standsTested, resolved.2.2, older.right⟩

/-- Everything that an execution comes to from a sound moment is sound. -/
theorem Moment.Sound.reaches {moment inner : Moment} (sound : moment.Sound table limit)
    (reaches : Reaches moment inner) : inner.Sound table limit := by
  induction reaches with
  | refl => exact sound
  | tail _ starts ih => exact ih.starts starts

end Steps

end LoxLang

import LoxLang.Proofs.Evaluation.Moments

/-!
Where faults come from. A fault is raised at one node, once what the node needs has been evaluated,
and has the line of that node; whatever started it, at whatever depth, is stopped by it in turn. So
everything that ends in a fault comes to the moment that raises it.
-/
namespace LoxLang

section Stopping

variable {stop : Stop} {machine final : Machine}

theorem Exec.bind_eq_stopped {α β : Type} {first : Exec α} {next : α → Exec β} :
    (first >>= next) machine = .stopped stop final ↔
      first machine = .stopped stop final ∨
        ∃ made middle, first machine = .done made middle ∧
          next made middle = .stopped stop final := by
  rw [bind_apply]
  cases first machine with
  | done made middle =>
    constructor
    · intro later
      exact .inr ⟨made, middle, rfl, later⟩
    · rintro (never | ⟨_, _, same, later⟩)
      · cases never
      · cases same
        exact later
  | stopped other middle => simp

theorem evaluateAll_stopped {eval : Expr → Exec Value} {values : List Expr}
    (result : evaluateAll eval values machine = .stopped stop final) :
    ∃ before value rest results ready, values = before ++ value :: rest ∧
      evaluateAll eval before machine = .done results ready ∧
      eval value ready = .stopped stop final := by
  induction values generalizing machine with
  | nil => cases result
  | cons first rest ih =>
    rcases Exec.bind_eq_stopped.mp result with here | ⟨value, middle, done, later⟩
    · exact ⟨[], first, rest, [], machine, rfl, rfl, here⟩
    · rcases Exec.bind_eq_stopped.mp later with there | ⟨_, _, _, never⟩
      · obtain ⟨before, found, others, results, ready, rfl, ran, stops⟩ := ih there
        refine ⟨first :: before, found, others, value :: results, ready, rfl, ?_, stops⟩
        exact Exec.bind_eq_done.mpr ⟨value, middle, done,
          Exec.bind_eq_done.mpr ⟨results, ready, ran, rfl⟩⟩
      · cases never

theorem runAll_stopped {run : Stmt → Exec Flow} {body : List Stmt}
    (result : runAll run body machine = .stopped stop final) :
    ∃ stmt reached, ComesUp run body machine stmt reached ∧ run stmt reached = .stopped stop final := by
  induction body generalizing machine with
  | nil => cases result
  | cons first rest ih =>
    rcases Exec.bind_eq_stopped.mp result with here | ⟨flow, middle, done, later⟩
    · exact ⟨first, machine, ⟨[], rest, rfl, rfl⟩, here⟩
    · cases flow with
      | next =>
        obtain ⟨stmt, reached, ⟨before, others, rfl, ran⟩, stops⟩ := ih later
        refine ⟨stmt, reached, ⟨first :: before, others, rfl, ?_⟩, stops⟩
        exact Exec.bind_eq_done.mpr ⟨.next, middle, done, ran⟩
      | returned value => cases later

/-- A fault in a loop comes up in the test or in the body, after some number of full rounds. -/
theorem iterate_stopped {test : Exec Value} {body : Exec Flow} {fault : RuntimeFault} {bound : Nat}
    (result : iterate test body bound machine = .stopped (.fault fault) final) :
    ∃ rounds reached, Rounds test body rounds machine reached ∧ rounds < bound ∧
      (test reached = .stopped (.fault fault) final ∨
        ∃ again tested, test reached = .done again tested ∧ again.truthy = true ∧
          body tested = .stopped (.fault fault) final) := by
  induction bound generalizing machine with
  | zero => cases result
  | succ bound ih =>
    rcases Exec.bind_eq_stopped.mp result with here | ⟨again, tested, done, later⟩
    · exact ⟨0, machine, .none machine, Nat.succ_pos bound, .inl here⟩
    · by_cases goes : again.truthy
      · rw [if_pos goes] at later
        rcases Exec.bind_eq_stopped.mp later with inBody | ⟨flow, finished, ran, after⟩
        · exact ⟨0, machine, .none machine, Nat.succ_pos bound,
            .inr ⟨again, tested, done, goes, inBody⟩⟩
        · cases flow with
          | next =>
            obtain ⟨rounds, reached, all, fewer, stops⟩ := ih after
            exact ⟨rounds + 1, reached, .more done goes ran all, Nat.succ_lt_succ fewer, stops⟩
          | returned value => cases after
      · rw [if_neg goes] at later
        cases later

theorem bindParameters_done (frame : FrameId) (names : List Ident) (values : List Value)
    (machine : Machine) :
    ∃ entered, bindParameters frame names values machine = .done () entered := by
  induction names generalizing values machine with
  | nil => exact ⟨machine, rfl⟩
  | cons name rest ih =>
    cases values with
    | nil => exact ⟨machine, rfl⟩
    | cons value values => exact ih values _

theorem within_stopped {α : Type} {frame : FrameId} {body : Exec α}
    (result : within frame body machine = .stopped stop final) :
    ∃ inner, body { machine with current := frame } = .stopped stop inner := by
  unfold within at result
  cases ran : body { machine with current := frame } with
  | done value after => simp [ran] at result
  | stopped other after =>
    simp only [ran, Step.stopped.injEq] at result
    exact ⟨after, by rw [result.1]⟩

theorem evaluateAll_of_stopped {eval : Expr → Exec Value} {before rest : List Expr} {value : Expr}
    {results : List Value} {ready : Machine}
    (ran : evaluateAll eval before machine = .done results ready)
    (stops : eval value ready = .stopped stop final) :
    evaluateAll eval (before ++ value :: rest) machine = .stopped stop final := by
  induction before generalizing machine results with
  | nil =>
    cases ran
    exact Exec.bind_eq_stopped.mpr (.inl stops)
  | cons first others ih =>
    obtain ⟨made, middle, done, later⟩ := Exec.bind_eq_done.mp ran
    obtain ⟨more, reached, further, last⟩ := Exec.bind_eq_done.mp later
    cases last
    exact Exec.bind_eq_stopped.mpr (.inr ⟨made, middle, done,
      Exec.bind_eq_stopped.mpr (.inl (ih further))⟩)

theorem runAll_of_stopped {run : Stmt → Exec Flow} {body : List Stmt} {stmt : Stmt}
    {reached : Machine} (comesUp : ComesUp run body machine stmt reached)
    (stops : run stmt reached = .stopped stop final) :
    runAll run body machine = .stopped stop final := by
  obtain ⟨before, rest, rfl, ran⟩ := comesUp
  rw [runAll_behind ran]
  exact Exec.bind_eq_stopped.mpr (.inl stops)

theorem iterate_of_test {test : Exec Value} {body : Exec Flow} {rounds bound : Nat}
    {reached : Machine} (all : Rounds test body rounds machine reached) (fewer : rounds < bound)
    (stops : test reached = .stopped stop final) :
    iterate test body bound machine = .stopped stop final := by
  obtain ⟨left, rfl⟩ := Nat.exists_eq_add_of_lt fewer
  rw [Nat.add_assoc, all.iterate]
  exact Exec.bind_eq_stopped.mpr (.inl stops)

theorem iterate_of_body {test : Exec Value} {body : Exec Flow} {rounds bound : Nat}
    {reached tested : Machine} {again : Value} (all : Rounds test body rounds machine reached)
    (fewer : rounds < bound) (passes : test reached = .done again tested)
    (goes : again.truthy = true) (stops : body tested = .stopped stop final) :
    iterate test body bound machine = .stopped stop final := by
  obtain ⟨left, rfl⟩ := Nat.exists_eq_add_of_lt fewer
  rw [Nat.add_assoc, all.iterate]
  refine Exec.bind_eq_stopped.mpr (.inr ⟨_, _, passes, ?_⟩)
  rw [if_pos goes]
  exact Exec.bind_eq_stopped.mpr (.inl stops)

theorem within_of_stopped {α : Type} {frame : FrameId} {body : Exec α}
    (stops : body { machine with current := frame } = .stopped stop final) :
    within frame body machine = .stopped stop { final with current := machine.current } := by
  unfold within
  rw [stops]

end Stopping

/-- Why a value cannot be called with these arguments. -/
def ValueOver.refusal? {Closure : Type} (arguments : List (ValueOver Closure)) :
    ValueOver Closure → Option RuntimeCause
  | .callable _ target =>
    if arguments.length = target.arity then none
    else some (.arityMismatch target.arity arguments.length)
  | _ => some .notCallable

theorem ValueOver.refusal?_eq_some {Closure : Type} {value : ValueOver Closure}
    {cause : RuntimeCause} {arguments : List (ValueOver Closure)}
    (refused : value.refusal? arguments = some cause) :
    cause = .notCallable ∨ ∃ expected actual, cause = .arityMismatch expected actual := by
  unfold refusal? at refused
  split at refused
  · split at refused <;> cases refused
    exact .inr ⟨_, _, rfl⟩
  · cases refused
    exact .inl rfl

/-- The moment ends in a fault itself, at its own node; nothing that it has started did. -/
inductive Raises : Moment → Site → RuntimeCause → Prop
  | unread {bound initializing site name machine} :
    machine.lookUp? site.id name = none →
    Raises (.evaluating (bound + 1) initializing (.variable site name) machine) site
      (.undefinedVariable name)
  | unassigned {bound initializing site target value machine result after} :
    evaluate bound value machine = .done result after →
    after.readFrame? site.id target = none →
    Raises (.evaluating (bound + 1) initializing (.assign site target value) machine) site
      (.undefinedVariable target)
  | operand {bound initializing site} {op : UnaryOp} {operand machine value after cause} :
    evaluate bound operand machine = .done value after →
    op.apply value = .error cause →
    Raises (.evaluating (bound + 1) initializing (.unary site op operand) machine) site cause
  | operands {bound initializing site} {op : BinaryOp} {left right machine first middle second after
      cause} :
    evaluate bound left machine = .done first middle →
    evaluate bound right middle = .done second after →
    op.apply first second = .error cause →
    Raises (.evaluating (bound + 1) initializing (.binary site op left right) machine) site cause
  | refused {bound initializing site callee arguments machine target called values ready cause} :
    evaluate bound callee machine = .done target called →
    evaluateAll (evaluate bound) arguments called = .done values ready →
    target.refusal? values = some cause →
    Raises (.evaluating (bound + 1) initializing (.call site callee arguments) machine) site cause

section Faults

variable {fault : RuntimeFault}

/-- What starts at the moment ends in the fault. -/
def Moment.Stops (fault : RuntimeFault) : Moment → Prop
  | .evaluating bound _ expr machine =>
    ∃ final, evaluate bound expr machine = .stopped (.fault fault) final
  | .executing bound stmt machine =>
    ∃ final, execute bound stmt machine = .stopped (.fault fault) final

theorem Exec.atLine_stopped {α : Type} {line : Nat} {result : Except RuntimeCause α} {stop : Stop}
    {machine final : Machine} (stops : Exec.atLine line result machine = .stopped stop final) :
    ∃ cause, result = .error cause ∧ stop = .fault ⟨cause, line⟩ := by
  cases result with
  | ok value => cases stops
  | error cause =>
    cases stops
    exact ⟨cause, rfl, rfl⟩

theorem callValue_stopped {bound line : Nat} {callee : Value} {arguments : List Value}
    {machine final : Machine}
    (stops : callValue (execute bound) line callee arguments machine =
      .stopped (.fault fault) final) :
    (∃ cause, callee.refusal? arguments = some cause ∧ fault = ⟨cause, line⟩) ∨
    ∃ identity declaration closure frame opened entered stmt reached,
      callee = .callable identity (.function declaration closure) ∧
      arguments.length = declaration.parameters.length ∧
      openInside closure machine = .done frame opened ∧
      bindParameters frame declaration.parameters arguments opened = .done () entered ∧
      ComesUp (execute bound) declaration.body { entered with current := frame } stmt reached ∧
      (Moment.executing bound stmt reached).Stops fault := by
  cases callee with
  | callable identity target =>
    by_cases enough : arguments.length = target.arity
    -- With the right number of arguments only a statement of the body can raise the fault.
    · right
      simp only [callValue, if_pos enough] at stops
      cases target with
      | native builtin =>
        obtain ⟨_, _, rule⟩ := builtin
        cases rule <;> cases stops
      | function declaration closure =>
        rcases Exec.bind_eq_stopped.mp stops with never | ⟨frame, opened, opens, later⟩
        · cases never
        obtain ⟨entered, binds⟩ :=
          bindParameters_done frame declaration.parameters arguments opened
        rcases Exec.bind_eq_stopped.mp later with never | ⟨_, _, same, after⟩
        · cases binds.symm.trans never
        cases binds.symm.trans same
        rcases Exec.bind_eq_stopped.mp after with inBody | ⟨flow, _, _, never⟩
        · obtain ⟨inner, ran⟩ := within_stopped inBody
          obtain ⟨stmt, reached, comesUp, stopped⟩ := runAll_stopped ran
          exact ⟨identity, declaration, closure, frame, opened, entered, stmt, reached, rfl, enough,
            opens, binds, comesUp, inner, stopped⟩
        · cases flow <;> cases never
    · left
      refine ⟨_, if_neg enough, ?_⟩
      simp only [callValue, if_neg enough] at stops
      cases stops
      rfl
  | _ =>
    cases stops
    exact .inl ⟨_, rfl, rfl⟩

theorem callValue_of_stopped {bound identity : Nat} {declaration : Function} {closure frame : FrameId}
    {values : List Value} {machine opened entered reached final : Machine} {stmt : Stmt} {stop : Stop}
    (enough : values.length = declaration.parameters.length)
    (opens : openInside closure machine = .done frame opened)
    (binds : bindParameters frame declaration.parameters values opened = .done () entered)
    (comesUp : ComesUp (execute bound) declaration.body { entered with current := frame } stmt reached)
    (stops : execute bound stmt reached = .stopped stop final) (line : Nat) :
    ∃ last, callValue (execute bound) line (.callable identity (.function declaration closure))
      values machine = .stopped stop last := by
  have inside := within_of_stopped (runAll_of_stopped comesUp stops)
  refine ⟨{ final with current := entered.current }, (congrFun (if_pos enough) machine).trans ?_⟩
  exact Exec.bind_eq_stopped.mpr (.inr ⟨_, _, opens, Exec.bind_eq_stopped.mpr (.inr ⟨_, _, binds,
    Exec.bind_eq_stopped.mpr (.inl inside)⟩)⟩)

theorem callValue_refused {run : Stmt → Exec Flow} {callee : Value} {arguments : List Value}
    {cause : RuntimeCause} (refused : callee.refusal? arguments = some cause) (line : Nat) :
    callValue run line callee arguments = Exec.fault cause line := by
  cases callee with
  | callable identity target =>
    by_cases enough : arguments.length = target.arity
    · simp [ValueOver.refusal?, enough] at refused
    · simp only [ValueOver.refusal?, if_neg enough, Option.some.injEq] at refused
      simp only [callValue, if_neg enough, refused]
  | _ =>
    cases refused
    rfl

/-- An expression ends in a fault because it raises it, or because something that it starts ends in
it. -/
theorem stops_evaluating {bound : Nat} {initializing : Option Ident} {expr : Expr}
    {machine : Machine} (stops : (Moment.evaluating bound initializing expr machine).Stops fault) :
    (∃ site cause, Raises (.evaluating bound initializing expr machine) site cause ∧
      fault = ⟨cause, site.line⟩) ∨
    ∃ inner, Starts (.evaluating bound initializing expr machine) inner ∧ inner.Stops fault := by
  obtain ⟨final, stops⟩ := stops
  cases bound with
  | zero => cases stops
  | succ bound =>
  cases expr with
  | literal site value => cases stops
  -- Nothing is started here, so the fault can only be that the name is not found.
  | «variable» site name =>
    left
    change readVariable site name machine = _ at stops
    unfold readVariable at stops
    split at stops
    · cases stops
    · rename_i missing
      cases stops
      exact ⟨site, _, .unread missing, rfl⟩
  | assign site target value =>
    rcases Exec.bind_eq_stopped.mp stops with inner | ⟨result, after, evaluated, later⟩
    · exact .inr ⟨_, .assigned, final, inner⟩
    · rcases Exec.bind_eq_stopped.mp later with assigning | ⟨_, _, _, never⟩
      · left
        unfold assignVariable at assigning
        split at assigning
        · cases assigning
        · rename_i missing
          cases assigning
          exact ⟨site, _, .unassigned evaluated missing, rfl⟩
      · cases never
  | group site inner => exact .inr ⟨_, .grouped, final, stops⟩
  | unary site op operand =>
    rcases Exec.bind_eq_stopped.mp stops with inner | ⟨value, after, evaluated, applied⟩
    · exact .inr ⟨_, .operand, final, inner⟩
    · obtain ⟨cause, error, same⟩ := Exec.atLine_stopped applied
      cases same
      exact .inl ⟨site, cause, .operand evaluated error, rfl⟩
  | binary site op left right =>
    rcases Exec.bind_eq_stopped.mp stops with inner | ⟨first, middle, evaluated, later⟩
    · exact .inr ⟨_, .leftOperand, final, inner⟩
    · rcases Exec.bind_eq_stopped.mp later with inner | ⟨second, after, further, applied⟩
      · exact .inr ⟨_, .rightOperand evaluated, final, inner⟩
      · obtain ⟨cause, error, same⟩ := Exec.atLine_stopped applied
        cases same
        exact .inl ⟨site, cause, .operands evaluated further error, rfl⟩
  | logical site op left right =>
    rcases Exec.bind_eq_stopped.mp stops with inner | ⟨first, after, evaluated, later⟩
    · exact .inr ⟨_, .leftChoice, final, inner⟩
    · cases decided : op.decides first with
      | true => simp [decided] at later
      | false =>
        rw [decided] at later
        exact .inr ⟨_, .rightChoice evaluated decided, final, later⟩
  | call site callee arguments =>
    rcases Exec.bind_eq_stopped.mp stops with inner | ⟨target, called, evaluated, later⟩
    · exact .inr ⟨_, .callee, final, inner⟩
    · rcases Exec.bind_eq_stopped.mp later with inner | ⟨values, ready, further, calling⟩
      · obtain ⟨before, argument, rest, results, reached, among, ran, stopped⟩ :=
          evaluateAll_stopped inner
        exact .inr ⟨_, .argument evaluated among ran, final, stopped⟩
      -- The call is refused, or the fault comes out of the body.
      · rcases callValue_stopped calling with ⟨cause, refused, same⟩ | inBody
        · exact .inl ⟨site, cause, .refused evaluated further refused, same⟩
        · obtain ⟨identity, declaration, closure, frame, opened, entered, stmt, reached, rfl,
            enough, opens, binds, comesUp, stopped⟩ := inBody
          exact .inr ⟨_, .called evaluated further enough opens binds comesUp, stopped⟩

theorem stops_executing {bound : Nat} {stmt : Stmt} {machine : Machine}
    (stops : (Moment.executing bound stmt machine).Stops fault) :
    ∃ inner, Starts (.executing bound stmt machine) inner ∧ inner.Stops fault := by
  obtain ⟨final, stops⟩ := stops
  cases bound with
  | zero => cases stops
  | succ bound =>
  cases stmt with
  | var declared initial =>
    rcases Exec.bind_eq_stopped.mp stops with inner | ⟨_, _, _, never⟩
    · cases initial with
      | none => cases inner
      | some value => exact ⟨_, .initializer, final, inner⟩
    · cases never
  | function declared parameters body => cases stops
  | expression value =>
    rcases Exec.bind_eq_stopped.mp stops with inner | ⟨_, _, _, never⟩
    · exact ⟨_, .expression, final, inner⟩
    · cases never
  | print value =>
    rcases Exec.bind_eq_stopped.mp stops with inner | ⟨_, _, _, never⟩
    · exact ⟨_, .printed, final, inner⟩
    · cases never
  -- Leaving a block raises nothing, so that a statement in it has.
  | block body =>
    obtain ⟨inner, ran⟩ := within_stopped stops
    obtain ⟨stmt, reached, comesUp, stopped⟩ := runAll_stopped ran
    exact ⟨_, .block rfl comesUp, inner, stopped⟩
  | ifThen test yes =>
    rcases Exec.bind_eq_stopped.mp stops with inner | ⟨chosen, after, done, later⟩
    · exact ⟨_, .testThen, final, inner⟩
    · cases truth : chosen.truthy with
      | true =>
        rw [truth] at later
        exact ⟨_, .yesThen done truth, final, later⟩
      | false =>
        rw [truth] at later
        cases later
  | ifElse test yes no =>
    rcases Exec.bind_eq_stopped.mp stops with inner | ⟨chosen, after, done, later⟩
    · exact ⟨_, .testElse, final, inner⟩
    · cases truth : chosen.truthy with
      | true =>
        rw [truth] at later
        exact ⟨_, .yesElse done truth, final, later⟩
      | false =>
        rw [truth] at later
        exact ⟨_, .noElse done truth, final, later⟩
  -- Some rounds were complete; the fault is in the test or in the body of the next.
  | loop test body =>
    obtain ⟨rounds, reached, all, fewer, inTest | ⟨again, tested, done, truth, inBody⟩⟩ :=
      iterate_stopped stops
    · exact ⟨_, .testLoop all fewer, final, inTest⟩
    · exact ⟨_, .bodyLoop all fewer done truth, final, inBody⟩
  | «return» place value =>
    rcases Exec.bind_eq_stopped.mp stops with inner | ⟨_, _, _, never⟩
    · cases value with
      | none => cases inner
      | some value => exact ⟨_, .result, final, inner⟩
    · cases never

def Moment.bound : Moment → Nat
  | .evaluating bound _ _ _ => bound
  | .executing bound _ _ => bound

theorem Starts.bound_lt {moment inner : Moment} (starts : Starts moment inner) :
    inner.bound < moment.bound := by
  cases starts <;> exact Nat.lt_succ_self _

/-- Every fault is raised somewhere, by a node on its line. -/
theorem Moment.Stops.raised {moment : Moment} (stops : moment.Stops fault) :
    ∃ inner site cause, Reaches moment inner ∧ Raises inner site cause ∧
      fault = ⟨cause, site.line⟩ := by
  -- what is started has a smaller bound, so it is known where its fault is raised
  induction size : moment.bound using Nat.strongRecOn generalizing moment with
  | ind bound ih =>
    have further {inner : Moment} (starts : Starts moment inner) (stopped : inner.Stops fault) :
        ∃ inner site cause, Reaches moment inner ∧ Raises inner site cause ∧
          fault = ⟨cause, site.line⟩ := by
      obtain ⟨last, site, cause, reaches, raises, same⟩ :=
        ih inner.bound (size ▸ starts.bound_lt) stopped rfl
      exact ⟨last, site, cause, .head starts reaches, raises, same⟩
    cases moment with
    | evaluating bound initializing expr machine =>
      rcases stops_evaluating stops with ⟨site, cause, raises, same⟩ | ⟨inner, starts, stopped⟩
      · exact ⟨_, site, cause, .refl, raises, same⟩
      · exact further starts stopped
    | executing bound stmt machine =>
      obtain ⟨inner, starts, stopped⟩ := stops_executing stops
      exact further starts stopped

theorem Raises.stops {moment : Moment} {site : Site} {cause : RuntimeCause}
    (raises : Raises moment site cause) : moment.Stops ⟨cause, site.line⟩ := by
  cases raises with
  | @unread bound initializing site name machine missing =>
    refine ⟨machine, ?_⟩
    change readVariable site name machine = _
    unfold readVariable
    rw [missing]
  | @unassigned bound initializing site target value machine result after evaluated missing =>
    have assigning : assignVariable site target result after =
        .stopped (.fault ⟨.undefinedVariable target, site.line⟩) after := by
      unfold assignVariable
      rw [missing]
    exact ⟨after, Exec.bind_eq_stopped.mpr (.inr ⟨_, _, evaluated,
      Exec.bind_eq_stopped.mpr (.inl assigning)⟩)⟩
  | @operand bound initializing site op operand machine value after cause evaluated applied =>
    refine ⟨after, Exec.bind_eq_stopped.mpr (.inr ⟨_, _, evaluated, ?_⟩)⟩
    rw [applied]
    rfl
  | @operands bound initializing site op left right machine first middle second after cause evaluated
      further applied =>
    refine ⟨after, Exec.bind_eq_stopped.mpr (.inr ⟨_, _, evaluated,
      Exec.bind_eq_stopped.mpr (.inr ⟨_, _, further, ?_⟩)⟩)⟩
    rw [applied]
    rfl
  | @refused bound initializing site callee arguments machine target called values ready cause
      evaluated further refused =>
    refine ⟨ready, Exec.bind_eq_stopped.mpr (.inr ⟨_, _, evaluated,
      Exec.bind_eq_stopped.mpr (.inr ⟨_, _, further, ?_⟩)⟩)⟩
    exact congrFun (callValue_refused refused site.line) ready

/-- A fault of something that was started stops whoever started it. -/
theorem Starts.stops {moment inner : Moment} (starts : Starts moment inner)
    (stopped : inner.Stops fault) : moment.Stops fault := by
  cases starts with
  | assigned | operand | leftOperand | leftChoice | callee | initializer | expression | printed
  | result | testThen | testElse =>
    obtain ⟨final, stops⟩ := stopped
    exact ⟨final, Exec.bind_eq_stopped.mpr (.inl stops)⟩
  | grouped => exact stopped
  | rightOperand first =>
    obtain ⟨final, stops⟩ := stopped
    exact ⟨final, Exec.bind_eq_stopped.mpr (.inr ⟨_, _, first,
      Exec.bind_eq_stopped.mpr (.inl stops)⟩)⟩
  | rightChoice first decided =>
    obtain ⟨final, stops⟩ := stopped
    refine ⟨final, Exec.bind_eq_stopped.mpr (.inr ⟨_, _, first, ?_⟩)⟩
    rw [decided]
    exact stops
  | argument calls among ready =>
    obtain ⟨final, stops⟩ := stopped
    subst among
    exact ⟨final, Exec.bind_eq_stopped.mpr (.inr ⟨_, _, calls,
      Exec.bind_eq_stopped.mpr (.inl (evaluateAll_of_stopped ready stops))⟩)⟩
  | called calls ready enough opens binds comesUp =>
    obtain ⟨final, stops⟩ := stopped
    obtain ⟨last, calling⟩ := callValue_of_stopped enough opens binds comesUp stops _
    exact ⟨last, Exec.bind_eq_stopped.mpr (.inr ⟨_, _, calls,
      Exec.bind_eq_stopped.mpr (.inr ⟨_, _, ready, calling⟩)⟩)⟩
  | block opens comesUp =>
    obtain ⟨final, stops⟩ := stopped
    cases opens
    exact ⟨_, within_of_stopped (runAll_of_stopped comesUp stops)⟩
  | yesThen tested truth | yesElse tested truth | noElse tested truth =>
    obtain ⟨final, stops⟩ := stopped
    refine ⟨final, Exec.bind_eq_stopped.mpr (.inr ⟨_, _, tested, ?_⟩)⟩
    rw [truth]
    exact stops
  | testLoop rounds fewer =>
    obtain ⟨final, stops⟩ := stopped
    exact ⟨final, iterate_of_test rounds fewer stops⟩
  | bodyLoop rounds fewer tested truth =>
    obtain ⟨final, stops⟩ := stopped
    exact ⟨final, iterate_of_body rounds fewer tested truth stops⟩

theorem Reaches.stops {moment inner : Moment} (reaches : Reaches moment inner)
    (stopped : inner.Stops fault) : moment.Stops fault := by
  induction reaches using Relation.ReflTransGen.head_induction_on with
  | refl => exact stopped
  | head starts _ ih => exact starts.stops ih

end Faults
end LoxLang

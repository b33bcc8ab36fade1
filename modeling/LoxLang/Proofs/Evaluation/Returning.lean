import LoxLang.Proofs.Evaluation.Moments
import LoxLang.Proofs.Evaluation.Returns

/-!
What becomes of a return. It ends all the statements that it stands in, up to the body of the function
that is being run, and its value is that of the call; in between nothing more is done.
-/
namespace LoxLang

/-- A return, the value that it gives, and the machine that it has then. -/
inductive Moment.Returns : Moment → Value → Machine → Prop
  | mk {depth line value machine result after} :
    evaluateOr (evaluate depth) value machine = .done result after →
    Returns (.executing (depth + 1) (.return line value) machine) result after

def Moment.IsExecuting : Moment → Prop
  | .evaluating _ _ _ _ => False
  | .executing _ _ _ => True

/-- A statement comes to a statement that stands in it, and no call begins. -/
structure Nests (outer inner : Moment) : Prop where
  starts : Starts outer inner
  outer : outer.IsExecuting
  inner : inner.IsExecuting

/-- From a statement to one that stands in it at any depth, in the same call. -/
abbrev ReachesWithin : Moment → Moment → Prop := Relation.ReflTransGen Nests

/-- The call of a script function has a frame of its own, with the parameters in it. -/
def CallEnters (declaration : Function) (closure : FrameId) (arguments : List Value)
    (machine : Machine) (frame : FrameId) (entered : Machine) : Prop :=
  ∃ opened, openInside closure machine = .done frame opened ∧
    bindParameters frame declaration.parameters arguments opened = .done () entered

def CallReaches (bound : Nat) (declaration : Function) (closure : FrameId) (arguments : List Value)
    (machine : Machine) (stmt : Stmt) (reached : Machine) : Prop :=
  ∃ frame entered, CallEnters declaration closure arguments machine frame entered ∧
    ComesUp (execute bound) declaration.body { entered with current := frame } stmt reached

def CallCompletes (bound : Nat) (declaration : Function) (closure : FrameId) (arguments : List Value)
    (machine last : Machine) : Prop :=
  ∃ frame entered, CallEnters declaration closure arguments machine frame entered ∧
    runAll (execute bound) declaration.body { entered with current := frame } = .done .next last

section Parts

variable {run : Stmt → Exec Flow} {body : List Stmt} {machine after : Machine} {result : Value}

theorem runAll_returned : runAll run body machine = .done (.returned result) after ↔
    ∃ stmt reached, ComesUp run body machine stmt reached ∧
      run stmt reached = .done (.returned result) after := by
  constructor
  · intro ran
    induction body generalizing machine with
    | nil => cases ran
    | cons first rest ih =>
      obtain ⟨flow, middle, done, later⟩ := Exec.bind_eq_done.mp ran
      cases flow with
      | next =>
        obtain ⟨stmt, reached, ⟨before, others, rfl, ahead⟩, returned⟩ := ih later
        exact ⟨stmt, reached, ⟨first :: before, others, rfl,
          Exec.bind_eq_done.mpr ⟨.next, middle, done, ahead⟩⟩, returned⟩
      | returned value =>
        cases later
        exact ⟨first, machine, ⟨[], rest, rfl, rfl⟩, done⟩
  · rintro ⟨stmt, reached, ⟨before, rest, rfl, ahead⟩, returned⟩
    rw [runAll_behind ahead]
    exact Exec.bind_eq_done.mpr ⟨_, _, returned, rfl⟩

theorem iterate_returned {test : Exec Value} {body : Exec Flow} {bound : Nat} :
    iterate test body bound machine = .done (.returned result) after ↔
      ∃ rounds reached again tested, Rounds test body rounds machine reached ∧ rounds < bound ∧
        test reached = .done again tested ∧ again.truthy = true ∧
        body tested = .done (.returned result) after := by
  constructor
  · intro ran
    induction bound generalizing machine with
    | zero => cases ran
    | succ bound ih =>
      obtain ⟨again, tested, done, later⟩ := Exec.bind_eq_done.mp ran
      by_cases goes : again.truthy
      · rw [if_pos goes] at later
        obtain ⟨flow, finished, did, further⟩ := Exec.bind_eq_done.mp later
        cases flow with
        | next =>
          obtain ⟨rounds, reached, last, ready, all, fewer, rest⟩ := ih further
          exact ⟨rounds + 1, reached, last, ready, .more done goes did all,
            Nat.succ_lt_succ fewer, rest⟩
        | returned value =>
          cases further
          exact ⟨0, machine, again, tested, .none machine, Nat.succ_pos bound, done, goes, did⟩
      · rw [if_neg goes] at later
        cases later
  · rintro ⟨rounds, reached, again, tested, all, fewer, done, goes, returned⟩
    -- The full rounds are run first, and one more round returns.
    obtain ⟨left, rfl⟩ := Nat.exists_eq_add_of_lt fewer
    rw [Nat.add_assoc, all.iterate]
    refine Exec.bind_eq_done.mpr ⟨_, _, done, ?_⟩
    rw [if_pos goes]
    exact Exec.bind_eq_done.mpr ⟨_, _, returned, rfl⟩

theorem within_done {α : Type} {frame : FrameId} {inside : Exec α} {value : α} :
    within frame inside machine = .done value after ↔
      ∃ last, inside { machine with current := frame } = .done value last ∧
        after = { last with current := machine.current } := by
  unfold within
  cases inside { machine with current := frame } with
  | done made last =>
    constructor
    · intro same
      cases same
      exact ⟨last, rfl, rfl⟩
    · rintro ⟨_, same, rfl⟩
      cases same
      rfl
  | stopped stop last => simp

end Parts

theorem Machine.here {machine : Machine} {frame : FrameId} (same : machine.current = frame) :
    { machine with current := frame } = machine := by
  cases same
  rfl

/-- The statement ends with the result, and nothing is left to do but to go back to its own frame. -/
def Moment.EndsWith (result : Value) (after : Machine) : Moment → Prop
  | .evaluating _ _ _ _ => False
  | .executing bound stmt machine =>
    execute bound stmt machine = .done (.returned result) { after with current := machine.current }

section Statements

variable {moment inner : Moment} {after : Machine} {result : Value}

theorem Moment.Returns.endsWith (returns : moment.Returns result after) :
    moment.EndsWith result after := by
  cases returns with
  | mk evaluated =>
    have came := (grows_evaluateOr (grows_evaluate _) _).done evaluated
    change execute _ _ _ = _
    rw [Machine.here came.current]
    exact Exec.bind_eq_done.mpr ⟨_, _, evaluated, rfl⟩

/-- A statement that returns ends the one that it stands in, which does nothing more. -/
theorem Nests.endsWith (nests : Nests moment inner) (ends : inner.EndsWith result after) :
    moment.EndsWith result after := by
  obtain ⟨starts, outer, nested⟩ := nests
  cases starts with
  | block opens comesUp =>
    cases opens
    have ran := runAll_returned.mpr ⟨_, _, comesUp, ends⟩
    exact within_done.mpr ⟨_, ran, rfl⟩
  | yesThen tested truth | yesElse tested truth | noElse tested truth =>
    have came := (grows_evaluate _ _).done tested
    refine Exec.bind_eq_done.mpr ⟨_, _, tested, ?_⟩
    rw [truth, ← came.current]
    exact ends
  | bodyLoop rounds fewer tested truth =>
    have ran := iterate_returned.mpr ⟨_, _, _, _, rounds, fewer, tested, truth, ends⟩
    have came := ((grows_iterate (grows_evaluate _ _) (grows_execute _ _) _).done ran).current
    dsimp only at came
    change iterate _ _ _ _ = _
    rw [ran, came]
  | _ => first | exact outer.elim | exact nested.elim

theorem ReachesWithin.endsWith (reaches : ReachesWithin moment inner)
    (returns : inner.Returns result after) : moment.EndsWith result after := by
  induction reaches using Relation.ReflTransGen.head_induction_on with
  | refl => exact returns.endsWith
  | head nests _ ih => exact nests.endsWith ih

/-- Whatever returns comes to a return that stands in it. -/
theorem execute_returned {bound : Nat} {stmt : Stmt} {machine last : Machine}
    (returned : execute bound stmt machine = .done (.returned result) last) :
    ∃ inner after, ReachesWithin (.executing bound stmt machine) inner ∧
      inner.Returns result after ∧ last = { after with current := machine.current } := by
  induction bound generalizing stmt machine last with
  | zero => cases returned
  | succ bound ih =>
    have further (final : Machine) {inner : Stmt} {reached : Machine}
        (starts : Starts (.executing (bound + 1) stmt machine) (.executing bound inner reached))
        (ends : execute bound inner reached = .done (.returned result) final) :
        ∃ inner after, ReachesWithin (.executing (bound + 1) stmt machine) inner ∧
          inner.Returns result after ∧
          { final with current := machine.current } = { after with current := machine.current } := by
      obtain ⟨found, after, reaches, returns, rfl⟩ := ih ends
      exact ⟨found, after, .head ⟨starts, trivial, trivial⟩ reaches, returns, rfl⟩
    -- every statement ends in the frame that it began in, so that its own is the one to go back to
    have same := Machine.here ((grows_execute _ _).done returned).current
    rw [← same]
    cases stmt with
    | var name initial =>
      obtain ⟨_, _, _, later⟩ := Exec.bind_eq_done.mp returned
      obtain ⟨_, _, _, never⟩ := Exec.bind_eq_done.mp later
      cases never
    | function name parameters body => cases returned
    | expression value =>
      obtain ⟨_, _, _, never⟩ := Exec.bind_eq_done.mp returned
      cases never
    | print value =>
      obtain ⟨_, _, _, later⟩ := Exec.bind_eq_done.mp returned
      cases later
    | block body =>
      obtain ⟨final, ran, rfl⟩ := within_done.mp returned
      obtain ⟨inner, reached, comesUp, ends⟩ := runAll_returned.mp ran
      exact further final (.block rfl comesUp) ends
    | ifThen test yes =>
      obtain ⟨chosen, tested, done, later⟩ := Exec.bind_eq_done.mp returned
      cases truth : chosen.truthy with
      | true => exact further last (.yesThen done truth) (by rwa [truth] at later)
      | false =>
        rw [truth] at later
        cases later
    | ifElse test yes no =>
      obtain ⟨chosen, tested, done, later⟩ := Exec.bind_eq_done.mp returned
      cases truth : chosen.truthy with
      | true => exact further last (.yesElse done truth) (by rwa [truth] at later)
      | false => exact further last (.noElse done truth) (by rwa [truth] at later)
    | loop test body =>
      obtain ⟨rounds, reached, again, tested, all, fewer, done, goes, ends⟩ :=
        iterate_returned.mp returned
      exact further last (.bodyLoop all fewer done goes) ends
    | «return» line value =>
      obtain ⟨made, after, evaluated, later⟩ := Exec.bind_eq_done.mp returned
      cases later
      exact ⟨_, _, .refl, .mk evaluated, rfl⟩

end Statements

/-- What a call gives when the body ends so. -/
def Flow.value : Flow → Value
  | .next => .nil
  | .returned value => value

section Calls

variable {bound : Nat} {declaration : Function} {closure frame : FrameId} {arguments : List Value}
  {machine entered final : Machine} {result : Value}

theorem CallEnters.current (enters : CallEnters declaration closure arguments machine frame entered) :
    entered.current = machine.current := by
  obtain ⟨opened, opens, binds⟩ := enters
  rw [((grows_bindParameters _ _ _).done binds).current, ((grows_openInside _).done opens).current]

theorem call_done : (CallableOver.function declaration closure).run (execute bound) arguments machine =
      .done result final ↔
    ∃ frame entered flow last, CallEnters declaration closure arguments machine frame entered ∧
      runAll (execute bound) declaration.body { entered with current := frame } = .done flow last ∧
      result = flow.value ∧ final = { last with current := machine.current } := by
  constructor
  · intro ran
    obtain ⟨frame, opened, opens, later⟩ := Exec.bind_eq_done.mp ran
    obtain ⟨_, entered, binds, after⟩ := Exec.bind_eq_done.mp later
    obtain ⟨flow, _, inside, gives⟩ := Exec.bind_eq_done.mp after
    obtain ⟨last, did, rfl⟩ := within_done.mp inside
    have enters : CallEnters declaration closure arguments machine frame entered :=
      ⟨opened, opens, binds⟩
    rw [enters.current] at gives
    cases flow <;> cases gives <;> exact ⟨frame, entered, _, last, enters, did, rfl, rfl⟩
  · rintro ⟨frame, entered, flow, last, enters, did, rfl, rfl⟩
    have back := enters.current
    obtain ⟨opened, opens, binds⟩ := enters
    refine Exec.bind_eq_done.mpr ⟨_, _, opens, Exec.bind_eq_done.mpr ⟨_, _, binds,
      Exec.bind_eq_done.mpr ⟨flow, _, within_done.mpr ⟨last, did, rfl⟩, ?_⟩⟩⟩
    rw [back]
    cases flow <;> rfl

/-- A call of a script function gives the value of the return that its body comes to, or nil when it
has run its body to the end; and it gives no value in any other way. -/
theorem call_done_iff : (CallableOver.function declaration closure).run (execute bound) arguments
      machine = .done result final ↔
    (∃ stmt reached inner after,
      CallReaches bound declaration closure arguments machine stmt reached ∧
      ReachesWithin (.executing bound stmt reached) inner ∧ inner.Returns result after ∧
      final = { after with current := machine.current }) ∨
    ∃ last, CallCompletes bound declaration closure arguments machine last ∧ result = .nil ∧
      final = { last with current := machine.current } := by
  rw [call_done]
  constructor
  · rintro ⟨frame, entered, flow, last, enters, did, rfl, rfl⟩
    cases flow with
    | next => exact .inr ⟨last, ⟨frame, entered, enters, did⟩, rfl, rfl⟩
    | returned value =>
      obtain ⟨stmt, reached, comesUp, returned⟩ := runAll_returned.mp did
      obtain ⟨inner, after, reaches, returns, rfl⟩ := execute_returned returned
      exact .inl ⟨stmt, reached, inner, after, ⟨frame, entered, enters, comesUp⟩, reaches, returns,
        rfl⟩
  · rintro (⟨stmt, reached, inner, after, ⟨frame, entered, enters, comesUp⟩, reaches, returns, rfl⟩ |
      ⟨last, ⟨frame, entered, enters, did⟩, rfl, rfl⟩)
    · have returned := runAll_returned.mpr ⟨_, _, comesUp, reaches.endsWith returns⟩
      exact ⟨frame, entered, _, _, enters, returned, rfl, rfl⟩
    · exact ⟨frame, entered, .next, last, enters, did, rfl, rfl⟩

end Calls

/-- Of the calls that are active at a moment the innermost one: the moment is part of the body of the
function that it runs, and no other call has begun in between. -/
structure InnermostCall (outer inner : Moment) where
  depth : Nat
  initializing : Option Ident
  site : Site
  callee : Expr
  arguments : List Expr
  caller : Machine
  identity : Nat
  declaration : Function
  closure : FrameId
  called : Machine
  values : List Value
  ready : Machine
  stmt : Stmt
  reached : Machine
  begins : Reaches outer (.evaluating (depth + 1) initializing (.call site callee arguments) caller)
  evaluated : evaluate depth callee caller =
    .done (.callable identity (.function declaration closure)) called
  passes : evaluateAll (evaluate depth) arguments called = .done values ready
  enough : values.length = declaration.parameters.length
  enters : CallReaches depth declaration closure values ready stmt reached
  within : ReachesWithin (.executing depth stmt reached) inner

section Innermost

variable {outer inner : Moment} {result : Value} {after : Machine}

/-- What is executed either stands in what was started first, or is part of a call. -/
theorem Reaches.innermost (reaches : Reaches outer inner) (executing : inner.IsExecuting) :
    ReachesWithin outer inner ∨ Nonempty (InnermostCall outer inner) := by
  induction reaches with
  | refl => exact .inl .refl
  | @tail middle inner before starts ih =>
    cases middle with
    | executing bound stmt machine =>
      have nests : Nests (.executing bound stmt machine) inner := ⟨starts, trivial, executing⟩
      rcases ih trivial with within | inside
      · exact .inl (.tail within nests)
      · obtain ⟨call⟩ := inside
        exact .inr ⟨{ call with within := .tail call.within nests }⟩
    | evaluating bound initializing expr machine =>
      right
      -- an expression comes to a statement only by a call, and no other call has begun since
      cases starts with
      | called evaluated passes enough opens binds comesUp =>
        exact ⟨⟨_, _, _, _, _, _, _, _, _, _, _, _, _, _, before, evaluated, passes, enough,
          ⟨_, _, ⟨_, opens, binds⟩, comesUp⟩, .refl⟩⟩
      | _ => exact executing.elim

/-- The call has the value of the return, and leaves the machine as the return has left it, but for the
frame, which is the caller's again. -/
theorem InnermostCall.gives (call : InnermostCall outer inner) (returns : inner.Returns result after) :
    evaluate (call.depth + 1) (.call call.site call.callee call.arguments) call.caller =
      .done result { after with current := call.caller.current } := by
  have ran := call_done_iff.mpr (.inl ⟨_, _, _, _, call.enters, call.within, returns, rfl⟩)
  have back : call.ready.current = call.caller.current := by
    rw [((grows_evaluateAll (grows_evaluate _) _).done call.passes).current,
      ((grows_evaluate _ _).done call.evaluated).current]
  rw [back] at ran
  refine Exec.bind_eq_done.mpr ⟨_, _, call.evaluated, Exec.bind_eq_done.mpr ⟨_, _, call.passes, ?_⟩⟩
  exact (congrFun (if_pos call.enough) _).trans ran

end Innermost

section Staying

variable {moment inner : Moment}

/-- A statement in which nothing returns but in the functions that are declared in it. -/
def Moment.Stays : Moment → Prop
  | .evaluating _ _ _ _ => True
  | .executing _ stmt _ => stmt.Stays

theorem Stmt.staysAll_iff {body : List Stmt} : StaysAll body ↔ ∀ stmt ∈ body, stmt.Stays := by
  induction body with
  | nil => simp [StaysAll]
  | cons first rest ih => simp [StaysAll, ih]

theorem Nests.stays (nests : Nests moment inner) (stays : moment.Stays) : inner.Stays := by
  obtain ⟨starts, outer, nested⟩ := nests
  cases starts with
  | block opens comesUp =>
    obtain ⟨before, rest, rfl, _⟩ := comesUp
    exact Stmt.staysAll_iff.mp stays _ (by simp)
  | yesThen => exact stays
  | yesElse => exact stays.1
  | noElse => exact stays.2
  | bodyLoop => exact stays
  | _ => first | exact outer.elim | exact nested.elim

theorem ReachesWithin.stays (reaches : ReachesWithin moment inner) (stays : moment.Stays) :
    inner.Stays := by
  induction reaches with
  | refl => exact stays
  | tail _ nests ih => exact nests.stays ih

theorem Moment.Returns.not_stays {result : Value} {after : Machine}
    (returns : moment.Returns result after) : ¬moment.Stays := by
  cases returns
  exact id

end Staying
end LoxLang

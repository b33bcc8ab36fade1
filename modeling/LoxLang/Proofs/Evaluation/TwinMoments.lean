import LoxLang.Proofs.Evaluation.Raising
import LoxLang.Proofs.Evaluation.Twins

/-!
The executions of twins, moment by moment. What one of them comes to, the other comes to as well, on
a twin of its machine; and where one raises a fault, the other raises the same at the node that goes
together with it.
-/
namespace LoxLang

variable {pairing : Pairing}

inductive Moment.Twin (pairing : Pairing) : Moment → Moment → Prop
  | evaluating {bound : Nat} {initializing otherInitializing : Option Ident} {expr other : Expr}
    {machine twin : Machine} : expr.Twin pairing other → machine.Twin pairing twin →
    Twin pairing (.evaluating bound initializing expr machine)
      (.evaluating bound otherInitializing other twin)
  | executing {bound : Nat} {stmt other : Stmt} {machine twin : Machine} :
    stmt.Twin pairing other → machine.Twin pairing twin →
    Twin pairing (.executing bound stmt machine) (.executing bound other twin)

section Parts

theorem forall₂_split {α β : Type} {relation : α → β → Prop} {before rest : List α} {item : α}
    {others : List β} (related : List.Forall₂ relation (before ++ item :: rest) others) :
    ∃ front twin back, others = front ++ twin :: back ∧ List.Forall₂ relation before front ∧
      relation item twin := by
  induction before generalizing others with
  | nil =>
    cases related with
    | cons here _ => exact ⟨[], _, _, rfl, .nil, here⟩
  | cons first before ih =>
    cases related with
    | cons here later =>
      obtain ⟨front, twin, back, rfl, ahead, same⟩ := ih later
      exact ⟨_ :: front, twin, back, rfl, .cons here ahead, same⟩

variable {bound : Nat} {machine reached otherMachine : Machine}

theorem ComesUp.twin {body other : List Stmt} {stmt : Stmt}
    (comesUp : ComesUp (execute bound) body machine stmt reached)
    (bodies : List.Forall₂ (Stmt.Twin pairing) body other) (machines : machine.Twin pairing otherMachine) :
    ∃ otherStmt otherReached, ComesUp (execute bound) other otherMachine otherStmt otherReached ∧
      stmt.Twin pairing otherStmt ∧ reached.Twin pairing otherReached := by
  obtain ⟨before, rest, rfl, ran⟩ := comesUp
  obtain ⟨front, otherStmt, back, rfl, ahead, same⟩ := forall₂_split bodies
  obtain ⟨flow, final, finished, flows, ended⟩ :=
    (twin_runAll (twin_execute pairing bound) ahead).ends machines ran
  cases flows
  exact ⟨otherStmt, final, ⟨front, back, rfl, finished⟩, same, ended⟩

theorem Rounds.twin {test otherTest : Exec Value} {body otherBody : Exec Flow} {rounds : Nat}
    (all : Rounds test body rounds machine reached)
    (tests : test.Twin pairing (ValueOver.Twin pairing) otherTest)
    (bodies : body.Twin pairing (Flow.Twin pairing) otherBody)
    (machines : machine.Twin pairing otherMachine) :
    ∃ otherReached, Rounds otherTest otherBody rounds otherMachine otherReached ∧
      reached.Twin pairing otherReached := by
  induction all generalizing otherMachine with
  | none machine => exact ⟨otherMachine, .none otherMachine, machines⟩
  | more tested goes ran _ ih =>
    obtain ⟨again, passed, testedTwin, values, after⟩ := tests.ends machines tested
    obtain ⟨flow, finished, ranTwin, flows, ended⟩ := bodies.ends after ran
    cases flows
    obtain ⟨last, further, reached⟩ := ih ended
    exact ⟨last, .more testedTwin (values.truthy.trans goes) ranTwin further, reached⟩

theorem CallableOver.Twin.function_inv {declaration : Function} {closure : FrameId} {other : Callable}
    (targets : CallableOver.Twin pairing (.function declaration closure) other) :
    ∃ twin : Function, other = .function twin closure ∧
      declaration.parameters.map Ident.name = twin.parameters.map Ident.name ∧
      List.Forall₂ (Stmt.Twin pairing) declaration.body twin.body := by
  cases targets with
  | function names body => exact ⟨_, rfl, names, body⟩

end Parts

theorem ValueOver.Twin.refusal? {value other : Value} (twin : value.Twin pairing other)
    {values others : List Value} (passed : List.Forall₂ (ValueOver.Twin pairing) values others) :
    other.refusal? others = value.refusal? values := by
  cases twin with
  | callable identity targets =>
    simp only [ValueOver.refusal?, targets.arity, passed.length_eq]
  | _ => rfl

section Evaluating

variable {bound : Nat} {initializing otherInitializing : Option Ident} {expr other : Expr}
  {machine twin : Machine} {inner : Moment}

/-- What an expression starts, its twin starts as well. -/
theorem Starts.twin_evaluating (starts : Starts (.evaluating bound initializing expr machine) inner)
    (same : expr.Twin pairing other) (machines : machine.Twin pairing twin) :
    ∃ further, Starts (.evaluating bound otherInitializing other twin) further ∧
      inner.Twin pairing further := by
  have evals (bound : Nat) := twin_evaluate pairing bound
  cases starts with
  | assigned =>
    cases same with
    | assign _ value => exact ⟨_, .assigned, .evaluating value machines⟩
  | grouped =>
    cases same with
    | group _ inside => exact ⟨_, .grouped, .evaluating inside machines⟩
  | operand =>
    cases same with
    | unary _ operand => exact ⟨_, .operand, .evaluating operand machines⟩
  | leftOperand =>
    cases same with
    | binary _ left _ => exact ⟨_, .leftOperand, .evaluating left machines⟩
  | rightOperand evaluated =>
    cases same with
    | binary _ left right =>
      obtain ⟨_, _, evaluatedTwin, _, after⟩ := (evals _ _ _ left).ends machines evaluated
      exact ⟨_, .rightOperand evaluatedTwin, .evaluating right after⟩
  | leftChoice =>
    cases same with
    | logical _ left _ => exact ⟨_, .leftChoice, .evaluating left machines⟩
  | rightChoice evaluated decided =>
    cases same with
    | logical _ left right =>
      obtain ⟨_, _, evaluatedTwin, values, after⟩ := (evals _ _ _ left).ends machines evaluated
      exact ⟨_, .rightChoice evaluatedTwin ((values.decides _).trans decided),
        .evaluating right after⟩
  | callee =>
    cases same with
    | call _ callee _ => exact ⟨_, .callee, .evaluating callee machines⟩
  | argument calls among ready =>
    cases same with
    | call _ callee arguments =>
      subst among
      obtain ⟨_, _, callsTwin, _, called⟩ := (evals _ _ _ callee).ends machines calls
      obtain ⟨front, argument, back, rfl, ahead, here⟩ := forall₂_split arguments
      obtain ⟨_, _, readyTwin, _, reached⟩ :=
        (twin_evaluateAll (evals _) ahead).ends called ready
      exact ⟨_, .argument callsTwin rfl readyTwin, .evaluating here reached⟩
  | called calls ready enough opens binds comesUp =>
    cases same with
    | call _ callee arguments =>
      obtain ⟨_, _, callsTwin, callees, called⟩ := (evals _ _ _ callee).ends machines calls
      obtain ⟨values, _, readyTwin, passed, reached⟩ :=
        (twin_evaluateAll (evals _) arguments).ends called ready
      cases callees with
      | callable identity targets =>
        obtain ⟨declaration, rfl, names, body⟩ := targets.function_inv
        obtain ⟨_, opened, opensTwin, rfl, inside⟩ := (twin_openInside _).ends reached opens
        obtain ⟨_, entered, bindsTwin, _, within⟩ :=
          (twin_bindParameters _ names passed).ends inside binds
        obtain ⟨stmt, last, comesUpTwin, stmts, there⟩ := comesUp.twin body (within.enter _)
        -- the twin of a call that goes ahead goes ahead as well
        have sameNumber : values.length = declaration.parameters.length := by
          have counted := congrArg List.length names
          rw [List.length_map, List.length_map] at counted
          rw [← passed.length_eq, enough, counted]
        exact ⟨_, .called callsTwin readyTwin sameNumber opensTwin bindsTwin comesUpTwin,
          .executing stmts there⟩

theorem Raises.twin_evaluating {site : Site} {cause : RuntimeCause}
    (raises : Raises (.evaluating bound initializing expr machine) site cause)
    (same : expr.Twin pairing other) (machines : machine.Twin pairing twin) :
    ∃ otherSite, pairing.nodes site otherSite ∧
      Raises (.evaluating bound otherInitializing other twin) otherSite cause := by
  have evals (bound : Nat) := twin_evaluate pairing bound
  cases raises with
  | unread missing =>
    cases same with
    | «variable» reference =>
      rcases rel_option (machines.lookUp? reference _) with ⟨_, there⟩ | ⟨_, _, here, _, _⟩
      · exact ⟨_, reference.1, .unread there⟩
      · cases missing.symm.trans here
  | unassigned evaluated missing =>
    cases same with
    | assign reference value =>
      obtain ⟨_, _, evaluatedTwin, _, after⟩ := (evals _ _ _ value).ends machines evaluated
      exact ⟨_, reference.1, .unassigned evaluatedTwin
        ((after.readFrame? reference _).trans missing)⟩
  | operand evaluated applied =>
    cases same with
    | unary node operand =>
      obtain ⟨_, _, evaluatedTwin, values, _⟩ := (evals _ _ _ operand).ends machines evaluated
      exact ⟨_, node, .operand evaluatedTwin ((values.unary _).error_eq applied)⟩
  | operands evaluated further applied =>
    cases same with
    | binary node left right =>
      obtain ⟨_, _, evaluatedTwin, firsts, middle⟩ := (evals _ _ _ left).ends machines evaluated
      obtain ⟨_, _, furtherTwin, seconds, _⟩ := (evals _ _ _ right).ends middle further
      exact ⟨_, node, .operands evaluatedTwin furtherTwin ((firsts.binary _ seconds).error_eq applied)⟩
  | refused evaluated further refused =>
    cases same with
    | call node callee arguments =>
      obtain ⟨_, _, evaluatedTwin, callees, called⟩ := (evals _ _ _ callee).ends machines evaluated
      obtain ⟨_, _, furtherTwin, passed, _⟩ :=
        (twin_evaluateAll (evals _) arguments).ends called further
      exact ⟨_, node, .refused evaluatedTwin furtherTwin ((callees.refusal? passed).trans refused)⟩

end Evaluating

section Executing

variable {bound : Nat} {stmt other : Stmt} {machine twin : Machine} {inner : Moment}

theorem Starts.twin_executing (starts : Starts (.executing bound stmt machine) inner)
    (same : stmt.Twin pairing other) (machines : machine.Twin pairing twin) :
    ∃ further, Starts (.executing bound other twin) further ∧ inner.Twin pairing further := by
  have evals (bound : Nat) := twin_evaluate pairing bound
  have runs (bound : Nat) := twin_execute pairing bound
  cases starts with
  | initializer =>
    cases same with
    | var initial =>
      cases initial with
      | some value => exact ⟨_, .initializer, .evaluating value machines⟩
  | expression =>
    cases same with
    | expression value => exact ⟨_, .expression, .evaluating value machines⟩
  | printed =>
    cases same with
    | print value => exact ⟨_, .printed, .evaluating value machines⟩
  | result =>
    cases same with
    | «return» value =>
      cases value with
      | some value => exact ⟨_, .result, .evaluating value machines⟩
  -- Twins number their frames alike, so it is the same frame that both open.
  | block opens comesUp =>
    cases same with
    | block body =>
      rw [← machines.current] at opens
      obtain ⟨_, _, opensTwin, rfl, inside⟩ := (twin_openInside _).ends machines opens
      obtain ⟨_, _, comesUpTwin, stmts, there⟩ := comesUp.twin body (inside.enter _)
      exact ⟨_, .block opensTwin comesUpTwin, .executing stmts there⟩
  | testThen =>
    cases same with
    | ifThen test _ => exact ⟨_, .testThen, .evaluating test machines⟩
  | yesThen tested truth =>
    cases same with
    | ifThen test yes =>
      obtain ⟨_, _, testedTwin, values, after⟩ := (evals _ _ _ test).ends machines tested
      exact ⟨_, .yesThen testedTwin (values.truthy.trans truth), .executing yes after⟩
  | testElse =>
    cases same with
    | ifElse test _ _ => exact ⟨_, .testElse, .evaluating test machines⟩
  | yesElse tested truth =>
    cases same with
    | ifElse test yes _ =>
      obtain ⟨_, _, testedTwin, values, after⟩ := (evals _ _ _ test).ends machines tested
      exact ⟨_, .yesElse testedTwin (values.truthy.trans truth), .executing yes after⟩
  | noElse tested truth =>
    cases same with
    | ifElse test _ no =>
      obtain ⟨_, _, testedTwin, values, after⟩ := (evals _ _ _ test).ends machines tested
      exact ⟨_, .noElse testedTwin (values.truthy.trans truth), .executing no after⟩
  -- The twin goes through as many rounds, to a twin of the machine.
  | testLoop rounds fewer =>
    cases same with
    | loop test body =>
      obtain ⟨_, roundsTwin, reached⟩ :=
        rounds.twin (evals _ _ _ test) (runs _ _ _ body) machines
      exact ⟨_, .testLoop roundsTwin fewer, .evaluating test reached⟩
  | bodyLoop rounds fewer tested truth =>
    cases same with
    | loop test body =>
      obtain ⟨_, roundsTwin, reached⟩ :=
        rounds.twin (evals _ _ _ test) (runs _ _ _ body) machines
      obtain ⟨_, _, testedTwin, values, after⟩ := (evals _ _ _ test).ends reached tested
      exact ⟨_, .bodyLoop roundsTwin fewer testedTwin (values.truthy.trans truth),
        .executing body after⟩

end Executing

section Moments

variable {moment inner other : Moment}

theorem Starts.twin (starts : Starts moment inner) (twins : moment.Twin pairing other) :
    ∃ further, Starts other further ∧ inner.Twin pairing further := by
  cases twins with
  | evaluating same machines => exact starts.twin_evaluating same machines
  | executing same machines => exact starts.twin_executing same machines

theorem Reaches.twin (reaches : Reaches moment inner) (twins : moment.Twin pairing other) :
    ∃ further, Reaches other further ∧ inner.Twin pairing further := by
  induction reaches with
  | refl => exact ⟨other, .refl, twins⟩
  | tail _ starts ih =>
    obtain ⟨middle, ahead, same⟩ := ih
    obtain ⟨further, startsTwin, last⟩ := starts.twin same
    exact ⟨further, ahead.tail startsTwin, last⟩

theorem Raises.twin {site : Site} {cause : RuntimeCause} (raises : Raises moment site cause)
    (twins : moment.Twin pairing other) :
    ∃ otherSite, pairing.nodes site otherSite ∧ Raises other otherSite cause := by
  cases twins with
  | evaluating same machines => exact raises.twin_evaluating same machines
  | executing => cases raises

end Moments
end LoxLang

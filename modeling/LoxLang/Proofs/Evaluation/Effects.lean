import LoxLang.Proofs.Evaluation.Raising

/-!
What changes the machine. Few moments do anything to it by themselves, apart from what they start: an
assignment, a declaration, a print statement, a block that opens its frame, a call that binds its
parameters or reads the clock. What all of these keep, every run keeps.
-/
namespace LoxLang

def Moment.machine : Moment → Machine
  | .evaluating _ _ _ machine => machine
  | .executing _ _ machine => machine

theorem Moment.Sound.machine {table : Distances} {limit : Nat} {moment : Moment}
    (sound : moment.Sound table limit) : moment.machine.Sound table limit := by
  cases moment with
  | evaluating => exact sound.1
  | executing => exact sound.1

def Moment.final : Moment → Machine
  | .evaluating bound _ expr machine => (evaluate bound expr machine).machine
  | .executing bound stmt machine => (execute bound stmt machine).machine

theorem Exec.bind_of_done {α β : Type} {first : Exec α} {next : α → Exec β}
    {machine after : Machine} {value : α} (done : first machine = .done value after) :
    (first >>= next) machine = next value after := by
  rw [bind_apply, done]

/-- The moment itself turns the one machine into the other, between what it starts. -/
inductive Acts : Moment → Machine → Machine → Prop
  | assigns {bound initializing site target value machine result after final} :
    evaluate bound value machine = .done result after →
    assignVariable site target result after = .done () final →
    Acts (.evaluating (bound + 1) initializing (.assign site target value) machine) after final
  | answers {bound initializing site callee arguments machine identity} {builtin : Native}
      {called values ready result final} :
    evaluate bound callee machine = .done (.callable identity (.native builtin)) called →
    evaluateAll (evaluate bound) arguments called = .done values ready →
    builtin.run values ready = .done result final →
    Acts (.evaluating (bound + 1) initializing (.call site callee arguments) machine) ready final
  | enters {bound initializing site callee arguments machine identity} {declaration : Function}
      {closure called values ready frame opened entered} :
    evaluate bound callee machine =
      .done (.callable identity (.function declaration closure)) called →
    evaluateAll (evaluate bound) arguments called = .done values ready →
    openInside closure ready = .done frame opened →
    bindParameters frame declaration.parameters values opened = .done () entered →
    Acts (.evaluating (bound + 1) initializing (.call site callee arguments) machine) ready entered
  | binds {bound} {name : Ident} {initial machine value after} :
    evaluateOr (evaluate bound) initial machine = .done value after →
    Acts (.executing (bound + 1) (.var name initial) machine) after
      (after.define after.current name.name value)
  | makes {bound name parameters body machine final} :
    execute (bound + 1) (.function name parameters body) machine = .done .next final →
    Acts (.executing (bound + 1) (.function name parameters body) machine) machine final
  | prints {bound value machine result after} :
    evaluate bound value machine = .done result after →
    Acts (.executing (bound + 1) (.print value) machine) after (after.write result)
  | opens {bound body machine frame opened} :
    openInside machine.current machine = .done frame opened →
    Acts (.executing (bound + 1) (.block body) machine) machine opened

/-- A relation that can be followed through a run, and does not look at which frame is current. -/
structure Machine.Traceable (related : Machine → Machine → Prop) : Prop where
  refl : ∀ machine, related machine machine
  trans : ∀ {first middle last}, related first middle → related middle last → related first last
  move : ∀ (machine : Machine) (frame : FrameId), related machine { machine with current := frame }

namespace Machine.Traceable

variable {related : Machine → Machine → Prop}

theorem choose {α : Type} {condition : Prop} [Decidable condition] {yes no : Exec α}
    {machine : Machine}
    (first : condition → related machine (yes machine).machine)
    (second : ¬condition → related machine (no machine).machine) :
    related machine ((if condition then yes else no) machine).machine := by
  by_cases chosen : condition
  · rw [if_pos chosen]
    exact first chosen
  · rw [if_neg chosen]
    exact second chosen

section Steps

variable (traceable : Machine.Traceable related) {machine : Machine}

include traceable

theorem bind {α β : Type} {first : Exec α} {next : α → Exec β}
    (ahead : related machine (first machine).machine)
    (further : ∀ value after, first machine = .done value after →
      related after (next value after).machine) :
    related machine ((first >>= next) machine).machine := by
  rw [Exec.bind_apply]
  cases result : first machine with
  | stopped stop after =>
    rw [result] at ahead
    exact ahead
  | done value after =>
    rw [result] at ahead
    exact traceable.trans ahead (further value after result)

theorem within {α : Type} {frame : FrameId} {body : Exec α}
    (inside : related { machine with current := frame }
      (body { machine with current := frame }).machine) :
    related machine (LoxLang.within frame body machine).machine := by
  have ahead := traceable.trans (traceable.move machine frame) inside
  unfold LoxLang.within
  cases result : body { machine with current := frame } with
  | done value after =>
    rw [result] at ahead
    exact traceable.trans ahead (traceable.move after _)
  | stopped stop after =>
    rw [result] at ahead
    exact traceable.trans ahead (traceable.move after _)

theorem atLine {α : Type} (line : Nat) (result : Except RuntimeCause α) :
    related machine (Exec.atLine line result machine).machine := by
  cases result with
  | ok value => exact traceable.refl machine
  | error cause => exact traceable.refl machine

theorem evaluateAll {eval : Expr → Exec Value} {values : List Expr}
    (each : ∀ before value rest results ready, values = before ++ value :: rest →
      LoxLang.evaluateAll eval before machine = .done results ready →
      related ready (eval value ready).machine) :
    related machine (LoxLang.evaluateAll eval values machine).machine := by
  induction values generalizing machine with
  | nil => exact traceable.refl machine
  | cons first rest ih =>
    refine traceable.bind (each [] first rest [] machine rfl rfl) fun value after done => ?_
    refine traceable.bind (ih ?_) fun values ready _ => traceable.refl ready
    intro before argument others results ready split ran
    refine each (first :: before) argument others (value :: results) ready (by rw [split]; rfl) ?_
    exact Exec.bind_eq_done.mpr ⟨value, after, done, Exec.bind_eq_done.mpr ⟨results, ready, ran, rfl⟩⟩

theorem runAll {run : Stmt → Exec Flow} {body : List Stmt}
    (each : ∀ stmt reached, ComesUp run body machine stmt reached →
      related reached (run stmt reached).machine) :
    related machine (LoxLang.runAll run body machine).machine := by
  induction body generalizing machine with
  | nil => exact traceable.refl machine
  | cons first rest ih =>
    refine traceable.bind (each first machine ⟨[], rest, rfl, rfl⟩) fun flow after done => ?_
    cases flow with
    | returned value => exact traceable.refl after
    | next =>
      apply ih
      rintro stmt reached ⟨before, others, split, ran⟩
      refine each stmt reached ⟨first :: before, others, by rw [split]; rfl, ?_⟩
      exact Exec.bind_eq_done.mpr ⟨.next, after, done, ran⟩

theorem iterate {test : Exec Value} {body : Exec Flow} {bound : Nat}
    (tests : ∀ rounds reached, Rounds test body rounds machine reached → rounds < bound →
      related reached (test reached).machine)
    (bodies : ∀ rounds reached again tested, Rounds test body rounds machine reached →
      rounds < bound → test reached = .done again tested → again.truthy = true →
      related tested (body tested).machine) :
    related machine (LoxLang.iterate test body bound machine).machine := by
  induction bound generalizing machine with
  | zero => exact traceable.refl machine
  | succ bound ih =>
    refine traceable.bind (tests 0 machine (.none machine) (Nat.succ_pos bound)) ?_
    intro again tested passed
    by_cases goes : again.truthy
    · rw [if_pos goes]
      refine traceable.bind
        (bodies 0 machine again tested (.none machine) (Nat.succ_pos bound) passed goes) ?_
      intro flow finished ran
      cases flow with
      | returned value => exact traceable.refl finished
      | next =>
        -- the rounds from here on come after the one that has just been made
        apply ih
        · intro rounds reached all fewer
          exact tests (rounds + 1) reached (.more passed goes ran all) (Nat.succ_lt_succ fewer)
        · intro rounds reached more last all fewer
          exact bodies (rounds + 1) reached more last (.more passed goes ran all)
            (Nat.succ_lt_succ fewer)
    · rw [if_neg goes]
      exact traceable.refl tested

end Steps

section Moments

variable (traceable : Machine.Traceable related) {bound : Nat} {machine : Machine}

include traceable

theorem call {initializing : Option Ident} {site : Site} {callee : Expr} {arguments : List Expr}
    {target : Value} {called ready : Machine} {values : List Value}
    (calls : evaluate bound callee machine = .done target called)
    (passes : LoxLang.evaluateAll (evaluate bound) arguments called = .done values ready)
    (inner : ∀ inner,
      Starts (.evaluating (bound + 1) initializing (.call site callee arguments) machine) inner →
        related inner.machine inner.final)
    (own : ∀ before after,
      Acts (.evaluating (bound + 1) initializing (.call site callee arguments) machine) before after →
        related before after) :
    related ready (callValue (execute bound) site.line target values ready).machine := by
  unfold callValue
  split
  · rename_i identity target
    by_cases enough : values.length = target.arity
    · rw [if_pos enough]
      cases target with
      | native builtin =>
        have answers := own ready (builtin.run values ready).machine
        obtain ⟨name, arity, rule⟩ := builtin
        cases rule with
        | clock => exact answers (.answers calls passes rfl)
        | argument place => exact answers (.answers calls passes rfl)
      | function declaration closure =>
        obtain ⟨entered, binds⟩ := bindParameters_done ready.store.next declaration.parameters values
          (ready.openFrame (some closure)).2
        have opens : openInside closure ready = .done ready.store.next
          (ready.openFrame (some closure)).2 := rfl
        refine traceable.trans (own ready entered (.enters calls passes opens binds)) ?_
        simp only [CallableOver.run, Exec.bind_of_done opens, Exec.bind_of_done binds]
        refine traceable.bind (traceable.within (traceable.runAll fun stmt reached comesUp =>
          inner _ (.called calls passes enough opens binds comesUp))) fun flow after _ => ?_
        cases flow with
        | next => exact traceable.refl after
        | returned value => exact traceable.refl after
    · rw [if_neg enough]
      exact traceable.refl ready
  · exact traceable.refl ready

theorem evaluating {initializing : Option Ident} {expr : Expr}
    (inner : ∀ inner, Starts (.evaluating (bound + 1) initializing expr machine) inner →
      related inner.machine inner.final)
    (own : ∀ before after, Acts (.evaluating (bound + 1) initializing expr machine) before after →
      related before after) :
    related machine (evaluate (bound + 1) expr machine).machine := by
  cases expr with
  | literal site value => exact traceable.refl machine
  | «variable» site name =>
    change related machine (readVariable site name machine).machine
    unfold readVariable
    split
    · exact traceable.refl machine
    · exact traceable.refl machine
  | assign site target value =>
    refine traceable.bind (inner _ .assigned) fun result after done => ?_
    refine traceable.bind ?_ fun _ final _ => traceable.refl final
    cases assigned : assignVariable site target result after with
    | done value final => exact own after final (.assigns done assigned)
    | stopped stop final =>
      unfold assignVariable at assigned
      split at assigned
      · cases assigned
      · cases assigned
        exact traceable.refl after
  | group site operand => exact inner _ .grouped
  | unary site op operand =>
    exact traceable.bind (inner _ .operand) fun value after _ => traceable.atLine site.line _
  | binary site op left right =>
    refine traceable.bind (inner _ .leftOperand) fun first middle done => ?_
    exact traceable.bind (inner _ (.rightOperand done)) fun second after _ =>
      traceable.atLine site.line _
  | logical site op left right =>
    refine traceable.bind (inner _ .leftChoice) fun first middle done => ?_
    exact choose (fun _ => traceable.refl middle) fun undecided =>
      inner _ (.rightChoice done (by simpa using undecided))
  | call site callee arguments =>
    refine traceable.bind (inner _ .callee) fun target called calls => ?_
    refine traceable.bind ?_ fun values ready passes => traceable.call calls passes inner own
    exact traceable.evaluateAll fun before argument rest results ready split ran =>
      inner _ (.argument calls split ran)

theorem executing {stmt : Stmt}
    (inner : ∀ inner, Starts (.executing (bound + 1) stmt machine) inner →
      related inner.machine inner.final)
    (own : ∀ before after, Acts (.executing (bound + 1) stmt machine) before after →
      related before after) :
    related machine (execute (bound + 1) stmt machine).machine := by
  cases stmt with
  | var name initial =>
    refine traceable.bind ?_ fun value after done => ?_
    · cases initial with
      | none => exact traceable.refl machine
      | some value => exact inner _ .initializer
    · exact own after _ (.binds done)
  | function name parameters body => exact own machine _ (.makes rfl)
  | expression value =>
    exact traceable.bind (inner _ .expression) fun result after _ => traceable.refl after
  | print value =>
    exact traceable.bind (inner _ .printed) fun result after done => own after _ (.prints done)
  | block body =>
    refine traceable.trans (own machine _ (.opens rfl)) ?_
    exact traceable.within (traceable.runAll fun stmt reached comesUp =>
      inner _ (.block rfl comesUp))
  | ifThen test yes =>
    refine traceable.bind (inner _ .testThen) fun chosen after done => ?_
    exact choose (fun truthy => inner _ (.yesThen done truthy)) fun _ =>
      traceable.refl after
  | ifElse test yes no =>
    refine traceable.bind (inner _ .testElse) fun chosen after done => ?_
    exact choose (fun truthy => inner _ (.yesElse done truthy)) fun falsy =>
      inner _ (.noElse done (by simpa using falsy))
  | loop test body =>
    exact traceable.iterate (fun rounds reached all fewer => inner _ (.testLoop all fewer))
      fun rounds reached again tested all fewer passed goes => inner _ (.bodyLoop all fewer passed goes)
  | «return» line value =>
    cases value with
    | none => exact traceable.refl machine
    | some value => exact traceable.bind (inner _ .result) fun result after _ => traceable.refl after

/-- What all moments keep that a run comes to, the run keeps. -/
theorem final (moment : Moment)
    (acts : ∀ reached before after, Reaches moment reached → Acts reached before after →
      related before after) :
    related moment.machine moment.final := by
  -- what is started has a smaller bound
  induction same : moment.bound using Nat.strongRecOn generalizing moment with
  | ind size ih =>
    have own (before after : Machine) (act : Acts moment before after) : related before after :=
      acts moment before after .refl act
    have inner (inner : Moment) (starts : Starts moment inner) :
        related inner.machine inner.final :=
      ih inner.bound (same ▸ starts.bound_lt) inner
        (fun reached before after reaches act =>
          acts reached before after (.head starts reaches) act) rfl
    match moment with
    | .evaluating 0 _ _ machine => exact traceable.refl machine
    | .executing 0 _ machine => exact traceable.refl machine
    | .evaluating (bound + 1) initializing expr machine => exact traceable.evaluating inner own
    | .executing (bound + 1) stmt machine => exact traceable.executing inner own

end Moments
end Machine.Traceable
end LoxLang

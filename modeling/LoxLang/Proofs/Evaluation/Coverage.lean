import LoxLang.Proofs.Evaluation.Moments

/-!
No moment is left out. What an evaluation or a run comes to depends on other evaluations and runs only
at the moments that it starts: whatever does the same there comes to the same.
-/
namespace LoxLang

structure Moment.Served (moment : Moment) (bound : Nat) (eval : Expr → Exec Value)
    (run : Stmt → Exec Flow) : Prop where
  evaluating : ∀ initializing expr machine,
    Starts moment (.evaluating bound initializing expr machine) →
    eval expr machine = evaluate bound expr machine
  executing : ∀ stmt machine, Starts moment (.executing bound stmt machine) →
    run stmt machine = execute bound stmt machine

theorem Exec.bind_congr {α β : Type} {first same : Exec α} {next further : α → Exec β}
    {machine : Machine} (start : first machine = same machine)
    (onward : ∀ value after, same machine = .done value after →
      next value after = further value after) :
    (first >>= next) machine = (same >>= further) machine := by
  rw [bind_apply, bind_apply, start]
  cases result : same machine with
  | done value after => exact onward value after result
  | stopped stop after => rfl

section Lists

variable {eval same : Expr → Exec Value} {run alike : Stmt → Exec Flow} {machine : Machine}

theorem evaluateAll_congr {values : List Expr}
    (agree : ∀ before value rest results ready, values = before ++ value :: rest →
      evaluateAll same before machine = .done results ready → eval value ready = same value ready) :
    evaluateAll eval values machine = evaluateAll same values machine := by
  induction values generalizing machine with
  | nil => rfl
  | cons first rest ih =>
    apply Exec.bind_congr (agree [] first rest [] machine rfl rfl)
    intro value after result
    apply Exec.bind_congr
    · apply ih
      intro before next others results ready split_ all
      apply agree (first :: before) next others (value :: results) ready
      · rw [split_, List.cons_append]
      · exact Exec.bind_eq_done.mpr ⟨value, after, result, Exec.bind_eq_done.mpr
          ⟨results, ready, all, rfl⟩⟩
    · intro _ _ _
      rfl

theorem runAll_congr {body : List Stmt}
    (agree : ∀ stmt reached, ComesUp alike body machine stmt reached →
      run stmt reached = alike stmt reached) :
    runAll run body machine = runAll alike body machine := by
  induction body generalizing machine with
  | nil => rfl
  | cons first rest ih =>
    apply Exec.bind_congr (agree first machine ⟨[], rest, rfl, rfl⟩)
    intro flow after result
    cases flow with
    | returned value => rfl
    | next =>
      apply ih
      rintro stmt reached ⟨before, others, split_, all⟩
      apply agree
      refine ⟨first :: before, others, by rw [split_, List.cons_append], ?_⟩
      exact Exec.bind_eq_done.mpr ⟨.next, after, result, all⟩

theorem iterate_congr {test sameTest : Exec Value} {body sameBody : Exec Flow} {bound : Nat}
    (tests : ∀ rounds reached, Rounds sameTest sameBody rounds machine reached → rounds < bound →
      test reached = sameTest reached)
    (bodies : ∀ rounds reached again tested, Rounds sameTest sameBody rounds machine reached →
      rounds < bound → sameTest reached = .done again tested → again.truthy = true →
      body tested = sameBody tested) :
    iterate test body bound machine = iterate sameTest sameBody bound machine := by
  induction bound generalizing machine with
  | zero => rfl
  | succ bound ih =>
    apply Exec.bind_congr (tests 0 machine (.none machine) (Nat.succ_pos bound))
    intro again tested result
    by_cases goes : again.truthy = true
    · rw [if_pos goes, if_pos goes]
      apply Exec.bind_congr
        (bodies 0 machine again tested (.none machine) (Nat.succ_pos bound) result goes)
      intro flow finished ran
      cases flow with
      | returned value => rfl
      | next =>
        -- a round of the rest is a round of the whole, one later
        apply ih
        · intro rounds reached passed within
          exact tests (rounds + 1) reached (.more result goes ran passed) (Nat.succ_lt_succ within)
        · intro rounds reached next after passed within
          exact bodies (rounds + 1) reached next after (.more result goes ran passed)
            (Nat.succ_lt_succ within)
    · rw [if_neg goes, if_neg goes]

theorem within_congr {α : Type} {body same : Exec α} {frame : FrameId}
    (inside : body { machine with current := frame } = same { machine with current := frame }) :
    within frame body machine = within frame same machine := by
  unfold within
  rw [inside]

/-- Only the body of a function is run, in its new frame, and only for the right number of arguments. -/
theorem callValue_congr {line : Nat} {callee : Value} {arguments : List Value}
    (agree : ∀ identity declaration closure frame opened entered stmt reached,
      callee = .callable identity (.function declaration closure) →
      arguments.length = declaration.parameters.length →
      openInside closure machine = .done frame opened →
      bindParameters frame declaration.parameters arguments opened = .done () entered →
      ComesUp alike declaration.body { entered with current := frame } stmt reached →
      run stmt reached = alike stmt reached) :
    callValue run line callee arguments machine = callValue alike line callee arguments machine := by
  cases callee with
  | nil => rfl
  | boolean _ => rfl
  | number _ => rfl
  | string _ => rfl
  | callable identity target =>
    cases target with
    | native _ => rfl
    | function declaration closure =>
      by_cases enough : arguments.length = (CallableOver.function declaration closure).arity
      · simp only [callValue, if_pos enough]
        apply Exec.bind_congr rfl
        intro frame opened opens
        apply Exec.bind_congr rfl
        intro _ entered binds
        apply Exec.bind_congr
        · apply within_congr
          apply runAll_congr
          intro stmt reached comesUp
          exact agree _ _ _ _ _ _ _ _ rfl enough opens binds comesUp
        · intro _ _ _
          rfl
      · simp only [callValue, if_neg enough]

end Lists

section Moments

variable {eval : Expr → Exec Value} {run : Stmt → Exec Flow} {bound : Nat} {machine : Machine}

/-- An evaluation consists of the moments that it starts. -/
theorem evaluateWith_of_served {initializing : Option Ident} {expr : Expr}
    (served : Moment.Served (.evaluating (bound + 1) initializing expr machine) bound eval run) :
    evaluateWith eval run expr machine = evaluate (bound + 1) expr machine := by
  change _ = evaluateWith (evaluate bound) (execute bound) expr machine
  cases expr with
  | literal _ _ => rfl
  | «variable» _ _ => rfl
  | assign _ _ value =>
    exact Exec.bind_congr (served.evaluating _ _ _ .assigned) fun _ _ _ => rfl
  | group _ inner => exact served.evaluating _ _ _ .grouped
  | unary _ _ operand =>
    exact Exec.bind_congr (served.evaluating _ _ _ .operand) fun _ _ _ => rfl
  | binary _ _ left right =>
    apply Exec.bind_congr (served.evaluating _ _ _ .leftOperand)
    intro first after result
    exact Exec.bind_congr (served.evaluating _ _ _ (.rightOperand result)) fun _ _ _ => rfl
  | logical _ op left right =>
    apply Exec.bind_congr (served.evaluating _ _ _ .leftChoice)
    intro first after result
    cases decides : op.decides first with
    | true => rfl
    | false => exact served.evaluating _ _ _ (.rightChoice result decides)
  | call site callee arguments =>
    apply Exec.bind_congr (served.evaluating _ _ _ .callee)
    intro target called result
    apply Exec.bind_congr
    · apply evaluateAll_congr
      intro before argument rest values ready split_ all
      exact served.evaluating _ _ _ (.argument result split_ all)
    · intro values ready all
      apply callValue_congr
      intro identity declaration closure frame opened entered stmt reached
      rintro rfl enough opens binds comesUp
      exact served.executing _ _ (.called result all enough opens binds comesUp)

theorem runWith_of_served {stmt : Stmt}
    (served : Moment.Served (.executing (bound + 1) stmt machine) bound eval run) :
    runWith bound eval run stmt machine = execute (bound + 1) stmt machine := by
  change _ = runWith bound (evaluate bound) (execute bound) stmt machine
  cases stmt with
  | var name initial =>
    cases initial with
    | none => rfl
    | some value =>
      exact Exec.bind_congr (served.evaluating _ _ _ .initializer) fun _ _ _ => rfl
  | function _ _ _ => rfl
  | expression value =>
    exact Exec.bind_congr (served.evaluating _ _ _ .expression) fun _ _ _ => rfl
  | print value =>
    exact Exec.bind_congr (served.evaluating _ _ _ .printed) fun _ _ _ => rfl
  | block body =>
    apply Exec.bind_congr rfl
    rintro _ _ ⟨⟩
    apply Exec.bind_congr rfl
    intro frame opened opens
    apply within_congr
    apply runAll_congr
    intro stmt reached comesUp
    exact served.executing _ _ (.block opens comesUp)
  | ifThen test yes =>
    apply Exec.bind_congr (served.evaluating _ _ _ .testThen)
    intro chosen after result
    cases truthy : chosen.truthy with
    | true => exact served.executing _ _ (.yesThen result truthy)
    | false => rfl
  | ifElse test yes no =>
    apply Exec.bind_congr (served.evaluating _ _ _ .testElse)
    intro chosen after result
    cases truthy : chosen.truthy with
    | true => exact served.executing _ _ (.yesElse result truthy)
    | false => exact served.executing _ _ (.noElse result truthy)
  | loop test body =>
    apply iterate_congr
    · intro rounds reached passed inside
      exact served.evaluating _ _ _ (.testLoop passed inside)
    · intro rounds reached again tested passed inside result goes
      exact served.executing _ _ (.bodyLoop passed inside result goes)
  | «return» _ value =>
    cases value with
    | none => rfl
    | some value =>
      exact Exec.bind_congr (served.evaluating _ _ _ .result) fun _ _ _ => rfl

end Moments
end LoxLang

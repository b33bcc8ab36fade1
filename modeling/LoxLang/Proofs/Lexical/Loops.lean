import LoxLang.Proofs.Lexical.Bounds
import LoxLang.Proofs.Scoping.Loops

/-!
A `for` loop is read as simpler statements; here it is run as it is meant, with one scope for the
whole loop and the increment behind the body of each round. Both do the same to the memory, location
for location, and need the same bound but for a few levels: a block that declares nothing makes no
difference to an environment.
-/
namespace LoxLang

theorem ForLoop.round_regular (loop : ForLoop) (plain : loop.body.isDeclaration = false)
    (regular : loop.body.Regular) : loop.round.isDeclaration = false ∧ loop.round.Regular := by
  rw [ForLoop.round]
  cases loop.increment with
  | none => exact ⟨plain, regular⟩
  | some step => exact ⟨rfl, regular, trivial, trivial⟩

namespace Lexical

section Meaning

/-- The increment follows the body unless that returns or is stopped. -/
def followedBy (body : Exec Flow) (step : Exec Value) : Exec Flow := do
  match ← body with
  | .next region => do
    let _ ← step
    pure (.next region)
  | .returned value => pure (.returned value)

def testOr (eval : Expr → Exec Value) : Option Expr → Exec Value
  | none => pure (.boolean true)
  | some test => eval test

def runOptional (run : Region → Stmt → Exec Flow) (region : Region) : Option Stmt → Exec Flow
  | none => pure (.next region)
  | some stmt => run region stmt

/-- Condition, body and increment are taken in turn while the condition holds, all of them with what is
local in the scope of the loop. -/
def executeRounds (bound : Nat) (scope : Region) (loop : ForLoop) : Exec Flow :=
  let eval := evaluate bound scope.environment
  let round := followedBy (execute bound scope loop.body) (evaluateOr eval loop.increment)
  iterate scope (testOr eval loop.condition) round bound

/-- One scope is opened, and the initializer is run in it once. -/
def executeFor (bound : Nat) (region : Region) (loop : ForLoop) : Exec Flow := do
  match ← runOptional (execute bound) (.inside region.environment) loop.initializer with
  | .returned value => pure (.returned value)
  | .next scope => do
    let flow ← executeRounds bound scope loop
    pure (flow.leave region)

end Meaning

abbrev leaving (region : Region) (exec : Exec Flow) : Exec Flow :=
  exec >>= fun flow => pure (flow.leave region)

section Places

variable {region place : Region}

theorem leaving_leaving (exec : Exec Flow) :
    leaving region (leaving place exec) = leaving region exec := by
  rw [leaving, leaving, bind_assoc]
  apply bind_congr
  intro flow
  cases flow <;> rfl

theorem branch_moved {run : Region → Stmt → Exec Flow} {stmt : Stmt}
    (moved : leaving region (run place stmt) = run region stmt)
    (still : leaving region (run region stmt) = run region stmt) :
    leaving region (branch run place stmt) = branch run region stmt :=
  (leaving_leaving _).trans (moved.trans still.symm)

theorem iterate_moved {test : Exec Value} {body moved : Exec Flow}
    (same : leaving region moved = body) (bound : Nat) :
    leaving region (iterate place test moved bound) = iterate region test body bound := by
  subst same
  induction bound with
  | zero => rfl
  | succ bound ih =>
    rw [leaving, iterate, iterate, bind_assoc]
    apply bind_congr
    intro again
    split
    · rw [leaving, bind_assoc, bind_assoc]
      apply bind_congr
      intro flow
      rw [pure_bind]
      cases flow with
      | next left => exact ih
      | returned value => rfl
    · rfl

/-- A statement that declares nothing sees of its place only the environment. -/
theorem execute_moved (region place : Region) (same : place.environment = region.environment)
    {stmt : Stmt} (plain : stmt.isDeclaration = false) (regular : stmt.Regular) (bound : Nat) :
    leaving region (execute bound place stmt) = execute bound region stmt := by
  induction bound generalizing region place stmt with
  | zero => rfl
  | succ bound ih =>
    simp only [execute]
    cases stmt with
    | var _ _ | function _ _ _ => cases plain
    | expression value | print value | «return» line value =>
      simp only [leaving, runWith, same, bind_assoc]
      rfl
    -- The scope that the block opens is over at its end, wherever the block stands.
    | block body =>
      rw [runWith, same]
      exact leaving_leaving _
    | ifThen test yes =>
      rw [leaving, runWith, runWith, same, bind_assoc]
      apply bind_congr
      intro chosen
      split
      · exact branch_moved (ih region place same regular.1 regular.2)
          (ih region region rfl regular.1 regular.2)
      · rfl
    | ifElse test yes no =>
      rw [leaving, runWith, runWith, same, bind_assoc]
      apply bind_congr
      intro chosen
      split
      · exact branch_moved (ih region place same regular.1.1 regular.1.2)
          (ih region region rfl regular.1.1 regular.1.2)
      · exact branch_moved (ih region place same regular.2.1 regular.2.2)
          (ih region region rfl regular.2.1 regular.2.2)
    | loop test body =>
      rw [runWith, same]
      exact iterate_moved (ih region place same regular.1 regular.2) bound

end Places

section Unfolding

variable {scope region : Region} {bound : Nat}

theorem runAll_single (run : Region → Stmt → Exec Flow) (region : Region) (stmt : Stmt) :
    runAll run region [stmt] = run region stmt := by
  have whole : runAll run region [stmt] = run region stmt >>= pure := by
    rw [runAll]
    apply bind_congr
    intro flow
    cases flow <;> rfl
  exact whole.trans (bind_pure _)

/-- The block around body and increment declares nothing, so that the increment sees what the body
was to see. -/
theorem execute_round {body : Stmt} {step : Expr} (plain : body.isDeclaration = false)
    (regular : body.Regular) :
    execute (bound + 2) scope (.block [body, .expression step]) =
      followedBy (execute (bound + 1) scope body) (evaluate bound scope.environment step) := by
  have inside : leaving (.inside scope.environment) (execute (bound + 1) scope body) =
      execute (bound + 1) (.inside scope.environment) body :=
    execute_moved (.inside scope.environment) scope rfl plain regular (bound + 1)
  have still : leaving scope (execute (bound + 1) scope body) = execute (bound + 1) scope body :=
    execute_moved scope scope rfl plain regular (bound + 1)
  -- both sides run the body in the scope of the loop, and leave that as it was
  rw [execute, runWith, runAll, ← inside, ← still, followedBy, leaving, leaving]
  simp only [bind_assoc, pure_bind]
  apply bind_congr
  intro flow
  cases flow with
  | next left =>
    simp only [Flow.leave, runAll_single, execute, runWith, bind_assoc]
    rfl
  | returned value => rfl

theorem followedBy_nothing (body : Exec Flow) : followedBy body (pure .nil) = body := by
  have whole : followedBy body (pure .nil) = body >>= pure := by
    rw [followedBy]
    apply bind_congr
    intro flow
    cases flow <;> rfl
  exact whole.trans (bind_pure _)

theorem execute_block {first rest : Stmt} :
    execute (bound + 1) region (.block [first, rest]) =
      execute bound (.inside region.environment) first >>= fun flow =>
        match flow with
        | .next scope => leaving region (execute bound scope rest)
        | .returned value => pure (.returned value) := by
  rw [execute, runWith, runAll, bind_assoc]
  apply bind_congr
  intro flow
  cases flow with
  | next scope =>
    change leaving region (runAll (execute bound) scope [rest]) = leaving region _
    rw [runAll_single]
  | returned value => rfl

end Unfolding

section Bounds

variable {loop : ForLoop} {bound larger : Nat}

theorem settles_test (site : Site) (order : bound ≤ larger) (environment : Environment) :
    Exec.Settles (evaluate bound environment (loop.test site))
        (testOr (evaluate larger environment) loop.condition) ∧
      Exec.Settles (testOr (evaluate bound environment) loop.condition)
        (evaluate (larger + 1) environment (loop.test site)) := by
  rw [ForLoop.test]
  cases loop.condition with
  | none =>
    refine ⟨?_, .refl _⟩
    cases bound with
    | zero => exact .unfinished _
    | succ bound => exact .refl _
  | some test =>
    exact ⟨(settles_evaluate_execute order).1 environment test,
      (settles_evaluate_execute (Nat.le_succ_of_le order)).1 environment test⟩

theorem settles_followedBy {body moreBody : Exec Flow} {step moreStep : Exec Value}
    (bodies : Exec.Settles body moreBody) (steps : Exec.Settles step moreStep) :
    Exec.Settles (followedBy body step) (followedBy moreBody moreStep) := by
  apply bodies.bind
  intro flow
  cases flow with
  | next left => exact steps.before _
  | returned value => exact .refl _

theorem settles_round (plain : loop.body.isDeclaration = false) (regular : loop.body.Regular)
    (order : bound ≤ larger) (scope : Region) :
    Exec.Settles (execute bound scope loop.round)
        (followedBy (execute larger scope loop.body)
          (evaluateOr (evaluate larger scope.environment) loop.increment)) ∧
      Exec.Settles
        (followedBy (execute bound scope loop.body)
          (evaluateOr (evaluate bound scope.environment) loop.increment))
        (execute (larger + 2) scope loop.round) := by
  rw [ForLoop.round]
  cases loop.increment with
  | none =>
    simp only [evaluateOr, followedBy_nothing]
    exact ⟨(settles_evaluate_execute order).2 scope loop.body,
      (settles_evaluate_execute (Nat.le_add_right_of_le order)).2 scope loop.body⟩
  | some step =>
    constructor
    · -- the block takes one level and the statement of the increment another
      rcases bound with _ | _ | less
      · exact .unfinished _
      · exact fun memory => .inl ⟨memory, rfl⟩
      · rw [execute_round plain regular]
        exact settles_followedBy ((settles_evaluate_execute (by omega)).2 scope loop.body)
          ((settles_evaluate_execute (by omega)).1 scope.environment step)
    · rw [execute_round plain regular]
      exact settles_followedBy ((settles_evaluate_execute (Nat.le_succ_of_le order)).2 scope loop.body)
        ((settles_evaluate_execute order).1 scope.environment step)

theorem settles_rounds (site : Site) (plain : loop.body.isDeclaration = false)
    (regular : loop.body.Regular) (order : bound ≤ larger) (scope : Region) :
    Exec.Settles (execute bound scope (loop.rounds site)) (executeRounds larger scope loop) ∧
      Exec.Settles (executeRounds bound scope loop)
        (execute (larger + 3) scope (loop.rounds site)) := by
  constructor
  · cases bound with
    | zero => exact .unfinished _
    | succ less =>
      have fewer : less ≤ larger := Nat.le_of_succ_le order
      exact settles_iterate (settles_test site fewer _).1
        (settles_round plain regular fewer scope).1 fewer
  · exact settles_iterate (settles_test site (Nat.le_succ_of_le order) _).2
      (settles_round plain regular order scope).2 (Nat.le_add_right_of_le order)

/-- In the model the loop as it is meant and what it is made into come to the same. -/
theorem settles_for (site : Site) (plain : loop.body.isDeclaration = false)
    (regular : loop.body.Regular) (order : bound ≤ larger) (region : Region) :
    Exec.Settles (execute bound region (loop.statement site)) (executeFor larger region loop) ∧
      Exec.Settles (executeFor bound region loop)
        (execute (larger + 4) region (loop.statement site)) := by
  have branch : (loop.rounds site).Regular := loop.round_regular plain regular
  have rounds (bound : Nat) : execute bound region (loop.rounds site) =
      leaving region (execute bound (.inside region.environment) (loop.rounds site)) :=
    (execute_moved region (.inside region.environment) rfl rfl branch bound).symm
  rw [ForLoop.statement_eq]
  unfold executeFor
  cases loop.initializer with
  | none =>
    -- there is no block here to open the scope, but the rounds do not depend on one
    simp only [runOptional, pure_bind, rounds]
    obtain ⟨forth, back⟩ :=
      settles_rounds site plain regular order (.inside region.environment)
    exact ⟨forth.before _, (back.trans ((settles_evaluate_execute (by omega)).2 _ _)).before _⟩
  | some first =>
    simp only [runOptional, execute_block]
    constructor
    · cases bound with
      | zero => exact .unfinished _
      | succ less =>
        rw [execute_block]
        apply ((settles_evaluate_execute (Nat.le_of_succ_le order)).2 _ first).bind
        intro flow
        cases flow with
        | next scope =>
          exact (settles_rounds site plain regular (Nat.le_of_succ_le order) scope).1.before _
        | returned value => exact .refl _
    · apply ((settles_evaluate_execute (Nat.le_add_right_of_le order)).2 _ first).bind
      intro flow
      cases flow with
      | next scope => exact (settles_rounds site plain regular order scope).2.before _
      | returned value => exact .refl _

end Bounds
end Lexical
end LoxLang

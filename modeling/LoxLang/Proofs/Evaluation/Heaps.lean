import LoxLang.Proofs.Evaluation.Laws
import LoxLang.Proofs.Stores.Roots

/-!
The frames of a run, at all its moments. What the run comes to begins on a store that has grown since
the run began, and leaves one that grows until the run ends; and where all frames come from one global
frame, and all functions from frames that are there, this is so at every moment.
-/
namespace LoxLang

structure Machine.Rooted (globals : FrameId) (machine : Machine) : Prop where
  root : machine.globals = globals
  store : machine.store.Rooted globals
  current : machine.current < machine.store.next

/-- Any code may be run on a rooted machine. -/
def Law.rooted (globals : FrameId) : Law where
  holds := Machine.Rooted globals
  good store value := value.Anchored store
  inside store frame := frame < store.next
  code _ := True
  goodLater grows anchored := anchored.later grows.next
  insideLater grows there := Nat.lt_of_lt_of_le there grows.next
  part _ _ := trivial
  plain := .of_plain
  function := ⟨fun anchored => ⟨anchored, trivial⟩, fun both => both.1⟩
  bound rooted found := rooted.store.anchored _ _ _ found
  current rooted := rooted.current
  enter rooted there := ⟨rooted.root, rooted.store, there⟩
  define frame name rooted good := ⟨rooted.root, rooted.store.define frame name good,
    Nat.lt_of_lt_of_le rooted.current (Store.grows_define _ _ _ _).next⟩
  opened rooted there := ⟨rooted.root, rooted.store.push there,
    Nat.lt_of_lt_of_le rooted.current (Store.grows_push _ _).next⟩
  inner _ := by simp
  same {before after} rooted store globals current :=
    ⟨globals.trans rooted.root, store ▸ rooted.store, by rw [store, current]; exact rooted.current⟩

section Parts

variable {α β : Type} {machine reached : Machine} {eval : Expr → Exec Value} {run : Stmt → Exec Flow}

theorem Store.Grows.behind {first : Exec α} {next : α → Exec β} (further : ∀ value, (next value).Grows)
    (machine : Machine) :
    (first machine).machine.store.Grows ((first >>= next) machine).machine.store := by
  rw [Exec.bind_apply]
  cases first machine with
  | done value after => exact (further value after).store
  | stopped stop after => exact .refl _

theorem Store.Grows.past {first : Exec α} {next : α → Exec β} {value : α} {store : Store}
    (done : first machine = .done value reached)
    (rest : store.Grows (next value reached).machine.store) :
    store.Grows ((first >>= next) machine).machine.store := by
  rw [Exec.bind_of_done done]
  exact rest

section Choices

variable {condition : Prop} [Decidable condition] {yes no : Exec α}

theorem Store.Grows.chosen (holds : condition) (machine : Machine) :
    (yes machine).machine.store.Grows ((if condition then yes else no) machine).machine.store := by
  rw [if_pos holds]
  exact .refl _

theorem Store.Grows.refused (fails : ¬condition) (machine : Machine) :
    (no machine).machine.store.Grows ((if condition then yes else no) machine).machine.store := by
  rw [if_neg fails]
  exact .refl _

end Choices

theorem within_store (frame : FrameId) (body : Exec α) (machine : Machine) :
    (within frame body machine).machine.store =
      (body { machine with current := frame }).machine.store := by
  unfold within
  cases body { machine with current := frame } <;> rfl

theorem grows_behind_argument (grows : ∀ expr, (eval expr).Grows) {arguments before rest : List Expr}
    {argument : Expr} {results : List Value} (among : arguments = before ++ argument :: rest)
    (ran : evaluateAll eval before machine = .done results reached) :
    (eval argument reached).machine.store.Grows (evaluateAll eval arguments machine).machine.store := by
  subst among
  induction before generalizing machine results with
  | nil =>
    cases ran
    exact .behind (fun _ => (grows_evaluateAll grows rest).bind fun _ => .pure _) _
  | cons first others ih =>
    obtain ⟨value, middle, done, later⟩ := Exec.bind_eq_done.mp ran
    obtain ⟨_, _, between, same⟩ := Exec.bind_eq_done.mp later
    cases same
    exact .past done ((ih between).trans (.behind (fun _ => .pure _) middle))

theorem grows_behind_statement (grows : ∀ stmt, (run stmt).Grows) {body : List Stmt} {stmt : Stmt}
    (comesUp : ComesUp run body machine stmt reached) :
    (run stmt reached).machine.store.Grows (runAll run body machine).machine.store := by
  obtain ⟨before, rest, rfl, ran⟩ := comesUp
  rw [runAll_behind ran]
  exact .behind (Exec.Grows.uniform.flow (grows_runAll grows rest)) reached

theorem grows_behind_test {test : Exec Value} {body : Exec Flow} (bodyGrows : body.Grows)
    (later : ∀ bound, (iterate test body bound).Grows) {rounds bound : Nat}
    (all : Rounds test body rounds machine reached) (fewer : rounds < bound) :
    (test reached).machine.store.Grows (iterate test body bound machine).machine.store := by
  obtain ⟨left, rfl⟩ := Nat.exists_eq_add_of_lt fewer
  rw [Nat.add_assoc, all.iterate]
  have keeps := Exec.Grows.uniform
  exact .behind (fun again =>
    Exec.Uniform.choose (keeps.bind bodyGrows (keeps.flow (later left))) (keeps.pure _)) reached

theorem grows_behind_body {test : Exec Value} {body : Exec Flow}
    (later : ∀ bound, (iterate test body bound).Grows) {rounds bound : Nat} {again : Value}
    {tested : Machine} (all : Rounds test body rounds machine reached) (fewer : rounds < bound)
    (passed : test reached = .done again tested) (goes : again.truthy = true) :
    (body tested).machine.store.Grows (iterate test body bound machine).machine.store := by
  obtain ⟨left, rfl⟩ := Nat.exists_eq_add_of_lt fewer
  rw [Nat.add_assoc, all.iterate, iterate, Exec.bind_of_done passed, if_pos goes]
  exact .behind (Exec.Grows.uniform.flow (later left)) tested

theorem grows_rounds {test : Exec Value} {body : Exec Flow} (testGrows : test.Grows)
    (bodyGrows : body.Grows) {rounds : Nat} (all : Rounds test body rounds machine reached) :
    machine.store.Grows reached.store := by
  induction all with
  | none machine => exact .refl _
  | more tested _ ran _ ih =>
    exact (testGrows.done tested).store.trans ((bodyGrows.done ran).store.trans ih)

theorem grows_comesUp (grows : ∀ stmt, (run stmt).Grows) {body : List Stmt} {stmt : Stmt}
    (comesUp : ComesUp run body machine stmt reached) : machine.store.Grows reached.store := by
  obtain ⟨before, rest, rfl, ran⟩ := comesUp
  exact ((grows_runAll grows before).done ran).store

end Parts

section Order

variable {bound : Nat} {machine called ready : Machine} {callee : Expr} {arguments : List Expr}
  {target : Value} {values : List Value}

theorem grows_called (calls : evaluate bound callee machine = .done target called)
    (passes : evaluateAll (evaluate bound) arguments called = .done values ready) :
    machine.store.Grows ready.store :=
  ((grows_evaluate bound callee).done calls).store.trans
    ((grows_evaluateAll (grows_evaluate bound) arguments).done passes).store

theorem grows_behind_entered {declaration : Function} {closure frame : FrameId}
    {opened entered : Machine} (opens : openInside closure ready = .done frame opened)
    (binds : bindParameters frame declaration.parameters values opened = .done () entered) :
    (runAll (execute bound) declaration.body { entered with current := frame }).machine.store.Grows
      ((CallableOver.function declaration closure).run (execute bound) values ready).machine.store := by
  rw [← within_store frame _ entered]
  refine .past opens (.past binds (.behind (fun flow => ?_) entered))
  cases flow <;> exact .pure _

theorem grows_entered {declaration : Function} {closure frame : FrameId}
    {opened entered reached : Machine} {stmt : Stmt}
    (opens : openInside closure ready = .done frame opened)
    (binds : bindParameters frame declaration.parameters values opened = .done () entered)
    (comesUp : ComesUp (execute bound) declaration.body { entered with current := frame } stmt reached) :
    ready.store.Grows reached.store := by
  have inside := ((grows_openInside _).done opens).store
  have bound := ((grows_bindParameters _ _ _).done binds).store
  have reached := grows_comesUp (grows_execute _) comesUp
  exact inside.trans (bound.trans reached)

theorem Starts.ahead {outer inner : Moment} (starts : Starts outer inner) :
    outer.machine.store.Grows inner.machine.store := by
  have evaluated {bound : Nat} {expr : Expr} {machine after : Machine} {value : Value}
      (done : evaluate bound expr machine = .done value after) : machine.store.Grows after.store :=
    ((grows_evaluate bound expr).done done).store
  cases starts with
  | rightOperand first => exact evaluated first
  | rightChoice first _ => exact evaluated first
  | argument calls _ passes => exact grows_called calls passes
  | called calls passes _ opens binds comesUp =>
    exact (grows_called calls passes).trans (grows_entered opens binds comesUp)
  | block opens comesUp =>
    have opened := ((grows_openInside _).done opens).store
    have reached := grows_comesUp (grows_execute _) comesUp
    exact opened.trans reached
  | yesThen tested _ | yesElse tested _ | noElse tested _ => exact evaluated tested
  | testLoop rounds _ => exact grows_rounds (grows_evaluate _ _) (grows_execute _ _) rounds
  | bodyLoop rounds _ tested _ =>
    exact (grows_rounds (grows_evaluate _ _) (grows_execute _ _) rounds).trans (evaluated tested)
  | _ => exact .refl _

theorem Starts.behind {outer inner : Moment} (starts : Starts outer inner) :
    inner.final.store.Grows outer.final.store := by
  have keeps := Exec.Grows.uniform
  cases starts with
  | assigned => exact .behind (fun _ => (grows_assignVariable _ _ _).bind fun _ => .pure _) _
  | grouped => exact .refl _
  | operand => exact .behind (fun _ => keeps.atLine _ _) _
  | leftOperand => exact .behind (fun _ => (grows_evaluate _ _).bind fun _ => keeps.atLine _ _) _
  | rightOperand first => exact .past first (.behind (fun _ => keeps.atLine _ _) _)
  | leftChoice => exact .behind (fun _ => Exec.Uniform.choose (.pure _) (grows_evaluate _ _)) _
  | rightChoice first undecided => exact .past first (.refused (Bool.eq_false_iff.mp undecided) _)
  | callee =>
    exact .behind (fun _ => (grows_evaluateAll (grows_evaluate _) _).bind fun _ =>
      keeps.callValue (grows_execute _) _ _ _) _
  | argument calls among passes =>
    have passed := grows_behind_argument (grows_evaluate _) among passes
    exact .past calls (passed.trans (.behind
      (fun _ => keeps.callValue (grows_execute _) _ _ _) _))
  -- The rest of the body, then leaving its frame, then nothing more of the call.
  | called calls passes enough opens binds comesUp =>
    have inside := grows_behind_statement (grows_execute _) comesUp
    have ran := inside.trans (grows_behind_entered opens binds)
    exact .past calls (.past passes (ran.trans (.chosen enough _)))
  | initializer => exact .behind (fun _ => (grows_defineHere _ _).bind fun _ => .pure _) _
  | expression => exact .behind (fun _ => .pure _) _
  | printed => exact .behind (fun _ => (grows_write _).bind fun _ => .pure _) _
  | result => exact .behind (fun _ => .pure _) _
  | block opens comesUp =>
    have inside := grows_behind_statement (grows_execute _) comesUp
    rw [← within_store] at inside
    cases opens
    exact inside
  | testThen => exact .behind (fun _ => Exec.Uniform.choose (grows_execute _ _) (.pure _)) _
  | yesThen tested goes => exact .past tested (.chosen goes _)
  | testElse => exact .behind (fun _ => Exec.Uniform.choose (grows_execute _ _) (grows_execute _ _)) _
  | yesElse tested goes => exact .past tested (.chosen goes _)
  | noElse tested stays => exact .past tested (.refused (Bool.eq_false_iff.mp stays) _)
  | testLoop rounds fewer =>
    exact grows_behind_test (grows_execute _ _)
      (grows_iterate (grows_evaluate _ _) (grows_execute _ _)) rounds fewer
  | bodyLoop rounds fewer tested goes =>
    exact grows_behind_body (grows_iterate (grows_evaluate _ _) (grows_execute _ _)) rounds fewer
      tested goes

theorem Moment.grows (moment : Moment) : moment.machine.store.Grows moment.final.store := by
  cases moment with
  | evaluating bound initializing expr machine => exact (grows_evaluate bound expr machine).store
  | executing bound stmt machine => exact (grows_execute bound stmt machine).store

end Order
end LoxLang

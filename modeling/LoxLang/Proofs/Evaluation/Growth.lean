import LoxLang.Proofs.Evaluation.Uniform

/-!
What every run keeps, whatever it runs and however it ends. Frames stay, with the parents they were
opened in, and a name that is bound in a frame stays bound there; the current frame is the same again
at the end; the global frame and the distances do not change at all.
-/
namespace LoxLang

structure Store.Grows (before after : Store) : Prop where
  next : before.next ≤ after.next
  parent : ∀ frame, frame < before.next → after.parent? frame = before.parent? frame
  bound : ∀ frame name, (before.bound? frame name).isSome → (after.bound? frame name).isSome

namespace Store

theorem Grows.refl (store : Store) : store.Grows store :=
  ⟨Nat.le_refl _, fun _ _ => rfl, fun _ _ bound => bound⟩

theorem Grows.trans {first middle last : Store} (ahead : first.Grows middle)
    (further : middle.Grows last) : first.Grows last :=
  ⟨Nat.le_trans ahead.next further.next, fun frame old =>
    (further.parent frame (Nat.lt_of_lt_of_le old ahead.next)).trans (ahead.parent frame old),
    fun frame name bound => further.bound frame name (ahead.bound frame name bound)⟩

theorem lt_next_of_parent? {store : Store} {frame parent : FrameId}
    (found : store.parent? frame = some parent) : frame < store.next := by
  unfold parent? at found
  cases present : store.frames[frame]? with
  | none => simp [present] at found
  | some content => exact (Array.getElem?_eq_some_iff.mp present).1

theorem grows_define (store : Store) (frame : FrameId) (name : String) (value : Value) :
    store.Grows (store.define frame name value) := by
  refine ⟨by simp, fun other _ => parent?_define store frame other name value, ?_⟩
  intro other sought bound
  rw [bound?_define]
  split
  · rfl
  · exact bound

theorem grows_push (store : Store) (parent : Option FrameId) : store.Grows (store.push parent) := by
  refine ⟨by simp, fun frame old => ?_, fun frame name bound => ?_⟩
  · rw [parent?_push, if_neg (Nat.ne_of_lt old)]
  · rwa [bound?_push]

theorem Grows.parent_some {before after : Store} (grows : before.Grows after)
    {frame parent : FrameId} (found : before.parent? frame = some parent) :
    after.parent? frame = some parent :=
  (grows.parent frame (lt_next_of_parent? found)).trans found

theorem Grows.ancestor {before after : Store} (grows : before.Grows after)
    {frame ancestor : FrameId} {distance : Nat}
    (found : before.ancestor? frame distance = some ancestor) :
    after.ancestor? frame distance = some ancestor := by
  induction distance generalizing frame with
  | zero => exact found
  | succ distance ih =>
    unfold ancestor? at found ⊢
    cases step : before.parent? frame with
    | none => simp [step] at found
    | some parent =>
      rw [step] at found
      rw [grows.parent_some step]
      exact ih found

end Store

structure Machine.Grows (before after : Machine) : Prop where
  store : before.store.Grows after.store
  globals : after.globals = before.globals
  current : after.current = before.current
  distances : after.distances = before.distances
  clock : after.clock = before.clock

namespace Machine.Grows

theorem refl (machine : Machine) : machine.Grows machine := ⟨.refl _, rfl, rfl, rfl, rfl⟩

theorem trans {first middle last : Machine} (ahead : first.Grows middle)
    (further : middle.Grows last) : first.Grows last :=
  ⟨ahead.store.trans further.store, further.globals.trans ahead.globals,
    further.current.trans ahead.current, further.distances.trans ahead.distances,
    further.clock.trans ahead.clock⟩

theorem define (machine : Machine) (frame : FrameId) (name : String) (value : Value) :
    machine.Grows (machine.define frame name value) :=
  ⟨Store.grows_define _ _ _ _, rfl, rfl, rfl, rfl⟩

end Machine.Grows

def Exec.Grows {α : Type} (exec : Exec α) : Prop :=
  ∀ machine : Machine, machine.Grows (exec machine).machine

namespace Exec

variable {α β : Type}

theorem bind_eq_done {first : Exec α} {next : α → Exec β} {machine after : Machine} {value : β} :
    (first >>= next) machine = .done value after ↔
      ∃ made middle, first machine = .done made middle ∧ next made middle = .done value after := by
  rw [bind_apply]
  cases first machine with
  | done made middle =>
    constructor
    · intro result
      exact ⟨made, middle, rfl, result⟩
    · rintro ⟨_, _, same, result⟩
      cases same
      exact result
  | stopped stop middle => simp

namespace Grows

theorem done {exec : Exec α} (grows : exec.Grows) {machine after : Machine} {value : α}
    (result : exec machine = .done value after) : machine.Grows after := by
  simpa [result, Step.machine] using grows machine

theorem pure (value : α) : (Pure.pure value : Exec α).Grows := fun machine => .refl machine

theorem bind {first : Exec α} {next : α → Exec β} (ahead : first.Grows)
    (further : ∀ value, (next value).Grows) : (first >>= next).Grows := by
  intro machine
  have start := ahead machine
  rw [bind_apply]
  cases result : first machine with
  | done value after =>
    rw [result] at start
    exact start.trans (further value after)
  | stopped stop after =>
    rw [result] at start
    exact start

end Grows

theorem grows_fault (cause : RuntimeCause) (line : Nat) : (fault cause line : Exec α).Grows :=
  fun machine => .refl machine

end Exec

theorem grows_readVariable (site : Site) (name : String) : (readVariable site name).Grows := by
  intro machine
  unfold readVariable
  split <;> exact .refl machine

theorem grows_assignVariable (site : Site) (name : String) (value : Value) :
    (assignVariable site name value).Grows := by
  intro machine
  unfold assignVariable
  split
  · exact .define machine _ name value
  · exact .refl machine

theorem grows_defineHere (name : String) (value : Value) : (defineHere name value).Grows :=
  fun machine => .define machine _ name value

theorem grows_defineIn (frame : FrameId) (name : String) (value : Value) :
    (defineIn frame name value).Grows :=
  fun machine => .define machine frame name value

theorem grows_currentFrame : currentFrame.Grows := fun machine => .refl machine

theorem grows_openInside (parent : FrameId) : (openInside parent).Grows :=
  fun machine => ⟨Store.grows_push machine.store (some parent), rfl, rfl, rfl, rfl⟩

theorem grows_makeCallable (target : Callable) : (makeCallable target).Grows :=
  fun machine => ⟨.refl machine.store, rfl, rfl, rfl, rfl⟩

theorem grows_write (value : Value) : (write value).Grows :=
  fun machine => ⟨.refl machine.store, rfl, rfl, rfl, rfl⟩

theorem grows_readClock : readClock.Grows :=
  fun machine => ⟨.refl machine.store, rfl, rfl, rfl, rfl⟩

theorem grows_within {α : Type} (frame : FrameId) {body : Exec α} (grows : body.Grows) :
    (within frame body).Grows := by
  intro machine
  have inside := grows { machine with current := frame }
  unfold within
  cases result : body { machine with current := frame } with
  | done value after =>
    rw [result] at inside
    exact ⟨inside.store, inside.globals, rfl, inside.distances, inside.clock⟩
  | stopped stop after =>
    rw [result] at inside
    exact ⟨inside.store, inside.globals, rfl, inside.distances, inside.clock⟩

theorem Exec.Grows.uniform : Exec.Uniform @Exec.Grows where
  pure := .pure
  bind := .bind
  fault := grows_fault
  unfinished machine := .refl machine
  readVariable := grows_readVariable
  assignVariable := grows_assignVariable
  defineHere := grows_defineHere
  defineIn := grows_defineIn
  currentFrame := grows_currentFrame
  openInside := grows_openInside
  makeCallable := grows_makeCallable
  write := grows_write
  readClock := grows_readClock
  within frame _ := grows_within frame

section Evaluation

variable {eval : Expr → Exec Value} {run : Stmt → Exec Flow}

theorem grows_evaluateAll (grows : ∀ expr, (eval expr).Grows) (values : List Expr) :
    (evaluateAll eval values).Grows :=
  Exec.Grows.uniform.evaluateAll grows values

theorem grows_runAll (grows : ∀ stmt, (run stmt).Grows) (body : List Stmt) :
    (runAll run body).Grows :=
  Exec.Grows.uniform.runAll grows body

theorem grows_bindParameters (frame : FrameId) (names : List Ident) (values : List Value) :
    (bindParameters frame names values).Grows :=
  Exec.Grows.uniform.bindParameters frame names values

theorem grows_callable (grows : ∀ stmt, (run stmt).Grows) (arguments : List Value)
    (target : Callable) : (target.run run arguments).Grows :=
  Exec.Grows.uniform.callable grows arguments target

theorem grows_evaluateOr (grows : ∀ expr, (eval expr).Grows) (value : Option Expr) :
    (evaluateOr eval value).Grows :=
  Exec.Grows.uniform.evaluateOr grows value

theorem grows_iterate {test : Exec Value} {body : Exec Flow} (testGrows : test.Grows)
    (bodyGrows : body.Grows) (bound : Nat) : (iterate test body bound).Grows :=
  Exec.Grows.uniform.iterate testGrows bodyGrows bound

theorem grows_evaluate (bound : Nat) (expr : Expr) : Exec.Grows (evaluate bound expr) :=
  Exec.Grows.uniform.evaluate bound expr

theorem grows_execute (bound : Nat) (stmt : Stmt) : Exec.Grows (execute bound stmt) :=
  Exec.Grows.uniform.execute bound stmt

end Evaluation

end LoxLang

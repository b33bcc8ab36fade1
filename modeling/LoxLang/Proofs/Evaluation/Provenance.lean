import LoxLang.Proofs.Evaluation.Laws

/-!
Where the code that runs comes from. A function value carries a body out of the program that declares
it; whatever an execution comes to, at whatever depth, is a node of the program that is run or of one
that has left its functions behind.
-/
namespace LoxLang

/-- Nodes of one of these programs. -/
def Known (programs : Program → Prop) (nodes : List Expr) : Prop :=
  ∃ program, programs program ∧ nodes ⊆ Stmt.nodesAll program

namespace Known

variable {programs : Program → Prop} {nodes others : List Expr}

theorem mono (known : Known programs nodes) (among : others ⊆ nodes) : Known programs others := by
  obtain ⟨program, member, inside⟩ := known
  exact ⟨program, member, List.Subset.trans among inside⟩

theorem left (known : Known programs (nodes ++ others)) : Known programs nodes :=
  known.mono (List.subset_append_left _ _)

theorem right (known : Known programs (nodes ++ others)) : Known programs others :=
  known.mono (List.subset_append_right _ _)

end Known

variable {programs : Program → Prop}

def CallableOver.Known (programs : Program → Prop) : Callable → Prop
  | .native _ => True
  | .function declaration _ => LoxLang.Known programs (Stmt.nodesAll declaration.body)

def ValueOver.Known (programs : Program → Prop) : Value → Prop
  | .callable _ target => target.Known programs
  | _ => True

def Flow.Known (programs : Program → Prop) : Flow → Prop
  | .next => True
  | .returned value => value.Known programs

def Machine.Known (programs : Program → Prop) (machine : Machine) : Prop :=
  ∀ frame name value, machine.store.bound? frame name = some value → value.Known programs

namespace Machine.Known

variable {machine : Machine}

theorem of_store {after : Machine} (known : machine.Known programs)
    (same : after.store = machine.store) : after.Known programs := by
  intro frame name value found
  rw [same] at found
  exact known frame name value found

theorem imp {others : Program → Prop} (known : machine.Known programs)
    (among : ∀ program, programs program → others program) : machine.Known others := by
  intro frame name value found
  have good := known frame name value found
  cases value with
  | callable identity target =>
    cases target with
    | native builtin => trivial
    | function declaration closure =>
      obtain ⟨program, member, inside⟩ := good
      exact ⟨program, among program member, inside⟩
  | _ => trivial

theorem enter (known : machine.Known programs) (frame : FrameId) :
    ({ machine with current := frame } : Machine).Known programs :=
  known

theorem define {value : Value} (known : machine.Known programs) (frame : FrameId) (name : String)
    (good : value.Known programs) : (machine.define frame name value).Known programs := by
  intro other sought found bound
  change (machine.store.define frame name value).bound? other sought = some found at bound
  rw [Store.bound?_define] at bound
  split at bound
  · cases bound
    exact good
  · exact known other sought found bound

theorem openFrame (known : machine.Known programs) (parent : Option FrameId) :
    (machine.openFrame parent).2.Known programs := by
  intro frame name value found
  change (machine.store.push parent).bound? frame name = some value at found
  rw [Store.bound?_push] at found
  exact known frame name value found

end Machine.Known

def Law.provenance (programs : Program → Prop) : Law where
  holds := Machine.Known programs
  good _ := ValueOver.Known programs
  inside _ _ := True
  code := LoxLang.Known programs
  goodLater _ known := known
  insideLater _ _ := trivial
  part known among := known.mono among
  plain {_ value} plain := by
    cases value with
    | callable identity target => exact plain.elim
    | _ => trivial
  function := ⟨fun known => ⟨trivial, known⟩, fun both => both.2⟩
  bound known found := known _ _ _ found
  current _ := trivial
  enter known _ := known.enter _
  define frame name known good := known.define frame name good
  opened known _ := known.openFrame _
  inner _ := trivial
  same known store _ _ := known.of_store store

/-- From a machine with known functions only, the run leaves such a machine, and its result is good. -/
def Exec.Keeps {α : Type} (programs : Program → Prop) (exec : Exec α) (good : α → Prop) : Prop :=
  ∀ machine : Machine, machine.Known programs →
    (exec machine).machine.Known programs ∧
      ∀ value final, exec machine = .done value final → good value

namespace Exec.Keeps

variable {α β : Type} {good : α → Prop} {exec : Exec α}

theorem pure {value : α} (holds : good value) : (Pure.pure value : Exec α).Keeps programs good := by
  intro machine known
  refine ⟨known, fun made final same => ?_⟩
  cases same
  exact holds

theorem bind {last : β → Prop} {first : Exec α} {next : α → Exec β}
    (ahead : first.Keeps programs good)
    (further : ∀ value, good value → (next value).Keeps programs last) :
    (first >>= next).Keeps programs last := by
  intro machine known
  obtain ⟨kept, reached⟩ := ahead machine known
  rw [bind_apply]
  cases result : first machine with
  | done value final =>
    rw [result] at kept
    exact further value (reached value final result) final kept
  | stopped stop final =>
    rw [result] at kept
    exact ⟨kept, fun _ _ same => nomatch same⟩

theorem of_upholds {result : Store → α → Prop}
    (upholds : ∀ store, exec.Upholds (.provenance programs) store result)
    (gives : ∀ store value, result store value → good value) : exec.Keeps programs good := by
  intro machine known
  have ran := upholds machine.store
  refine ⟨(ran machine known (.refl _)).machine, fun value final done => ?_⟩
  exact gives final.store value (ran.done known done).2.2

end Exec.Keeps

section Evaluation

variable {run : Stmt → Exec Flow}

theorem keeps_write (value : Value) : (write value).Keeps programs fun _ => True :=
  .of_upholds (fun _ => upholds_write value) fun _ _ _ => trivial

def RunKeeps (programs : Program → Prop) (run : Stmt → Exec Flow) : Prop :=
  ∀ stmt : Stmt, Known programs stmt.nodes → (run stmt).Keeps programs (Flow.Known programs)

theorem keeps_runAll (keeps : RunKeeps programs run) {body : List Stmt}
    (known : Known programs (Stmt.nodesAll body)) :
    (runAll run body).Keeps programs (Flow.Known programs) := by
  induction body with
  | nil => exact .pure trivial
  | cons first rest ih =>
    apply (keeps first known.left).bind
    intro flow good
    cases flow with
    | next => exact ih known.right
    | returned value => exact .pure good

theorem keeps_evaluate (bound : Nat) (expr : Expr) :
    Exec.Keeps programs (evaluate bound expr) (ValueOver.Known programs) :=
  .of_upholds (upholds_evaluate (.provenance programs) bound expr) fun _ _ known => known

theorem keeps_execute (bound : Nat) : RunKeeps programs (execute bound) := by
  intro stmt known
  refine .of_upholds (upholds_execute (.provenance programs) bound stmt known) fun _ flow good => ?_
  cases flow <;> exact good

end Evaluation

section Moments

/-- The code at the moment is known, and so are the functions that the machine holds. -/
def Moment.Known (programs : Program → Prop) : Moment → Prop
  | .evaluating _ _ expr machine => machine.Known programs ∧ LoxLang.Known programs expr.nodes
  | .executing _ stmt machine => machine.Known programs ∧ LoxLang.Known programs stmt.nodes

variable {bound : Nat} {machine reached : Machine}

theorem Moment.known_iff {moment : Moment} :
    moment.Known programs ↔ moment.Lawful (.provenance programs) := by
  cases moment <;> exact Iff.rfl

theorem known_comesUp {body : List Stmt} {stmt : Stmt} (known : machine.Known programs)
    (code : Known programs (Stmt.nodesAll body))
    (comesUp : ComesUp (execute bound) body machine stmt reached) :
    (Moment.executing bound stmt reached).Known programs :=
  Moment.known_iff.mpr (lawful_comesUp (.provenance programs) known code comesUp)

theorem Moment.Known.reaches {moment inner : Moment} (known : moment.Known programs)
    (reaches : Reaches moment inner) : inner.Known programs :=
  Moment.known_iff.mpr ((Moment.known_iff.mp known).reaches reaches)

end Moments
end LoxLang

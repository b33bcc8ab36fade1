import LoxLang.Proofs.Evaluation.Effects
import LoxLang.Proofs.Evaluation.Values
import LoxLang.Proofs.Syntax.Parts

/-!
Laws that runs keep. What is asked of a machine is asked of all values that it holds; a run that starts
with such a machine, with such values and with code that it may run keeps it so, and so does whatever
the run comes to.
-/
namespace LoxLang

/-- What is asked of machines, of values, of the frames that may be entered and of the code that may be
run. A value or a frame stays good as the store grows, and parts of good code are good. -/
structure Law where
  holds : Machine → Prop
  good : Store → Value → Prop
  inside : Store → FrameId → Prop
  code : List Expr → Prop
  goodLater {before after : Store} {value : Value} : before.Grows after → good before value →
    good after value
  insideLater {before after : Store} {frame : FrameId} : before.Grows after → inside before frame →
    inside after frame
  part {nodes others : List Expr} : code nodes → others ⊆ nodes → code others
  plain {store : Store} {value : Value} : value.Plain → good store value
  function {store : Store} {identity : Nat} {declaration : Function} {closure : FrameId} :
    good store (.callable identity (.function declaration closure)) ↔
      inside store closure ∧ code (Stmt.nodesAll declaration.body)
  bound {machine : Machine} {frame : FrameId} {name : String} {value : Value} : holds machine →
    machine.store.bound? frame name = some value → good machine.store value
  current {machine : Machine} : holds machine → inside machine.store machine.current
  enter {machine : Machine} {frame : FrameId} : holds machine → inside machine.store frame →
    holds { machine with current := frame }
  define {machine : Machine} {value : Value} (frame : FrameId) (name : String) : holds machine →
    good machine.store value → holds (machine.define frame name value)
  opened {machine : Machine} {parent : FrameId} : holds machine → inside machine.store parent →
    holds (machine.openFrame (some parent)).2
  inner {store : Store} {parent : FrameId} : inside store parent →
    inside (store.push (some parent)) store.next
  same {before after : Machine} : holds before → after.store = before.store →
    after.globals = before.globals → after.current = before.current → holds after

namespace Law

variable (law : Law) {nodes others : List Expr} {node : Expr}

def flow (store : Store) : Flow → Prop
  | .next => True
  | .returned result => law.good store result

def goodAll (store : Store) (values : List Value) : Prop := ∀ value ∈ values, law.good store value

variable {law}

theorem goodAllLater {before after : Store} {values : List Value} (good : law.goodAll before values)
    (grows : before.Grows after) : law.goodAll after values :=
  fun value member => law.goodLater grows (good value member)

theorem left (good : law.code (nodes ++ others)) : law.code nodes :=
  law.part good (List.subset_append_left _ _)

theorem right (good : law.code (nodes ++ others)) : law.code others :=
  law.part good (List.subset_append_right _ _)

theorem tail (good : law.code (node :: nodes)) : law.code nodes :=
  law.part good (List.subset_cons_self _ _)

end Law

/-- The machine is good however the run has ended, and a value that it has given is good on it. -/
def Step.Upholds {α : Type} (law : Law) (before : Store) (good : Store → α → Prop) : Step α → Prop
  | .done value after => law.holds after ∧ before.Grows after.store ∧ good after.store value
  | .stopped _ after => law.holds after ∧ before.Grows after.store

def Exec.Upholds {α : Type} (law : Law) (store : Store) (exec : Exec α) (good : Store → α → Prop) :
    Prop :=
  ∀ machine, law.holds machine → store.Grows machine.store →
    (exec machine).Upholds law machine.store good

variable {law : Law} {store : Store}

theorem Step.Upholds.machine {α : Type} {good : Store → α → Prop} {step : Step α}
    (upholds : step.Upholds law store good) : law.holds step.machine := by
  cases step <;> exact upholds.1

namespace Exec.Upholds

variable {α β : Type} {good : Store → α → Prop} {exec : Exec α}

theorem pure {value : α} (holds : ∀ later, store.Grows later → good later value) :
    (Pure.pure value : Exec α).Upholds law store good :=
  fun machine start since => ⟨start, .refl _, holds machine.store since⟩

theorem stopped (stop : Stop) :
    Exec.Upholds law store (fun machine => .stopped stop machine : Exec α) good :=
  fun _ start _ => ⟨start, .refl _⟩

theorem bind {last : Store → β → Prop} {first : Exec α} {next : α → Exec β}
    (ahead : first.Upholds law store good)
    (further : ∀ value later, store.Grows later → good later value →
      (next value).Upholds law later last) : (first >>= next).Upholds law store last := by
  intro machine start since
  have reached := ahead machine start since
  rw [bind_apply]
  cases result : first machine with
  | stopped stop after =>
    rw [result] at reached
    exact reached
  | done value after =>
    rw [result] at reached
    obtain ⟨holds, grows, made⟩ := reached
    have rest := further value after.store (since.trans grows) made after holds (.refl _)
    dsimp only
    cases later : next value after with
    | stopped stop final =>
      rw [later] at rest
      exact ⟨rest.1, grows.trans rest.2⟩
    | done value final =>
      rw [later] at rest
      exact ⟨rest.1, grows.trans rest.2.1, rest.2.2⟩

theorem choose {condition : Prop} [Decidable condition] {yes no : Exec α}
    (first : yes.Upholds law store good) (second : no.Upholds law store good) :
    (if condition then yes else no).Upholds law store good := by
  by_cases chosen : condition
  · rw [if_pos chosen]
    exact first
  · rw [if_neg chosen]
    exact second

theorem within {body : Exec α} (upholds : body.Upholds law store good) {frame : FrameId}
    (entered : law.inside store frame) : (LoxLang.within frame body).Upholds law store good := by
  intro machine start since
  have inside := upholds { machine with current := frame }
    (law.enter start (law.insideLater since entered)) since
  unfold LoxLang.within
  cases result : body { machine with current := frame } with
  | done value after =>
    rw [result] at inside
    obtain ⟨holds, grows, made⟩ := inside
    exact ⟨law.enter holds (law.insideLater grows (law.current start)), grows, made⟩
  | stopped stop after =>
    rw [result] at inside
    obtain ⟨holds, grows⟩ := inside
    exact ⟨law.enter holds (law.insideLater grows (law.current start)), grows⟩

theorem done {machine final : Machine} {value : α} (upholds : exec.Upholds law machine.store good)
    (start : law.holds machine) (result : exec machine = .done value final) :
    law.holds final ∧ machine.store.Grows final.store ∧ good final.store value := by
  have reached := upholds machine start (.refl _)
  rw [result] at reached
  exact reached

end Exec.Upholds

section Operations

theorem upholds_readVariable (site : Site) (name : String) :
    (readVariable site name).Upholds law store law.good := by
  intro machine start _
  unfold readVariable Machine.lookUp?
  cases machine.readFrame? site.id name with
  | none => exact ⟨start, .refl _⟩
  | some frame =>
    cases found : machine.store.bound? frame name with
    | none =>
      simp only [found]
      exact ⟨start, .refl _⟩
    | some value =>
      simp only [found]
      exact ⟨start, .refl _, law.bound start found⟩

theorem upholds_assignVariable (site : Site) (name : String) {value : Value}
    (good : law.good store value) :
    (assignVariable site name value).Upholds law store fun _ _ => True := by
  intro machine start since
  unfold assignVariable
  split
  · exact ⟨law.define _ name start (law.goodLater since good), Store.grows_define _ _ _ _, trivial⟩
  · exact ⟨start, .refl _⟩

theorem upholds_defineHere (name : String) {value : Value} (good : law.good store value) :
    (defineHere name value).Upholds law store fun _ _ => True :=
  fun _ start since =>
    ⟨law.define _ name start (law.goodLater since good), Store.grows_define _ _ _ _, trivial⟩

theorem upholds_defineIn (frame : FrameId) (name : String) {value : Value}
    (good : law.good store value) :
    (defineIn frame name value).Upholds law store fun _ _ => True :=
  fun _ start since =>
    ⟨law.define frame name start (law.goodLater since good), Store.grows_define _ _ _ _, trivial⟩

theorem upholds_currentFrame : currentFrame.Upholds law store law.inside :=
  fun _ start _ => ⟨start, .refl _, law.current start⟩

theorem upholds_openInside {parent : FrameId} (entered : law.inside store parent) :
    (openInside parent).Upholds law store law.inside := by
  intro machine start since
  have inside := law.insideLater since entered
  exact ⟨law.opened start inside, Store.grows_push _ _, law.inner inside⟩

theorem upholds_makeCallable (declaration : Function) {closure : FrameId}
    (entered : law.inside store closure) (code : law.code (Stmt.nodesAll declaration.body)) :
    (makeCallable (.function declaration closure)).Upholds law store law.good :=
  fun _ start since => ⟨law.same start rfl rfl rfl, .refl _,
    law.function.mpr ⟨law.insideLater since entered, code⟩⟩

theorem upholds_write (value : Value) : (write value).Upholds law store fun _ _ => True :=
  fun _ start _ => ⟨law.same start rfl rfl rfl, .refl _, trivial⟩

theorem upholds_readClock : readClock.Upholds law store law.good :=
  fun _ start _ => ⟨law.same start rfl rfl rfl, .refl _, law.plain trivial⟩

theorem upholds_atLine (line : Nat) {result : Except RuntimeCause Value}
    (plain : ∀ value, result = .ok value → value.Plain) :
    (Exec.atLine line result).Upholds law store law.good := by
  cases result with
  | ok value => exact .pure fun _ _ => law.plain (plain value rfl)
  | error cause => exact .stopped _

end Operations

section Evaluation

variable {eval : Expr → Exec Value} {run : Stmt → Exec Flow}

def EvalUpholds (law : Law) (eval : Expr → Exec Value) : Prop :=
  ∀ expr store, (eval expr).Upholds law store law.good

def RunUpholds (law : Law) (run : Stmt → Exec Flow) : Prop :=
  ∀ stmt : Stmt, law.code stmt.nodes → ∀ store, (run stmt).Upholds law store law.flow

theorem upholds_evaluateAll (upholds : EvalUpholds law eval) (values : List Expr) (store : Store) :
    (evaluateAll eval values).Upholds law store law.goodAll := by
  induction values generalizing store with
  | nil => exact .pure fun _ _ => nofun
  | cons first rest ih =>
    apply (upholds first store).bind
    intro value middle _ good
    apply (ih middle).bind
    intro results later since others
    refine .pure fun final grows => List.forall_mem_cons.mpr ⟨?_, law.goodAllLater others grows⟩
    exact law.goodLater (since.trans grows) good

theorem upholds_runAll (upholds : RunUpholds law run) {body : List Stmt}
    (code : law.code (Stmt.nodesAll body)) (store : Store) :
    (runAll run body).Upholds law store law.flow := by
  induction body generalizing store with
  | nil => exact .pure fun _ _ => trivial
  | cons first rest ih =>
    apply (upholds first (law.left code) store).bind
    intro flow later _ good
    cases flow with
    | next => exact ih (law.right code) later
    | returned value => exact .pure fun _ grows => law.goodLater grows good

theorem upholds_bindParameters (frame : FrameId) (names : List Ident) {values : List Value}
    (good : law.goodAll store values) :
    (bindParameters frame names values).Upholds law store fun _ _ => True := by
  induction names generalizing values store with
  | nil => exact .pure fun _ _ => trivial
  | cons name rest ih =>
    cases values with
    | nil => exact .pure fun _ _ => trivial
    | cons value values =>
      obtain ⟨first, others⟩ := List.forall_mem_cons.mp good
      apply (upholds_defineIn frame name.name first).bind
      intro _ later grows _
      exact ih (law.goodAllLater others grows)

theorem upholds_native (builtin : Native) {arguments : List Value}
    (good : law.goodAll store arguments) : (builtin.run arguments).Upholds law store law.good := by
  unfold Native.run
  split
  · exact upholds_readClock
  · exact .pure fun _ grows => forall_getD (law.goodAllLater good grows) .nil (law.plain trivial) _

theorem upholds_callable (upholds : RunUpholds law run) {identity : Nat} {target : Callable}
    (callee : law.good store (.callable identity target)) {arguments : List Value}
    (good : law.goodAll store arguments) : (target.run run arguments).Upholds law store law.good := by
  cases target with
  | native builtin => exact upholds_native builtin good
  | function declaration closure =>
    obtain ⟨entered, code⟩ := law.function.mp callee
    apply (upholds_openInside entered).bind
    intro frame opened since inside
    apply (upholds_bindParameters frame declaration.parameters (law.goodAllLater good since)).bind
    intro _ ready grows _
    apply ((upholds_runAll upholds code ready).within (law.insideLater grows inside)).bind
    intro flow later _ returned
    cases flow with
    | next => exact .pure fun _ _ => law.plain trivial
    | returned value => exact .pure fun _ grows => law.goodLater grows returned

theorem upholds_callValue (upholds : RunUpholds law run) (line : Nat) {callee : Value}
    (called : law.good store callee) {arguments : List Value} (good : law.goodAll store arguments) :
    (callValue run line callee arguments).Upholds law store law.good := by
  unfold callValue
  split
  · exact .choose (upholds_callable upholds called good) (.stopped _)
  · exact .stopped _

theorem upholds_evaluateWith (evalUpholds : EvalUpholds law eval) (runUpholds : RunUpholds law run) :
    EvalUpholds law (evaluateWith eval run) := by
  intro expr store
  cases expr with
  | literal site value => exact .pure fun _ _ => law.plain (ValueOver.plain_ofLiteral value)
  | «variable» site name => exact upholds_readVariable site name
  | assign site target value =>
    apply (evalUpholds value store).bind
    intro result later _ good
    apply (upholds_assignVariable site target good).bind
    intro _ final since _
    exact .pure fun _ grows => law.goodLater (since.trans grows) good
  | group site inner => exact evalUpholds inner store
  | unary site op operand =>
    apply (evalUpholds operand store).bind
    intro value later _ _
    exact upholds_atLine site.line fun _ applied => UnaryOp.apply_plain applied
  | binary site op left right =>
    apply (evalUpholds left store).bind
    intro first middle _ _
    apply (evalUpholds right middle).bind
    intro second later _ _
    exact upholds_atLine site.line fun _ applied => BinaryOp.apply_plain applied
  | logical site op left right =>
    apply (evalUpholds left store).bind
    intro first later _ good
    exact .choose (.pure fun _ grows => law.goodLater grows good) (evalUpholds right later)
  | call site callee arguments =>
    apply (evalUpholds callee store).bind
    intro target middle _ called
    apply (upholds_evaluateAll evalUpholds arguments middle).bind
    intro values later since good
    exact upholds_callValue runUpholds site.line (law.goodLater since called) good

theorem upholds_evaluateOr (upholds : EvalUpholds law eval) (value : Option Expr) (store : Store) :
    (evaluateOr eval value).Upholds law store law.good := by
  cases value with
  | none => exact .pure fun _ _ => law.plain trivial
  | some value => exact upholds value store

theorem upholds_iterate {test : Exec Value} {body : Exec Flow}
    (tests : ∀ store, test.Upholds law store law.good)
    (bodies : ∀ store, body.Upholds law store law.flow) (bound : Nat) (store : Store) :
    (iterate test body bound).Upholds law store law.flow := by
  induction bound generalizing store with
  | zero => exact .stopped _
  | succ bound ih =>
    apply (tests store).bind
    intro again middle _ _
    apply Exec.Upholds.choose
    · apply (bodies middle).bind
      intro flow later _ good
      cases flow with
      | next => exact ih later
      | returned value => exact .pure fun _ grows => law.goodLater grows good
    · exact .pure fun _ _ => trivial

theorem upholds_runWith (bound : Nat) (evalUpholds : EvalUpholds law eval)
    (runUpholds : RunUpholds law run) : RunUpholds law (runWith bound eval run) := by
  intro stmt code store
  cases stmt with
  | var name initial =>
    apply (upholds_evaluateOr evalUpholds initial store).bind
    intro value later _ good
    apply (upholds_defineHere name.name good).bind
    intro _ _ _ _
    exact .pure fun _ _ => trivial
  -- The function is made before its name is bound, and its body is not run yet.
  | function name parameters body =>
    apply upholds_currentFrame.bind
    intro closure middle _ entered
    apply (upholds_makeCallable ⟨name, parameters, body⟩ entered code).bind
    intro value later _ good
    apply (upholds_defineHere name.name good).bind
    intro _ _ _ _
    exact .pure fun _ _ => trivial
  | expression value =>
    apply (evalUpholds value store).bind
    intro _ _ _ _
    exact .pure fun _ _ => trivial
  | print value =>
    apply (evalUpholds value store).bind
    intro result later _ _
    apply (upholds_write result).bind
    intro _ _ _ _
    exact .pure fun _ _ => trivial
  | block body =>
    apply upholds_currentFrame.bind
    intro here middle _ entered
    apply (upholds_openInside entered).bind
    intro frame later _ inside
    exact (upholds_runAll runUpholds code later).within inside
  | ifThen test yes =>
    apply (evalUpholds test store).bind
    intro chosen later _ _
    exact .choose (runUpholds yes (law.right code) later) (.pure fun _ _ => trivial)
  | ifElse test yes no =>
    apply (evalUpholds test store).bind
    intro chosen later _ _
    exact .choose (runUpholds yes (law.left (law.right code)) later)
      (runUpholds no (law.right (law.right code)) later)
  | loop test body =>
    exact upholds_iterate (evalUpholds test) (runUpholds body (law.right code)) bound store
  | «return» line value =>
    apply (upholds_evaluateOr evalUpholds value store).bind
    intro result later _ good
    exact .pure fun _ grows => law.goodLater grows good

theorem upholds_evaluate_execute (law : Law) (bound : Nat) :
    EvalUpholds law (evaluate bound) ∧ RunUpholds law (execute bound) := by
  induction bound with
  | zero => exact ⟨fun _ _ => .stopped _, fun _ _ _ => .stopped _⟩
  | succ bound ih => exact ⟨upholds_evaluateWith ih.1 ih.2, upholds_runWith bound ih.1 ih.2⟩

theorem upholds_evaluate (law : Law) (bound : Nat) : EvalUpholds law (evaluate bound) :=
  (upholds_evaluate_execute law bound).1

theorem upholds_execute (law : Law) (bound : Nat) : RunUpholds law (execute bound) :=
  (upholds_evaluate_execute law bound).2

theorem upholds_executeProgram (law : Law) (bound : Nat) {program : Program}
    (code : law.code (Stmt.nodesAll program)) (store : Store) :
    (executeProgram bound program).Upholds law store fun _ _ => True := by
  apply (upholds_runAll (upholds_execute law bound) code store).bind
  intro _ _ _ _
  exact .pure fun _ _ => trivial

theorem upholds_executeAlone (law : Law) (bound : Nat) {stmt : Stmt} (code : law.code stmt.nodes)
    (store : Store) :
    (executeAlone bound stmt).Upholds law store fun _ _ => True := by
  cases stmt with
  | expression value =>
    exact Exec.Upholds.bind (upholds_evaluate law bound value store) fun _ _ _ _ =>
      .pure fun _ _ => trivial
  | _ =>
    exact Exec.Upholds.bind (upholds_execute law bound _ code store) fun _ _ _ _ =>
      .pure fun _ _ => trivial

end Evaluation

section Moments

def Moment.Lawful (law : Law) : Moment → Prop
  | .evaluating _ _ expr machine => law.holds machine ∧ law.code expr.nodes
  | .executing _ stmt machine => law.holds machine ∧ law.code stmt.nodes

def Moment.Gives (value : Value) : Moment → Prop
  | .evaluating bound _ expr machine => ∃ final, evaluate bound expr machine = .done value final
  | .executing bound stmt machine =>
    ∃ final, execute bound stmt machine = .done (.returned value) final

variable {bound : Nat} {machine reached : Machine}

theorem after_law {expr : Expr} {value : Value} (start : law.holds machine)
    (result : evaluate bound expr machine = .done value reached) :
    law.holds reached ∧ machine.store.Grows reached.store ∧ law.good reached.store value :=
  Exec.Upholds.done (upholds_evaluate law bound expr machine.store) start result

theorem lawful_comesUp (law : Law) {body : List Stmt} {stmt : Stmt} (start : law.holds machine)
    (code : law.code (Stmt.nodesAll body))
    (comesUp : ComesUp (execute bound) body machine stmt reached) :
    (Moment.executing bound stmt reached).Lawful law := by
  obtain ⟨before, rest, rfl, ran⟩ := comesUp
  rw [Stmt.nodesAll_append] at code
  have run := (upholds_runAll (upholds_execute law bound) (law.left code) _).done start ran
  exact ⟨run.1, law.left (law.right code)⟩

theorem lawful_rounds {test : Expr} {body : Stmt} {rounds : Nat} (start : law.holds machine)
    (code : law.code body.nodes)
    (all : Rounds (evaluate bound test) (execute bound body) rounds machine reached) :
    law.holds reached := by
  induction all with
  | none machine => exact start
  | more tested _ ran _ ih =>
    exact ih (Exec.Upholds.done (upholds_execute law bound body code _) (after_law start tested).1 ran).1

theorem lawful_called {callee : Expr} {arguments : List Expr} {target : Value} {called ready : Machine}
    {values : List Value} (start : law.holds machine)
    (calls : evaluate bound callee machine = .done target called)
    (passes : evaluateAll (evaluate bound) arguments called = .done values ready) :
    law.holds ready ∧ law.good ready.store target ∧ law.goodAll ready.store values := by
  obtain ⟨holds, _, good⟩ := after_law start calls
  obtain ⟨last, since, all⟩ :=
    (upholds_evaluateAll (upholds_evaluate law bound) arguments _).done holds passes
  exact ⟨last, law.goodLater since good, all⟩

theorem lawful_entered (law : Law) {declaration : Function} {closure frame : FrameId} {identity : Nat}
    {values : List Value} {opened entered : Machine} (start : law.holds machine)
    (callee : law.good machine.store (.callable identity (.function declaration closure)))
    (good : law.goodAll machine.store values)
    (opens : openInside closure machine = .done frame opened)
    (binds : bindParameters frame declaration.parameters values opened = .done () entered) :
    law.holds entered ∧ law.inside entered.store frame := by
  obtain ⟨holds, since, inside⟩ := (upholds_openInside (law.function.mp callee).1).done start opens
  obtain ⟨last, grows, _⟩ :=
    (upholds_bindParameters frame _ (law.goodAllLater good since)).done holds binds
  exact ⟨last, law.insideLater grows inside⟩

namespace Moment.Lawful

variable {moment inner : Moment}

/-- One step from a moment of good code leads to good code. -/
theorem starts (lawful : moment.Lawful law) (starts : Starts moment inner) : inner.Lawful law := by
  cases starts with
  | assigned | grouped | operand => exact ⟨lawful.1, law.tail lawful.2⟩
  | leftOperand | leftChoice | callee => exact ⟨lawful.1, law.left (law.tail lawful.2)⟩
  | rightOperand first => exact ⟨(after_law lawful.1 first).1, law.right (law.tail lawful.2)⟩
  | rightChoice first _ => exact ⟨(after_law lawful.1 first).1, law.right (law.tail lawful.2)⟩
  | argument calls among ready =>
    have before := (lawful_called lawful.1 calls ready).1
    exact ⟨before, law.part (law.right (law.tail lawful.2))
      (Expr.nodes_subset_nodesAll (by simp [among]))⟩
  | called calls passes enough opens binds comesUp =>
    obtain ⟨ready, callee, values⟩ := lawful_called lawful.1 calls passes
    obtain ⟨entered, inside⟩ := lawful_entered law ready callee values opens binds
    exact lawful_comesUp law (law.enter entered inside) (law.function.mp callee).2 comesUp
  | initializer | expression | printed | result => exact lawful
  | block opens comesUp =>
    obtain ⟨opened, _, inside⟩ := (upholds_openInside (law.current lawful.1)).done lawful.1 opens
    exact lawful_comesUp law (law.enter opened inside) lawful.2 comesUp
  | testThen | testElse => exact ⟨lawful.1, law.left lawful.2⟩
  | yesThen tested _ => exact ⟨(after_law lawful.1 tested).1, law.right lawful.2⟩
  | yesElse tested _ => exact ⟨(after_law lawful.1 tested).1, law.left (law.right lawful.2)⟩
  | noElse tested _ => exact ⟨(after_law lawful.1 tested).1, law.right (law.right lawful.2)⟩
  | testLoop rounds _ => exact ⟨lawful_rounds lawful.1 (law.right lawful.2) rounds, law.left lawful.2⟩
  | bodyLoop rounds _ tested _ =>
    have before := lawful_rounds lawful.1 (law.right lawful.2) rounds
    exact ⟨(after_law before tested).1, law.right lawful.2⟩

theorem reaches (lawful : moment.Lawful law) (reaches : Reaches moment inner) : inner.Lawful law := by
  induction reaches with
  | refl => exact lawful
  | tail _ starts ih => exact ih.starts starts

theorem beginning (lawful : moment.Lawful law) : law.holds moment.machine := by
  cases moment <;> exact lawful.1

theorem ending (lawful : moment.Lawful law) : law.holds moment.final := by
  cases moment with
  | evaluating bound initializing expr machine =>
    exact (upholds_evaluate law bound expr _ machine lawful.1 (.refl _)).machine
  | executing bound stmt machine =>
    exact (upholds_execute law bound stmt lawful.2 _ machine lawful.1 (.refl _)).machine

theorem gives {value : Value} (lawful : moment.Lawful law) (gives : moment.Gives value) :
    law.good moment.final.store value := by
  cases moment with
  | evaluating bound initializing expr machine =>
    obtain ⟨last, done⟩ := gives
    rw [Moment.final, done]
    exact (after_law lawful.1 done).2.2
  | executing bound stmt machine =>
    obtain ⟨last, done⟩ := gives
    rw [Moment.final, done]
    exact (Exec.Upholds.done (upholds_execute law bound stmt lawful.2 _) lawful.1 done).2.2

end Moment.Lawful
end Moments
end LoxLang

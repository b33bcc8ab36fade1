import LoxLang.Evaluation
import LoxLang.Proofs.Evaluation.Values
import LoxLang.Proofs.Syntax.Twins

/-!
Running twins side by side. Two machines are twins if they differ in nothing but the function bodies
in their frames, which are twins, and their distances. Whatever one does with a tree, the other does
with its twin, and it ends in the same way; only the line of a fault is that of a node on its own
side.
-/
namespace LoxLang

section Values

variable {pairing : Pairing}

inductive CallableOver.Twin (pairing : Pairing) : Callable → Callable → Prop
  | native (builtin : Native) : Twin pairing (.native builtin) (.native builtin)
  | function {name : String} {line otherLine : Nat} {parameters otherParameters : List Ident}
    {body other : List Stmt} {closure : FrameId} :
    parameters.map Ident.name = otherParameters.map Ident.name →
    List.Forall₂ (Stmt.Twin pairing) body other →
    Twin pairing (.function ⟨⟨name, line⟩, parameters, body⟩ closure)
      (.function ⟨⟨name, otherLine⟩, otherParameters, other⟩ closure)

inductive ValueOver.Twin (pairing : Pairing) : Value → Value → Prop
  | string (text : String) : Twin pairing (.string text) (.string text)
  | number (value : Float) : Twin pairing (.number value) (.number value)
  | boolean (value : Bool) : Twin pairing (.boolean value) (.boolean value)
  | nil : Twin pairing .nil .nil
  | callable {target other : Callable} (identity : Nat) : target.Twin pairing other →
    Twin pairing (.callable identity target) (.callable identity other)

/-- The same cause, at nodes that go together. -/
inductive Stop.Twin (pairing : Pairing) : Stop → Stop → Prop
  | unfinished : Twin pairing .unfinished .unfinished
  | fault {site twin : Site} (cause : RuntimeCause) : pairing.nodes site twin →
    Twin pairing (.fault ⟨cause, site.line⟩) (.fault ⟨cause, twin.line⟩)

inductive Flow.Twin (pairing : Pairing) : Flow → Flow → Prop
  | next : Twin pairing .next .next
  | returned {value other : Value} : value.Twin pairing other →
    Twin pairing (.returned value) (.returned other)

inductive ResultTwin (pairing : Pairing) :
    Except RuntimeCause Value → Except RuntimeCause Value → Prop
  | ok {value other : Value} : value.Twin pairing other → ResultTwin pairing (.ok value) (.ok other)
  | error (cause : RuntimeCause) : ResultTwin pairing (.error cause) (.error cause)

theorem ResultTwin.error_eq {result other : Except RuntimeCause Value} {cause : RuntimeCause}
    (results : ResultTwin pairing result other) (failed : result = .error cause) :
    other = .error cause := by
  cases results with
  | ok _ => cases failed
  | error _ => exact failed

theorem CallableOver.Twin.text {target other : Callable} (twin : target.Twin pairing other) :
    target.text = other.text := by
  cases twin <;> rfl

theorem ValueOver.twin_iff_alike {value other : Value} :
    value.Twin pairing other ↔ value.Alike (CallableOver.Twin pairing) other := by
  constructor <;> intro same <;> cases same <;> constructor <;> assumption

theorem ResultTwin.of_alike {result other : Except RuntimeCause Value}
    (results : AlikeResult (ValueOver.Alike (CallableOver.Twin pairing)) result other) :
    ResultTwin pairing result other := by
  cases results with
  | ok alike => exact .ok (ValueOver.twin_iff_alike.mpr alike)
  | error cause => exact .error cause

namespace ValueOver

variable {value other second later : Value}

theorem twin_ofLiteral (literal : Literal) :
    Twin pairing (.ofLiteral literal) (.ofLiteral literal) :=
  twin_iff_alike.mpr (alike_ofLiteral literal)

namespace Twin

theorem truthy (twin : value.Twin pairing other) : other.truthy = value.truthy :=
  (twin_iff_alike.mp twin).truthy.symm

theorem text (twin : value.Twin pairing other) : other.text = value.text :=
  ((twin_iff_alike.mp twin).text fun _ _ twin => twin.text).symm

theorem decides (op : LogicalOp) (twin : value.Twin pairing other) :
    op.decides other = op.decides value :=
  ((twin_iff_alike.mp twin).decides op).symm

theorem unary (op : UnaryOp) (twin : value.Twin pairing other) :
    ResultTwin pairing (op.apply value) (op.apply other) :=
  .of_alike ((twin_iff_alike.mp twin).unary op)

theorem binary (op : BinaryOp) (twin : value.Twin pairing other)
    (further : second.Twin pairing later) :
    ResultTwin pairing (op.apply value second) (op.apply other later) :=
  .of_alike ((twin_iff_alike.mp twin).binary op (twin_iff_alike.mp further))

end Twin
end ValueOver

theorem CallableOver.Twin.arity {target other : Callable} (twin : target.Twin pairing other) :
    other.arity = target.arity := by
  cases twin with
  | native builtin => rfl
  | function names _ =>
    have lengths := congrArg List.length names
    rw [List.length_map, List.length_map] at lengths
    exact lengths.symm

variable {wider : Pairing}

theorem CallableOver.Twin.widen {target other : Callable} (within : pairing.Within wider)
    (twin : target.Twin pairing other) : target.Twin wider other := by
  cases twin with
  | native builtin => exact .native builtin
  | function names body => exact .function names (Stmt.Twin.widenAll within body)

theorem ValueOver.Twin.widen {value other : Value} (within : pairing.Within wider)
    (twin : value.Twin pairing other) : value.Twin wider other :=
  twin_iff_alike.mpr ((twin_iff_alike.mp twin).imp fun _ _ twin => twin.widen within)

end Values

/-- The same frames, with twins bound in them. -/
structure Store.Twin (pairing : Pairing) (store other : Store) : Prop where
  next : other.next = store.next
  parent : ∀ frame, other.parent? frame = store.parent? frame
  bound : ∀ frame name, Option.Rel (ValueOver.Twin pairing) (store.bound? frame name)
    (other.bound? frame name)

namespace Store.Twin

variable {pairing : Pairing} {store other : Store}

theorem define {value twin : Value} (stores : store.Twin pairing other) (frame : FrameId)
    (name : String) (values : value.Twin pairing twin) :
    (store.define frame name value).Twin pairing (other.define frame name twin) := by
  refine ⟨?_, fun place => ?_, fun place sought => ?_⟩
  · rw [next_define, next_define, stores.next]
  · rw [parent?_define, parent?_define, stores.parent]
  · rw [bound?_define, bound?_define, stores.next]
    by_cases here : frame = place ∧ name = sought ∧ place < store.next
    · rw [if_pos here, if_pos here]
      exact .some values
    · rw [if_neg here, if_neg here]
      exact stores.bound place sought

theorem push (stores : store.Twin pairing other) (parent : Option FrameId) :
    (store.push parent).Twin pairing (other.push parent) := by
  refine ⟨?_, fun place => ?_, fun place sought => ?_⟩
  · rw [next_push, next_push, stores.next]
  · rw [parent?_push, parent?_push, stores.next, stores.parent]
  · rw [bound?_push, bound?_push]
    exact stores.bound place sought

theorem ancestor? (stores : store.Twin pairing other) (frame : FrameId) (distance : Nat) :
    other.ancestor? frame distance = store.ancestor? frame distance := by
  induction distance generalizing frame with
  | zero => rfl
  | succ distance ih =>
    rw [Store.ancestor?, Store.ancestor?, stores.parent]
    cases store.parent? frame with
    | none => rfl
    | some parent => exact ih parent

/-- The search for a name goes the same way, and ends at the same frame. -/
theorem holder? (stores : store.Twin pairing other) (frame : FrameId) (name : String) :
    other.holder? frame name = store.holder? frame name := by
  -- parents are older than the frames opened in them, so the number of the frame goes down
  induction frame using Nat.strongRecOn with
  | _ frame ih =>
    rw [Store.holder?, Store.holder?]
    rcases rel_option (stores.bound frame name) with ⟨here, there⟩ | ⟨_, _, here, there, _⟩
    · rw [here, there, stores.parent]
      cases store.parent? frame with
      | none => rfl
      | some parent =>
        by_cases older : parent < frame
        · simp only [older, ↓reduceIte]
          exact ih parent older
        · simp only [older, ↓reduceIte]
    · rw [here, there]

end Store.Twin

structure Machine.Twin (pairing : Pairing) (machine other : Machine) : Prop where
  table : machine.distances = pairing.table
  otherTable : other.distances = pairing.other
  store : machine.store.Twin pairing other.store
  globals : other.globals = machine.globals
  current : other.current = machine.current
  output : other.output = machine.output
  callables : other.callables = machine.callables
  clock : other.clock = machine.clock
  readings : other.readings = machine.readings

namespace Machine.Twin

variable {pairing : Pairing} {machine other : Machine}

theorem define {value twin : Value} (machines : machine.Twin pairing other) (frame : FrameId)
    (name : String) (values : value.Twin pairing twin) :
    (machine.define frame name value).Twin pairing (other.define frame name twin) :=
  { machines with store := machines.store.define frame name values }

theorem enter (machines : machine.Twin pairing other) (frame : FrameId) :
    Machine.Twin pairing { machine with current := frame } { other with current := frame } :=
  { machines with current := rfl }

theorem readFrame? (machines : machine.Twin pairing other) {site twin : Site}
    (references : pairing.References site twin) (name : String) :
    other.readFrame? twin.id name = machine.readFrame? site.id name := by
  unfold Machine.readFrame?
  rw [machines.otherTable, machines.table, ← references.2, machines.current, machines.globals]
  cases pairing.table[site.id]? with
  | none => exact machines.store.holder? machine.globals name
  | some distance => exact machines.store.ancestor? machine.current distance

theorem lookUp? (machines : machine.Twin pairing other) {site twin : Site}
    (references : pairing.References site twin) (name : String) :
    Option.Rel (ValueOver.Twin pairing) (machine.lookUp? site.id name)
      (other.lookUp? twin.id name) := by
  unfold Machine.lookUp?
  rw [machines.readFrame? references]
  cases machine.readFrame? site.id name with
  | none => exact .none
  | some frame => exact machines.store.bound frame name

end Machine.Twin

/-- Both go on with results that belong together, or both are stopped, and the machines they leave
are twins. -/
inductive Step.Twin {α β : Type} (pairing : Pairing) (results : α → β → Prop) :
    Step α → Step β → Prop
  | done {value : α} {other : β} {machine twin : Machine} : results value other →
    machine.Twin pairing twin → Twin pairing results (.done value machine) (.done other twin)
  | stopped {stop other : Stop} {machine twin : Machine} : stop.Twin pairing other →
    machine.Twin pairing twin → Twin pairing results (.stopped stop machine) (.stopped other twin)

namespace Step.Twin

variable {α β : Type} {pairing : Pairing} {results : α → β → Prop} {step : Step β} {after : Machine}

theorem of_done {value : α} (steps : Step.Twin pairing results (.done value after) step) :
    ∃ found final, step = .done found final ∧ results value found ∧ after.Twin pairing final := by
  cases steps with
  | done belong ended => exact ⟨_, _, rfl, belong, ended⟩

theorem of_stopped {stop : Stop} (steps : Step.Twin pairing results (.stopped stop after) step) :
    ∃ found final, step = .stopped found final ∧ stop.Twin pairing found ∧
      after.Twin pairing final := by
  cases steps with
  | stopped stops ended => exact ⟨_, _, rfl, stops, ended⟩

end Step.Twin

def Exec.Twin {α β : Type} (pairing : Pairing) (results : α → β → Prop) (exec : Exec α)
    (other : Exec β) : Prop :=
  ∀ machine twin : Machine, machine.Twin pairing twin →
    Step.Twin pairing results (exec machine) (other twin)

namespace Exec.Twin

variable {α β γ δ : Type} {pairing : Pairing} {results : α → β → Prop} {machine twin after : Machine}

theorem pure {value : α} {other : β} (belong : results value other) :
    Exec.Twin pairing results (Pure.pure value) (Pure.pure other) :=
  fun _ _ machines => .done belong machines

theorem stopped {stop other : Stop} (stops : stop.Twin pairing other) :
    Exec.Twin pairing results (fun machine => .stopped stop machine : Exec α)
      (fun machine => .stopped other machine : Exec β) :=
  fun _ _ machines => .stopped stops machines

theorem ends {exec : Exec α} {other : Exec β} (twins : exec.Twin pairing results other)
    (machines : machine.Twin pairing twin) {value : α} (result : exec machine = .done value after) :
    ∃ found final, other twin = .done found final ∧ results value found ∧
      after.Twin pairing final :=
  (result ▸ twins machine twin machines).of_done

theorem stops {exec : Exec α} {other : Exec β} (twins : exec.Twin pairing results other)
    (machines : machine.Twin pairing twin) {stop : Stop}
    (result : exec machine = .stopped stop after) :
    ∃ found final, other twin = .stopped found final ∧ stop.Twin pairing found ∧
      after.Twin pairing final :=
  (result ▸ twins machine twin machines).of_stopped

theorem bind {last : γ → δ → Prop} {first : Exec α} {firstTwin : Exec β} {next : α → Exec γ}
    {nextTwin : β → Exec δ} (ahead : first.Twin pairing results firstTwin)
    (further : ∀ value other, results value other → (next value).Twin pairing last (nextTwin other)) :
    (first >>= next).Twin pairing last (firstTwin >>= nextTwin) := by
  intro machine twin machines
  rw [bind_apply, bind_apply]
  cases ran : first machine with
  | done value after =>
    obtain ⟨found, final, same, belong, ended⟩ := ahead.ends machines ran
    rw [same]
    exact further value found belong after final ended
  | stopped stop after =>
    obtain ⟨found, final, same, stops, ended⟩ := ahead.stops machines ran
    rw [same]
    exact .stopped stops ended

theorem choose {condition other : Prop} [Decidable condition] [Decidable other]
    {yes no : Exec α} {yesTwin noTwin : Exec β} (same : other ↔ condition)
    (yesTwins : yes.Twin pairing results yesTwin) (noTwins : no.Twin pairing results noTwin) :
    (if condition then yes else no).Twin pairing results (if other then yesTwin else noTwin) := by
  by_cases chosen : condition
  · rw [if_pos chosen, if_pos (same.mpr chosen)]
    exact yesTwins
  · rw [if_neg chosen, if_neg fun other => chosen (same.mp other)]
    exact noTwins

theorem within {body : Exec α} {bodyTwin : Exec β} (frame : FrameId)
    (twins : body.Twin pairing results bodyTwin) :
    (LoxLang.within frame body).Twin pairing results (LoxLang.within frame bodyTwin) := by
  intro machine twin machines
  have entered := machines.enter frame
  unfold LoxLang.within
  cases ran : body { machine with current := frame } with
  | done value after =>
    obtain ⟨found, final, same, belong, ended⟩ := twins.ends entered ran
    rw [same]
    exact .done belong { ended with current := machines.current }
  | stopped stop after =>
    obtain ⟨found, final, same, stops, ended⟩ := twins.stops entered ran
    rw [same]
    exact .stopped stops { ended with current := machines.current }

end Exec.Twin

section Steps

variable {pairing : Pairing} {value other : Value} {site twin : Site}

theorem twin_fault {α β : Type} {results : α → β → Prop} (cause : RuntimeCause)
    (node : pairing.nodes site twin) :
    (Exec.fault cause site.line).Twin pairing results (Exec.fault cause twin.line) :=
  .stopped (.fault cause node)

theorem twin_atLine {result otherResult : Except RuntimeCause Value} (node : pairing.nodes site twin)
    (results : ResultTwin pairing result otherResult) :
    (Exec.atLine site.line result).Twin pairing (ValueOver.Twin pairing)
      (Exec.atLine twin.line otherResult) := by
  cases results with
  | ok values => exact .pure values
  | error cause => exact twin_fault cause node

theorem twin_readVariable (reference : pairing.References site twin) (name : String) :
    (readVariable site name).Twin pairing (ValueOver.Twin pairing) (readVariable twin name) := by
  intro machine other machines
  unfold readVariable
  rcases rel_option (machines.lookUp? reference name) with ⟨here, there⟩ | ⟨_, _, here, there, values⟩
  · rw [here, there]
    exact .stopped (.fault _ reference.1) machines
  · rw [here, there]
    exact .done values machines

theorem twin_assignVariable (reference : pairing.References site twin) (name : String)
    (values : value.Twin pairing other) :
    (assignVariable site name value).Twin pairing (fun _ _ => True)
      (assignVariable twin name other) := by
  intro machine otherMachine machines
  unfold assignVariable
  rw [machines.readFrame? reference]
  cases machine.readFrame? site.id name with
  | some frame => exact .done trivial (machines.define frame name values)
  | none => exact .stopped (.fault _ reference.1) machines

theorem twin_defineHere (name : String) (values : value.Twin pairing other) :
    (defineHere name value).Twin pairing (fun _ _ => True) (defineHere name other) := by
  intro machine twin machines
  unfold defineHere
  rw [machines.current]
  exact .done trivial (machines.define machine.current name values)

theorem twin_defineIn (frame : FrameId) (name : String) (values : value.Twin pairing other) :
    (defineIn frame name value).Twin pairing (fun _ _ => True) (defineIn frame name other) :=
  fun _ _ machines => .done trivial (machines.define frame name values)

theorem twin_currentFrame : currentFrame.Twin pairing Eq currentFrame :=
  fun _ _ machines => .done machines.current.symm machines

theorem twin_openInside (parent : FrameId) :
    (openInside parent).Twin pairing Eq (openInside parent) :=
  fun _ _ machines => .done machines.store.next.symm
    { machines with store := machines.store.push (some parent) }

theorem twin_makeCallable {target otherTarget : Callable}
    (targets : target.Twin pairing otherTarget) :
    (makeCallable target).Twin pairing (ValueOver.Twin pairing) (makeCallable otherTarget) := by
  intro machine twin machines
  unfold makeCallable Machine.newCallable
  rw [machines.callables]
  exact .done (.callable _ targets) { machines with callables := rfl }

theorem twin_write (values : value.Twin pairing other) :
    (write value).Twin pairing (fun _ _ => True) (write other) := by
  intro machine twin machines
  have printed : (twin.write other).output = (machine.write value).output := by
    simp only [Machine.write, machines.output, values.text]
  exact .done trivial { machines with output := printed }

theorem twin_readClock : readClock.Twin pairing (ValueOver.Twin pairing) readClock := by
  intro machine twin machines
  unfold readClock
  rw [machines.clock, machines.readings]
  exact .done (.number _) { machines with clock := rfl, readings := rfl }

end Steps

section Evaluation

variable {pairing : Pairing} {eval : Expr → Exec Value} {run : Stmt → Exec Flow}

def EvalTwins (pairing : Pairing) (eval : Expr → Exec Value) : Prop :=
  ∀ expr other : Expr, expr.Twin pairing other →
    (eval expr).Twin pairing (ValueOver.Twin pairing) (eval other)

def RunTwins (pairing : Pairing) (run : Stmt → Exec Flow) : Prop :=
  ∀ stmt other : Stmt, stmt.Twin pairing other →
    (run stmt).Twin pairing (Flow.Twin pairing) (run other)

theorem twin_evaluateAll (evals : EvalTwins pairing eval) {values others : List Expr}
    (twins : List.Forall₂ (Expr.Twin pairing) values others) :
    (evaluateAll eval values).Twin pairing (List.Forall₂ (ValueOver.Twin pairing))
      (evaluateAll eval others) := by
  induction twins with
  | nil => exact .pure .nil
  | cons first _ ih =>
    apply (evals _ _ first).bind
    intro value other here
    apply ih.bind
    intro rest others later
    exact .pure (.cons here later)

theorem twin_runAll (runs : RunTwins pairing run) {body other : List Stmt}
    (twins : List.Forall₂ (Stmt.Twin pairing) body other) :
    (runAll run body).Twin pairing (Flow.Twin pairing) (runAll run other) := by
  induction twins with
  | nil => exact .pure .next
  | cons first _ ih =>
    apply (runs _ _ first).bind
    intro flow otherFlow flows
    cases flows with
    | next => exact ih
    | returned values => exact .pure (.returned values)

theorem twin_bindParameters (frame : FrameId) {names otherNames : List Ident}
    (same : names.map Ident.name = otherNames.map Ident.name) {values others : List Value}
    (twins : List.Forall₂ (ValueOver.Twin pairing) values others) :
    (bindParameters frame names values).Twin pairing (fun _ _ => True)
      (bindParameters frame otherNames others) := by
  induction names generalizing otherNames values others with
  | nil =>
    cases List.map_eq_nil_iff.mp same.symm
    exact .pure trivial
  | cons name rest ih =>
    obtain ⟨twin, otherRest, rfl, equal, later⟩ := List.map_eq_cons_iff.mp same.symm
    cases twins with
    | nil => exact .pure trivial
    | cons first others =>
      simp only [bindParameters, equal]
      exact (twin_defineIn frame name.name first).bind fun _ _ _ => ih later.symm others

theorem twin_native (native : Native) {values others : List Value}
    (twins : List.Forall₂ (ValueOver.Twin pairing) values others) :
    (native.run values).Twin pairing (ValueOver.Twin pairing) (native.run others) := by
  obtain ⟨name, arity, rule⟩ := native
  cases rule with
  | clock => exact twin_readClock
  | argument place =>
    simp only [Native.run, ← twins.length_eq]
    exact .pure (rel_getD twins .nil _)

theorem twin_callable (runs : RunTwins pairing run) {target other : Callable}
    (targets : target.Twin pairing other) {values others : List Value}
    (twins : List.Forall₂ (ValueOver.Twin pairing) values others) :
    (target.run run values).Twin pairing (ValueOver.Twin pairing) (other.run run others) := by
  cases targets with
  | native builtin => exact twin_native builtin twins
  | function names body =>
    apply (twin_openInside _).bind
    rintro frame _ rfl
    apply (twin_bindParameters frame names twins).bind
    intro _ _ _
    apply ((twin_runAll runs body).within frame).bind
    intro flow otherFlow flows
    cases flows with
    | next => exact .pure .nil
    | returned values => exact .pure values

theorem twin_callValue (runs : RunTwins pairing run) {site twin : Site}
    (node : pairing.nodes site twin) {callee other : Value} (callees : callee.Twin pairing other)
    {values others : List Value} (twins : List.Forall₂ (ValueOver.Twin pairing) values others) :
    (callValue run site.line callee values).Twin pairing (ValueOver.Twin pairing)
      (callValue run twin.line other others) := by
  cases callees with
  | callable identity targets =>
    -- both are refused, or neither is: arity and number of arguments are the same
    simp only [callValue, targets.arity, ← twins.length_eq]
    exact .choose Iff.rfl (twin_callable runs targets twins) (twin_fault _ node)
  | _ => exact twin_fault _ node

theorem twin_evaluateWith (evals : EvalTwins pairing eval) (runs : RunTwins pairing run) :
    EvalTwins pairing (evaluateWith eval run) := by
  intro expr other twin
  cases twin with
  | literal _ => exact .pure (ValueOver.twin_ofLiteral _)
  | «variable» reference => exact twin_readVariable reference _
  | assign reference value =>
    apply (evals _ _ value).bind
    intro result otherResult results
    exact (twin_assignVariable reference _ results).bind fun _ _ _ => .pure results
  | group _ inner => exact evals _ _ inner
  | unary node operand =>
    apply (evals _ _ operand).bind
    intro value other values
    exact twin_atLine node (values.unary _)
  | binary node left right =>
    apply (evals _ _ left).bind
    intro first otherFirst firsts
    apply (evals _ _ right).bind
    intro second otherSecond seconds
    exact twin_atLine node (firsts.binary _ seconds)
  | logical _ left right =>
    apply (evals _ _ left).bind
    intro first otherFirst firsts
    exact .choose (by rw [firsts.decides]) (.pure firsts) (evals _ _ right)
  | call node callee arguments =>
    apply (evals _ _ callee).bind
    intro target otherTarget targets
    apply (twin_evaluateAll evals arguments).bind
    intro values others twins
    exact twin_callValue runs node targets twins

theorem twin_evaluateOr (evals : EvalTwins pairing eval) {value other : Option Expr}
    (twins : Option.Rel (Expr.Twin pairing) value other) :
    (evaluateOr eval value).Twin pairing (ValueOver.Twin pairing) (evaluateOr eval other) := by
  cases twins with
  | none => exact .pure .nil
  | some twin => exact evals _ _ twin

theorem twin_iterate {test otherTest : Exec Value} {body otherBody : Exec Flow}
    (tests : test.Twin pairing (ValueOver.Twin pairing) otherTest)
    (bodies : body.Twin pairing (Flow.Twin pairing) otherBody) (bound : Nat) :
    (iterate test body bound).Twin pairing (Flow.Twin pairing)
      (iterate otherTest otherBody bound) := by
  induction bound with
  | zero => exact .stopped .unfinished
  | succ bound ih =>
    apply tests.bind
    intro again otherAgain values
    refine .choose (by rw [values.truthy]) (bodies.bind ?_) (.pure .next)
    intro flow otherFlow flows
    cases flows with
    | next => exact ih
    | returned values => exact .pure (.returned values)

theorem twin_runWith (bound : Nat) (evals : EvalTwins pairing eval) (runs : RunTwins pairing run) :
    RunTwins pairing (runWith bound eval run) := by
  intro stmt other twin
  cases twin with
  | var initial =>
    apply (twin_evaluateOr evals initial).bind
    intro value other values
    exact (twin_defineHere _ values).bind fun _ _ _ => .pure .next
  | function names body =>
    apply twin_currentFrame.bind
    rintro closure _ rfl
    apply (twin_makeCallable (.function names body)).bind
    intro value other values
    exact (twin_defineHere _ values).bind fun _ _ _ => .pure .next
  | expression value => exact (evals _ _ value).bind fun _ _ _ => .pure .next
  | print value =>
    apply (evals _ _ value).bind
    intro result other results
    exact (twin_write results).bind fun _ _ _ => .pure .next
  | block body =>
    apply twin_currentFrame.bind
    rintro here _ rfl
    apply (twin_openInside here).bind
    rintro frame _ rfl
    exact (twin_runAll runs body).within frame
  | ifThen test yes =>
    apply (evals _ _ test).bind
    intro chosen other values
    exact .choose (by rw [values.truthy]) (runs _ _ yes) (.pure .next)
  | ifElse test yes no =>
    apply (evals _ _ test).bind
    intro chosen other values
    exact .choose (by rw [values.truthy]) (runs _ _ yes) (runs _ _ no)
  | loop test body => exact twin_iterate (evals _ _ test) (runs _ _ body) bound
  | «return» value =>
    apply (twin_evaluateOr evals value).bind
    intro result other results
    exact .pure (.returned results)

theorem twin_evaluate_execute (pairing : Pairing) (bound : Nat) :
    EvalTwins pairing (evaluate bound) ∧ RunTwins pairing (execute bound) := by
  -- one level of nesting more is built from twins of one level less
  induction bound with
  | zero => exact ⟨fun _ _ _ => .stopped .unfinished, fun _ _ _ => .stopped .unfinished⟩
  | succ bound ih => exact ⟨twin_evaluateWith ih.1 ih.2, twin_runWith bound ih.1 ih.2⟩

theorem twin_evaluate (pairing : Pairing) (bound : Nat) : EvalTwins pairing (evaluate bound) :=
  (twin_evaluate_execute pairing bound).1

theorem twin_execute (pairing : Pairing) (bound : Nat) : RunTwins pairing (execute bound) :=
  (twin_evaluate_execute pairing bound).2

end Evaluation
end LoxLang

import LoxLang.Proofs.Evaluation.Operators
import LoxLang.Proofs.Evaluation.Soundness
import LoxLang.Proofs.Evaluation.Values

/-!
Every step keeps the machine sound: first the single operations, then what is built from them, then
by induction on the bound all of evaluation.
-/
namespace LoxLang

open Exec (Ensures)

section Operations

variable {table : Distances} {limit : Nat} {before : Machine → Prop}

theorem ensures_atLine {α : Type} {after : α → Machine → Prop} (line : Nat)
    {result : Except RuntimeCause α}
    (good : ∀ value, result = .ok value → ∀ machine, before machine → after value machine) :
    Ensures table limit before (Exec.atLine line result) after := by
  cases result with
  | ok value => exact .pure (good value rfl)
  | error cause => exact .stopped (.fault ⟨cause, line⟩)

theorem ensures_readVariable (site : Site) (name : String) :
    Ensures table limit (fun _ => True) (readVariable site name)
      fun value machine => value.Sound table limit machine := by
  intro machine sound _
  unfold readVariable
  cases found : machine.lookUp? site.id name with
  | none => exact ⟨sound, fun _ _ same => nomatch same⟩
  | some value =>
    refine ⟨sound, fun made final same => ?_⟩
    cases same
    unfold Machine.lookUp? at found
    cases reached : machine.readFrame? site.id name with
    | none => simp [reached] at found
    | some frame =>
      simp only [reached] at found
      exact sound.bound frame name value found

theorem ensures_assignVariable (site : Site) (name : String) (value : Value) :
    Ensures table limit (fun machine => value.Sound table limit machine)
      (assignVariable site name value) fun _ machine => value.Sound table limit machine := by
  intro machine sound good
  unfold assignVariable
  cases reached : machine.readFrame? site.id name with
  | none => exact ⟨sound, fun _ _ same => nomatch same⟩
  | some frame =>
    refine ⟨sound.define_sound good, fun made final same => ?_⟩
    cases same
    exact lasting_value table limit value _ _ (.define machine frame name value) good

theorem ensures_defineIn (frame : FrameId) (name : String) (value : Value) :
    Ensures table limit
      (fun machine => frame < machine.store.next ∧ value.Sound table limit machine)
      (defineIn frame name value)
      fun _ machine => (machine.store.bound? frame name).isSome := by
  intro machine sound start
  refine ⟨sound.define_sound start.2, fun made final same => ?_⟩
  cases same
  rw [show (machine.define frame name value).store = machine.store.define frame name value
    from rfl, Store.bound?_define, if_pos ⟨rfl, rfl, start.1⟩]
  rfl

theorem ensures_write (value : Value) :
    Ensures table limit (fun _ => True) (write value) fun _ _ => True :=
  fun machine sound _ =>
    ⟨sound.of_same_store (grows_write value machine) rfl, fun _ _ _ => trivial⟩

theorem ensures_readClock :
    Ensures table limit (fun _ => True) readClock
      fun value machine => value.Sound table limit machine := by
  intro machine sound _
  refine ⟨sound.of_same_store (grows_readClock machine) rfl, fun made final same => ?_⟩
  cases same
  trivial

theorem ensures_openInside (parent : FrameId) :
    Ensures table limit (fun _ => True) (openInside parent) fun frame machine =>
      frame ≠ machine.globals ∧ frame < machine.store.next ∧
        machine.store.parent? frame = some parent := by
  intro machine sound _
  refine ⟨sound.opened, fun frame final same => ?_⟩
  cases same
  refine ⟨Nat.ne_of_gt sound.globals, ?_, ?_⟩
  · simp
  · simp [Store.parent?_push]

theorem ValueOver.Sound.of_plain {value : Value} (plain : value.Plain) (machine : Machine) :
    value.Sound table limit machine := by
  cases value with
  | callable identity target => exact plain.elim
  | _ => trivial

end Operations

section Evaluation

variable {table : Distances} {limit : Nat} {eval : Expr → Exec Value} {run : Stmt → Exec Flow}

/-- Evaluating keeps the machine sound and gives a sound value, wherever it happens. -/
def EvalSound (table : Distances) (limit : Nat) (eval : Expr → Exec Value) : Prop :=
  ∀ expr, Ensures table limit (fun _ => True) (eval expr)
    fun value machine => value.Sound table limit machine

/-- Running a statement that is resolved in the scopes around it leads to those of the next one. -/
def RunSound (table : Distances) (limit : Nat) (run : Stmt → Exec Flow) : Prop :=
  ∀ (stmt : Stmt) (nesting : Nesting), stmt.Resolved table nesting → Older limit stmt.ids →
    Ensures table limit (Machine.Stands nesting) (run stmt)
      fun flow machine => flow.Sound table limit (nesting.after stmt) machine

theorem ensures_evaluateAll (evalSound : EvalSound table limit eval)
    (evalGrows : ∀ expr, (eval expr).Grows) (values : List Expr) :
    Ensures table limit (fun _ => True) (evaluateAll eval values)
      fun results machine => ∀ value ∈ results, value.Sound table limit machine := by
  induction values with
  | nil => exact .pure fun _ _ _ member => nomatch member
  | cons first rest ih =>
    refine (evalSound first).bind fun value => ?_
    refine (ih.keep (grows_evaluateAll evalGrows rest) (lasting_value table limit value)
      fun _ _ => trivial).bind fun results => ?_
    refine .pure fun machine both found member => ?_
    rcases List.mem_cons.mp member with same | later
    · exact same ▸ both.1
    · exact both.2 found later

theorem ensures_runAll (runSound : RunSound table limit run) (body : List Stmt)
    {nesting : Nesting} (resolved : Stmt.ResolvedAll table nesting body)
    (older : Older limit (Stmt.idsAll body)) :
    Ensures table limit (Machine.Stands nesting) (runAll run body)
      fun flow machine => flow.Sound table limit (nesting.afterAll body) machine := by
  induction body generalizing nesting with
  | nil => exact .pure fun _ stands => stands
  | cons first rest ih =>
    refine (runSound first nesting resolved.1 older.left).bind fun flow => ?_
    cases flow with
    | next => exact ih resolved.2 older.right
    | returned value => exact .pure fun _ good => good

theorem lasting_room (frame : FrameId) : Lasting fun machine => frame < machine.store.next :=
  fun _ _ grows room => Nat.lt_of_lt_of_le room grows.store.next

theorem lasting_framed (nesting : Nesting) (frame : FrameId) :
    Lasting fun machine => nesting.Framed machine.store machine.globals frame := by
  intro before after grows framed
  rw [grows.globals]
  exact framed.grows grows.store

theorem lasting_inside (frame parent : FrameId) :
    Lasting fun machine => frame ≠ machine.globals ∧ frame < machine.store.next ∧
      machine.store.parent? frame = some parent := by
  intro before after grows inside
  rw [grows.globals]
  exact ⟨inside.1, lasting_room frame before after grows inside.2.1,
    grows.store.parent_some inside.2.2⟩

theorem lasting_bound (frame : FrameId) (name : String) :
    Lasting fun machine => (machine.store.bound? frame name).isSome :=
  fun _ _ grows bound => grows.store.bound frame name bound

theorem ensures_bindParameters (frame : FrameId) (names : List Ident) (values : List Value)
    (enough : values.length = names.length) :
    Ensures table limit
      (fun machine => frame < machine.store.next ∧ ∀ value ∈ values, value.Sound table limit machine)
      (bindParameters frame names values)
      fun _ machine => ∀ name ∈ names.map Ident.name, (machine.store.bound? frame name).isSome := by
  induction names generalizing values with
  | nil => exact .pure fun _ _ _ member => nomatch member
  | cons name rest ih =>
    cases values with
    | nil => simp at enough
    | cons value values =>
      refine ((ensures_defineIn frame name.name value).keep (grows_defineIn frame name.name value)
        ((lasting_room frame).and (lasting_values table limit (value :: values)))
        fun _ start => ⟨start.1, start.2 value List.mem_cons_self⟩).bind fun _ => ?_
      refine ((ih values (by simpa using enough)).keep (grows_bindParameters frame rest values)
        (((lasting_room frame).and (lasting_values table limit (value :: values))).and
          (lasting_bound frame name.name)) fun machine start => ?_).weaken
        (fun _ both => both) fun _ machine both => ?_
      · exact ⟨start.1.1, fun found member => start.1.2 found (List.mem_cons_of_mem _ member)⟩
      · intro sought member
        rcases List.mem_cons.mp member with same | later
        · exact same ▸ both.1.2
        · exact both.2 sought later

/-- What a body that runs in `frame` leaves behind holds outside too, unless it is about the place. -/
theorem ensures_within {α : Type} {before inside : Machine → Prop} {after : α → Machine → Prop}
    {frame : FrameId} {body : Exec α} (ensures : Ensures table limit inside body after)
    (start : ∀ machine, before machine → inside { machine with current := frame })
    (finish : ∀ value machine place, after value machine →
      after value { machine with current := place }) :
    Ensures table limit before (within frame body) after := by
  intro machine sound holds
  obtain ⟨kept, reached⟩ := ensures _ (sound.enter frame) (start machine holds)
  unfold within
  cases result : body { machine with current := frame } with
  | done value final =>
    rw [result] at kept
    refine ⟨kept.enter machine.current, fun made last same => ?_⟩
    cases same
    exact finish value final machine.current (reached value final result)
  | stopped stop final =>
    rw [result] at kept
    exact ⟨kept.enter machine.current, fun _ _ same => nomatch same⟩

theorem ensures_body (runSound : RunSound table limit run) {before : Machine → Prop}
    {frame : FrameId} {body : List Stmt} {nesting : Nesting}
    (resolved : Stmt.ResolvedAll table nesting body) (older : Older limit (Stmt.idsAll body))
    (start : ∀ machine, before machine → Machine.Stands nesting { machine with current := frame }) :
    Ensures table limit before (within frame (runAll run body)) fun flow machine =>
      ∀ value, flow = .returned value → value.Sound table limit machine := by
  refine ensures_within ((ensures_runAll runSound body resolved older).weaken
    (fun _ stands => stands) ?_) start ?_
  · intro flow machine sound value returned
    cases returned
    exact sound
  · intro flow machine place sound value returned
    exact sound value returned

/-- The frame of a call stands inside the frame of the closure, as the scope of the body stands inside
the scopes around the declaration. -/
theorem ensures_function (runSound : RunSound table limit run) {declaration : Function}
    {closure : FrameId} {arguments : List Value} {nesting : Nesting}
    (enough : arguments.length = declaration.parameters.length)
    (resolved : Stmt.ResolvedAll table
      ((declaration.parameters.map Ident.name).reverse :: nesting) declaration.body)
    (older : Older limit (Stmt.idsAll declaration.body)) :
    Ensures table limit
      (fun machine => nesting.Framed machine.store machine.globals closure ∧
        ∀ value ∈ arguments, value.Sound table limit machine)
      (CallableOver.run run arguments (.function declaration closure))
      fun value machine => value.Sound table limit machine := by
  refine ((ensures_openInside closure).keep (grows_openInside closure)
    ((lasting_framed nesting closure).and (lasting_values table limit arguments))
    fun _ _ => trivial).bind fun frame => ?_
  refine ((ensures_bindParameters frame declaration.parameters arguments enough).keep
    (grows_bindParameters _ _ _) (((lasting_framed nesting closure).and
      (lasting_values table limit arguments)).and (lasting_inside frame closure))
    fun machine start => ⟨start.2.2.1, start.1.2⟩).bind fun _ => ?_
  -- Behind the parameters the new frame has the names of the scope of the body.
  refine (ensures_body runSound resolved older fun machine both => ?_).bind fun flow => ?_
  · exact both.1.1.1.cons both.1.2.1 both.1.2.2.2 fun name member =>
      both.2 name (List.mem_reverse.mp member)
  · cases flow with
    | next => exact .pure fun _ _ => trivial
    | returned value => exact .pure fun _ good => good value rfl

theorem ensures_native (native : Native) (arguments : List Value) :
    Ensures table limit (fun machine => ∀ value ∈ arguments, value.Sound table limit machine)
      (native.run arguments) fun value machine => value.Sound table limit machine := by
  unfold Native.run
  split
  · exact ensures_readClock.weaken (fun _ _ => trivial) fun _ _ good => good
  · exact .pure fun _ good => forall_getD good .nil trivial _

theorem ensures_callable (runSound : RunSound table limit run)
    (target : Callable) (arguments : List Value) (enough : arguments.length = target.arity) :
    Ensures table limit
      (fun machine =>
        target.Sound table limit machine ∧ ∀ value ∈ arguments, value.Sound table limit machine)
      (target.run run arguments) fun value machine => value.Sound table limit machine := by
  cases target with
  | native builtin =>
    exact (ensures_native builtin arguments).weaken (fun _ both => both.2) fun _ _ good => good
  | function declaration closure =>
    intro machine sound start
    obtain ⟨⟨nesting, framed, resolved, older⟩, good⟩ := start
    exact ensures_function runSound enough resolved older machine sound ⟨framed, good⟩

theorem ensures_callValue (runSound : RunSound table limit run) (line : Nat) (callee : Value) (arguments : List Value) :
    Ensures table limit
      (fun machine =>
        callee.Sound table limit machine ∧ ∀ value ∈ arguments, value.Sound table limit machine)
      (callValue run line callee arguments) fun value machine => value.Sound table limit machine := by
  cases callee with
  | callable identity target =>
    by_cases enough : arguments.length = target.arity
    · simp only [callValue, if_pos enough]
      exact ensures_callable runSound target arguments enough
    · simp only [callValue, if_neg enough]
      exact .stopped _
  | _ => exact .stopped _

theorem ensures_evaluateWith (evalSound : EvalSound table limit eval)
    (evalGrows : ∀ expr, (eval expr).Grows) (runSound : RunSound table limit run) :
    EvalSound table limit (evaluateWith eval run) := by
  intro expr
  cases expr with
  | literal site value => exact .pure fun machine _ => .of_plain (ValueOver.plain_ofLiteral value) machine
  | «variable» site name => exact ensures_readVariable site name
  | assign site target value =>
    refine (evalSound value).bind fun result => ?_
    exact (ensures_assignVariable site target result).bind fun _ => .pure fun _ good => good
  | group site inner => exact evalSound inner
  | unary site op operand =>
    refine (evalSound operand).bind fun value => ?_
    exact ensures_atLine site.line fun _ applied machine _ =>
      .of_plain (UnaryOp.apply_plain applied) machine
  | binary site op left right =>
    refine (evalSound left).bind fun first => ?_
    refine ((evalSound right).weaken (fun _ _ => trivial) fun _ _ good => good).bind fun second => ?_
    exact ensures_atLine site.line fun _ applied machine _ =>
      .of_plain (BinaryOp.apply_plain applied) machine
  | logical site op left right =>
    refine (evalSound left).bind fun first => ?_
    split
    · exact .pure fun _ good => good
    · exact (evalSound right).weaken (fun _ _ => trivial) fun _ _ good => good
  | call site callee arguments =>
    refine (evalSound callee).bind fun target => ?_
    refine ((ensures_evaluateAll evalSound evalGrows arguments).keep
      (grows_evaluateAll evalGrows arguments) (lasting_value table limit target)
      fun _ _ => trivial).bind fun found => ?_
    exact ensures_callValue runSound site.line target found

theorem ensures_evaluateOr (evalSound : EvalSound table limit eval) (value : Option Expr) :
    Ensures table limit (fun _ => True) (evaluateOr eval value)
      fun result machine => result.Sound table limit machine := by
  cases value with
  | none => exact .pure fun _ _ => trivial
  | some value => exact evalSound value

theorem EvalSound.standing (evalSound : EvalSound table limit eval)
    (evalGrows : ∀ expr, (eval expr).Grows) (nesting : Nesting) (expr : Expr) :
    Ensures table limit (Machine.Stands nesting) (eval expr) fun value machine =>
      machine.Stands nesting ∧ value.Sound table limit machine :=
  (evalSound expr).keep (evalGrows expr) (lasting_stands nesting) fun _ _ => trivial

theorem ensures_iterate {test : Exec Value} {body : Exec Flow} {nesting : Nesting}
    (testSound : Ensures table limit (Machine.Stands nesting) test
      fun _ machine => machine.Stands nesting)
    (bodySound : Ensures table limit (Machine.Stands nesting) body
      fun flow machine => flow.Sound table limit nesting machine) (bound : Nat) :
    Ensures table limit (Machine.Stands nesting) (iterate test body bound)
      fun flow machine => flow.Sound table limit nesting machine := by
  induction bound with
  | zero => exact .stopped .unfinished
  | succ bound ih =>
    refine testSound.bind fun again => ?_
    split
    · refine bodySound.bind fun flow => ?_
      cases flow with
      | next => exact ih
      | returned value => exact .pure fun _ good => good
    · exact .pure fun _ stands => stands

theorem stands_define {nesting : Nesting} {machine : Machine} (name : String) (value : Value)
    (sound : machine.Sound table limit) (stands : machine.Stands nesting) :
    (machine.define machine.current name value).Stands (nesting.declare name) := by
  have grows := Machine.Grows.define machine machine.current name value
  refine Nesting.Framed.declare (lasting_stands nesting machine _ grows stands) ?_
  have room := Nesting.Framed.lt_next stands sound.globals
  simp [Machine.define, Store.bound?_define, room]

theorem ensures_defineHere (nesting : Nesting) (name : String) (value : Value) :
    Ensures table limit
      (fun machine => machine.Stands nesting ∧ value.Sound table limit machine)
      (defineHere name value) fun _ machine => machine.Stands (nesting.declare name) := by
  intro machine sound start
  refine ⟨sound.define_sound start.2, fun made final same => ?_⟩
  cases same
  exact stands_define name value sound start.1

/-- The function value is sound only once its name is bound, since the body sees that name. -/
theorem ensures_declareFunction {bound : Nat} (name : Ident) (parameters : List Ident)
    {body : List Stmt} {nesting : Nesting}
    (resolved : (Stmt.function name parameters body).Resolved table nesting)
    (older : Older limit (Stmt.idsAll body)) :
    Ensures table limit (Machine.Stands nesting)
      (runWith bound eval run (.function name parameters body))
      fun flow machine => flow.Sound table limit (nesting.declare name.name) machine := by
  intro machine sound stands
  have made := sound.of_same_store (grows_makeCallable
    (.function ⟨name, parameters, body⟩ machine.current) machine) rfl
  have stood := stands_define name.name
    (.callable machine.callables (.function ⟨name, parameters, body⟩ machine.current)) made stands
  refine ⟨made.define ⟨nesting.declare name.name, stood, resolved.2.2, older⟩, ?_⟩
  intro flow final same
  cases same
  exact stood

theorem ensures_openAndRun (runSound : RunSound table limit run)
    (runGrows : ∀ stmt, (run stmt).Grows) {body : List Stmt} {nesting : Nesting}
    (resolved : Stmt.ResolvedAll table ([] :: nesting) body)
    (older : Older limit (Stmt.idsAll body)) (parent : FrameId) :
    Ensures table limit
      (fun machine =>
        machine.Stands nesting ∧ nesting.Framed machine.store machine.globals parent)
      (openInside parent >>= fun frame => within frame (runAll run body))
      fun flow machine => flow.Sound table limit nesting machine := by
  refine ((ensures_openInside parent).keep (grows_openInside parent)
    ((lasting_stands nesting).and (lasting_framed nesting parent))
    fun _ _ => trivial).bind fun frame => ?_
  have entered (machine : Machine) (start : (machine.Stands nesting ∧
      nesting.Framed machine.store machine.globals parent) ∧ frame ≠ machine.globals ∧
      frame < machine.store.next ∧ machine.store.parent? frame = some parent) :
      Machine.Stands ([] :: nesting) { machine with current := frame } :=
    start.1.2.cons start.2.1 start.2.2.2 fun _ member => nomatch member
  refine ((ensures_body runSound resolved older entered).keep
    (grows_within frame (grows_runAll runGrows body)) (((lasting_stands nesting).and
      (lasting_framed nesting parent)).and (lasting_inside frame parent))
    fun _ start => start).weaken (fun _ start => start) ?_
  intro flow machine both
  cases flow with
  | next => exact both.1.1.1
  | returned value => exact both.2 value rfl

theorem Flow.Sound.of_after {flow : Flow} {nesting : Nesting} {machine : Machine} {stmt : Stmt}
    (sound : flow.Sound table limit (nesting.after stmt) machine) :
    flow.Sound table limit nesting machine := by
  cases flow with
  | next => exact Nesting.Framed.of_after sound
  | returned value => exact sound

theorem ensures_runWith (bound : Nat) (evalSound : EvalSound table limit eval)
    (evalGrows : ∀ expr, (eval expr).Grows) (runSound : RunSound table limit run)
    (runGrows : ∀ stmt, (run stmt).Grows) :
    RunSound table limit (runWith bound eval run) := by
  intro stmt nesting resolved older
  cases stmt with
  | var name initial =>
    refine ((ensures_evaluateOr evalSound initial).keep (grows_evaluateOr evalGrows initial)
      (lasting_stands nesting) fun _ _ => trivial).bind fun made => ?_
    exact (ensures_defineHere nesting name.name made).bind fun _ => .pure fun _ stands => stands
  | function name parameters body => exact ensures_declareFunction name parameters resolved older
  | expression value =>
    exact (evalSound.standing evalGrows nesting value).bind fun _ => .pure fun _ both => both.1
  | print value =>
    refine (evalSound.standing evalGrows nesting value).bind fun result => ?_
    refine (((ensures_write result).keep (grows_write result) (lasting_stands nesting)
      fun _ _ => trivial).weaken (fun _ both => both.1) fun _ _ both => both.1).bind fun _ => ?_
    exact .pure fun _ stands => stands
  | block body =>
    intro machine sound stands
    exact ensures_openAndRun runSound runGrows resolved older machine.current machine sound
      ⟨stands, stands⟩
  | ifThen test yes =>
    refine (evalSound.standing evalGrows nesting test).bind fun chosen => ?_
    split
    · exact (runSound yes nesting resolved.2.2 older.right).weaken (fun _ both => both.1)
        fun _ _ sound => sound.of_after
    · exact .pure fun _ both => both.1
  | ifElse test yes no =>
    refine (evalSound.standing evalGrows nesting test).bind fun chosen => ?_
    split
    · exact (runSound yes nesting resolved.2.1.2 older.right.left).weaken (fun _ both => both.1)
        fun _ _ sound => sound.of_after
    · exact (runSound no nesting resolved.2.2.2 older.right.right).weaken (fun _ both => both.1)
        fun _ _ sound => sound.of_after
  | loop test body =>
    refine ensures_iterate ?_ ?_ bound
    · exact (evalSound.standing evalGrows nesting test).weaken (fun _ stands => stands)
        fun _ _ both => both.1
    · exact (runSound body nesting resolved.2.2 older.right).weaken (fun _ stands => stands)
        fun _ _ sound => sound.of_after
  | «return» line value =>
    refine ((ensures_evaluateOr evalSound value).weaken (fun _ _ => trivial)
      fun _ _ good => good).bind fun result => ?_
    exact .pure fun _ good => good

theorem sound_evaluate_execute (bound : Nat) :
    EvalSound table limit (evaluate bound) ∧ RunSound table limit (execute bound) := by
  induction bound with
  | zero => exact ⟨fun _ => .stopped .unfinished, fun _ _ _ _ => .stopped .unfinished⟩
  | succ bound ih =>
    exact ⟨ensures_evaluateWith ih.1 (grows_evaluate bound) ih.2,
      ensures_runWith bound ih.1 (grows_evaluate bound) ih.2 (grows_execute bound)⟩

theorem sound_evaluate (bound : Nat) : EvalSound table limit (evaluate bound) :=
  (sound_evaluate_execute bound).1

theorem sound_execute (bound : Nat) : RunSound table limit (execute bound) :=
  (sound_evaluate_execute bound).2

end Evaluation
end LoxLang

import LoxLang.Proofs.Lexical.Together

/-!
Variants do the same. By induction on the bounds of both sides, every expression and statement does on
its side what its variant does on the other, as long as the names around them stand for the same
locations.
-/
namespace LoxLang.Lexical

open Renaming (Around)

variable {pace : Pace} {further : Prop} {known : Renaming} {pending : Option String}
  {environment twin : Environment} {around after : Around} {region place : Region} {memory : Memory}

inductive Locates : Around → Region → Region → Memory → Prop
  | outermost {memory : Memory} : Locates none .outermost .outermost memory
  | inside {known : Renaming} {environment twin : Environment} {memory : Memory} :
    Surrounds known none environment twin memory →
    Locates (some known) (.inside environment) (.inside twin) memory

inductive AkinBody (further : Prop) (memory : Memory) : Flow → Flow → Prop
  | next (region place : Region) : AkinBody further memory (.next region) (.next place)
  | returned {value other : Value} : Akin further memory value other →
    AkinBody further memory (.returned value) (.returned other)

inductive AkinEnd (further : Prop) (region place : Region) (memory : Memory) : Flow → Flow → Prop
  | next : AkinEnd further region place memory (.next region) (.next place)
  | returned {value other : Value} : Akin further memory value other →
    AkinEnd further region place memory (.returned value) (.returned other)

inductive AkinFlow (further : Prop) (around : Around) (memory : Memory) : Flow → Flow → Prop
  | next {region place : Region} : Locates around region place memory →
    AkinFlow further around memory (.next region) (.next place)
  | returned {value other : Value} : Akin further memory value other →
    AkinFlow further around memory (.returned value) (.returned other)

theorem surrounds_nil (memory : Memory) : Surrounds [] none [] [] memory :=
  ⟨.nil, fun _ _ found => nomatch found⟩

theorem Locates.surrounds (locates : Locates around region place memory) :
    Surrounds around.names none region.environment place.environment memory := by
  cases locates with
  | outermost => exact surrounds_nil memory
  | inside surrounds => exact surrounds

theorem enduring_locates (around : Around) (region place : Region) :
    Enduring (Locates around region place) := by
  intro before after keeps locates
  cases locates with
  | outermost => exact .outermost
  | inside surrounds => exact .inside (enduring_surrounds _ _ _ _ before after keeps surrounds)

theorem Surrounds.cons (surrounds : Surrounds known none environment twin memory) {name : String}
    (other : String) {location : Location}
    (has : pending ≠ some name → memory.cells[location]?.join.isSome) :
    Surrounds ((name, other) :: known) pending ((name, location) :: environment)
      ((other, location) :: twin) memory := by
  refine ⟨.cons name other location surrounds.paired, fun sought spot found apart => ?_⟩
  rw [List.lookup_cons] at found
  by_cases same : sought = name
  · subst same
    simp only [beq_self_eq_true, Option.some.injEq] at found
    exact found ▸ has apart
  · have different : (sought == name) = false := by simpa using same
    rw [different] at found
    exact surrounds.filled sought spot found (by simp)

theorem Surrounds.fill {name : String} {location : Location}
    (surrounds : Surrounds known (some name) ((name, location) :: environment) twin memory)
    (has : memory.cells[location]?.join.isSome) :
    Surrounds known none ((name, location) :: environment) twin memory := by
  refine ⟨surrounds.paired, fun sought spot found _ => ?_⟩
  by_cases same : sought = name
  · subst same
    simp only [List.lookup_cons, beq_self_eq_true, Option.some.injEq] at found
    exact found ▸ has
  · exact surrounds.filled sought spot found (by simpa using Ne.symm same)

theorem AkinBody.leave {flow other : Flow} (akin : AkinBody further memory flow other)
    (region place : Region) :
    AkinEnd further region place memory (flow.leave region) (other.leave place) := by
  cases akin with
  | next _ _ => exact .next
  | returned values => exact .returned values

theorem together_bounds {α β : Type} {before : Memory → Prop} {after : α → β → Memory → Prop}
    (exec : Nat → Exec α) (other : Nat → Exec β) (spent : exec 0 = unfinished)
    (otherSpent : other 0 = unfinished) {bound twin : Nat} (allows : pace.Allows bound twin)
    (more : ∀ less fewer, bound = less + 1 → twin = fewer + 1 →
      Together pace further before (exec (less + 1)) (other (fewer + 1)) after) :
    Together pace further before (exec bound) (other twin) after := by
  match bound, twin with
  | less + 1, fewer + 1 => exact more less fewer rfl rfl
  | 0, 0 =>
    rw [spent, otherSpent]
    exact .stopped .unfinished
  | 0, fewer + 1 =>
    cases pace with
    | forth =>
      rw [spent]
      exact fun _ _ _ _ => .first rfl
    | back => cases allows
    | even => cases allows
  | less + 1, 0 =>
    cases pace with
    | forth => simp only [Pace.Allows] at allows; omega
    | back =>
      rw [otherSpent]
      exact fun _ _ _ _ => .second rfl
    | even => cases allows

section Expressions

variable {eval evalTwin : Environment → Expr → Exec Value} {run runTwin : Region → Stmt → Exec Flow}

def EvalTogether (pace : Pace) (further : Prop) (eval evalTwin : Environment → Expr → Exec Value) :
    Prop :=
  ∀ {known : Renaming} {pending : Option String} {expr other : Expr} (environment twin : Environment),
    expr.Variant known pending other →
    Together pace further (Surrounds known pending environment twin) (eval environment expr)
      (evalTwin twin other) fun value result memory => Akin further memory value result

/-- Statements that declare nothing, which both sides begin and end in regions of their own. -/
def EnclosingTogether (pace : Pace) (further : Prop) (run runTwin : Region → Stmt → Exec Flow) :
    Prop :=
  ∀ {around : Around} {stmt other : Stmt} (region place : Region),
    Stmt.Enclosing further around stmt other →
    Together pace further
      (Surrounds around.names none region.environment place.environment) (run region stmt)
      (runTwin place other) fun flow result memory => AkinEnd further region place memory flow result

def FollowingTogether (pace : Pace) (further : Prop) (run runTwin : Region → Stmt → Exec Flow) :
    Prop :=
  ∀ {around after : Around} {first second : Stmt} (region place : Region),
    Stmt.Following further around after first second →
    Together pace further (Locates around region place) (run region first) (runTwin place second)
      fun flow result memory => AkinFlow further after memory flow result

theorem together_evaluateAll (evals : EvalTogether pace further eval evalTwin)
    {values others : List Expr} (variants : List.Forall₂ (Expr.Variant known pending) values others) :
    Together pace further (Surrounds known pending environment twin)
      (evaluateAll (eval environment) values) (evaluateAll (evalTwin twin) others)
      fun results twins memory => List.Forall₂ (Akin further memory) results twins := by
  induction variants with
  | nil => exact .pure fun _ _ => .nil
  | cons first _ ih =>
    refine ((evals environment twin first).keep (enduring_surrounds known pending environment twin)
      fun _ surrounds => surrounds).bind fun value other => ?_
    refine (ih.keep ((enduring_surrounds known pending environment twin).and
      (enduring_akin further value other)) fun _ both => both.1).bind fun results twins => ?_
    exact .pure fun _ both => .cons both.1.2 both.2

theorem together_runAll (follows : FollowingTogether pace further run runTwin)
    {body other : List Stmt} {around : Around} (variants : Stmt.VariantAll further around body other)
    (region place : Region) :
    Together pace further (Locates around region place) (runAll run region body)
      (runAll runTwin place other)
      fun flow result memory => AkinBody further memory flow result := by
  induction body generalizing other around region place with
  | nil =>
    cases variants with
    | nil => exact .pure fun _ _ => .next region place
  | cons first rest ih =>
    cases variants with
    | cons following later =>
      refine (follows region place following).bind fun flow result => ?_
      match flow, result with
      | .next here, .next there =>
        refine (ih later here there).weaken (fun _ akin => ?_) fun _ _ _ ends => ends
        cases akin with
        | next locates => exact locates
      | .returned value, .returned other =>
        refine .pure fun _ akin => ?_
        cases akin with
        | returned values => exact .returned values
      | .next _, .returned _ => exact .vacuous fun _ akin => nomatch akin
      | .returned _, .next _ => exact .vacuous fun _ akin => nomatch akin

theorem together_bindParameters {parameters others : List Ident} {values results : List Value}
    (enough : values.length = parameters.length) (same : others.length = parameters.length) :
    Together pace further
      (fun memory => Surrounds known none environment twin memory ∧
        List.Forall₂ (Akin further memory) values results)
      (bindParameters environment parameters values) (bindParameters twin others results)
      fun extended twinExtended memory =>
        Surrounds (.ofParameters parameters others ++ known) none extended twinExtended memory := by
  induction parameters generalizing known environment twin others values results with
  | nil =>
    obtain rfl := List.eq_nil_of_length_eq_zero same
    exact .pure fun _ both => both.1
  | cons parameter rest ih =>
    obtain ⟨other, others, rfl⟩ := List.exists_cons_of_length_eq_add_one same
    obtain ⟨value, values, rfl⟩ := List.exists_cons_of_length_eq_add_one enough
    cases results with
    | nil =>
      refine .vacuous ?_
      rintro _ ⟨_, ⟨⟩⟩
    | cons result results =>
      -- each parameter is a further name for those behind it, so the induction is over all environments
      have step : Renaming.ofParameters (parameter :: rest) (other :: others) ++ known =
          Renaming.ofParameters rest others ++ ((parameter.name, other.name) :: known) := by
        simp [Renaming.ofParameters]
      rw [step]
      have allocated : Together pace further
          (fun memory => Surrounds known none environment twin memory ∧
            List.Forall₂ (Akin further memory) (value :: values) (result :: results))
          (allocate (some value)) (allocate (some result)) _ :=
        together_allocate.keep ((enduring_surrounds known none environment twin).and
          (enduring_akins further _ _)) fun _ both => .some (List.forall₂_cons.mp both.2).1
      refine allocated.bind fun location spot => ?_
      by_cases level : spot = location
      · subst level
        refine (ih (by simpa using enough) (by simpa using same)).weaken (fun memory both => ?_)
          fun _ _ _ surrounds => surrounds
        obtain ⟨⟨surrounds, akins⟩, _, _, filled⟩ := both
        exact ⟨surrounds.cons other.name fun _ => filled rfl, (List.forall₂_cons.mp akins).2⟩
      · exact .vacuous fun _ both => level both.2.1

theorem together_native (native : Native) {values others : List Value} :
    Together pace further (fun memory => List.Forall₂ (Akin further memory) values others)
      (runNative native values) (runNative native others)
      fun value result memory => Akin further memory value result := by
  obtain ⟨name, arity, rule⟩ := native
  cases rule with
  | clock => exact together_readClock.weaken (fun _ _ => trivial) fun _ _ _ akin => akin
  | argument place =>
    exact .pure fun _ akins => akins.length_eq ▸ rel_getD akins .nil _

theorem together_call (follows : FollowingTogether pace further run runTwin)
    {target other : Callable} {values results : List Value} (enough : values.length = target.arity) :
    Together pace further
      (fun memory => AkinTarget further memory target other ∧
        List.Forall₂ (Akin further memory) values results)
      (call run values target) (call runTwin results other)
      fun value result memory => Akin further memory value result := by
  intro memory twinMemory akin both
  obtain ⟨targets, akins⟩ := both
  cases targets with
  | native builtin => exact together_native builtin memory twinMemory akin akins
  | function name same surrounds bodies =>
    refine (Together.bind (together_bindParameters enough same) fun extended twinExtended => ?_)
      memory twinMemory akin ⟨surrounds, akins⟩
    refine ((together_runAll follows bodies (.inside extended) (.inside twinExtended)).weaken
      (fun _ inside => .inside inside) fun _ _ _ ends => ends).bind fun flow result => ?_
    match flow, result with
    | .next _, .next _ => exact .pure fun _ _ => .nil
    | .returned value, .returned other =>
      refine .pure fun _ ends => ?_
      cases ends with
      | returned values => exact values
    | .next _, .returned _ => exact .vacuous fun _ ends => nomatch ends
    | .returned _, .next _ => exact .vacuous fun _ ends => nomatch ends

theorem together_callValue (follows : FollowingTogether pace further run runTwin)
    {line otherLine : Nat} (level : otherLine = line) (callee target : Value)
    (values results : List Value) :
    Together pace further
      (fun memory => Akin further memory callee target ∧
        List.Forall₂ (Akin further memory) values results)
      (callValue run line callee values) (callValue runTwin otherLine target results)
      fun value result memory => Akin further memory value result := by
  intro memory twinMemory akin both
  subst level
  obtain ⟨callees, akins⟩ := both
  cases callees with
  | callable identity targets =>
    rename_i function other
    simp only [callValue, ← targets.arity, ← akins.length_eq]
    by_cases enough : values.length = function.arity
    · rw [if_pos enough, if_pos enough]
      exact together_call follows enough memory twinMemory akin ⟨targets, akins⟩
    · rw [if_neg enough, if_neg enough]
      exact .stopped akin
  | _ => exact .stopped akin

theorem together_evaluateWith (evals : EvalTogether pace further eval evalTwin)
    (follows : FollowingTogether pace further run runTwin) :
    EvalTogether pace further (evaluateWith eval run) (evaluateWith evalTwin runTwin) := by
  intro known pending expr other environment twin variant
  have enduring := enduring_surrounds known pending environment twin
  cases variant with
  | @literal _ _ value => exact .pure fun _ _ => ValueOver.alike_ofLiteral value
  | «variable» line avoids relates => exact together_readVariable line avoids relates
  | assign line relates value =>
    refine ((evals environment twin value).keep enduring fun _ surrounds => surrounds).bind
      fun result other => ?_
    refine (together_assignVariable line relates).bind fun _ _ => ?_
    exact .pure fun _ akin => akin
  | group inner => exact evals environment twin inner
  | @unary _ _ op _ _ line operand =>
    refine (evals environment twin operand).bind fun value other => ?_
    exact together_atLine line fun _ akin => akin.unary op
  | @binary _ _ op _ _ _ _ line left right =>
    refine ((evals environment twin left).keep enduring fun _ surrounds => surrounds).bind
      fun first other => ?_
    refine ((evals environment twin right).keep (enduring.and (enduring_akin further first other))
      fun _ both => both.1).bind fun second later => ?_
    exact together_atLine line fun _ both => both.1.2.binary op both.2
  | @logical _ _ op _ _ _ _ left right =>
    refine ((evals environment twin left).keep enduring fun _ surrounds => surrounds).bind
      fun first other => ?_
    intro memory twinMemory akin both
    rw [both.2.decides op]
    split
    · exact Together.pure (fun _ values => values) memory twinMemory akin both.2
    · exact evals environment twin right memory twinMemory akin both.1
  | call line callee arguments =>
    refine ((evals environment twin callee).keep enduring fun _ surrounds => surrounds).bind
      fun target other => ?_
    refine ((together_evaluateAll evals arguments).keep (enduring.and
      (enduring_akin further target other)) fun _ both => both.1).bind fun values others => ?_
    exact (together_callValue follows line target other values others).weaken
      (fun _ both => ⟨both.1.2, both.2⟩) fun _ _ _ akin => akin

theorem together_evaluateOr (evals : EvalTogether pace further eval evalTwin)
    {value other : Option Expr} (variants : Option.Rel (Expr.Variant known pending) value other) :
    Together pace further (Surrounds known pending environment twin)
      (evaluateOr (eval environment) value) (evaluateOr (evalTwin twin) other)
      fun value result memory => Akin further memory value result := by
  cases variants with
  | none => exact .pure fun _ _ => .nil
  | some variant => exact evals environment twin variant

end Expressions
section Declarations

/-- What is made for a name is made before the name has it, and may be there only with the name. -/
def Ready (further : Prop) (known : Renaming) (environment twin : Environment)
    (value other : Value) (memory : Memory) : Prop :=
  ∀ later : Memory, memory.Keeps later → Surrounds known none environment twin later →
    Akin further later value other

theorem enduring_ready (value other : Value) :
    Enduring (Ready further known environment twin value other) :=
  fun _ _ keeps ready later more => ready later (keeps.trans more)

theorem together_declareLocal {name other : String} {value model : Environment → Exec Value}
    (makes : ∀ environment twin, Together pace further
      (Surrounds ((name, other) :: known) (some name) environment twin)
      (value environment) (model twin)
      fun made result memory =>
        Ready further ((name, other) :: known) environment twin made result memory) :
    Together pace further (Locates (some known) (.inside environment) (.inside twin))
      (declare (.inside environment) name value) (declare (.inside twin) other model)
      fun flow result memory =>
        AkinFlow further (some ((name, other) :: known)) memory flow result := by
  have allocated : Together pace further
      (Locates (some known) (.inside environment) (.inside twin)) (allocate none) (allocate none) _ :=
    together_allocate.keep (enduring_locates _ _ _) fun _ _ => .none
  refine allocated.bind fun location spot => ?_
  by_cases level : spot = location
  · subst level
    have enduring := (enduring_surrounds ((name, other) :: known) (some name)
      ((name, spot) :: environment) ((other, spot) :: twin)).and (enduring_size spot)
    -- while the value is made, the new name is there without a content
    have made := (makes ((name, spot) :: environment) ((other, spot) :: twin)).keep enduring
      fun _ both => both.1
    refine (made.weaken (fun memory both => ?_) fun _ _ _ ends => ends).bind fun first second => ?_
    · exact ⟨both.1.surrounds.cons other fun apart => absurd rfl apart, both.2.2.1⟩
    · refine ((together_store.keep (enduring.and (enduring_ready first second))
        fun memory both => ⟨both.1.2, ?_⟩).bind fun _ _ => .pure fun memory both => ?_)
      · -- with the location filled, the value is what it should be
        have keeps := keeps_fill spot first memory
        refine both.2 _ keeps (Surrounds.fill (enduring_surrounds _ _ _ _ _ _ keeps both.1.1) ?_)
        rw [filled_fill first both.1.2]
        rfl
      · exact .next (.inside (both.1.1.1.fill both.2))
  · exact .vacuous fun _ both => level both.2.1

theorem together_declare {name other : String} (global : around = none → other = name)
    {value model : Environment → Exec Value}
    (makes : ∀ environment twin, Together pace further
      (Surrounds (around.declare name other).names (around.pending name) environment twin)
      (value environment) (model twin)
      fun made result memory =>
        Ready further (around.declare name other).names environment twin made result memory)
    (region place : Region) :
    Together pace further (Locates around region place) (declare region name value)
      (declare place other model)
      fun flow result memory => AkinFlow further (around.declare name other) memory flow result := by
  match around, region, place with
  -- outside of all scopes there is no location, only the name, which is the same on both sides
  | none, .outermost, .outermost =>
    rw [global rfl]
    refine ((makes [] []).weaken (fun memory _ => surrounds_nil memory)
      fun _ _ _ ready => ready).bind fun made result => ?_
    refine (together_defineGlobal.weaken (fun memory ready => ?_) fun _ _ _ done => done).bind
      fun _ _ => .pure fun _ _ => .next .outermost
    exact ready memory (.refl memory) (surrounds_nil memory)
  | some known, .inside environment, .inside twin => exact together_declareLocal makes
  | none, .inside _, _ | none, .outermost, .inside _ | some _, .outermost, _
  | some _, .inside _, .outermost => exact .vacuous fun _ locates => nomatch locates

end Declarations
section Statements

variable {eval evalTwin : Environment → Expr → Exec Value} {run runTwin : Region → Stmt → Exec Flow}

theorem together_branch (encloses : EnclosingTogether pace further run runTwin)
    {stmt other : Stmt} (enclosing : Stmt.Enclosing further around stmt other) :
    Together pace further (Surrounds around.names none region.environment place.environment)
      (branch run region stmt) (branch runTwin place other)
      fun flow result memory => AkinEnd further region place memory flow result := by
  refine (encloses region place enclosing).bind fun flow result => .pure fun _ ends => ?_
  cases ends with
  | next => exact .next
  | returned values => exact .returned values

theorem together_iterate {test testTwin : Exec Value} {body bodyTwin : Exec Flow}
    {before : Memory → Prop} (enduring : Enduring before)
    (tests : Together pace further before test testTwin
      fun value result memory => Akin further memory value result)
    (bodies : Together pace further before body bodyTwin
      fun flow result memory => AkinEnd further region place memory flow result)
    {bound other : Nat} (allows : pace.Allows bound other) :
    Together pace further before (iterate region test body bound)
      (iterate place testTwin bodyTwin other)
      fun flow result memory => AkinEnd further region place memory flow result := by
  induction bound generalizing other with
  | zero =>
    exact together_bounds (iterate region test body) (iterate place testTwin bodyTwin) rfl rfl allows
      fun _ _ none => nomatch none
  | succ bound ih =>
    refine together_bounds (iterate region test body) (iterate place testTwin bodyTwin) rfl rfl allows ?_
    rintro less fewer ⟨⟩ rfl
    refine (tests.keep enduring fun _ start => start).bind fun again result => ?_
    intro memory twinMemory akin both
    rw [both.2.truthy]
    by_cases goes : result.truthy
    · rw [if_pos goes, if_pos goes]
      refine Together.bind (bodies.keep enduring fun _ start => start) (fun flow other => ?_)
        memory twinMemory akin both.1
      -- a round that goes on leaves both sides in their regions, so the next one starts like this one
      match flow, other with
      | .next _, .next _ =>
        exact (ih allows.pred).weaken (fun _ reached => reached.1) fun _ _ _ ends => ends
      | .returned value, .returned other =>
        refine .pure fun _ reached => ?_
        cases reached.2 with
        | returned values => exact .returned values
      | .next _, .returned _ => exact .vacuous fun _ reached => nomatch reached.2
      | .returned _, .next _ => exact .vacuous fun _ reached => nomatch reached.2
    · rw [if_neg goes, if_neg goes]
      exact Together.pure (fun _ _ => .next) memory twinMemory akin both.1

theorem together_variant (evals : EvalTogether pace further eval evalTwin)
    (encloses : EnclosingTogether pace further run runTwin)
    (follows : FollowingTogether pace further run runTwin) {bound other : Nat}
    (allows : pace.Allows bound other) {stmt twin : Stmt}
    (variant : Stmt.Variant further around stmt twin) (region place : Region) :
    Together pace further (Surrounds around.names none region.environment place.environment)
      (runWith bound eval run region stmt) (runWith other evalTwin runTwin place twin)
      fun flow result memory => AkinEnd further region place memory flow result := by
  have enduring := enduring_surrounds around.names none region.environment place.environment
  cases variant with
  | expression value =>
    refine (evals _ _ value).bind fun _ _ => ?_
    exact .pure fun _ _ => .next
  | print value =>
    refine (evals _ _ value).bind fun result other => ?_
    exact together_write.bind fun _ _ => .pure fun _ _ => .next
  | block bodies =>
    refine ((together_runAll follows bodies (.inside region.environment)
      (.inside place.environment)).weaken (fun _ surrounds => .inside surrounds)
      fun _ _ _ ends => ends).bind fun flow result => ?_
    exact .pure fun _ ends => ends.leave region place
  | ifThen test yes =>
    refine ((evals _ _ test).keep enduring fun _ surrounds => surrounds).bind fun chosen result => ?_
    intro memory twinMemory akin both
    rw [both.2.truthy]
    split
    · exact together_branch encloses yes memory twinMemory akin both.1
    · exact Together.pure (fun _ _ => .next) memory twinMemory akin both.1
  | ifElse test yes no =>
    refine ((evals _ _ test).keep enduring fun _ surrounds => surrounds).bind fun chosen result => ?_
    intro memory twinMemory akin both
    rw [both.2.truthy]
    split
    · exact together_branch encloses yes memory twinMemory akin both.1
    · exact together_branch encloses no memory twinMemory akin both.1
  | loop test body =>
    exact together_iterate enduring (evals _ _ test) (encloses region place body) allows
  | «return» value =>
    refine (together_evaluateOr evals value).bind fun result other => ?_
    exact .pure fun _ values => .returned values

theorem together_following {bound other : Nat} (evals : EvalTogether pace further eval evalTwin)
    (encloses : EnclosingTogether pace further (runWith bound eval run)
      (runWith other evalTwin runTwin)) :
    FollowingTogether pace further (runWith bound eval run) (runWith other evalTwin runTwin) := by
  intro around after first second region place following
  cases following with
  | @var _ name twin initial value global variants =>
    change Together pace further _
      (declare region name.name fun environment => evaluateOr (eval environment) initial)
      (declare place twin.name fun environment => evaluateOr (evalTwin environment) value) _
    refine together_declare global (fun environment twin => ?_) region place
    refine (together_evaluateOr evals variants).weaken (fun _ surrounds => surrounds)
      fun value other memory akin later keeps _ => ?_
    exact enduring_akin further value other memory later keeps akin
  | @function _ name line otherLine parameters otherParameters body otherBody enough bodies =>
    change Together pace further _
      (declare region name fun environment =>
        makeCallable (.function ⟨⟨name, line⟩, parameters, body⟩ environment))
      (declare place name fun environment =>
        makeCallable (.function ⟨⟨name, otherLine⟩, otherParameters, otherBody⟩ environment)) _
    refine together_declare (fun _ => rfl) (fun environment twin => ?_) region place
    refine (together_makeCallable _ _).weaken (fun _ _ => trivial)
      fun value other memory made later _ surrounds => ?_
    obtain ⟨identity, rfl, rfl⟩ := made
    exact .callable identity (.function rfl enough surrounds bodies)
  | other enclosing =>
    refine ((encloses region place enclosing).keep (enduring_locates around region place)
      fun _ locates => locates.surrounds).weaken (fun _ locates => locates)
      fun flow result memory both => ?_
    cases both.2 with
    | next => exact .next both.1
    | returned values => exact .returned values

end Statements
section Bounds

/-- Whatever is a variant runs alike, with the bounds of both sides. -/
structure RunsTogether (pace : Pace) (further : Prop) (bound other : Nat) : Prop where
  evals : EvalTogether pace further (evaluate bound) (evaluate other)
  encloses : EnclosingTogether pace further (execute bound) (execute other)
  follows : FollowingTogether pace further (execute bound) (execute other)

variable {bound other : Nat}

theorem together_enclosed (scopes : further → pace ≠ .even)
    (ih : ∀ other, pace.Allows bound other → RunsTogether pace further bound other)
    (allows : pace.Allows (bound + 1) (other + 1)) {stmt twin : Stmt} (apart : further)
    (variant : Stmt.Variant further around stmt twin) (region place : Region) :
    Together pace further (Surrounds around.names none region.environment place.environment)
      (execute (bound + 1) region stmt) (execute (other + 1) place (.block [twin]))
      fun flow result memory => AkinEnd further region place memory flow result := by
  have inside : Together pace further
      (Surrounds around.names none region.environment place.environment)
      (execute (bound + 1) region stmt) (execute other (.inside place.environment) twin)
      fun flow result memory =>
        AkinEnd further region (.inside place.environment) memory flow result := by
    cases other with
    | zero =>
      -- only the other side can be out of levels here
      cases pace with
      | forth => simp only [Pace.Allows] at allows; omega
      | back => exact fun _ _ _ _ => .second rfl
      | even => exact absurd rfl (scopes apart)
    | succ fewer =>
      have runs := ih fewer (allows.further (scopes apart))
      exact together_variant runs.evals runs.encloses runs.follows (allows.further (scopes apart))
        variant region (.inside place.environment)
  intro memory twinMemory akin surrounds
  have meets := inside memory twinMemory akin surrounds
  have blocks : execute (other + 1) place (.block [twin]) =
      runAll (execute other) (.inside place.environment) [twin] >>= fun flow =>
        pure (flow.leave place) := rfl
  rw [blocks, runAll, Exec.bind_apply, Exec.bind_apply]
  revert meets
  generalize execute (bound + 1) region stmt memory = one
  generalize execute other (.inside place.environment) twin twinMemory = two
  intro meets
  cases meets with
  | done keeps agree ends =>
    cases ends with
    | next => exact .done keeps agree .next
    | returned values => exact .done keeps agree (.returned values)
  | stopped agree => exact .stopped agree
  | first forth =>
    cases two <;> exact .first forth
  | second back =>
    cases one <;> exact .second back

theorem runsTogether_spent (allows : pace.Allows bound other) (spent : bound = 0 ∨ other = 0) :
    RunsTogether pace further bound other := by
  have never {α β : Type} {before : Memory → Prop} {after : α → β → Memory → Prop}
      (exec : Nat → Exec α) (twin : Nat → Exec β) (first : exec 0 = unfinished)
      (second : twin 0 = unfinished) : Together pace further before (exec bound) (twin other) after := by
    refine together_bounds exec twin first second allows fun less fewer more moreToo => ?_
    rcases spent with none | none
    · cases none.symm.trans more
    · cases none.symm.trans moreToo
  constructor
  · intro known pending expr variant environment twin _
    exact never (fun bound => evaluate bound environment expr)
      (fun bound => evaluate bound twin variant) rfl rfl
  · intro around stmt twin region place _
    exact never (fun bound => execute bound region stmt) (fun bound => execute bound place twin) rfl rfl
  · intro around after first second region place _
    exact never (fun bound => execute bound region first) (fun bound => execute bound place second) rfl
      rfl

theorem runsTogether (scopes : further → pace ≠ .even) (allows : pace.Allows bound other) :
    RunsTogether pace further bound other := by
  induction bound generalizing other with
  | zero => exact runsTogether_spent allows (.inl rfl)
  | succ bound ih =>
    match other with
    | 0 => exact runsTogether_spent allows (.inr rfl)
    | other + 1 =>
      have runs := ih allows.pred
      -- the statements of a list come last: each of them is one that is enclosed, or a declaration
      have encloses : EnclosingTogether pace further (execute (bound + 1)) (execute (other + 1)) := by
        intro around stmt twin region place enclosing
        cases enclosing with
        | bare variant =>
          exact together_variant runs.evals runs.encloses runs.follows allows.pred variant region place
        | block apart variant =>
          exact together_enclosed scopes (fun _ => ih) allows apart variant region place
      exact ⟨together_evaluateWith runs.evals runs.follows, encloses,
        together_following runs.evals encloses⟩

end Bounds
end LoxLang.Lexical

import LoxLang.Proofs.Lexical.Regions

/-!
Evaluation side by side, by induction on the bound: every expression and statement that is resolved in
the scopes around it does the same on the machine as in the model.
-/
namespace LoxLang.Lexical

variable {table : Distances} {limit : Nat} {eval : Expr → LoxLang.Exec LoxLang.Value}
  {run : Stmt → LoxLang.Exec LoxLang.Flow} {evalModel : Environment → Expr → Exec Value}
  {runModel : Region → Stmt → Exec Flow}

def EvalSimulates (table : Distances) (limit : Nat) (eval : Expr → LoxLang.Exec LoxLang.Value)
    (evalModel : Environment → Expr → Exec Value) : Prop :=
  ∀ (expr : Expr) (nesting : Nesting) (pending : Option String) (environment : Environment),
    expr.Resolved table nesting pending →
    Simulates table limit none
      (fun world => world.Carries nesting world.machine.current environment)
      (eval expr) (evalModel environment expr) fun value other world => Like table limit world value other

def RunSimulates (table : Distances) (limit : Nat) (run : Stmt → LoxLang.Exec LoxLang.Flow)
    (runModel : Region → Stmt → Exec Flow) : Prop :=
  ∀ (stmt : Stmt) (nesting : Nesting) (region : Region) (frame : FrameId),
    stmt.Resolved table nesting → Older limit stmt.ids →
    Simulates table limit (some frame)
      (fun world => world.machine.current = frame ∧ Stands world nesting region)
      (run stmt) (runModel region stmt)
      fun flow other world => LikeFlow table limit world (nesting.after stmt) flow other

theorem simulates_evaluateAll (evalSimulates : EvalSimulates table limit eval evalModel)
    {nesting : Nesting} {pending : Option String} (environment : Environment) (values : List Expr)
    (resolved : Expr.ResolvedAll table nesting pending values) :
    Simulates table limit none
      (fun world => world.Carries nesting world.machine.current environment)
      (LoxLang.evaluateAll eval values) (evaluateAll (evalModel environment) values)
      fun results others world => List.Forall₂ (Like table limit world) results others := by
  induction values with
  | nil => exact .pure fun _ _ => .nil
  | cons first rest ih =>
    refine ((evalSimulates first nesting pending environment resolved.1).keep
      (lasting_here nesting environment) fun _ carries => carries).bind fun value other => ?_
    refine ((ih resolved.2).keep ((lasting_here nesting environment).and (lasting_like value other))
      fun _ both => both.1).bind fun results others => ?_
    exact .pure fun _ both => .cons both.1.2 both.2

theorem simulates_runAll (runSimulates : RunSimulates table limit run runModel) (frame : FrameId)
    (body : List Stmt) {nesting : Nesting} (region : Region)
    (resolved : Stmt.ResolvedAll table nesting body) (older : Older limit (Stmt.idsAll body)) :
    Simulates table limit (some frame)
      (fun world => world.machine.current = frame ∧ Stands world nesting region)
      (LoxLang.runAll run body) (runAll runModel region body)
      fun flow other world => LikeFlow table limit world (nesting.afterAll body) flow other := by
  induction body generalizing nesting region with
  | nil => exact .pure fun _ both => .next both.2
  | cons first rest ih =>
    refine (((runSimulates first nesting region frame resolved.1 older.left).carry
      (lasting_current frame)).weaken (fun _ both => ⟨both.1, both⟩)
      fun _ _ _ reached => reached).bind fun flow other => ?_
    match flow, other with
    | .next, .next after =>
      refine (ih after resolved.2 older.right).weaken (fun world reached => ?_)
        fun _ _ _ like => like
      cases reached.2 with
      | next stands => exact ⟨reached.1, stands⟩
    | .returned value, .returned other =>
      refine .pure fun world reached => ?_
      cases reached.2 with
      | returned like => exact .returned like
    | .next, .returned _ => exact .vacuous fun _ reached => nomatch reached.2
    | .returned _, .next _ => exact .vacuous fun _ reached => nomatch reached.2

theorem simulates_bindParameters (frame : FrameId) (outer : Nesting) (parameters : List Ident)
    (names : List String) (environment : Environment) (values : List LoxLang.Value)
    (others : List Value) (enough : values.length = parameters.length)
    (nodup : (parameters.map Ident.name).Nodup)
    (apart : ∀ name ∈ parameters.map Ident.name, name ∉ names) :
    Simulates table limit (some frame)
      (fun world => Declares frame names outer environment world ∧
        List.Forall₂ (Like table limit world) values others)
      (LoxLang.bindParameters frame parameters values)
      (bindParameters environment parameters others)
      fun _ extended world =>
        Declares frame ((parameters.map Ident.name).reverse ++ names) outer extended world := by
  induction parameters generalizing names environment values others with
  | nil => exact .pure fun _ both => both.1
  | cons parameter rest ih =>
    match values, others with
    | value :: values, other :: others =>
      have fresh : parameter.name ∉ names := apart parameter.name List.mem_cons_self
      obtain ⟨new, nodupRest⟩ := List.nodup_cons.mp nodup
      simp only [bindParameters, LoxLang.bindParameters, allocate_some, bind_assoc, pure_bind]
      refine Simulates.link frame parameter.name (fun location world =>
        Declares frame (parameter.name :: names) outer
            ((parameter.name, location) :: environment) world ∧
          List.Forall₂ (Like table limit world) (value :: values) (other :: others))
        (fun world both => both.1.fresh fresh)
        (fun world both => ⟨both.1.link, lasting_likes _ _ _ _ (extends_link world) both.2⟩)
        fun location => ?_
      refine ((simulates_defineIn.keep (((lasting_link location (frame, parameter.name)).and
        ((lasting_declares frame (parameter.name :: names) outer _).and
          (lasting_likes (value :: values) (other :: others)))))
        fun world both => ⟨both.1, (List.forall₂_cons.mp both.2.2).1⟩).anywhere).bind fun _ _ => ?_
      refine (ih (parameter.name :: names) _ values others (by simpa using enough) nodupRest
        fun name member => ?_).weaken
          (fun world both => ⟨both.1.2.1, (List.forall₂_cons.mp both.1.2.2).2⟩)
          fun _ extended world declares => ?_
      · rintro (_ | ⟨_, earlier⟩)
        · exact new member
        · exact apart name (List.mem_cons_of_mem _ member) earlier
      · simpa using declares
    | value :: values, [] => exact .vacuous fun _ both => nomatch both.2
    | [], _ => cases enough

theorem simulates_native (native : Native) (values : List LoxLang.Value) (others : List Value) :
    Simulates table limit none
      (fun world => List.Forall₂ (Like table limit world) values others)
      (native.run values) (runNative native others)
      fun value other world => Like table limit world value other := by
  obtain ⟨name, arity, rule⟩ := native
  cases rule with
  | clock => exact simulates_readClock.weaken (fun _ _ => trivial) fun _ _ _ like => like
  | argument place =>
    exact .pure fun _ likes => likes.length_eq ▸ rel_getD likes .nil _

theorem simulates_within (runSimulates : RunSimulates table limit run runModel) {frame : FrameId}
    {body : List Stmt} {names : List String} {outer : Nesting} {environment : Environment}
    (resolved : Stmt.ResolvedAll table (names :: outer) body)
    (older : Older limit (Stmt.idsAll body)) :
    Simulates table limit (some frame) (Declares frame names outer environment)
      (within frame (LoxLang.runAll run body)) (runAll runModel (.inside environment) body)
      fun flow other world => LikeEnd table limit world flow other := by
  refine (simulates_runAll runSimulates frame body _ resolved older).within
    (fun world declares => ⟨rfl, declares.enter⟩) fun flow other world place like => ?_
  cases like with
  | next _ => exact .next _
  | returned like => exact .returned like.enter

theorem simulates_function (runSimulates : RunSimulates table limit run runModel)
    {declaration : Function} {closure : FrameId} {environment : Environment} {nesting : Nesting}
    {values : List LoxLang.Value} {others : List Value}
    (enough : values.length = declaration.parameters.length)
    (nodup : (declaration.parameters.map Ident.name).Nodup)
    (resolved : Stmt.ResolvedAll table
      ((declaration.parameters.map Ident.name).reverse :: nesting) declaration.body)
    (older : Older limit (Stmt.idsAll declaration.body)) :
    Simulates table limit none
      (fun world => world.Carries nesting closure environment ∧
        List.Forall₂ (Like table limit world) values others)
      (CallableOver.run run values (.function declaration closure))
      (call runModel others (.function declaration environment))
      fun value other world => Like table limit world value other := by
  refine Simulates.openInside
    (fun frame world => Declares frame [] nesting environment world ∧
      List.Forall₂ (Like table limit world) values others)
    (fun world agrees both => ⟨.openFrame agrees both.1,
      lasting_likes _ _ _ _ (extends_openFrame none world closure) both.2⟩) fun frame => ?_
  -- The frame is new, so nothing is linked to it before the parameters are.
  refine (simulates_bindParameters frame nesting declaration.parameters [] environment values others
    enough nodup fun _ _ => List.not_mem_nil).bind fun _ extended => ?_
  rw [List.append_nil]
  refine (simulates_within runSimulates resolved older).bind fun flow other => ?_
  match flow, other with
  | .next, .next _ => exact .pure fun _ _ => .nil
  | .returned value, .returned other =>
    refine .pure fun world ended => ?_
    cases ended with
    | returned like => exact like
  | .next, .returned _ => exact .vacuous fun _ ended => nomatch ended
  | .returned _, .next _ => exact .vacuous fun _ ended => nomatch ended

theorem simulates_callable (runSimulates : RunSimulates table limit run runModel)
    {target : LoxLang.Callable} {same : Callable} {values : List LoxLang.Value}
    {others : List Value} (enough : values.length = target.arity) :
    Simulates table limit none
      (fun world => LikeCallable table limit world target same ∧
        List.Forall₂ (Like table limit world) values others)
      (target.run run values) (call runModel others same)
      fun value other world => Like table limit world value other := by
  intro world agrees both
  obtain ⟨like, likes⟩ := both
  cases like with
  | native builtin => exact simulates_native builtin values others world agrees likes
  | function carries nodup resolved older =>
    exact simulates_function runSimulates enough nodup resolved older world agrees ⟨carries, likes⟩

theorem simulates_fault (cause : RuntimeCause) (line : Nat) :
    Simulates table limit none (fun _ => True) (LoxLang.Exec.fault cause line) (fault cause line)
      fun value other world => Like table limit world value other :=
  .stopped _

theorem simulates_callValue (runSimulates : RunSimulates table limit run runModel) (line : Nat)
    (callee : LoxLang.Value) (target : Value) (values : List LoxLang.Value)
    (others : List Value) :
    Simulates table limit none
      (fun world => Like table limit world callee target ∧
        List.Forall₂ (Like table limit world) values others)
      (LoxLang.callValue run line callee values) (callValue runModel line target others)
      fun value other world => Like table limit world value other := by
  intro world agrees both
  obtain ⟨like, likes⟩ := both
  cases like with
  | callable identity like =>
    rename_i callable other
    simp only [LoxLang.callValue, callValue, ← like.arity, ← likes.length_eq]
    by_cases enough : values.length = callable.arity
    · rw [if_pos enough, if_pos enough]
      exact simulates_callable runSimulates enough world agrees ⟨like, likes⟩
    · rw [if_neg enough, if_neg enough]
      exact simulates_fault _ line world agrees trivial
  | _ => exact simulates_fault _ line world agrees trivial

theorem simulates_evaluateWith (evalSimulates : EvalSimulates table limit eval evalModel)
    (runSimulates : RunSimulates table limit run runModel) :
    EvalSimulates table limit (LoxLang.evaluateWith eval run) (evaluateWith evalModel runModel) := by
  intro expr nesting pending environment resolved
  cases expr with
  | literal site value => exact .pure fun _ _ => like_ofLiteral value
  | «variable» site name => exact simulates_readVariable resolved.2
  | assign site target value =>
    refine ((evalSimulates value nesting pending environment resolved.1).keep
      (lasting_here nesting environment) fun _ carries => carries).bind fun result other => ?_
    refine (simulates_assignVariable resolved.2).bind fun _ _ => ?_
    exact .pure fun _ like => like
  | group site inner => exact evalSimulates inner nesting pending environment resolved
  | unary site op operand =>
    refine (evalSimulates operand nesting pending environment resolved).bind fun value other => ?_
    exact simulates_atLine site.line fun _ like => like.unary op
  | binary site op left right =>
    refine ((evalSimulates left nesting pending environment resolved.1).keep
      (lasting_here nesting environment) fun _ carries => carries).bind fun first other => ?_
    refine ((evalSimulates right nesting pending environment resolved.2).keep
      ((lasting_here nesting environment).and (lasting_like first other))
      fun _ both => both.1).bind fun second later => ?_
    exact simulates_atLine site.line fun _ both => both.1.2.binary op both.2
  | logical site op left right =>
    refine ((evalSimulates left nesting pending environment resolved.1).keep
      (lasting_here nesting environment) fun _ carries => carries).bind fun first other => ?_
    intro world agrees both
    rw [both.2.decides op]
    split
    · exact Simulates.pure (fun _ like => like) world agrees both.2
    · exact evalSimulates right nesting pending environment resolved.2 world agrees both.1
  | call site callee arguments =>
    refine ((evalSimulates callee nesting pending environment resolved.1).keep
      (lasting_here nesting environment) fun _ carries => carries).bind fun target other => ?_
    refine ((simulates_evaluateAll evalSimulates environment arguments resolved.2).keep
      ((lasting_here nesting environment).and (lasting_like target other))
      fun _ both => both.1).bind fun values others => ?_
    exact (simulates_callValue runSimulates site.line target other values others).weaken
      (fun _ both => ⟨both.1.2, both.2⟩) fun _ _ _ like => like

theorem simulates_evaluateOr (evalSimulates : EvalSimulates table limit eval evalModel)
    {nesting : Nesting} {pending : Option String} (environment : Environment)
    (value : Option Expr) (resolved : Expr.ResolvedOptional table nesting pending value) :
    Simulates table limit none
      (fun world => world.Carries nesting world.machine.current environment)
      (LoxLang.evaluateOr eval value) (evaluateOr (evalModel environment) value)
      fun value other world => Like table limit world value other := by
  cases value with
  | none => exact .pure fun _ _ => .nil
  | some value => exact evalSimulates value nesting pending environment (resolved value rfl)

section Statements

variable {nesting : Nesting} {region : Region} {here : Option FrameId} {frame : FrameId}

def StandsIn (frame : FrameId) (nesting : Nesting) (region : Region) (world : World) : Prop :=
  world.machine.current = frame ∧ Stands world nesting region

theorem lasting_standsIn : Lasting none (StandsIn frame nesting region) :=
  (lasting_current frame).and (lasting_stands nesting region)

theorem EvalSimulates.standing (evalSimulates : EvalSimulates table limit eval evalModel)
    {expr : Expr} (resolved : expr.Resolved table nesting none) :
    Simulates table limit here (StandsIn frame nesting region) (eval expr)
      (evalModel region.environment expr)
      fun value other world => StandsIn frame nesting region world ∧
        Like table limit world value other :=
  ((evalSimulates expr nesting none region.environment resolved).keep lasting_standsIn
    fun _ standing => standing.2.carries).anywhere

/-- Where a statement that declares nothing does the same on both sides, from wherever it is run. -/
def PlainSimulates (table : Distances) (limit : Nat) (here : Option FrameId) (frame : FrameId)
    (run : Stmt → LoxLang.Exec LoxLang.Flow) (runModel : Region → Stmt → Exec Flow) : Prop :=
  ∀ (stmt : Stmt) (nesting : Nesting) (region : Region), stmt.isDeclaration = false →
    stmt.Resolved table nesting → Older limit stmt.ids →
    Simulates table limit here (StandsIn frame nesting region) (run stmt) (runModel region stmt)
      fun flow other world => LikeFlow table limit world nesting flow other

theorem RunSimulates.plain (runSimulates : RunSimulates table limit run runModel) :
    PlainSimulates table limit (some frame) frame run runModel := by
  intro stmt nesting region plain resolved older
  have ran := runSimulates stmt nesting region frame resolved older
  rwa [Nesting.after_of_not_declaration nesting plain] at ran

theorem simulates_branch (plainSimulates : PlainSimulates table limit here frame run runModel)
    {stmt : Stmt} (resolved : stmt.isDeclaration = false ∧ stmt.Resolved table nesting)
    (older : Older limit stmt.ids) :
    Simulates table limit here (StandsIn frame nesting region) (run stmt)
      (branch runModel region stmt)
      fun flow other world => LikeFlow table limit world nesting flow other :=
  (plainSimulates stmt nesting region resolved.1 resolved.2 older).change
    fun _ _ _ _ standing wider like => like.leave standing.2 wider

theorem simulates_iterate {test : LoxLang.Exec LoxLang.Value} {body : LoxLang.Exec LoxLang.Flow}
    {testModel : Exec Value} {bodyModel : Exec Flow}
    (testSimulates : Simulates table limit here (StandsIn frame nesting region) test
      testModel fun value other world => StandsIn frame nesting region world ∧
        Like table limit world value other)
    (bodySimulates : Simulates table limit here (StandsIn frame nesting region) body
      bodyModel fun flow other world => LikeFlow table limit world nesting flow other)
    (bound : Nat) :
    Simulates table limit here (StandsIn frame nesting region)
      (LoxLang.iterate test body bound) (iterate region testModel bodyModel bound)
      fun flow other world => LikeFlow table limit world nesting flow other := by
  induction bound with
  | zero => exact .stopped .unfinished
  | succ bound ih =>
    refine testSimulates.bind fun again other => ?_
    intro world agrees both
    rw [both.2.truthy]
    by_cases goes : other.truthy
    · rw [if_pos goes, if_pos goes]
      -- What the body declares is gone at the next test, so the world before it has to be kept in
      -- mind.
      have ran := bodySimulates.carry (lasting_since (StandsIn frame nesting region))
      refine Simulates.bind ran (fun flow result => ?_) world agrees
        ⟨⟨world, both.1, .refl _ world⟩, both.1⟩
      match flow, result with
      | .next, .next left =>
        refine ih.weaken (fun final reached => ?_) fun _ _ _ like => like
        obtain ⟨⟨before, standing, wider⟩, like⟩ := reached
        cases like with
        | next stands =>
          exact ⟨lasting_current frame before final wider standing.1,
            standing.2.leave wider stands⟩
      | .returned value, .returned result =>
        refine .pure fun final reached => ?_
        cases reached.2 with
        | returned like => exact .returned like
      | .next, .returned _ => exact .vacuous fun _ reached => nomatch reached.2
      | .returned _, .next _ => exact .vacuous fun _ reached => nomatch reached.2
    · rw [if_neg goes, if_neg goes]
      exact Simulates.pure (fun _ standing => .next standing.2) world agrees both.1

theorem simulates_block (runSimulates : RunSimulates table limit run runModel) {body : List Stmt}
    (resolved : Stmt.ResolvedAll table ([] :: nesting) body)
    (older : Older limit (Stmt.idsAll body)) :
    Simulates table limit none (StandsIn frame nesting region)
      (currentFrame >>= fun parent => openInside parent >>= fun inner =>
        within inner (LoxLang.runAll run body))
      (runAll runModel (.inside region.environment) body >>= fun flow =>
        pure (flow.leave region))
      fun flow other world => LikeFlow table limit world nesting flow other := by
  have inside : Simulates table limit none (StandsIn frame nesting region)
      (openInside frame >>= fun inner => within inner (LoxLang.runAll run body))
      (runAll runModel (.inside region.environment) body)
      fun flow other world => LikeEnd table limit world flow other := by
    refine Simulates.openInside (fun inner => Declares inner [] nesting region.environment)
      (fun world agrees standing => ?_) fun inner => simulates_within runSimulates resolved older
    have carries := standing.2.carries
    rw [standing.1] at carries
    exact .openFrame agrees carries
  exact Simulates.currentFrame (fun _ standing => standing.1)
    (inside.change fun _ _ _ _ standing wider ended => ended.leave standing.2 wider)

/-- A name has its location and the scope has the name, but nothing is stored there yet. -/
def Declaring (frame : FrameId) (name : String) (location : Location) (names : List String)
    (outer : Nesting) (environment : Environment) (world : World) : Prop :=
  world.machine.current = frame ∧ world.links[location]? = some (frame, name) ∧
    Declares frame (name :: names) outer ((name, location) :: environment) world

theorem lasting_declaring {name : String} {location : Location} {names : List String}
    {outer : Nesting} {environment : Environment} :
    Lasting none (Declaring frame name location names outer environment) :=
  (lasting_current frame).and ((lasting_link location (frame, name)).and
    (lasting_declares frame (name :: names) outer _))

theorem simulates_declareLocal {name : String} {names : List String} {outer : Nesting}
    {environment : Environment} (fresh : name ∉ names) {value : LoxLang.Exec LoxLang.Value}
    {model : Environment → Exec Value}
    (simulates : ∀ location, Simulates table limit none
      (Declaring frame name location names outer environment) value
      (model ((name, location) :: environment))
      fun made other world => Like table limit world made other) :
    Simulates table limit (some frame) (StandsIn frame (names :: outer) (.inside environment))
      (value >>= fun made => defineHere name made >>= fun _ => pure .next)
      (declare (.inside environment) name model)
      fun flow other world => LikeFlow table limit world ((name :: names) :: outer) flow other := by
  have declared (world : World)
      (standing : StandsIn frame (names :: outer) (.inside environment) world) :
      Declares frame names outer environment world := by
    obtain ⟨rfl, stands⟩ := standing
    cases stands with
    | inside declares => exact declares
  refine Simulates.link frame name (fun location world => world.machine.current = frame ∧
      Declares frame (name :: names) outer ((name, location) :: environment) world)
    (fun world standing => (declared world standing).fresh fresh)
    (fun world standing => ⟨standing.1, (declared world standing).link⟩) fun location => ?_
  refine (((simulates location).keep lasting_declaring fun _ start => start).anywhere.weaken
    (fun _ start => ⟨start.2.1, start.1, start.2.2⟩) fun _ _ _ both => both).bind
    fun made other => ?_
  refine (simulates_store.keep (lasting_declaring.and (lasting_like made other)) fun _ both =>
    ⟨both.1.1, both.1.2.1, both.2⟩).anywhere.bind fun _ _ => .pure fun world both => .next ?_
  obtain ⟨⟨⟨rfl, _, declares⟩, _⟩, _⟩ := both
  exact .inside declares

theorem simulates_declareGlobal {name : String} {value : LoxLang.Exec LoxLang.Value}
    {model : Environment → Exec Value}
    (simulates : Simulates table limit none (StandsIn frame [] .outermost) value (model [])
      fun made other world => Like table limit world made other) :
    Simulates table limit (some frame) (StandsIn frame [] .outermost)
      (value >>= fun made => defineHere name made >>= fun _ => pure .next)
      (declare .outermost name model)
      fun flow other world => LikeFlow table limit world [] flow other := by
  refine (simulates.keep lasting_standsIn fun _ start => start).anywhere.bind fun made other => ?_
  refine (simulates_defineGlobal.keep (lasting_standsIn.and (lasting_like made other))
    fun world both => ?_).anywhere.bind fun _ _ => .pure fun world both => .next both.1.1.2
  cases both.1.2 with
  | outermost globals => exact ⟨globals, both.2⟩

/-- What a declaration makes it makes where the name is declared already, on the machine as much as in
the model, although the name is bound there only afterwards. -/
theorem simulates_declare {name : String} (admits : nesting.Admits name)
    {value : LoxLang.Exec LoxLang.Value} {model : Environment → Exec Value}
    (simulates : ∀ environment, Simulates table limit none
      (fun world => world.machine.current = frame ∧
        world.Carries (nesting.declare name) frame environment) value (model environment)
      fun made other world => Like table limit world made other) :
    Simulates table limit (some frame) (StandsIn frame nesting region)
      (value >>= fun made => defineHere name made >>= fun _ => pure .next)
      (declare region name model)
      fun flow other world => LikeFlow table limit world (nesting.declare name) flow other := by
  match nesting, region with
  | [], .outermost =>
    exact simulates_declareGlobal ((simulates []).weaken
      (fun _ standing => ⟨standing.1, standing.1 ▸ standing.2.carries⟩) fun _ _ _ like => like)
  | names :: outer, .inside environment =>
    refine simulates_declareLocal (admits names rfl) fun location => ?_
    exact (simulates ((name, location) :: environment)).weaken
      (fun _ start => ⟨start.1, start.2.2.carries⟩) fun _ _ _ like => like
  | [], .inside _ => exact .vacuous fun _ standing => nomatch standing.2
  | _ :: _, .outermost => exact .vacuous fun _ standing => nomatch standing.2

theorem simulates_makeFunction {declaration : Function} (environment : Environment)
    (nodup : (declaration.parameters.map Ident.name).Nodup)
    (resolved : Stmt.ResolvedAll table
      ((declaration.parameters.map Ident.name).reverse :: nesting) declaration.body)
    (older : Older limit (Stmt.idsAll declaration.body)) :
    Simulates table limit none
      (fun world => world.machine.current = frame ∧ world.Carries nesting frame environment)
      (currentFrame >>= fun closure => LoxLang.makeCallable (.function declaration closure))
      (makeCallable (.function declaration environment))
      fun made other world => Like table limit world made other :=
  Simulates.currentFrame (fun _ start => start.1) (simulates_makeCallable.weaken
    (fun _ start => .function start.2 nodup resolved older) fun _ _ _ like => like)

theorem simulates_plainWith (bound : Nat) (evalSimulates : EvalSimulates table limit eval evalModel)
    (runSimulates : RunSimulates table limit run runModel)
    (plainSimulates : PlainSimulates table limit here frame run runModel) :
    PlainSimulates table limit here frame (LoxLang.runWith bound eval run)
      (runWith bound evalModel runModel) := by
  intro stmt nesting region plain resolved older
  cases stmt with
  | var _ _ | function _ _ _ => cases plain
  | expression value =>
    refine (evalSimulates.standing resolved).bind fun _ _ => ?_
    exact .pure fun _ both => .next both.1.2
  | print value =>
    refine (evalSimulates.standing resolved).bind fun result other => ?_
    refine ((simulates_write.keep (lasting_standsIn.and (lasting_like result other))
      fun _ both => both.2).anywhere).bind fun _ _ => ?_
    exact .pure fun _ both => .next both.1.1.2
  | block body => exact (simulates_block runSimulates resolved older).anywhere
  | ifThen test yes =>
    refine (evalSimulates.standing resolved.1).bind fun chosen other => ?_
    intro world agrees both
    rw [both.2.truthy]
    split
    · exact simulates_branch plainSimulates resolved.2 older.right world agrees both.1
    · exact Simulates.pure (fun _ standing => .next standing.2) world agrees both.1
  | ifElse test yes no =>
    refine (evalSimulates.standing resolved.1).bind fun chosen other => ?_
    intro world agrees both
    rw [both.2.truthy]
    split
    · exact simulates_branch plainSimulates resolved.2.1 older.right.left world agrees both.1
    · exact simulates_branch plainSimulates resolved.2.2 older.right.right world agrees both.1
  | loop test body =>
    exact simulates_iterate (evalSimulates.standing resolved.1)
      (plainSimulates body nesting region resolved.2.1 resolved.2.2 older.right) bound
  | «return» line value =>
    refine ((simulates_evaluateOr evalSimulates region.environment value resolved).weaken
      (fun _ standing => standing.2.carries) fun _ _ _ like => like).anywhere.bind
      fun result other => ?_
    exact .pure fun _ like => .returned like

theorem simulates_runWith (bound : Nat) (evalSimulates : EvalSimulates table limit eval evalModel)
    (runSimulates : RunSimulates table limit run runModel) :
    RunSimulates table limit (LoxLang.runWith bound eval run)
      (runWith bound evalModel runModel) := by
  intro stmt nesting region frame resolved older
  change Simulates table limit (some frame) (StandsIn frame nesting region) _ _ _
  by_cases plain : stmt.isDeclaration = false
  · rw [Nesting.after_of_not_declaration nesting plain]
    exact simulates_plainWith bound evalSimulates runSimulates runSimulates.plain stmt nesting region
      plain resolved older
  · cases stmt with
    | var name initial =>
      have made (environment : Environment) : Simulates table limit none
          (fun world => world.machine.current = frame ∧
            world.Carries (nesting.declare name.name) frame environment)
          (LoxLang.evaluateOr eval initial) (evaluateOr (evalModel environment) initial)
          fun value other world => Like table limit world value other :=
        (simulates_evaluateOr evalSimulates environment initial resolved.2).weaken
          (fun _ start => start.1 ▸ start.2) fun _ _ _ like => like
      exact simulates_declare resolved.1 made
    | function name parameters body =>
      exact simulates_declare resolved.1 fun environment =>
        simulates_makeFunction environment resolved.2.1 resolved.2.2 older
    | _ => exact absurd rfl plain

end Statements
theorem simulates_evaluate_execute (bound : Nat) :
    EvalSimulates table limit (LoxLang.evaluate bound) (evaluate bound) ∧
      RunSimulates table limit (LoxLang.execute bound) (execute bound) := by
  induction bound with
  | zero => exact ⟨fun _ _ _ _ _ => .stopped .unfinished, fun _ _ _ _ _ _ => .stopped .unfinished⟩
  | succ bound ih =>
    exact ⟨simulates_evaluateWith ih.1 ih.2, simulates_runWith bound ih.1 ih.2⟩

theorem simulates_plain (bound : Nat) (frame : FrameId) :
    PlainSimulates table limit none frame (LoxLang.execute bound) (execute bound) := by
  induction bound with
  | zero => exact fun _ _ _ _ _ _ => .stopped .unfinished
  | succ bound ih =>
    obtain ⟨evals, runs⟩ := simulates_evaluate_execute bound
    exact simulates_plainWith bound evals runs ih

theorem simulates_executeProgram (bound : Nat) {program : Program}
    (resolved : Stmt.ResolvedAll table [] program) (older : Older limit (Stmt.idsAll program))
    (frame : FrameId) :
    Simulates table limit (some frame) (StandsIn frame [] .outermost)
      (LoxLang.executeProgram bound program) (executeProgram bound program) fun _ _ _ => True :=
  (simulates_runAll (simulates_evaluate_execute bound).2 frame program .outermost resolved
    older).bind fun _ _ => .pure fun _ _ => trivial

theorem simulates_show (shown : LoxLang.Value) (other : Value) :
    Simulates table limit none (fun world => Like table limit world shown other)
      (match some shown with
        | some .nil => pure ()
        | some result => LoxLang.write result
        | none => pure ())
      (match other with
        | .nil => pure ()
        | result => write result)
      fun _ _ _ => True := by
  intro world agrees like
  cases like with
  | nil => exact ⟨world.links, .refl none world, agrees, trivial⟩
  | string text => exact simulates_write world agrees (.string text)
  | number value => exact simulates_write world agrees (.number value)
  | boolean value => exact simulates_write world agrees (.boolean value)
  | callable identity like => exact simulates_write world agrees (.callable identity like)

theorem map_bind {α β γ : Type} (first : LoxLang.Exec α) (turn : α → β)
    (next : β → LoxLang.Exec γ) :
    (turn <$> first) >>= next = first >>= fun value => next (turn value) := by
  funext machine
  have turned : (turn <$> first) machine = (first >>= fun value => pure (turn value)) machine := rfl
  rw [LoxLang.Exec.bind_apply, LoxLang.Exec.bind_apply, turned, LoxLang.Exec.bind_apply]
  cases first machine <;> rfl

theorem simulates_alone (bound : Nat) {value : Expr} (resolved : value.Resolved table [] none)
    (frame : FrameId) :
    Simulates table limit (some frame) (StandsIn frame [] .outermost)
      (LoxLang.runProgram bound .prompt [.expression value])
      (runProgram bound .prompt [.expression value]) fun _ _ _ => True := by
  have evaluated : Simulates table limit none (StandsIn frame [] .outermost)
      (LoxLang.evaluate bound value) (evaluate bound [] value)
      fun shown other world => Like table limit world shown other :=
    ((simulates_evaluate_execute bound).1 value [] none [] resolved).weaken
      (fun _ standing => standing.2.carries) fun _ _ _ like => like
  have shows : LoxLang.runProgram bound .prompt [.expression value] =
      ((LoxLang.evaluate bound value : LoxLang.Exec LoxLang.Value) >>= fun shown =>
        match some shown with
        | some .nil => pure ()
        | some result => LoxLang.write result
        | none => pure ()) := map_bind (LoxLang.evaluate bound value) some _
  rw [shows]
  exact (evaluated.bind simulates_show).anywhere

theorem simulates_runProgram (bound : Nat) (manner : Manner) {program : Program}
    (resolved : Stmt.ResolvedAll table [] program) (older : Older limit (Stmt.idsAll program))
    (frame : FrameId) :
    Simulates table limit (some frame) (StandsIn frame [] .outermost)
      (LoxLang.runProgram bound manner program) (runProgram bound manner program)
      fun _ _ _ => True := by
  by_cases alone : ∃ value, manner = .prompt ∧ program = [.expression value]
  · obtain ⟨value, rfl, rfl⟩ := alone
    exact simulates_alone bound resolved.1 frame
  · have whole : LoxLang.runProgram bound manner program = LoxLang.executeProgram bound program := by
      unfold LoxLang.runProgram
      split
      · exact absurd ⟨_, rfl, rfl⟩ alone
      · rfl
    have wholeModel : runProgram bound manner program = executeProgram bound program := by
      unfold runProgram
      split
      · exact absurd ⟨_, rfl, rfl⟩ alone
      · rfl
    rw [whole, wholeModel]
    exact simulates_executeProgram bound resolved older frame

end LoxLang.Lexical

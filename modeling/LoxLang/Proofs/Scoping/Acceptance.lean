import Mathlib.Data.List.Nodup
import LoxLang.Proofs.Scoping.Nesting

/-!
What resolving accepts is resolved. The scopes of the resolver show the nesting of the place it has
come to; as long as it reports nothing, each reference is recorded with the distance that the
nesting gives.
-/
namespace LoxLang

/-- A scope has the names, all of them ready for use but the pending one. -/
structure Scope.Shows (scope : Scope) (names : List String) (pending : Option String) : Prop where
  has : ∀ name, scope.contains name = names.contains name
  unready : ∀ name, scope[name]? = some false ↔ pending = some name

namespace Scoping

/-- Only the innermost scope can have a pending name. -/
def Shows : List Scope → Nesting → Option String → Prop
  | [], [], pending => pending = none
  | scope :: scopes, names :: outer, pending => scope.Shows names pending ∧ Shows scopes outer none
  | _, _, _ => False

variable {scopes : List Scope} {nesting : Nesting} {pending : Option String}

theorem Shows.distance? (shows : Shows scopes nesting pending) (name : String) :
    scopes.findIdx? (·.contains name) = nesting.distance? name := by
  induction scopes generalizing nesting pending with
  | nil =>
    cases nesting with
    | nil => rfl
    | cons names outer => exact shows.elim
  | cons scope scopes ih =>
    cases nesting with
    | nil => exact shows.elim
    | cons names outer =>
      have further := ih shows.2
      unfold Nesting.distance? at further ⊢
      rw [List.findIdx?_cons, List.findIdx?_cons, shows.1.has name, further]

theorem Shows.inOwnInitializer {state : Scoping} (shows : Shows state.scopes nesting pending)
    (name : String) : state.inOwnInitializer name = true ↔ pending = some name := by
  unfold Scoping.inOwnInitializer
  cases found : state.scopes with
  | nil =>
    rw [found] at shows
    cases nesting with
    | nil => simp [show pending = none from shows]
    | cons names outer => exact shows.elim
  | cons scope scopes =>
    rw [found] at shows
    cases nesting with
    | nil => exact shows.elim
    | cons names outer => simpa using shows.1.unready name

theorem shows_openScope {state : Scoping} (shows : Shows state.scopes nesting none) :
    Shows state.openScope.scopes ([] :: nesting) none := by
  refine ⟨⟨fun name => ?_, fun name => ?_⟩, shows⟩ <;> simp

theorem shows_closeScope {state : Scoping} {names : List String}
    (shows : Shows state.scopes (names :: nesting) none) :
    Shows state.closeScope.scopes nesting none := by
  unfold closeScope
  cases found : state.scopes with
  | nil =>
    rw [found] at shows
    exact shows.elim
  | cons scope scopes =>
    rw [found] at shows
    exact shows.2

/-- A declaration adds its name to the innermost scope, where it waits to be defined unless it has been
there before; that is reported. -/
theorem declare_shown {state : Scoping} (name : Ident) (shows : Shows state.scopes nesting none) :
    Shows (state.declare name).scopes (nesting.declare name.name) (nesting.unready name.name) ∧
      (state.declare name).faults = if nesting.Admits name.name then state.faults
        else state.faults.push ⟨name.line, .lexeme name.name, .duplicateName⟩ := by
  unfold declare
  cases found : state.scopes with
  | nil =>
    rw [found] at shows
    cases nesting with
    | nil => simp [found, Nesting.declare, Nesting.unready, Nesting.Admits, Shows]
    | cons names outer => exact shows.elim
  | cons scope scopes =>
    rw [found] at shows
    cases nesting with
    | nil => exact shows.elim
    | cons names outer =>
      have admits : Nesting.Admits (names :: outer) name.name ↔ name.name ∉ names := by
        simp [Nesting.Admits]
      -- A name that the scope has already is reported, and the scope stays as it is.
      by_cases old : name.name ∈ names
      · have present : scope.contains name.name = true := by
          rw [shows.1.has]
          simpa using old
        have waits : Nesting.unready (names :: outer) name.name = none := if_pos old
        simp only [present, ↓reduceIte, report, admits, old, not_true_eq_false, waits, and_true]
        rw [found]
        refine ⟨⟨fun sought => ?_, shows.1.unready⟩, shows.2⟩
        rw [shows.1.has sought, Bool.eq_iff_iff]
        by_cases same : sought = name.name
        · simp [same, old]
        · simp [same]
      · have absent : scope.contains name.name = false := by
          rw [shows.1.has]
          simpa using old
        have waits : Nesting.unready (names :: outer) name.name = some name.name := if_neg old
        simp only [absent, Bool.false_eq_true, ↓reduceIte, admits, old, not_false_eq_true, waits,
          and_true]
        refine ⟨⟨fun sought => ?_, fun sought => ?_⟩, shows.2⟩
        · rw [Std.TreeMap.contains_insert, shows.1.has sought, Bool.eq_iff_iff]
          by_cases same : name.name = sought
          · simp [same]
          · simp [same, Ne.symm same]
        · rw [Std.TreeMap.getElem?_insert]
          by_cases same : name.name = sought
          · simp [same]
          · simpa [same] using (shows.1.unready sought).not.mpr (by simp)

theorem shows_declare {state : Scoping} (name : Ident) (shows : Shows state.scopes nesting none)
    (quiet : (state.declare name).faults.size ≤ state.faults.size) :
    nesting.Admits name.name ∧
      Shows (state.declare name).scopes (nesting.declare name.name) (nesting.pending name.name) := by
  obtain ⟨shown, faults⟩ := declare_shown name shows
  have admits : nesting.Admits name.name := by
    by_contra taken
    rw [faults, if_neg taken, Array.size_push] at quiet
    exact absurd quiet (Nat.not_succ_le_self _)
  exact ⟨admits, Nesting.unready_of_admits admits ▸ shown⟩

theorem define_shown {state : Scoping} {name : Ident}
    (shows : Shows state.scopes (nesting.declare name.name) pending)
    (own : ∀ other ∈ pending, other = name.name) :
    Shows (state.define name).scopes (nesting.declare name.name) none := by
  unfold define
  cases found : state.scopes with
  | nil =>
    rw [found] at shows
    cases nesting with
    | nil => simp [found, Nesting.declare, Shows]
    | cons names outer => exact shows.elim
  | cons scope scopes =>
    rw [found] at shows
    cases nesting with
    | nil => exact shows.elim
    | cons names outer =>
      refine ⟨⟨fun sought => ?_, fun sought => ?_⟩, shows.2⟩
      · rw [Std.TreeMap.contains_insert, shows.1.has sought]
        by_cases same : name.name = sought <;> simp [same]
      · rw [Std.TreeMap.getElem?_insert]
        by_cases same : name.name = sought
        · simp [same]
        · have other : pending ≠ some sought := fun waits => same (own sought waits).symm
          simpa [same] using (shows.1.unready sought).not.mpr other

theorem shows_define {state : Scoping} {name : Ident}
    (shows : Shows state.scopes (nesting.declare name.name) (nesting.pending name.name)) :
    Shows (state.define name).scopes (nesting.declare name.name) none := by
  refine define_shown shows fun other waits => ?_
  cases nesting with
  | nil => cases waits
  | cons names outer => exact (Option.some.inj waits).symm

theorem shows_parameters {state : Scoping} {names : List String} (parameters : List Ident)
    (shows : Shows state.scopes (names :: nesting) none)
    (quiet : (Scoping.parameters parameters state).faults.size ≤ state.faults.size) :
    ((parameters.map Ident.name).Nodup ∧ ∀ name ∈ parameters.map Ident.name, name ∉ names) ∧
      Shows (Scoping.parameters parameters state).scopes
        (((parameters.map Ident.name).reverse ++ names) :: nesting) none := by
  induction parameters generalizing state names with
  | nil => exact ⟨⟨List.nodup_nil, nofun⟩, shows⟩
  | cons name rest ih =>
    have declared := (extends_declare name state []).size_le
    have defined := (extends_define name (state.declare name) []).size_le
    have others := (extends_parameters rest ((state.declare name).define name) []).size_le
    change (Scoping.parameters rest ((state.declare name).define name)).faults.size ≤ _ at quiet
    obtain ⟨fresh, showsDeclared⟩ := shows_declare name shows (by omega)
    obtain ⟨⟨nodup, apart⟩, showsRest⟩ := ih (shows_define showsDeclared) (by omega)
    have new : name.name ∉ rest.map Ident.name := fun member =>
      apart _ member List.mem_cons_self
    refine ⟨⟨List.nodup_cons.mpr ⟨new, nodup⟩, ?_⟩, ?_⟩
    · intro sought member
      rcases List.mem_cons.mp member with same | later
      · rw [same]
        exact fresh names rfl
      · exact fun old => apart sought later (List.mem_cons_of_mem _ old)
    · rw [List.map_cons, List.reverse_cons, List.append_assoc]
      exact showsRest

/-- From `before` to `after` nothing was reported, and the nodes `ids`, none of which had a distance
before, have the distances that the table gives them. -/
structure Accepts (table : Distances) (before after : Scoping) (ids : List Nat) : Prop where
  quiet : after.faults.size ≤ before.faults.size
  nodup : ids.Nodup
  fresh : ∀ id ∈ ids, before.distances[id]? = none
  agree : after.distances.AgreeOn ids table

namespace Accepts

variable {table : Distances} {before middle after : Scoping} {ids others : List Nat}

theorem split (accepts : Accepts table before after (ids ++ others))
    (ahead : before.Extends middle ids) (further : middle.Extends after others) :
    Accepts table before middle ids ∧ Accepts table middle after others := by
  have grows := ahead.size_le
  have growsOn := further.size_le
  have quiet := accepts.quiet
  obtain ⟨nodup, nodupOthers, apart⟩ := List.nodup_append.mp accepts.nodup
  refine ⟨⟨by omega, nodup, ?_, ?_⟩, ⟨by omega, nodupOthers, ?_, accepts.agree.right⟩⟩
  · exact fun id member => accepts.fresh id (List.mem_append_left _ member)
  · intro id member
    have outside : id ∉ others := fun other => apart id member id other rfl
    rw [accepts.agree id (List.mem_append_left _ member), further.distances id outside]
  · intro id member
    have outside : id ∉ ids := fun other => apart id other id member rfl
    rw [ahead.distances id outside]
    exact accepts.fresh id (List.mem_append_right _ member)

theorem tail {id : Nat} (accepts : Accepts table before after (id :: ids)) :
    Accepts table before after ids :=
  ⟨accepts.quiet, (List.nodup_cons.mp accepts.nodup).2,
    fun id member => accepts.fresh id (List.mem_cons_of_mem _ member), accepts.agree.tail⟩

theorem rotate {id : Nat} (accepts : Accepts table before after (id :: ids)) :
    Accepts table before after (ids ++ [id]) :=
  have order := List.perm_append_singleton id ids
  ⟨accepts.quiet, order.nodup_iff.mpr accepts.nodup,
    fun id member => accepts.fresh id (order.mem_iff.mp member),
    accepts.agree.mono fun _ member => order.mem_iff.mp member⟩

theorem inner {first last : Scoping} (accepts : Accepts table before after ids)
    (start : before.Extends first []) (ahead : first.Extends last ids)
    (finish : last.Extends after []) : Accepts table first last ids := by
  have whole : Accepts table before after ([] ++ ids) := accepts
  have rest := (ahead.widen (List.subset_append_left ids [])).trans
    (finish.widen (List.nil_subset _))
  obtain ⟨_, later⟩ := whole.split start (rest.widen (by simp))
  have padded : Accepts table first after (ids ++ []) := by simpa using later
  exact (padded.split ahead finish).1

end Accepts

theorem resolved_refer {table : Distances} {state : Scoping} {id : Nat} (name : String)
    (shows : Shows state.scopes nesting pending)
    (accepts : Accepts table state (state.refer id name) [id]) :
    table[id]? = nesting.distance? name := by
  have fresh := accepts.fresh id List.mem_cons_self
  have agree := accepts.agree id List.mem_cons_self
  have found : state.distance? name = nesting.distance? name := shows.distance? name
  rw [agree, refer, ← found]
  cases state.distance? name with
  | none => exact fresh
  | some distance => simp

theorem resolved_read {table : Distances} {state : Scoping} {site : Site} {name : String}
    (shows : Shows state.scopes nesting pending)
    (accepts : Accepts table state (state.read site name) [site.id]) :
    pending ≠ some name ∧ table[site.id]? = nesting.distance? name := by
  by_cases own : state.inOwnInitializer name = true
  · have quiet := accepts.quiet
    have grows := (extends_refer site.id name
      (state.report site.line name .readInOwnInitializer)).size_le
    simp only [read, own, ↓reduceIte] at quiet
    simp only [report, Array.size_push] at grows
    simp only [report] at quiet
    omega
  · refine ⟨fun waits => own ((shows.inOwnInitializer name).mpr waits), ?_⟩
    have plain : state.read site name = state.refer site.id name := by simp [read, own]
    rw [plain] at accepts
    exact resolved_refer name shows accepts

mutual

theorem resolved_expression (table : Distances) : ∀ (expr : Expr) {state : Scoping},
    Shows state.scopes nesting pending →
    Accepts table state (expression expr state) expr.ids → expr.Resolved table nesting pending
  | .literal _ _, _, _, _ => trivial
  | .variable _ _, _, shows, accepts => resolved_read shows accepts
  | .assign site target value, state, shows, accepts => by
    -- The target is looked up after the value, though its number comes first.
    have parts := accepts.rotate.split (extends_expression value state) (extends_refer site.id target _)
    have kept : Shows (expression value state).scopes nesting pending := by
      rwa [expression_scopes]
    exact ⟨resolved_expression table value shows parts.1, resolved_refer target kept parts.2⟩
  | .group _ inner, _, shows, accepts => resolved_expression table inner shows accepts.tail
  | .unary _ _ operand, _, shows, accepts => resolved_expression table operand shows accepts.tail
  | .binary _ _ left right, state, shows, accepts => by
    have parts := accepts.tail.split (extends_expression left state) (extends_expression right _)
    have kept : Shows (expression left state).scopes nesting pending := by rwa [expression_scopes]
    exact ⟨resolved_expression table left shows parts.1,
      resolved_expression table right kept parts.2⟩
  | .logical _ _ left right, state, shows, accepts => by
    have parts := accepts.tail.split (extends_expression left state) (extends_expression right _)
    have kept : Shows (expression left state).scopes nesting pending := by rwa [expression_scopes]
    exact ⟨resolved_expression table left shows parts.1,
      resolved_expression table right kept parts.2⟩
  | .call _ callee arguments, state, shows, accepts => by
    have parts := accepts.tail.split (extends_expression callee state)
      (extends_expressions arguments _)
    have kept : Shows (expression callee state).scopes nesting pending := by
      rwa [expression_scopes]
    exact ⟨resolved_expression table callee shows parts.1,
      resolved_expressions table arguments kept parts.2⟩

theorem resolved_expressions (table : Distances) : ∀ (values : List Expr) {state : Scoping},
    Shows state.scopes nesting pending →
    Accepts table state (expressions values state) (Expr.idsAll values) →
    Expr.ResolvedAll table nesting pending values
  | [], _, _, _ => trivial
  | first :: rest, state, shows, accepts => by
    have parts := accepts.split (extends_expression first state) (extends_expressions rest _)
    have kept : Shows (expression first state).scopes nesting pending := by
      rwa [expression_scopes]
    exact ⟨resolved_expression table first shows parts.1,
      resolved_expressions table rest kept parts.2⟩

end

theorem resolved_optional (table : Distances) (value : Option Expr) {state : Scoping}
    (shows : Shows state.scopes nesting pending)
    (accepts : Accepts table state (optional value state) (Expr.idsOptional value)) :
    Expr.ResolvedOptional table nesting pending value := by
  intro expr member
  cases member
  exact resolved_expression table expr shows accepts

theorem resolved_var {table : Distances} {state : Scoping} {name : Ident} {initial : Option Expr}
    (shows : Shows state.scopes nesting none)
    (accepts : Accepts table state (statement (.var name initial) state)
      (Expr.idsOptional initial)) :
    (Stmt.var name initial).Resolved table nesting ∧
      Shows (statement (.var name initial) state).scopes (nesting.declare name.name) none := by
  have declared := extends_declare name state []
  have started := extends_optional initial (state.declare name)
  have defined := extends_define name (optional initial (state.declare name)) []
  have quiet : (statement (.var name initial) state).faults.size ≤ state.faults.size :=
    accepts.quiet
  have startedSize := started.size_le
  have definedSize := defined.size_le
  rw [statement] at quiet
  obtain ⟨admits, shown⟩ := shows_declare name shows (by omega)
  refine ⟨⟨admits, resolved_optional table initial shown (accepts.inner declared started defined)⟩,
    ?_⟩
  rw [statement]
  refine shows_define ?_
  rwa [optional_scopes]

/-- What is shown at the end of a list of statements is what its scope has gathered. -/
def ResolvesBody (table : Distances) (body : List Stmt) : Prop :=
  ∀ {nesting : Nesting} {state : Scoping}, Shows state.scopes nesting none →
    Accepts table state (statements body state) (Stmt.idsAll body) →
    Stmt.ResolvedAll table nesting body ∧
      Shows (statements body state).scopes (nesting.afterAll body) none

theorem resolved_block {table : Distances} {state : Scoping} {body : List Stmt}
    (inside : ResolvesBody table body) (shows : Shows state.scopes nesting none)
    (accepts : Accepts table state (statement (.block body) state) (Stmt.idsAll body)) :
    (Stmt.block body).Resolved table nesting ∧
      Shows (statement (.block body) state).scopes nesting none := by
  have within : Accepts table state.openScope (statements body state.openScope)
      (Stmt.idsAll body) := ⟨accepts.quiet, accepts.nodup, accepts.fresh, accepts.agree⟩
  obtain ⟨resolved, shown⟩ := inside (shows_openScope shows) within
  obtain ⟨names, gathered⟩ := Nesting.afterAll_cons [] nesting body
  rw [gathered] at shown
  exact ⟨resolved, shows_closeScope shown⟩

theorem resolved_function {table : Distances} {state : Scoping} {name : Ident}
    {names : List Ident} {body : List Stmt} (inside : ResolvesBody table body)
    (shows : Shows state.scopes nesting none)
    (accepts : Accepts table state (statement (.function name names body) state)
      (Stmt.idsAll body)) :
    (Stmt.function name names body).Resolved table nesting ∧
      Shows (statement (.function name names body) state).scopes (nesting.declare name.name)
        none := by
  let declared := (state.declare name).define name
  let opened := { declared with inFunction := true }.openScope
  let entered := parameters names opened
  have toDeclared : state.Extends declared [] :=
    (extends_declare name state []).trans (extends_define name _ [])
  have toEntered : opened.Extends entered [] := extends_parameters names opened []
  have toLast := extends_statements body entered
  have within : Accepts table entered (statements body entered) (Stmt.idsAll body) := by
    have start : state.Extends entered [] :=
      ⟨toDeclared.faults.trans toEntered.faults, fun id outside =>
        (toEntered.distances id outside).trans (toDeclared.distances id outside)⟩
    exact accepts.inner start toLast
      ⟨List.prefix_refl _, fun _ _ => rfl⟩
  -- Nothing is reported from the first step to the last, and no step takes a report back.
  have quiet : (statements body entered).faults.size ≤ state.faults.size := accepts.quiet
  have declareSize := (extends_declare name state []).size_le
  have defineSize : (state.declare name).faults.size ≤ opened.faults.size :=
    (extends_define name (state.declare name) []).size_le
  have enterSize := toEntered.size_le
  have lastSize := toLast.size_le
  obtain ⟨admits, shown⟩ := shows_declare name shows (by omega)
  obtain ⟨⟨nodup, _⟩, showsEntered⟩ := shows_parameters names
    (show Shows opened.scopes ([] :: nesting.declare name.name) none from
      shows_openScope (shows_define shown)) (by change entered.faults.size ≤ _; omega)
  rw [List.append_nil] at showsEntered
  obtain ⟨resolved, showsLast⟩ := inside showsEntered within
  obtain ⟨more, gathered⟩ := Nesting.afterAll_cons (names.map Ident.name).reverse
    (nesting.declare name.name) body
  rw [gathered] at showsLast
  exact ⟨⟨admits, nodup, resolved⟩, shows_closeScope showsLast⟩

theorem shown_branch {stmt : Stmt} {state : Scoping} (plain : stmt.isDeclaration = false)
    (shown : Shows (statement stmt state).scopes (nesting.after stmt) none) :
    Shows (statement stmt state).scopes nesting none := by
  rwa [Nesting.after_of_not_declaration nesting plain] at shown

mutual

theorem resolved_statement (table : Distances) : ∀ (stmt : Stmt) {nesting : Nesting}
    {state : Scoping}, stmt.Regular → Shows state.scopes nesting none →
    Accepts table state (statement stmt state) stmt.ids →
    stmt.Resolved table nesting ∧ Shows (statement stmt state).scopes (nesting.after stmt) none
  | .var _ _, _, _, _, shows, accepts => resolved_var shows accepts
  | .function _ _ body, _, _, regular, shows, accepts =>
    resolved_function (resolved_statements table body regular) shows accepts
  | .expression value, _, state, _, shows, accepts =>
    ⟨resolved_expression table value shows accepts, (expression_scopes value state).symm ▸ shows⟩
  | .print value, _, state, _, shows, accepts =>
    ⟨resolved_expression table value shows accepts, (expression_scopes value state).symm ▸ shows⟩
  | .block body, _, _, regular, shows, accepts =>
    resolved_block (resolved_statements table body regular) shows accepts
  -- What is recorded for the test is split from what is recorded for the branch. Tests leave the
  -- scopes alone.
  | .ifThen test yes, _, state, regular, shows, accepts => by
    have parts := accepts.split (extends_expression test state) (extends_statement yes _)
    have kept := (expression_scopes test state).symm ▸ shows
    obtain ⟨yesResolved, shown⟩ := resolved_statement table yes regular.2 kept parts.2
    have final := shown_branch regular.1 shown
    exact ⟨⟨resolved_expression table test shows parts.1, regular.1, yesResolved⟩, final⟩
  | .ifElse test yes no, _, state, regular, shows, accepts => by
    have branches := (extends_statement yes (expression test state)).append (extends_statement no _)
    have parts := accepts.split (extends_expression test state) branches
    have choices := parts.2.split (extends_statement yes _) (extends_statement no _)
    have kept := (expression_scopes test state).symm ▸ shows
    obtain ⟨yesResolved, yesShown⟩ := resolved_statement table yes regular.1.2 kept choices.1
    obtain ⟨noResolved, noShown⟩ := resolved_statement table no regular.2.2
      (shown_branch regular.1.1 yesShown) choices.2
    have final := shown_branch regular.2.1 noShown
    exact ⟨⟨resolved_expression table test shows parts.1, ⟨regular.1.1, yesResolved⟩, regular.2.1,
      noResolved⟩, final⟩
  | .loop test body, _, state, regular, shows, accepts => by
    have parts := accepts.split (extends_expression test state) (extends_statement body _)
    have kept := (expression_scopes test state).symm ▸ shows
    obtain ⟨bodyResolved, shown⟩ := resolved_statement table body regular.2 kept parts.2
    have final := shown_branch regular.1 shown
    exact ⟨⟨resolved_expression table test shows parts.1, regular.1, bodyResolved⟩, final⟩
  | .return line value, nesting, state, _, shows, accepts => by
    have checked := extends_checkReturn line state []
    have within := accepts.inner checked (extends_optional value _)
      (Extends.refl (statement (.return line value) state) [])
    have kept : Shows (state.checkReturn line).scopes nesting none := by
      unfold checkReturn
      split <;> exact shows
    refine ⟨resolved_optional table value kept within, ?_⟩
    rw [statement, optional_scopes]
    exact kept

theorem resolved_statements (table : Distances) : ∀ (body : List Stmt), Stmt.RegularAll body →
    ResolvesBody table body
  | [], _, _, _, shows, _ => ⟨trivial, shows⟩
  | first :: rest, regular, _, state, shows, accepts => by
    have parts := accepts.split (extends_statement first state) (extends_statements rest _)
    obtain ⟨firstResolved, shown⟩ := resolved_statement table first regular.1 shows parts.1
    obtain ⟨restResolved, shownRest⟩ := resolved_statements table rest regular.2 shown parts.2
    exact ⟨⟨firstResolved, restResolved⟩, shownRest⟩

end

end Scoping

theorem resolve_eq_ok {program : Program} {distances : Distances}
    (accepted : resolve program = .ok distances) :
    (Scoping.statements program .start).faults.size = 0 ∧
      (Scoping.statements program .start).distances = distances := by
  simp only [resolve] at accepted
  split at accepted
  · rename_i clean
    cases accepted
    exact ⟨by simpa using clean, rfl⟩
  · cases accepted

/-- An accepted program is resolved by the table that was computed for it, or by any other that
agrees with it on the nodes of the program. -/
theorem resolve_resolved {program : Program} {distances table : Distances}
    (accepted : resolve program = .ok distances) (regular : Stmt.RegularAll program)
    (nodup : (Stmt.idsAll program).Nodup)
    (agree : distances.AgreeOn (Stmt.idsAll program) table) :
    Stmt.ResolvedAll table [] program := by
  obtain ⟨clean, rfl⟩ := resolve_eq_ok accepted
  have accepts : Scoping.Accepts table .start (Scoping.statements program .start)
      (Stmt.idsAll program) :=
    ⟨Nat.le_of_eq clean, nodup, fun _ _ => Std.TreeMap.getElem?_emptyc, agree⟩
  have shows : Scoping.Shows Scoping.start.scopes [] none := rfl
  exact (Scoping.resolved_statements table program regular shows accepts).1

theorem resolve_getElem?_eq_none {program : Program} {distances : Distances}
    (accepted : resolve program = .ok distances) {id : Nat} (outside : id ∉ Stmt.idsAll program) :
    distances[id]? = none := by
  obtain ⟨_, rfl⟩ := resolve_eq_ok accepted
  rw [(Scoping.extends_statements program .start).distances id outside]
  exact Std.TreeMap.getElem?_emptyc

end LoxLang

import LoxLang.Proofs.Scoping.Acceptance
import LoxLang.Proofs.Evaluation.Returns

/-!
What resolving asks of a program, apart from any distances: no scope has a name twice, no variable is
read in its own initializer, and a declaration stands only where there is a list of statements. Such a
program is accepted if it also returns only in functions.
-/
namespace LoxLang

namespace Expr

mutual

/-- The pending variable is not read. -/
def Avoids (pending : Option String) : Expr → Prop
  | .literal _ _ => True
  | .variable _ name => pending ≠ some name
  | .assign _ _ value => value.Avoids pending
  | .group _ inner => inner.Avoids pending
  | .unary _ _ operand => operand.Avoids pending
  | .binary _ _ left right => left.Avoids pending ∧ right.Avoids pending
  | .logical _ _ left right => left.Avoids pending ∧ right.Avoids pending
  | .call _ callee arguments => callee.Avoids pending ∧ AvoidsAll pending arguments

def AvoidsAll (pending : Option String) : List Expr → Prop
  | [] => True
  | first :: rest => first.Avoids pending ∧ AvoidsAll pending rest

end

end Expr

namespace Stmt

mutual

/-- Resolved as far as that can be told without distances. -/
def Admitted (nesting : Nesting) : Stmt → Prop
  | .var name initial =>
    nesting.Admits name.name ∧ ∀ value ∈ initial, value.Avoids (nesting.pending name.name)
  | .function name parameters body =>
    nesting.Admits name.name ∧ (parameters.map Ident.name).Nodup ∧
      AdmittedAll ((parameters.map Ident.name).reverse :: nesting.declare name.name) body
  | .block body => AdmittedAll ([] :: nesting) body
  | .ifThen _ yes => yes.isDeclaration = false ∧ yes.Admitted nesting
  | .ifElse _ yes no =>
    (yes.isDeclaration = false ∧ yes.Admitted nesting) ∧
      no.isDeclaration = false ∧ no.Admitted nesting
  | .loop _ body => body.isDeclaration = false ∧ body.Admitted nesting
  | .expression _ | .print _ | .return _ _ => True

def AdmittedAll (nesting : Nesting) : List Stmt → Prop
  | [] => True
  | first :: rest => first.Admitted nesting ∧ AdmittedAll (nesting.after first) rest

end

theorem admittedAll_append {nesting : Nesting} (first last : List Stmt) :
    AdmittedAll nesting (first ++ last) ↔
      AdmittedAll nesting first ∧ AdmittedAll (nesting.afterAll first) last := by
  induction first generalizing nesting with
  | nil => simp [AdmittedAll, Nesting.afterAll]
  | cons stmt rest ih =>
    simp only [List.cons_append, AdmittedAll, ih, and_assoc, Nesting.afterAll, List.foldl_cons]

end Stmt

mutual

theorem Stmt.Admitted.regular : ∀ {stmt : Stmt} {nesting : Nesting}, stmt.Admitted nesting →
    stmt.Regular
  | .var _ _, _, _ | .expression _, _, _ | .print _, _, _ | .return _ _, _, _ => trivial
  | .function _ _ _, _, admitted => admitted.2.2.regularAll
  | .block body, nesting, admitted =>
    (show Stmt.AdmittedAll ([] :: nesting) body from admitted).regularAll
  | .ifThen _ _, _, admitted | .loop _ _, _, admitted => ⟨admitted.1, admitted.2.regular⟩
  | .ifElse _ _ _, _, admitted =>
    ⟨⟨admitted.1.1, admitted.1.2.regular⟩, admitted.2.1, admitted.2.2.regular⟩

theorem Stmt.AdmittedAll.regularAll : ∀ {body : List Stmt} {nesting : Nesting},
    Stmt.AdmittedAll nesting body → Stmt.RegularAll body
  | [], _, _ => trivial
  | _ :: _, _, admitted => ⟨admitted.1.regular, admitted.2.regularAll⟩

end

section Resolved

variable {table : Distances} {nesting : Nesting} {pending : Option String}

mutual

theorem Expr.Resolved.avoids : ∀ {expr : Expr}, expr.Resolved table nesting pending →
    expr.Avoids pending
  | .literal _ _, _ => trivial
  | .variable _ _, resolved => resolved.1
  | .assign _ _ _, resolved => resolved.1.avoids
  | .group _ inner, resolved =>
    (show inner.Resolved table nesting pending from resolved).avoids
  | .unary _ _ operand, resolved =>
    (show operand.Resolved table nesting pending from resolved).avoids
  | .binary _ _ _ _, resolved => ⟨resolved.1.avoids, resolved.2.avoids⟩
  | .logical _ _ _ _, resolved => ⟨resolved.1.avoids, resolved.2.avoids⟩
  | .call _ _ _, resolved => ⟨resolved.1.avoids, resolved.2.avoidsAll⟩

theorem Expr.ResolvedAll.avoidsAll : ∀ {values : List Expr},
    Expr.ResolvedAll table nesting pending values → Expr.AvoidsAll pending values
  | [], _ => trivial
  | _ :: _, resolved => ⟨resolved.1.avoids, resolved.2.avoidsAll⟩

end

mutual

theorem Stmt.Resolved.admitted : ∀ {stmt : Stmt} {nesting : Nesting},
    stmt.Resolved table nesting → stmt.Admitted nesting
  | .var _ _, _, resolved => ⟨resolved.1, fun value member => (resolved.2 value member).avoids⟩
  | .function _ _ _, _, resolved => ⟨resolved.1, resolved.2.1, resolved.2.2.admittedAll⟩
  | .expression _, _, _ | .print _, _, _ | .return _ _, _, _ => trivial
  | .block body, nesting, resolved =>
    (show Stmt.ResolvedAll table ([] :: nesting) body from resolved).admittedAll
  | .ifThen _ _, _, resolved => ⟨resolved.2.1, resolved.2.2.admitted⟩
  | .ifElse _ _ _, _, resolved =>
    ⟨⟨resolved.2.1.1, resolved.2.1.2.admitted⟩, resolved.2.2.1, resolved.2.2.2.admitted⟩
  | .loop _ _, _, resolved => ⟨resolved.2.1, resolved.2.2.admitted⟩

theorem Stmt.ResolvedAll.admittedAll : ∀ {body : List Stmt} {nesting : Nesting},
    Stmt.ResolvedAll table nesting body → Stmt.AdmittedAll nesting body
  | [], _, _ => trivial
  | _ :: _, _, resolved => ⟨resolved.1.admitted, resolved.2.admittedAll⟩

end

end Resolved
section Heads

theorem Nesting.admits_of_head {nesting other : Nesting} (same : other.head? = nesting.head?)
    {name : String} (admits : nesting.Admits name) : other.Admits name := by
  rw [Nesting.Admits, same]
  exact admits

theorem Nesting.after_head {nesting other : Nesting} (same : other.head? = nesting.head?)
    (stmt : Stmt) : (other.after stmt).head? = (nesting.after stmt).head? := by
  cases nesting with
  | nil =>
    cases other with
    | nil => rfl
    | cons _ _ => cases same
  | cons names outer =>
    cases other with
    | nil => cases same
    | cons others further =>
      obtain rfl : others = names := Option.some.inj same
      cases stmt <;> rfl

theorem Nesting.pending_of_head {nesting other : Nesting} (same : other.head? = nesting.head?)
    (name : String) : other.pending name = nesting.pending name := by
  cases nesting <;> cases other <;> first | rfl | cases same

mutual

theorem Stmt.Admitted.elsewhere : ∀ {stmt : Stmt} {nesting other : Nesting},
    stmt.Admitted nesting → (stmt.isDeclaration = true → other.head? = nesting.head?) →
    stmt.Admitted other
  | .var name _, _, _, admitted, same =>
    ⟨Nesting.admits_of_head (same rfl) admitted.1, fun value member =>
      (Nesting.pending_of_head (same rfl) name.name).symm ▸ admitted.2 value member⟩
  | .function _ _ _, _, _, admitted, same =>
    ⟨Nesting.admits_of_head (same rfl) admitted.1, admitted.2.1, admitted.2.2.elsewhere rfl⟩
  | .expression _, _, _, _, _ | .print _, _, _, _, _ | .return _ _, _, _, _, _ => trivial
  | .block body, nesting, _, admitted, _ =>
    (show Stmt.AdmittedAll ([] :: nesting) body from admitted).elsewhere rfl
  | .ifThen _ _, _, _, admitted, _ =>
    ⟨admitted.1, admitted.2.elsewhere fun declares => nomatch admitted.1.symm.trans declares⟩
  | .ifElse _ _ _, _, _, admitted, _ =>
    ⟨⟨admitted.1.1, admitted.1.2.elsewhere fun declares => nomatch admitted.1.1.symm.trans declares⟩,
      admitted.2.1, admitted.2.2.elsewhere fun declares => nomatch admitted.2.1.symm.trans declares⟩
  | .loop _ _, _, _, admitted, _ =>
    ⟨admitted.1, admitted.2.elsewhere fun declares => nomatch admitted.1.symm.trans declares⟩

theorem Stmt.AdmittedAll.elsewhere : ∀ {body : List Stmt} {nesting other : Nesting},
    Stmt.AdmittedAll nesting body → other.head? = nesting.head? → Stmt.AdmittedAll other body
  | [], _, _, _, _ => trivial
  | first :: _, _, _, admitted, same =>
    ⟨admitted.1.elsewhere fun _ => same, admitted.2.elsewhere (Nesting.after_head same first)⟩

end

end Heads
namespace Scoping

variable {nesting : Nesting} {pending : Option String}

theorem quiet_read {state : Scoping} {site : Site} {name : String}
    (shows : Shows state.scopes nesting pending) (avoids : pending ≠ some name) :
    (state.read site name).faults = state.faults := by
  have ready : ¬ state.inOwnInitializer name = true := fun own =>
    avoids ((shows.inOwnInitializer name).mp own)
  simp [read, ready]

mutual

theorem quiet_expression : ∀ (expr : Expr) {state : Scoping},
    Shows state.scopes nesting pending → expr.Avoids pending →
    (expression expr state).faults = state.faults
  | .literal _ _, _, _, _ => rfl
  | .variable _ _, _, shows, avoids => quiet_read shows avoids
  | .assign _ _ value, state, shows, avoids => by
    rw [expression, refer_faults, quiet_expression value shows avoids]
  | .group _ inner, _, shows, avoids => quiet_expression inner shows avoids
  | .unary _ _ operand, _, shows, avoids => quiet_expression operand shows avoids
  | .binary _ _ left right, state, shows, avoids => by
    have kept : Shows (expression left state).scopes nesting pending := by rwa [expression_scopes]
    rw [expression, quiet_expression right kept avoids.2, quiet_expression left shows avoids.1]
  | .logical _ _ left right, state, shows, avoids => by
    have kept : Shows (expression left state).scopes nesting pending := by rwa [expression_scopes]
    rw [expression, quiet_expression right kept avoids.2, quiet_expression left shows avoids.1]
  | .call _ callee arguments, state, shows, avoids => by
    have kept : Shows (expression callee state).scopes nesting pending := by rwa [expression_scopes]
    rw [expression, quiet_expressions arguments kept avoids.2, quiet_expression callee shows avoids.1]

theorem quiet_expressions : ∀ (values : List Expr) {state : Scoping},
    Shows state.scopes nesting pending → Expr.AvoidsAll pending values →
    (expressions values state).faults = state.faults
  | [], _, _, _ => rfl
  | first :: rest, state, shows, avoids => by
    have kept : Shows (expression first state).scopes nesting pending := by rwa [expression_scopes]
    rw [expressions, quiet_expressions rest kept avoids.2, quiet_expression first shows avoids.1]

end

theorem quiet_optional {value : Option Expr} {state : Scoping}
    (shows : Shows state.scopes nesting pending)
    (avoids : ∀ expr ∈ value, expr.Avoids pending) :
    (optional value state).faults = state.faults := by
  cases value with
  | none => rfl
  | some value => exact quiet_expression value shows (avoids value rfl)

mutual

theorem avoids_none : ∀ expr : Expr, expr.Avoids none
  | .literal _ _ => trivial
  | .variable _ _ => nofun
  | .assign _ _ value => avoids_none value
  | .group _ inner => avoids_none inner
  | .unary _ _ operand => avoids_none operand
  | .binary _ _ left right | .logical _ _ left right => ⟨avoids_none left, avoids_none right⟩
  | .call _ callee arguments => ⟨avoids_none callee, avoidsAll_none arguments⟩

theorem avoidsAll_none : ∀ values : List Expr, Expr.AvoidsAll none values
  | [] => trivial
  | first :: rest => ⟨avoids_none first, avoidsAll_none rest⟩

end

theorem quiet_declare {state : Scoping} (name : Ident) (shows : Shows state.scopes nesting none)
    (admits : nesting.Admits name.name) : (state.declare name).faults = state.faults := by
  unfold declare
  cases found : state.scopes with
  | nil => rfl
  | cons scope scopes =>
    rw [found] at shows
    cases nesting with
    | nil => exact shows.elim
    | cons names outer =>
      have new : ¬ scope.contains name.name = true := by
        rw [shows.1.has]
        simpa using admits names rfl
      simp only [new, Bool.false_eq_true, ↓reduceIte]

theorem quiet_parameters (names : List Ident) {earlier : List String} {state : Scoping}
    (shows : Shows state.scopes (earlier :: nesting) none) (nodup : (names.map Ident.name).Nodup)
    (apart : ∀ name ∈ names.map Ident.name, name ∉ earlier) :
    (parameters names state).faults = state.faults := by
  induction names generalizing state earlier with
  | nil => rfl
  | cons name rest ih =>
    obtain ⟨new, others⟩ := List.nodup_cons.mp nodup
    have admits : Nesting.Admits (earlier :: nesting) name.name := by
      rintro _ ⟨⟩
      exact apart name.name List.mem_cons_self
    have declared := quiet_declare name shows admits
    obtain ⟨_, shown⟩ := shows_declare name shows (Nat.le_of_eq (congrArg Array.size declared))
    change (parameters rest ((state.declare name).define name)).faults = _
    rw [ih (shows_define shown) others, define_faults, declared]
    rintro sought member (_ | ⟨_, old⟩)
    · exact new member
    · exact apart sought (List.mem_cons_of_mem _ member) old

/-- An admitted list adds no faults, and its scope has gathered what it declares. -/
def AdmitsBody (body : List Stmt) : Prop :=
  ∀ {nesting : Nesting} {state : Scoping}, Shows state.scopes nesting none →
    (state.inFunction = false → Stmt.StaysAll body) → Stmt.AdmittedAll nesting body →
    (statements body state).faults = state.faults ∧
      Shows (statements body state).scopes (nesting.afterAll body) none

theorem quiet_block {state : Scoping} {body : List Stmt} (inside : AdmitsBody body)
    (shows : Shows state.scopes nesting none)
    (stays : state.inFunction = false → Stmt.StaysAll body)
    (admitted : Stmt.AdmittedAll ([] :: nesting) body) :
    (statement (.block body) state).faults = state.faults ∧
      Shows (statement (.block body) state).scopes nesting none := by
  -- the scope of the block is closed behind it, whatever names it has gathered by then
  obtain ⟨quiet, shown⟩ := inside (shows_openScope shows) stays admitted
  obtain ⟨names, gathered⟩ := Nesting.afterAll_cons [] nesting body
  rw [gathered] at shown
  exact ⟨quiet, shows_closeScope shown⟩

theorem quiet_var {state : Scoping} {name : Ident} {initial : Option Expr}
    (shows : Shows state.scopes nesting none)
    (admitted : (Stmt.var name initial).Admitted nesting) :
    (statement (.var name initial) state).faults = state.faults ∧
      Shows (statement (.var name initial) state).scopes (nesting.declare name.name) none := by
  have declared := quiet_declare name shows admitted.1
  obtain ⟨_, shown⟩ := shows_declare name shows (Nat.le_of_eq (congrArg Array.size declared))
  constructor
  · rw [statement, define_faults, quiet_optional shown admitted.2, declared]
  · refine shows_define ?_
    rwa [optional_scopes]

theorem quiet_function {state : Scoping} {name : Ident} {names : List Ident} {body : List Stmt}
    (inside : AdmitsBody body) (shows : Shows state.scopes nesting none)
    (admitted : (Stmt.function name names body).Admitted nesting) :
    (statement (.function name names body) state).faults = state.faults ∧
      Shows (statement (.function name names body) state).scopes (nesting.declare name.name)
        none := by
  have declared := quiet_declare name shows admitted.1
  obtain ⟨_, shown⟩ := shows_declare name shows (Nat.le_of_eq (congrArg Array.size declared))
  let opened := ({ (state.declare name).define name with inFunction := true } : Scoping).openScope
  have showsOpened : Shows opened.scopes ([] :: nesting.declare name.name) none :=
    shows_openScope (shows_define shown)
  have entered : (parameters names opened).faults = state.faults := by
    rw [quiet_parameters names showsOpened admitted.2.1 fun _ _ => List.not_mem_nil]
    exact (define_faults name _).trans declared
  obtain ⟨_, showsEntered⟩ := shows_parameters names showsOpened (Nat.le_of_eq (congrArg Array.size
    (quiet_parameters names showsOpened admitted.2.1 fun _ _ => List.not_mem_nil)))
  rw [List.append_nil] at showsEntered
  have returns : (parameters names opened).inFunction = true := (keeps_parameters names opened).inFunction
  obtain ⟨quiet, showsLast⟩ := inside showsEntered (fun outside => nomatch returns.symm.trans outside)
    admitted.2.2
  obtain ⟨more, gathered⟩ := Nesting.afterAll_cons (names.map Ident.name).reverse
    (nesting.declare name.name) body
  rw [gathered] at showsLast
  exact ⟨quiet.trans entered, shows_closeScope showsLast⟩

mutual

theorem quiet_statement : ∀ (stmt : Stmt) {nesting : Nesting} {state : Scoping},
    Shows state.scopes nesting none → (state.inFunction = false → stmt.Stays) →
    stmt.Admitted nesting →
    (statement stmt state).faults = state.faults ∧
      Shows (statement stmt state).scopes (nesting.after stmt) none
  | .var _ _, _, _, shows, _, admitted => quiet_var shows admitted
  | .function _ _ body, _, _, shows, _, admitted =>
    quiet_function (quiet_statements body) shows admitted
  | .expression value, _, state, shows, _, _ | .print value, _, state, shows, _, _ =>
    ⟨quiet_expression value shows (avoids_none value), (expression_scopes value state).symm ▸ shows⟩
  | .block body, _, _, shows, stays, admitted =>
    quiet_block (quiet_statements body) shows stays admitted
  | .ifThen test yes, _, state, shows, stays, admitted => by
    have kept := (expression_scopes test state).symm ▸ shows
    have tested := quiet_expression test shows (avoids_none test)
    obtain ⟨quiet, shown⟩ := quiet_statement yes kept
      (fun outside => stays ((expression_inFunction test state).symm.trans outside)) admitted.2
    have final := shown_branch admitted.1 shown
    exact ⟨quiet.trans tested, final⟩
  | .ifElse test yes no, _, state, shows, stays, admitted => by
    have kept := (expression_scopes test state).symm ▸ shows
    have tested := quiet_expression test shows (avoids_none test)
    have before := (expression_inFunction test state).symm
    have between := (keeps_statement yes (expression test state)).inFunction.symm
    obtain ⟨quiet, shown⟩ := quiet_statement yes kept
      (fun outside => (stays (before.trans outside)).1) admitted.1.2
    obtain ⟨further, shownNo⟩ := quiet_statement no (shown_branch admitted.1.1 shown)
      (fun outside => (stays (before.trans (between.trans outside))).2) admitted.2.2
    have final := shown_branch admitted.2.1 shownNo
    exact ⟨further.trans (quiet.trans tested), final⟩
  | .loop test body, _, state, shows, stays, admitted => by
    have kept := (expression_scopes test state).symm ▸ shows
    have tested := quiet_expression test shows (avoids_none test)
    obtain ⟨quiet, shown⟩ := quiet_statement body kept
      (fun outside => stays ((expression_inFunction test state).symm.trans outside)) admitted.2
    have final := shown_branch admitted.1 shown
    exact ⟨quiet.trans tested, final⟩
  | .return line value, _, state, shows, stays, _ => by
    -- Outside of functions nothing returns by assumption.
    have inside : state.inFunction = true := by
      cases outside : state.inFunction with
      | false => exact (stays outside).elim
      | true => rfl
    have checked : state.checkReturn line = state := by simp [checkReturn, inside]
    rw [statement, checked, optional_scopes]
    exact ⟨quiet_optional shows fun expr _ => avoids_none expr, shows⟩

theorem quiet_statements : ∀ (body : List Stmt), AdmitsBody body
  | [], _, _, shows, _, _ => ⟨rfl, shows⟩
  | first :: rest, _, state, shows, stays, admitted => by
    have kept := (keeps_statement first state).inFunction.symm
    obtain ⟨quiet, shown⟩ := quiet_statement first shows (fun outside => (stays outside).1) admitted.1
    obtain ⟨further, shownRest⟩ := quiet_statements rest shown
      (fun outside => (stays (kept.trans outside)).2) admitted.2
    exact ⟨further.trans quiet, shownRest⟩

end

end Scoping

/-- An admitted program that returns only in functions is accepted. -/
theorem resolve_of_admitted {program : Program} (admitted : Stmt.AdmittedAll [] program)
    (stays : Stmt.StaysAll program) : ∃ distances, resolve program = .ok distances := by
  have shows : Scoping.Shows Scoping.start.scopes [] none := rfl
  have quiet := (Scoping.quiet_statements program shows (fun _ => stays) admitted).1
  refine ⟨_, if_pos ?_⟩
  rw [quiet]
  rfl

end LoxLang

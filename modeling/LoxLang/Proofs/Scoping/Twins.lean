import LoxLang.Proofs.Syntax.Twins
import LoxLang.Proofs.Scoping.Discipline

/-!
Resolving twins, and resolving one list of statements after another. Neither the numbers of nodes nor
the lines they stand on make a difference to what is accepted; and at the outermost level no scope is
left behind, so that whatever comes later is looked at as if it stood alone.
-/
namespace LoxLang
namespace Scoping

structure Level (state other : Scoping) : Prop where
  scopes : other.scopes = state.scopes
  inFunction : other.inFunction = state.inFunction
  faults : other.faults.size = state.faults.size

section Twins

variable {state other : Scoping} {pairing : Pairing}

namespace Level

theorem report (level : state.Level other) (line otherLine : Nat) (lexeme : String)
    (cause : StaticCause) :
    (state.report line lexeme cause).Level (other.report otherLine lexeme cause) := by
  refine ⟨level.scopes, level.inFunction, ?_⟩
  simp only [Scoping.report, Array.size_push, level.faults]

theorem declare (level : state.Level other) (name : String) (line otherLine : Nat) :
    (state.declare ⟨name, line⟩).Level (other.declare ⟨name, otherLine⟩) := by
  unfold Scoping.declare
  rw [level.scopes]
  cases state.scopes with
  | nil => exact level
  | cons scope outer =>
    by_cases known : scope.contains name = true
    · simp only [known, ↓reduceIte]
      exact level.report _ _ _ _
    · simp only [known, Bool.false_eq_true, ↓reduceIte]
      exact ⟨rfl, level.inFunction, level.faults⟩

theorem define (level : state.Level other) (name : String) (line otherLine : Nat) :
    (state.define ⟨name, line⟩).Level (other.define ⟨name, otherLine⟩) := by
  unfold Scoping.define
  rw [level.scopes]
  cases state.scopes with
  | nil => exact level
  | cons scope outer => exact ⟨rfl, level.inFunction, level.faults⟩

theorem refer (level : state.Level other) (id otherId : Nat) (name : String) :
    (state.refer id name).Level (other.refer otherId name) := by
  have same : other.distance? name = state.distance? name := by
    rw [distance?, level.scopes, distance?]
  unfold Scoping.refer
  rw [same]
  cases state.distance? name with
  | none => exact level
  | some distance => exact ⟨level.scopes, level.inFunction, level.faults⟩

theorem read (level : state.Level other) (site twin : Site) (name : String) :
    (state.read site name).Level (other.read twin name) := by
  have same : other.inOwnInitializer name = state.inOwnInitializer name := by
    rw [inOwnInitializer, level.scopes, inOwnInitializer]
  unfold Scoping.read
  rw [same]
  by_cases pending : state.inOwnInitializer name = true
  · simp only [pending, ↓reduceIte]
    exact (level.report _ _ _ _).refer _ _ _
  · simp only [pending, Bool.false_eq_true, ↓reduceIte]
    exact level.refer _ _ _

theorem openScope (level : state.Level other) : state.openScope.Level other.openScope :=
  ⟨congrArg (∅ :: ·) level.scopes, level.inFunction, level.faults⟩

theorem closeScope (level : state.Level other) : state.closeScope.Level other.closeScope :=
  ⟨congrArg List.tail level.scopes, level.inFunction, level.faults⟩

theorem parameters (level : state.Level other) {names others : List Ident}
    (same : names.map Ident.name = others.map Ident.name) :
    (Scoping.parameters names state).Level (Scoping.parameters others other) := by
  induction names generalizing others state other with
  | nil =>
    cases List.map_eq_nil_iff.mp same.symm
    exact level
  | cons first rest ih =>
    obtain ⟨name, line⟩ := first
    obtain ⟨⟨twin, otherLine⟩, tail, rfl, rfl, later⟩ := List.map_eq_cons_iff.mp same.symm
    exact ih ((level.declare twin line otherLine).define twin line otherLine) later.symm

theorem enterFunction (level : state.Level other) {names others : List Ident}
    (same : names.map Ident.name = others.map Ident.name) :
    (state.enterFunction names).Level (other.enterFunction others) :=
  have opened : Level { state with inFunction := true }.openScope
      { other with inFunction := true }.openScope :=
    ⟨congrArg (∅ :: ·) level.scopes, rfl, level.faults⟩
  opened.parameters same

theorem checkReturn (level : state.Level other) (line otherLine : Nat) :
    (state.checkReturn line).Level (other.checkReturn otherLine) := by
  unfold Scoping.checkReturn
  rw [level.inFunction]
  by_cases inside : state.inFunction = true
  · simp only [inside, ↓reduceIte]
    exact level
  · simp only [inside, Bool.false_eq_true, ↓reduceIte]
    exact level.report _ _ _ _

end Level

mutual

theorem level_expression : ∀ {expr twin : Expr} {state other : Scoping}, expr.Twin pairing twin →
    state.Level other → (expression expr state).Level (expression twin other)
  | .literal _ _, _, _, _, .literal _, level => level
  | .variable _ _, _, _, _, .variable _, level => level.read _ _ _
  | .assign _ _ _, _, _, _, .assign _ value, level => (level_expression value level).refer _ _ _
  | .group _ _, _, _, _, .group _ inner, level => (level_expression inner level :)
  | .unary _ _ _, _, _, _, .unary _ operand, level => (level_expression operand level :)
  | .binary _ _ _ _, _, _, _, .binary _ left right, level =>
    (level_expression right (level_expression left level) :)
  | .logical _ _ _ _, _, _, _, .logical _ left right, level =>
    (level_expression right (level_expression left level) :)
  | .call _ _ _, _, _, _, .call _ callee arguments, level =>
    (level_expressions arguments (level_expression callee level) :)

theorem level_expressions : ∀ {values twins : List Expr} {state other : Scoping},
    List.Forall₂ (Expr.Twin pairing) values twins → state.Level other →
    (expressions values state).Level (expressions twins other)
  | [], _, _, _, .nil, level => level
  | _ :: _, _, _, _, .cons first rest, level =>
    (level_expressions rest (level_expression first level) :)

end

theorem level_optional {value twin : Option Expr} (alike : Option.Rel (Expr.Twin pairing) value twin)
    (level : state.Level other) : (optional value state).Level (optional twin other) := by
  cases alike with
  | none => exact level
  | some alike => exact level_expression alike level

mutual

theorem level_statement : ∀ {stmt twin : Stmt} {state other : Scoping}, stmt.Twin pairing twin →
    state.Level other → (statement stmt state).Level (statement twin other)
  | .var _ _, _, _, _, .var initial, level =>
    (level_optional initial (level.declare _ _ _)).define _ _ _
  | .function _ _ _, _, _, _, .function names body, level =>
    have declared := (level.declare _ _ _).define _ _ _
    have left := (level_statements body (declared.enterFunction names)).closeScope
    ⟨left.scopes, level.inFunction, left.faults⟩
  | .expression _, _, _, _, .expression value, level => level_expression value level
  | .print _, _, _, _, .print value, level => level_expression value level
  | .block _, _, _, _, .block body, level => (level_statements body level.openScope).closeScope
  | .ifThen _ _, _, _, _, .ifThen test yes, level =>
    (level_statement yes (level_expression test level) :)
  | .ifElse _ _ _, _, _, _, .ifElse test yes no, level =>
    (level_statement no (level_statement yes (level_expression test level)) :)
  | .loop _ _, _, _, _, .loop test body, level =>
    (level_statement body (level_expression test level) :)
  | .return _ _, _, _, _, .return value, level => level_optional value (level.checkReturn _ _)

theorem level_statements : ∀ {body twins : List Stmt} {state other : Scoping},
    List.Forall₂ (Stmt.Twin pairing) body twins → state.Level other →
    (statements body state).Level (statements twins other)
  | [], _, _, _, .nil, level => level
  | _ :: _, _, _, _, .cons first rest, level =>
    (level_statements rest (level_statement first level) :)

end

end Twins

section Stack

/-- The scopes below the innermost one are the same, and nothing is left open or closed. -/
structure Keeps (before after : Scoping) : Prop where
  depth : after.scopes.length = before.scopes.length
  below : after.scopes.tail = before.scopes.tail
  inFunction : after.inFunction = before.inFunction

namespace Keeps

theorem refl (state : Scoping) : state.Keeps state := ⟨rfl, rfl, rfl⟩

theorem trans {first middle last : Scoping} (ahead : first.Keeps middle)
    (further : middle.Keeps last) : first.Keeps last :=
  ⟨further.depth.trans ahead.depth, further.below.trans ahead.below,
    further.inFunction.trans ahead.inFunction⟩

theorem closed (before : Scoping) {opened inside : Scoping} {scope : Scope}
    (opens : opened.scopes = scope :: before.scopes) (within : opened.Keeps inside) :
    inside.closeScope.scopes = before.scopes := by
  rw [closeScope, within.below, opens, List.tail_cons]

end Keeps

theorem keeps_declare (name : Ident) (state : Scoping) : state.Keeps (state.declare name) := by
  unfold declare
  cases found : state.scopes with
  | nil => exact .refl state
  | cons scope outer =>
    by_cases known : scope.contains name.name = true
    · simp only [known, ↓reduceIte]
      exact ⟨rfl, rfl, rfl⟩
    · simp only [known, Bool.false_eq_true, ↓reduceIte]
      exact ⟨by rw [found]; rfl, by rw [found]; rfl, rfl⟩

theorem keeps_define (name : Ident) (state : Scoping) : state.Keeps (state.define name) := by
  unfold define
  cases found : state.scopes with
  | nil => exact .refl state
  | cons scope outer => exact ⟨by rw [found]; rfl, by rw [found]; rfl, rfl⟩

@[simp] theorem refer_inFunction (id : Nat) (name : String) (state : Scoping) :
    (state.refer id name).inFunction = state.inFunction := by
  unfold refer
  split <;> rfl

@[simp] theorem read_inFunction (site : Site) (name : String) (state : Scoping) :
    (state.read site name).inFunction = state.inFunction := by
  unfold read
  split <;> simp [report]

theorem keeps_checkReturn (line : Nat) (state : Scoping) : state.Keeps (state.checkReturn line) := by
  unfold checkReturn
  split
  · exact .refl state
  · exact ⟨rfl, rfl, rfl⟩

theorem Keeps.uniform : Uniform fun step => ∀ state : Scoping, state.Keeps (step state) where
  nothing := .refl
  followed first next state := (first state).trans (next _)
  refer id name state := ⟨by simp, by simp, by simp⟩
  read site name state := ⟨by simp, by simp, by simp⟩
  declare := keeps_declare
  define := keeps_define
  checkReturn := keeps_checkReturn
  enclosed body state := by
    have inside := body state.openScope
    have closed := inside.closed state rfl
    exact ⟨congrArg List.length closed, congrArg List.tail closed, inside.inFunction⟩
  called body state := by
    have closed := (body { state with inFunction := true }.openScope).closed state rfl
    exact ⟨congrArg List.length closed, congrArg List.tail closed, rfl⟩

theorem keeps_expression (expr : Expr) (state : Scoping) : state.Keeps (expression expr state) :=
  Keeps.uniform.expression expr state

theorem expression_inFunction (expr : Expr) (state : Scoping) :
    (expression expr state).inFunction = state.inFunction :=
  (keeps_expression expr state).inFunction

theorem keeps_parameters (names : List Ident) (state : Scoping) :
    state.Keeps (parameters names state) :=
  Keeps.uniform.parameters names state

theorem keeps_statement (stmt : Stmt) (state : Scoping) : state.Keeps (statement stmt state) :=
  Keeps.uniform.statement stmt state

theorem keeps_statements (body : List Stmt) (state : Scoping) : state.Keeps (statements body state) :=
  Keeps.uniform.statements body state

theorem statements_append (first last : List Stmt) (state : Scoping) :
    statements (first ++ last) state = statements last (statements first state) := by
  induction first generalizing state with
  | nil => rfl
  | cons stmt rest ih => exact ih (statement stmt state)

end Stack
end Scoping

section Programs

variable {pairing : Pairing} {program other : Program}

theorem resolve_isOk {program : Program} :
    (∃ distances, resolve program = .ok distances) ↔
      (Scoping.statements program .start).faults.size = 0 := by
  constructor
  · rintro ⟨distances, accepted⟩
    simp only [resolve] at accepted
    split at accepted
    · rename_i clean
      simpa using clean
    · cases accepted
  · intro clean
    refine ⟨_, if_pos ?_⟩
    simpa using clean

theorem resolve_eq_error {program : Program} {faults : List StaticFault} :
    resolve program = .error faults ↔
      (Scoping.statements program .start).faults.toList = faults ∧ faults ≠ [] := by
  by_cases clean : (Scoping.statements program .start).faults.isEmpty = true
  · have nothing : (Scoping.statements program .start).faults.toList = [] := by simpa using clean
    simp only [resolve, clean, ↓reduceIte, nothing]
    constructor
    · nofun
    · rintro ⟨rfl, some⟩
      exact absurd rfl some
  · have something : (Scoping.statements program .start).faults.toList ≠ [] := by simpa using clean
    simp only [resolve, clean, Bool.false_eq_true, ↓reduceIte, Except.error.injEq]
    constructor
    · rintro rfl
      exact ⟨rfl, something⟩
    · rintro ⟨rfl, _⟩
      rfl

/-- Twins are accepted or rejected together. -/
theorem resolve_twin (twins : List.Forall₂ (Stmt.Twin pairing) program other)
    (accepted : ∃ distances, resolve program = .ok distances) :
    ∃ distances, resolve other = .ok distances := by
  rw [resolve_isOk] at accepted ⊢
  -- both start from nothing, and then report equally often
  have level := Scoping.level_statements twins (.mk rfl rfl rfl : Scoping.start.Level .start)
  exact level.faults.trans accepted

/-- Two programs that are accepted one by one are accepted one after the other, and so are twins of
them. -/
theorem resolve_append {firstPairing lastPairing : Pairing} {first firstTwin last lastTwin : Program}
    (firstTwins : List.Forall₂ (Stmt.Twin firstPairing) first firstTwin)
    (lastTwins : List.Forall₂ (Stmt.Twin lastPairing) last lastTwin)
    (firstAccepted : ∃ distances, resolve first = .ok distances)
    (lastAccepted : ∃ distances, resolve last = .ok distances) :
    ∃ distances, resolve (firstTwin ++ lastTwin) = .ok distances := by
  have clean := resolve_isOk.mp (resolve_twin firstTwins firstAccepted)
  rw [resolve_isOk] at lastAccepted ⊢
  have kept := Scoping.keeps_statements firstTwin .start
  have outermost : (Scoping.statements firstTwin .start).scopes = [] :=
    List.eq_nil_of_length_eq_zero kept.depth
  -- behind the first program everything is as at the start
  have level : Scoping.start.Level (Scoping.statements firstTwin .start) :=
    ⟨outermost, kept.inFunction, clean⟩
  rw [Scoping.statements_append]
  exact (Scoping.level_statements lastTwins level).faults.trans lastAccepted

end Programs
end LoxLang

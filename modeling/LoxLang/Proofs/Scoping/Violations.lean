import LoxLang.Proofs.Scoping.Binding
import LoxLang.Proofs.Scoping.Twins

/-!
What resolving reports. Each declaration, each reading and each return is looked at once, and what is
wrong with it depends on the text around it alone, whatever has been reported before.
-/
namespace LoxLang

/-- Inside the initializer of a variable its own name, unless the scope has it from before. -/
def Enclosure.unready? (scope : Enclosure) : Option String :=
  match scope.here with
  | some (.var declared _) => if declared.name ∈ scope.earlier then none else some declared.name
  | _ => none

/-- What is wrong with an item at its place. A name is declared twice in a scope that is not global, a
variable is read in its own initializer, or no function is there to return from. -/
def Occurrence.fault? (occurrence : Occurrence) : Option StaticFault :=
  match occurrence.item with
  | .declaration name =>
    if ∃ scope ∈ occurrence.around.head?, name.name ∈ scope.earlier then
      some ⟨name.line, .lexeme name.name, .duplicateName⟩
    else none
  | .reference ⟨.assignment, _, _⟩ => none
  | .reference ⟨.read, site, name⟩ =>
    if ∃ scope ∈ occurrence.around.head?, scope.unready? = some name then
      some ⟨site.line, .lexeme name, .readInOwnInitializer⟩
    else none
  | .return line =>
    if occurrence.around.any Enclosure.isFunction then none
    else some ⟨line, .lexeme "return", .returnOutsideFunction⟩

/-- All that is wrong with the scopes of a program, in the order of the text. -/
def Program.violations (program : Program) : List StaticFault :=
  program.occurrences.filterMap Occurrence.fault?

def unreadyIn (around : List Enclosure) : Option String := around.head?.bind Enclosure.unready?

namespace Scoping

variable {around outer : List Enclosure} {scope : Enclosure} {nesting : Nesting}
  {pending : Option String} {state before middle after : Scoping} {faults others : List StaticFault}

def Adds (faults : List StaticFault) (before after : Scoping) : Prop :=
  after.faults.toList = before.faults.toList ++ faults

namespace Adds

theorem none (same : after.faults = before.faults) : Adds [] before after := by
  rw [Adds, same, List.append_nil]

theorem trans (ahead : Adds faults before middle) (further : Adds others middle after) :
    Adds (faults ++ others) before after :=
  Eq.trans further ((congrArg (· ++ others) ahead).trans (List.append_assoc _ _ _))

end Adds

def misread? (pending : Option String) : Reference → Option StaticFault
  | ⟨.assignment, _, _⟩ => none
  | ⟨.read, site, name⟩ =>
    if pending = some name then some ⟨site.line, .lexeme name, .readInOwnInitializer⟩ else none

theorem adds_read (site : Site) (name : String) (shows : Shows state.scopes nesting pending) :
    Adds ([⟨.read, site, name⟩].filterMap (misread? pending)) state (state.read site name) := by
  have own := shows.inOwnInitializer name
  by_cases waits : pending = some name
  · have found : [⟨.read, site, name⟩].filterMap (misread? pending) =
        [⟨site.line, .lexeme name, .readInOwnInitializer⟩] := by simp [misread?, waits]
    rw [found, Adds, read, if_pos (own.mpr waits), refer_faults, report, Array.toList_push]
  · have found : [⟨.read, site, name⟩].filterMap (misread? pending) = [] := by
      simp [misread?, waits]
    rw [found]
    refine .none ?_
    rw [read, if_neg fun ready => waits (own.mp ready), refer_faults]

theorem adds_assigned (site : Site) (name : String) (state : Scoping) :
    Adds ([⟨.assignment, site, name⟩].filterMap (misread? pending)) state
      (state.refer site.id name) := .none (refer_faults _ _ _)

mutual

theorem adds_expression : ∀ (expr : Expr) (state : Scoping), Shows state.scopes nesting pending →
    Adds (expr.visited.filterMap (misread? pending)) state (expression expr state)
  | .literal _ _, _, _ => .none rfl
  | .variable site name, _, shows => adds_read site name shows
  | .assign site target value, state, shows => by
    rw [Expr.visited, List.filterMap_append]
    exact (adds_expression value state shows).trans (adds_assigned site target _)
  | .group _ inner, state, shows => adds_expression inner state shows
  | .unary _ _ operand, state, shows => adds_expression operand state shows
  | .binary _ _ left right, state, shows | .logical _ _ left right, state, shows => by
    have kept := (expression_scopes left state).symm ▸ shows
    rw [Expr.visited, List.filterMap_append]
    exact (adds_expression left state shows).trans (adds_expression right _ kept)
  | .call _ callee arguments, state, shows => by
    have kept := (expression_scopes callee state).symm ▸ shows
    rw [Expr.visited, List.filterMap_append]
    exact (adds_expression callee state shows).trans (adds_expressions arguments _ kept)

theorem adds_expressions : ∀ (values : List Expr) (state : Scoping),
    Shows state.scopes nesting pending →
    Adds ((Expr.visitedAll values).filterMap (misread? pending)) state (expressions values state)
  | [], _, _ => .none rfl
  | first :: rest, state, shows => by
    have kept := (expression_scopes first state).symm ▸ shows
    rw [Expr.visitedAll, List.filterMap_append]
    exact (adds_expression first state shows).trans (adds_expressions rest _ kept)

end

theorem adds_optional (value : Option Expr) (shows : Shows state.scopes nesting pending) :
    Adds ((Expr.visitedOptional value).filterMap (misread? pending)) state
      (optional value state) := by
  cases value with
  | none => exact .none rfl
  | some value => exact adds_expression value state shows

theorem filterMap_referring (around : List Enclosure) (references : List Reference) :
    (Stmt.referring around references).filterMap Occurrence.fault? =
      references.filterMap (misread? (unreadyIn around)) := by
  rw [Stmt.referring, List.filterMap_map]
  refine List.filterMap_congr fun reference _ => ?_
  obtain ⟨kind, site, name⟩ := reference
  cases kind with
  | assignment => rfl
  | read =>
    have same : (∃ scope ∈ around.head?, scope.unready? = some name) ↔
        unreadyIn around = some name := by
      simp [unreadyIn, Option.bind_eq_some_iff]
    simp only [Function.comp_apply, Occurrence.fault?, misread?, same]

/-- The resolver has come to a place with these scopes around it. -/
structure At (state : Scoping) (around : List Enclosure) : Prop where
  shows : Shows state.scopes (nestingOf around) none
  inFunction : state.inFunction = around.any Enclosure.isFunction

theorem admits_iff {name : String} :
    (nestingOf around).Admits name ↔ ¬∃ scope ∈ around.head?, name ∈ scope.earlier := by
  cases around <;> simp [nestingOf, Nesting.Admits]

theorem adds_declare (name : Ident) (shows : Shows state.scopes (nestingOf around) none) :
    Adds ([⟨.declaration name, around⟩].filterMap Occurrence.fault?) state (state.declare name) := by
  have faults := (declare_shown name shows).2
  by_cases taken : ∃ scope ∈ around.head?, name.name ∈ scope.earlier
  · rw [if_neg fun admits => admits_iff.mp admits taken] at faults
    have found : (Occurrence.mk (.declaration name) around).fault? =
        some ⟨name.line, .lexeme name.name, .duplicateName⟩ := if_pos taken
    rw [List.filterMap_cons_some found, List.filterMap_nil, Adds, faults, Array.toList_push]
  · rw [if_pos (admits_iff.mpr taken)] at faults
    have found : (Occurrence.mk (.declaration name) around).fault? = none := if_neg taken
    rw [List.filterMap_cons_none found, List.filterMap_nil]
    exact .none faults

theorem adds_checkReturn (line : Nat) (inFunction : state.inFunction = around.any Enclosure.isFunction) :
    Adds ([⟨.return line, around⟩].filterMap Occurrence.fault?) state (state.checkReturn line) := by
  rw [checkReturn, inFunction]
  by_cases inside : around.any Enclosure.isFunction = true
  · have found : (Occurrence.mk (.return line) around).fault? = none := if_pos inside
    rw [List.filterMap_cons_none found, List.filterMap_nil, if_pos inside]
    exact .none rfl
  · have found : (Occurrence.mk (.return line) around).fault? =
        some ⟨line, .lexeme "return", .returnOutsideFunction⟩ := if_neg inside
    rw [List.filterMap_cons_some found, List.filterMap_nil, if_neg inside, Adds, report,
      Array.toList_push]

theorem unreadyIn_of_plain {stmt : Stmt} (stands : stmt.StandsIn around)
    (plain : stmt.isDeclaration = false) : unreadyIn around = none := by
  cases around with
  | nil => rfl
  | cons scope outer =>
    have passed : ∀ declared initial, scope.here ≠ some (.var declared initial) :=
      stands.open_ (fun declared initial same => by rw [same] at plain; cases plain) scope
        List.mem_cons_self
    rw [unreadyIn, List.head?_cons, Option.bind_some, Enclosure.unready?]
    split
    · rename_i found
      exact absurd found (passed _ _)
    · rfl

theorem unreadyIn_var {declared : Ident} {initial : Option Expr}
    (stands : (Stmt.var declared initial).StandsIn around) :
    unreadyIn around = (nestingOf around).unready declared.name := by
  cases around with
  | nil => rfl
  | cons scope outer =>
    rw [unreadyIn, List.head?_cons, Option.bind_some, Enclosure.unready?,
      StandsIn.here stands rfl]
    rfl

namespace At

variable {stmt : Stmt}

theorem expression (place : At state around) (expr : Expr) :
    At (Scoping.expression expr state) around :=
  ⟨(expression_scopes expr state).symm ▸ place.shows,
    (expression_inFunction expr state).trans place.inFunction⟩

theorem optional (place : At state around) (value : Option Expr) :
    At (Scoping.optional value state) around := by
  cases value with
  | none => exact place
  | some value => exact place.expression value

theorem branch (place : At state around) (plain : stmt.isDeclaration = false)
    (shows : Shows (statement stmt state).scopes ((nestingOf around).after stmt) none) :
    At (statement stmt state) around :=
  ⟨shown_branch plain shows, (keeps_statement stmt state).inFunction.trans place.inFunction⟩

theorem behind (place : At state (scope :: around))
    (shows : Shows (statement stmt state).scopes ((nestingOf (scope :: around)).after stmt) none) :
    At (statement stmt state) (scope.behind stmt :: around) :=
  ⟨nestingOf_behind stmt ▸ shows, (keeps_statement stmt state).inFunction.trans place.inFunction⟩

theorem checkReturn (place : At state around) (line : Nat) :
    Shows (state.checkReturn line).scopes (nestingOf around) none := by
  unfold Scoping.checkReturn
  split <;> exact place.shows

theorem adds_visited (place : At state around) (stands : stmt.StandsIn around)
    (plain : stmt.isDeclaration = false) (expr : Expr) :
    Adds ((Stmt.referring around expr.visited).filterMap Occurrence.fault?) state
      (Scoping.expression expr state) := by
  rw [filterMap_referring, unreadyIn_of_plain stands plain]
  exact adds_expression expr state place.shows

end At

theorem reports_named (name : Ident) (shows : Shows state.scopes (nestingOf around) none) :
    Adds ([⟨.declaration name, around⟩].filterMap Occurrence.fault?) state
        ((state.declare name).define name) ∧
      Shows ((state.declare name).define name).scopes ((nestingOf around).declare name.name) none := by
  have defined : Adds [] (state.declare name) ((state.declare name).define name) :=
    .none (define_faults _ _)
  have adds := (adds_declare name shows).trans defined
  rw [List.append_nil] at adds
  exact ⟨adds, define_shown (declare_shown name shows).1 (Nesting.unready_own _)⟩

theorem reports_parameters (names : List Ident) {state : Scoping} (done : List Ident)
    (place : At state (.ofFunction done :: around)) :
    Adds ((Stmt.parametersFrom around done names).filterMap Occurrence.fault?) state
        (parameters names state) ∧
      At (parameters names state) (.ofFunction (done ++ names) :: around) := by
  induction names generalizing state done with
  | nil => exact ⟨.none rfl, by rwa [List.append_nil]⟩
  | cons name rest ih =>
    obtain ⟨named, shown⟩ := reports_named name place.shows
    -- a later parameter sees this one, so the induction is over all that are done
    have gathered : (nestingOf (.ofFunction done :: around)).declare name.name =
        nestingOf (.ofFunction (done ++ [name]) :: around) := by
      simp [nestingOf, Enclosure.ofFunction, Enclosure.earlier, Nesting.declare]
    have kept := (keeps_declare name state).trans (keeps_define name _)
    obtain ⟨adds, entered⟩ := ih (done ++ [name])
      ⟨gathered ▸ shown, kept.inFunction.trans place.inFunction⟩
    rw [List.append_assoc] at entered
    refine ⟨?_, entered⟩
    have whole := named.trans adds
    rwa [← List.filterMap_append] at whole

theorem reports_var {declared : Ident} {initial : Option Expr}
    (stands : (Stmt.var declared initial).StandsIn around) (place : At state around) :
    Adds (((Stmt.var declared initial).occurrences around).filterMap Occurrence.fault?) state
        (statement (.var declared initial) state) ∧
      Shows (statement (.var declared initial) state).scopes
        ((nestingOf around).declare declared.name) none := by
  have named := adds_declare declared place.shows
  have shown := (declare_shown declared place.shows).1
  have looked := adds_optional initial shown
  rw [← unreadyIn_var stands, ← filterMap_referring] at looked
  have defined : Adds [] (optional initial (state.declare declared))
      ((optional initial (state.declare declared)).define declared) := .none (define_faults _ _)
  refine ⟨?_, define_shown (by rwa [optional_scopes]) (Nesting.unready_own _)⟩
  have whole := (named.trans looked).trans defined
  rwa [List.append_nil, ← List.filterMap_append] at whole

/-- What is said of a statement and its surroundings: what it adds, and what is shown behind it. -/
def Reports (stmt : Stmt) : Prop :=
  ∀ {around : List Enclosure} {state : Scoping}, stmt.StandsIn around → At state around →
    Adds ((stmt.occurrences around).filterMap Occurrence.fault?) state (statement stmt state) ∧
      Shows (statement stmt state).scopes ((nestingOf around).after stmt) none

def ReportsIn (body : List Stmt) : Prop :=
  ∀ {scope : Enclosure} {around : List Enclosure} {state : Scoping},
    (∀ scope ∈ around, ∀ declared initial, scope.here ≠ some (.var declared initial)) →
    At state (scope :: around) →
    Adds ((Stmt.occurrencesIn scope around body).filterMap Occurrence.fault?) state
        (statements body state) ∧
      ∃ names, Shows (statements body state).scopes (names :: around.map Enclosure.known) none

theorem reports_block {body : List Stmt} (inside : ReportsIn body) : Reports (.block body) := by
  intro around state stands place
  have opened : At state.openScope (.block :: around) :=
    ⟨nestingOf_block stands rfl ▸ shows_openScope place.shows, place.inFunction⟩
  obtain ⟨adds, names, shown⟩ := inside (stands.open_ (by simp)) opened
  exact ⟨adds, shows_closeScope (known_plain stands rfl ▸ shown)⟩

theorem reports_function {declared : Ident} {names : List Ident} {body : List Stmt}
    (inside : ReportsIn body) : Reports (.function declared names body) := by
  intro around state stands place
  obtain ⟨named, shown⟩ := reports_named declared place.shows
  rw [← known_function stands] at shown
  have opened : At { (state.declare declared).define declared with inFunction := true }.openScope
      (.ofFunction [] :: around) := ⟨shows_openScope shown, rfl⟩
  obtain ⟨entered, within⟩ := reports_parameters names [] opened
  obtain ⟨adds, more, last⟩ := inside (stands.open_ (by simp)) within
  refine ⟨?_, show Shows _ ((nestingOf around).declare declared.name) none from
    known_function stands ▸ shows_closeScope last⟩
  have whole := named.trans (entered.trans adds)
  rwa [← List.filterMap_append, ← List.filterMap_append] at whole

mutual

theorem reports_statement : ∀ (stmt : Stmt), stmt.Regular → Reports stmt
  | .var _ _, _ => fun stands place => reports_var stands place
  | .function _ _ body, regular => reports_function (reports_statements body regular)
  | .expression value, _ | .print value, _ => fun stands place =>
    ⟨place.adds_visited stands rfl value, (place.expression value).shows⟩
  | .block body, regular => reports_block (reports_statements body regular)
  | .ifThen test yes, regular => fun stands place => by
    obtain ⟨adds, shown⟩ := reports_statement yes regular.2 (stands.branch rfl regular.1)
      (place.expression test)
    rw [Stmt.occurrences, List.filterMap_append]
    exact ⟨(place.adds_visited stands rfl test).trans adds,
      ((place.expression test).branch regular.1 shown).shows⟩
  | .ifElse test yes no, regular => fun stands place => by
    obtain ⟨adds, shown⟩ := reports_statement yes regular.1.2 (stands.branch rfl regular.1.1)
      (place.expression test)
    -- one branch leaves no name to the other, whatever it has reported
    have between := (place.expression test).branch regular.1.1 shown
    obtain ⟨addsNo, shownNo⟩ := reports_statement no regular.2.2 (stands.branch rfl regular.2.1) between
    rw [Stmt.occurrences, List.filterMap_append, List.filterMap_append]
    exact ⟨(place.adds_visited stands rfl test).trans (adds.trans addsNo),
      (between.branch regular.2.1 shownNo).shows⟩
  | .loop test body, regular => fun stands place => by
    obtain ⟨adds, shown⟩ := reports_statement body regular.2 (stands.branch rfl regular.1)
      (place.expression test)
    rw [Stmt.occurrences, List.filterMap_append]
    exact ⟨(place.adds_visited stands rfl test).trans adds,
      ((place.expression test).branch regular.1 shown).shows⟩
  | .return line value, _ => fun stands place => by
    have kept := place.checkReturn line
    have looked := adds_optional value kept
    rw [← unreadyIn_of_plain stands rfl, ← filterMap_referring] at looked
    have whole := (adds_checkReturn line place.inFunction).trans looked
    rw [← List.filterMap_append] at whole
    refine ⟨whole, ?_⟩
    rw [statement, optional_scopes]
    exact kept

theorem reports_statements : ∀ (body : List Stmt), Stmt.RegularAll body → ReportsIn body
  | [], _ => fun _ place => ⟨.none rfl, _, place.shows⟩
  | first :: rest, regular => fun passed place => by
    obtain ⟨adds, shown⟩ := reports_statement first regular.1 (.listed first passed)
      ⟨place.shows, place.inFunction⟩
    obtain ⟨addsRest, shownRest⟩ := reports_statements rest regular.2 passed (place.behind shown)
    rw [Stmt.occurrencesIn, List.filterMap_append]
    exact ⟨adds.trans addsRest, shownRest⟩

end

theorem adds_program : ∀ (program : Program), Stmt.RegularAll program →
    ∀ {state : Scoping}, At state [] → Adds program.violations state (statements program state)
  | [], _, _, _ => .none rfl
  | first :: rest, regular, state, place => by
    obtain ⟨adds, shown⟩ := reports_statement first regular.1 (.outermost first) place
    rw [nestingOf, Nesting.after_outermost] at shown
    have behind : At (statement first state) [] :=
      ⟨shown, (keeps_statement first state).inFunction.trans place.inFunction⟩
    rw [Program.violations, Program.occurrences_cons, List.filterMap_append]
    exact adds.trans (adds_program rest regular.2 behind)

end Scoping

/-- The resolver reports what is wrong with the scopes of a program, all of it, once, in the order of
the text, and rejects the program if that is anything. Each declaration, each return and each reference
is among the places that are judged, as often as the program has it. -/
theorem resolve_violations {nextId : Nat} {tokens : List Token} {program : Program}
    (parsed : (Grammar.parse nextId tokens).program? = some program) :
    (∀ faults, resolve program = .error faults ↔ faults = program.violations ∧ faults ≠ []) ∧
      ((∃ distances, resolve program = .ok distances) ↔ program.violations = []) ∧
      program.occurrences.filterMap Occurrence.word? = Stmt.wordsAll program ∧
      (program.occurrences.filterMap Occurrence.reference?).Perm program.references := by
  have whole := Grammar.Parsed.program_eq parsed
  have regular : Stmt.RegularAll program := whole ▸ Grammar.parse_regular nextId tokens
  have adds : (Scoping.statements program .start).faults.toList = program.violations :=
    Scoping.adds_program program regular ⟨rfl, rfl⟩
  refine ⟨fun faults => ?_, ?_, program.occurrences_words, program.occurrences_references⟩
  · rw [← adds, resolve_eq_error, eq_comm]
  · rw [resolve_isOk, ← adds]
    simp

/-- All three kinds of faults, with a second declaration whose initializer may read the first, two
parameters of one name, and a return that stands in a function after all. -/
theorem resolve_violations_four :
    ∃ program,
      (Grammar.parse 0 (Scanned.tokens (scan
        "{ return; var b = b; } { var c; var c = c; fun f(a, a) { return f; } }"))).program? =
          some program ∧
      resolve program = .error [⟨1, .lexeme "return", .returnOutsideFunction⟩,
        ⟨1, .lexeme "b", .readInOwnInitializer⟩, ⟨1, .lexeme "c", .duplicateName⟩,
        ⟨1, .lexeme "a", .duplicateName⟩] := by
  have parsed : (Grammar.parse 0 (Scanned.tokens (scan
      "{ return; var b = b; } { var c; var c = c; fun f(a, a) { return f; } }"))).program? =
        some [.block [.return 1 none, .var ⟨"b", 1⟩ (some (.variable ⟨0, 1⟩ "b"))],
          .block [.var ⟨"c", 1⟩ none, .var ⟨"c", 1⟩ (some (.variable ⟨1, 1⟩ "c")),
            .function ⟨"f", 1⟩ [⟨"a", 1⟩, ⟨"a", 1⟩]
              [.return 1 (some (.variable ⟨2, 1⟩ "f"))]]] := by cbv
  exact ⟨_, parsed, ((resolve_violations parsed).1 _).mpr ⟨by decide +kernel, List.cons_ne_nil _ _⟩⟩

end LoxLang

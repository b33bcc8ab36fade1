import Mathlib
import LoxLang.Scan
import LoxLang.Proofs.Syntax.Occurrences
import LoxLang.Proofs.Scoping.Twins
import LoxLang.Proofs.Scoping.Uniform
import LoxLang.Proofs.Grammar.Regularity

/-!
What resolving leaves behind, whatever it has reported. The scopes that were open are open again, a
place is in a function if it was before, and only a declaration is noticed outside, by its name in the
innermost scope. So a list of statements at the outermost level is resolved as if it stood alone.
-/
namespace LoxLang

namespace Stmt

mutual

def parts : Stmt → List Stmt
  | .function name parameters body => .function name parameters body :: partsAll body
  | .block body => .block body :: partsAll body
  | .ifThen test yes => .ifThen test yes :: parts yes
  | .ifElse test yes no => .ifElse test yes no :: (parts yes ++ parts no)
  | .loop test body => .loop test body :: parts body
  | .var name initial => [.var name initial]
  | .expression value => [.expression value]
  | .print value => [.print value]
  | .return line value => [.return line value]

def partsAll : List Stmt → List Stmt
  | [] => []
  | first :: rest => parts first ++ partsAll rest

end

mutual

theorem Regular.parts : ∀ {stmt : Stmt}, stmt.Regular → ∀ part ∈ stmt.parts, part.Regular
  | .var _ _, regular | .expression _, regular | .print _, regular | .return _ _, regular => by
    simpa [Stmt.parts] using regular
  | .function _ _ body, regular | .block body, regular => by
    have inside : ∀ part ∈ partsAll body, part.Regular := RegularAll.parts regular
    simpa [Stmt.parts] using ⟨regular, inside⟩
  | .ifThen _ yes, regular | .loop _ yes, regular => by
    simpa [Stmt.parts] using ⟨regular, Regular.parts regular.2⟩
  | .ifElse _ yes no, regular => by
    have inside (part : Stmt) (member : part ∈ yes.parts ++ no.parts) : part.Regular :=
      (List.mem_append.mp member).elim (Regular.parts regular.1.2 part) (Regular.parts regular.2.2 part)
    exact List.forall_mem_cons.mpr ⟨regular, inside⟩

theorem RegularAll.parts : ∀ {body : List Stmt}, RegularAll body → ∀ part ∈ partsAll body, part.Regular
  | [], _ => nofun
  | _ :: _, regular => fun part member =>
    (List.mem_append.mp member).elim (Regular.parts regular.1 part) (RegularAll.parts regular.2 part)

end

end Stmt

def scopeFaults (program : Program) : List StaticFault :=
  match resolve program with
  | .ok _ => []
  | .error faults => faults

namespace Scoping

variable {state other : Scoping} {name : Ident} {earlier : List StaticFault}

/-- The stack is as high as before and the same below its top, and distances are recorded for these
nodes only. -/
structure Balances (ids : List Nat) (before after : Scoping) : Prop extends Keeps before after where
  elsewhere : ∀ id, id ∉ ids → after.distances[id]? = before.distances[id]?
  recorded : ∀ id, id ∈ before.distances → id ∈ after.distances

/-- Of the innermost scope only this name is changed, and it is ready for use. -/
def Introduces (name : String) : List Scope → List Scope → Prop
  | [], after => after = []
  | scope :: outer, after => ∃ changed : Scope, after = changed :: outer ∧
    changed[name]? = some true ∧ ∀ other, other ≠ name → changed[other]? = scope[other]?

theorem refer_recorded (id : Nat) (name : String) (state : Scoping) {other : Nat}
    (recorded : other ∈ state.distances) : other ∈ (state.refer id name).distances := by
  unfold refer
  split
  · exact recorded
  · exact Std.TreeMap.mem_insert.mpr (.inr recorded)

theorem uniform_recorded :
    Uniform fun step => ∀ (state : Scoping) id, id ∈ state.distances → id ∈ (step state).distances where
  nothing _ _ recorded := recorded
  followed first next state id recorded := next _ id (first state id recorded)
  refer id name state _ recorded := refer_recorded id name state recorded
  read site name state id recorded := by
    unfold read
    split
    · exact refer_recorded site.id name _ recorded
    · exact refer_recorded site.id name state recorded
  declare name state id recorded := by
    unfold declare
    split
    · exact recorded
    · split <;> exact recorded
  define name state id recorded := by
    unfold define
    split <;> exact recorded
  checkReturn line state id recorded := by
    unfold checkReturn
    split <;> exact recorded
  enclosed body state id recorded := body state.openScope id recorded
  called body state id recorded := body (openScope { state with inFunction := true }) id recorded

theorem balances_expression (expr : Expr) (state : Scoping) :
    state.Balances expr.ids (expression expr state) :=
  ⟨keeps_expression expr state, (extends_expression expr state).distances,
    uniform_recorded.expression expr state⟩

theorem balances_statement (stmt : Stmt) (state : Scoping) :
    state.Balances stmt.ids (statement stmt state) :=
  ⟨keeps_statement stmt state, (extends_statement stmt state).distances,
    uniform_recorded.statement stmt state⟩

theorem checkReturn_scopes (line : Nat) (state : Scoping) :
    (state.checkReturn line).scopes = state.scopes := by
  unfold checkReturn
  split <;> rfl

theorem statement_scopes : ∀ {stmt : Stmt}, stmt.Regular → stmt.isDeclaration = false →
    ∀ state : Scoping, (statement stmt state).scopes = state.scopes
  | .var _ _, _, plain | .function _ _ _, _, plain => nomatch plain
  | .expression value, _, _ | .print value, _, _ => expression_scopes value
  | .block body, _, _ => fun state => (keeps_statements body state.openScope).closed state rfl
  | .ifThen test _, regular, _ | .loop test _, regular, _ => fun state =>
    (statement_scopes regular.2 regular.1 _).trans (expression_scopes test state)
  | .ifElse test _ _, regular, _ => fun state =>
    ((statement_scopes regular.2.2 regular.2.1 _).trans
      (statement_scopes regular.1.2 regular.1.1 _)).trans (expression_scopes test state)
  | .return line value, _, _ => fun state =>
    (optional_scopes value _).trans (checkReturn_scopes line state)

theorem declare_outermost (outermost : state.scopes = []) : (state.declare name).scopes = [] := by
  simp [declare, outermost]

theorem declare_inside (name : Ident) {scope : Scope} {outer : List Scope}
    (opened : state.scopes = scope :: outer) :
    ∃ declared : Scope, (state.declare name).scopes = declared :: outer ∧
      ∀ other, other ≠ name.name → declared[other]? = scope[other]? := by
  unfold declare
  rw [opened]
  by_cases known : scope.contains name.name = true
  · simp only [known, ↓reduceIte]
    exact ⟨scope, opened, fun _ _ => rfl⟩
  · simp only [known, Bool.false_eq_true, ↓reduceIte]
    refine ⟨_, rfl, fun other different => ?_⟩
    simp [Std.TreeMap.getElem?_insert, different.symm]

theorem introduces_define (waiting : other.scopes = (state.declare name).scopes) :
    Introduces name.name state.scopes (other.define name).scopes := by
  cases opened : state.scopes with
  | nil =>
    rw [declare_outermost opened] at waiting
    simp [define, waiting, Introduces]
  | cons scope outer =>
    obtain ⟨declared, shown, others⟩ := declare_inside name opened
    rw [shown] at waiting
    simp only [define, waiting]
    refine ⟨_, rfl, by simp, fun sought different => ?_⟩
    rw [← others sought different]
    simp [Std.TreeMap.getElem?_insert, different.symm]

theorem introduces_statement {stmt : Stmt} (declares : stmt.introduced? = some name) (state : Scoping) :
    Introduces name.name state.scopes (statement stmt state).scopes := by
  cases stmt with
  | var declared initial =>
    cases declares
    exact introduces_define (optional_scopes initial (state.declare name))
  | function declared names body =>
    cases declares
    -- the scope that parameters and body share is closed again
    have inside := (keeps_parameters names _).trans (keeps_statements body
      (((state.declare name).define name).enterFunction names))
    have closed := inside.closed ((state.declare name).define name) rfl
    exact (closed : (statement (.function name names body) state).scopes = _) ▸ introduces_define rfl
  | _ => cases declares

/-- The same place, but that these faults have been reported before. -/
structure Preceded (earlier : List StaticFault) (state other : Scoping) : Prop where
  scopes : other.scopes = state.scopes
  inFunction : other.inFunction = state.inFunction
  faults : other.faults.toList = earlier ++ state.faults.toList

namespace Preceded

variable (same : state.Preceded earlier other)

include same

theorem report (line : Nat) (lexeme : String) (cause : StaticCause) :
    (state.report line lexeme cause).Preceded earlier (other.report line lexeme cause) := by
  refine ⟨same.scopes, same.inFunction, ?_⟩
  simp only [Scoping.report, Array.toList_push, same.faults, List.append_assoc]

theorem refer (id : Nat) (name : String) :
    (state.refer id name).Preceded earlier (other.refer id name) :=
  ⟨by simpa using same.scopes, by simpa using same.inFunction, by simpa using same.faults⟩

theorem read (site : Site) (name : String) :
    (state.read site name).Preceded earlier (other.read site name) := by
  have waits : other.inOwnInitializer name = state.inOwnInitializer name := by
    rw [inOwnInitializer, same.scopes, inOwnInitializer]
  unfold Scoping.read
  rw [waits]
  by_cases own : state.inOwnInitializer name = true
  · simp only [own, ↓reduceIte]
    exact (same.report _ _ _).refer _ _
  · simp only [own, Bool.false_eq_true, ↓reduceIte]
    exact same.refer _ _

theorem declare (name : Ident) : (state.declare name).Preceded earlier (other.declare name) := by
  unfold Scoping.declare
  rw [same.scopes]
  cases state.scopes with
  | nil => exact same
  | cons scope outer =>
    by_cases known : scope.contains name.name = true
    · simp only [known, ↓reduceIte]
      exact same.report _ _ _
    · simp only [known, Bool.false_eq_true, ↓reduceIte]
      exact ⟨rfl, same.inFunction, same.faults⟩

theorem define (name : Ident) : (state.define name).Preceded earlier (other.define name) := by
  unfold Scoping.define
  rw [same.scopes]
  cases state.scopes with
  | nil => exact same
  | cons scope outer => exact ⟨rfl, same.inFunction, same.faults⟩

theorem checkReturn (line : Nat) :
    (state.checkReturn line).Preceded earlier (other.checkReturn line) := by
  unfold Scoping.checkReturn
  rw [same.inFunction]
  by_cases inside : state.inFunction = true
  · simp only [inside, ↓reduceIte]
    exact same
  · simp only [inside, Bool.false_eq_true, ↓reduceIte]
    exact same.report _ _ _

theorem openScope : state.openScope.Preceded earlier other.openScope :=
  ⟨congrArg (∅ :: ·) same.scopes, same.inFunction, same.faults⟩

theorem closeScope : state.closeScope.Preceded earlier other.closeScope :=
  ⟨congrArg List.tail same.scopes, same.inFunction, same.faults⟩

end Preceded

/-- What is reported further on does not depend on what has been reported before, nor on any
distances. -/
theorem Preceded.uniform : Uniform fun step => ∀ state other : Scoping,
    state.Preceded earlier other → (step state).Preceded earlier (step other) where
  nothing _ _ same := same
  followed first next state other same := next _ _ (first state other same)
  refer id name _ _ same := same.refer id name
  read site name _ _ same := same.read site name
  declare name _ _ same := same.declare name
  define name _ _ same := same.define name
  checkReturn line _ _ same := same.checkReturn line
  enclosed body _ _ same := (body _ _ same.openScope).closeScope
  called body state other same :=
    have entered : Preceded earlier { state with inFunction := true }.openScope
        { other with inFunction := true }.openScope :=
      ⟨congrArg (∅ :: ·) same.scopes, rfl, same.faults⟩
    have left := (body _ _ entered).closeScope
    ⟨left.scopes, same.inFunction, left.faults⟩

end Scoping

theorem scopeFaults_eq (program : Program) :
    scopeFaults program = (Scoping.statements program .start).faults.toList := by
  unfold scopeFaults
  split
  · rename_i accepted
    have clean := resolve_isOk.mp ⟨_, accepted⟩
    exact (List.eq_nil_of_length_eq_zero clean).symm
  · rename_i rejected
    exact (resolve_eq_error.mp rejected).1.symm

theorem scopeFaults_append (first last : List Stmt) :
    scopeFaults (first ++ last) = scopeFaults first ++ scopeFaults last := by
  have kept := Scoping.keeps_statements first .start
  have outermost : (Scoping.statements first .start).scopes = [] :=
    List.eq_nil_of_length_eq_zero kept.depth
  have between : Scoping.start.Preceded (scopeFaults first) (Scoping.statements first .start) :=
    ⟨outermost, kept.inFunction, by rw [scopeFaults_eq]; exact (List.append_nil _).symm⟩
  have later := Scoping.Preceded.uniform.statements last _ _ between
  rw [scopeFaults_eq (first ++ last), Scoping.statements_append, later.faults, scopeFaults_eq last]

/-- Resolving is balanced, whether or not it reports anything. An expression changes no scope, nor does
any statement of a program that is not a declaration; a declaration changes the innermost scope, and
there nothing but the name that it declares. The scopes below, the place in or outside a function and
the distances of all other nodes are what they were before. So two lists of statements that are resolved
one behind the other have the faults of the first, and then those of the second. -/
theorem resolving_balanced :
    (∀ (expr : Expr) (state : Scoping),
      (Scoping.expression expr state).scopes = state.scopes ∧
        state.Balances expr.ids (Scoping.expression expr state)) ∧
    (∀ (stmt : Stmt) (state : Scoping), state.Balances stmt.ids (Scoping.statement stmt state)) ∧
    (∀ nextId tokens, ∀ stmt ∈ Stmt.partsAll (Grammar.parse nextId tokens).program,
      stmt.isDeclaration = false →
      ∀ state : Scoping, (Scoping.statement stmt state).scopes = state.scopes) ∧
    (∀ stmt name, Stmt.introduced? stmt = some name →
      ∀ state : Scoping,
        Scoping.Introduces name.name state.scopes (Scoping.statement stmt state).scopes) ∧
    ∀ first last, scopeFaults (first ++ last) = scopeFaults first ++ scopeFaults last := by
  refine ⟨fun expr state => ?_, Scoping.balances_statement, ?_, ?_, scopeFaults_append⟩
  · exact ⟨Scoping.expression_scopes expr state, Scoping.balances_expression expr state⟩
  · intro nextId tokens stmt member plain
    have regular := Stmt.RegularAll.parts (Grammar.parse_regular nextId tokens) stmt member
    exact Scoping.statement_scopes regular plain
  · exact fun stmt name declares => Scoping.introduces_statement declares

/-- A block with a statement that declares nothing and a variable that is declared twice, and a return
behind it. -/
theorem resolving_balanced_duplicate :
    let test : Stmt := .ifThen (.variable ⟨0, 1⟩ "a") (.print (.variable ⟨1, 1⟩ "a"))
    let second : Stmt := .var ⟨"a", 1⟩ (some (.variable ⟨2, 1⟩ "a"))
    let body : Program := [.block [.var ⟨"a", 1⟩ none, test, second]]
    (Grammar.parse 0 (Scanned.tokens (scan "{ var a; if (a) print a; var a = a; }"))).program = body ∧
      (∀ state : Scoping, (Scoping.statement test state).scopes = state.scopes) ∧
      (∀ state : Scoping,
        Scoping.Introduces "a" state.scopes (Scoping.statement second state).scopes) ∧
      scopeFaults (body ++ [.return 2 none]) = [⟨1, .lexeme "a", .duplicateName⟩,
        ⟨2, .lexeme "return", .returnOutsideFunction⟩] := by
  intro test second body
  have parsed : (Grammar.parse 0 (Scanned.tokens (scan
      "{ var a; if (a) print a; var a = a; }"))).program = body := by cbv
  obtain ⟨-, -, plain, declares, appended⟩ := resolving_balanced
  refine ⟨parsed, ?_, declares second ⟨"a", 1⟩ rfl, (appended body _).trans (by decide +kernel)⟩
  have inside : test ∈ Stmt.partsAll (Grammar.parse 0 (Scanned.tokens (scan
      "{ var a; if (a) print a; var a = a; }"))).program := by
    simp [parsed, body, test, Stmt.partsAll, Stmt.parts]
  exact plain 0 _ test inside rfl

end LoxLang

import Mathlib
import LoxLang.Proofs.Grammar.Advancing
import LoxLang.Proofs.Grammar.Reports
import LoxLang.Syntax.Outline

/-!
Attempts at declarations. One that gives up has reported something of its own, at a token that it looked
at, and that is never lost; so a program without reports has a statement for each attempt.
-/
namespace LoxLang.Grammar

variable {α β : Type}

section Earlier

def Cursor.behind (earlier : Array StaticFault) (cursor : Cursor) : Cursor :=
  { cursor with faults := earlier ++ cursor.faults }

def Reading.behind (earlier : Array StaticFault) : Reading α → Reading α
  | .read value after => .read value (after.behind earlier)
  | .failed after => .failed (after.behind earlier)

/-- What was reported before makes no difference, and stays where it is. -/
def Reader.Additive (reader : Reader α) : Prop :=
  ∀ earlier (cursor : Cursor), reader (cursor.behind earlier) = (reader cursor).behind earlier

theorem Cursor.behind_reportAt (earlier : Array StaticFault) (cursor : Cursor) (token : Token)
    (cause : StaticCause) :
    (cursor.behind earlier).reportAt token cause = (cursor.reportAt token cause).behind earlier := by
  simp [reportAt, behind]

namespace Reader.Additive

theorem pure (value : α) : (Pure.pure value : Reader α).Additive := fun _ _ => rfl

theorem bind {first : Reader α} {next : α → Reader β} (ahead : first.Additive)
    (further : ∀ value, (next value).Additive) : (first >>= next).Additive := by
  intro earlier cursor
  rw [bind_apply, bind_apply, ahead]
  cases first cursor with
  | read value after => exact further value earlier after
  | failed after => rfl

end Reader.Additive

theorem additive_fail (cause : StaticCause) : (fail cause : Reader α).Additive :=
  fun earlier cursor => congrArg Reading.failed (cursor.behind_reportAt earlier _ cause)

theorem additive_report (token : Token) (cause : StaticCause) : (report token cause).Additive :=
  fun earlier cursor => congrArg (Reading.read ()) (cursor.behind_reportAt earlier token cause)

theorem additive_takeIf? (choose : TokenKind → Option α) : (takeIf? choose).Additive := by
  rintro earlier ⟨rest, finish, faults, nextId⟩
  cases rest with
  | nil => rfl
  | cons token rest =>
    simp only [takeIf?, Cursor.behind]
    cases choose token.kind <;> rfl

theorem additive_checkLimit (count : Nat) (cause : StaticCause) :
    (checkLimit count cause).Additive := by
  intro earlier cursor
  unfold checkLimit
  split
  · exact additive_report cursor.token cause earlier cursor
  · rfl

theorem additive_assignment {target value : Reader Expr} (targetAdditive : target.Additive)
    (valueAdditive : value.Additive) : (assignment target value).Additive := by
  refine targetAdditive.bind fun left => .bind ?_ fun found => ?_
  · exact (additive_takeIf? _).bind fun found => by cases found <;> exact .pure _
  · match found with
    | none => exact .pure left
    | some sign =>
      refine valueAdditive.bind fun right => ?_
      split
      · exact .bind (fun _ _ => rfl) fun fresh => .pure _
      · exact (additive_report sign _).bind fun _ => .pure right

/-- Only the operator is reported; what is passed over behind it reports to a list of its own. -/
theorem misplaced_eq (right : Reader Expr) (cursor : Cursor) :
    misplaced right cursor =
      let reported := cursor.reportAt cursor.token (.missing .leftOperand)
      .failed { (right { reported.advance with faults := #[] }).cursor with
        faults := reported.faults } := rfl

theorem additive_misplaced (right : Reader Expr) : (misplaced right).Additive := by
  intro earlier cursor
  have reported : (cursor.behind earlier).reportAt (cursor.behind earlier).token _ = _ :=
    cursor.behind_reportAt earlier cursor.token (.missing .leftOperand)
  rw [misplaced_eq, misplaced_eq, reported]
  rfl

theorem additive_orRecover {item : Reader Stmt} (additive : item.Additive) :
    (orRecover item).Additive := by
  intro earlier cursor
  rw [orRecover, orRecover, additive earlier cursor]
  cases item cursor with
  | read statement after => rfl
  | failed after => rfl

theorem additives : Uniform @Reader.Additive where
  pure := .pure
  bind := .bind
  fail := additive_fail
  peek := fun _ _ => rfl
  take := fun _ _ => rfl
  newSite := fun _ _ _ => rfl
  takeIf? := additive_takeIf?
  checkLimit := additive_checkLimit
  assignment := additive_assignment
  misplaced := fun _ => additive_misplaced _
  orRecover := additive_orRecover

/-- An attempt that gives up adds to the reports, at tokens that it took or left in front of it. -/
theorem fresh_of_failed {reader : Reader α} (additive : reader.Additive) (points : reader.Points)
    (forward : reader.Forward) {cursor after : Cursor} (failed : reader cursor = .failed after) :
    ∃ fresh, fresh ≠ [] ∧ after.faults.toList = cursor.faults.toList ++ fresh ∧
      ∀ fault ∈ fresh, ∃ token, cursor.Examines after token ∧ fault.At token := by
  let blank : Cursor := { cursor with faults := #[] }
  have same : cursor = blank.behind cursor.faults := by
    simp only [Cursor.behind, blank, Array.append_empty]
  rw [same, additive] at failed
  cases result : reader blank with
  | read value last =>
    rw [result] at failed
    cases failed
  | failed last =>
    rw [result] at failed
    cases failed
    have more : 0 < last.faults.size := (forward.failed result).2
    have shown : blank.Shows last := by simpa only [result, Reading.cursor] using points blank
    refine ⟨last.faults.toList, ?_, ?_, fun fault member => ?_⟩
    · rwa [← List.length_pos_iff, Array.length_toList]
    · simp [Cursor.behind]
    · exact (shown.located fault member).resolve_left (by simp [blank])

end Earlier

section Lists

/-- Declarations are attempted one after the other until the next token ends the list. -/
inductive Attempts (stop : TokenKind → Bool) (item : Reader Stmt) :
    Cursor → List (Option Stmt) → Cursor → Prop
  | stopped {cursor : Cursor} : stop cursor.token.kind = true → Attempts stop item cursor [] cursor
  | next {cursor middle after : Cursor} {found : Option Stmt} {others : List (Option Stmt)} :
    stop cursor.token.kind = false → orRecover item cursor = .read found middle →
    Attempts stop item middle others after → Attempts stop item cursor (found :: others) after

variable {stop : TokenKind → Bool} {item : Reader Stmt}

theorem statementsUntil_attempts (stops : stop .finish = true) (bound rounds : Nat)
    (done : List Stmt) {cursor : Cursor} (ends : cursor.finish.kind = .finish)
    (room : cursor.rest.length ≤ rounds) :
    ∃ attempts after, Attempts stop (declaration bound) cursor attempts after ∧
      statementsUntil stop (declaration bound) rounds done cursor =
        .read (done.reverse ++ attempts.reduceOption) after := by
  induction rounds generalizing done cursor with
  | zero =>
    have none : cursor.rest = [] := List.eq_nil_of_length_eq_zero (Nat.eq_zero_of_le_zero room)
    have stopped : stop cursor.token.kind = true := by rw [Cursor.token_finish none ends, stops]
    exact ⟨[], cursor, .stopped stopped, by simp [statementsUntil]⟩
  | succ rounds ih =>
    cases goes : stop cursor.token.kind with
    | true =>
      exact ⟨[], cursor, .stopped goes, (statementsUntil_stops _ done goes).trans (by simp)⟩
    | false =>
      obtain ⟨found, middle, read⟩ := orRecover_reads (declaration bound) cursor
      -- Read or given up, the attempt has taken a token, so a round less is enough for the rest.
      have less : middle.rest.length < cursor.rest.length :=
        orRecover_length_lt (forwards.declaration bound) (closes_declaration_statement bound).1
          (Cursor.rest_ne_nil_of_goes stops ends goes) read
      have onward := (forward_orRecover (forwards.declaration bound)).read read
      obtain ⟨others, after, attempts, further⟩ :=
        ih (found.toList ++ done) (onward.finish ▸ ends) (by omega)
      refine ⟨found :: others, after, .next goes read attempts, ?_⟩
      rw [(statementsUntil_next rounds done goes read).trans further]
      cases found <;> simp [List.reduceOption_cons_of_some, List.reduceOption_cons_of_none]

theorem Attempts.onward (forward : item.Forward) {cursor after : Cursor}
    {attempts : List (Option Stmt)} (list : Attempts stop item cursor attempts after) :
    cursor.Onward after := by
  induction list with
  | stopped => exact .refl _
  | next _ read _ ih => exact ((forward_orRecover forward).read read).trans ih

theorem Attempts.all_read (forward : item.Forward) {cursor after : Cursor}
    {attempts : List (Option Stmt)} (list : Attempts stop item cursor attempts after)
    (quiet : after.faults = #[]) : ∃ body : List Stmt, attempts = body.map some := by
  induction list with
  | stopped => exact ⟨[], rfl⟩
  | @next cursor middle after found others goes read list ih =>
    obtain ⟨body, rfl⟩ := ih quiet
    cases found with
    | some statement => exact ⟨statement :: body, rfl⟩
    | none =>
      unfold orRecover at read
      split at read
      · cases read
      · rename_i last result
        cases read
        have more := Nat.lt_of_lt_of_le (forward.failed result).2 (list.onward forward).size_le
        simp [quiet] at more

theorem statementsUntil_extends (stop : TokenKind → Bool) (item : Reader Stmt) (rounds : Nat)
    (done : List Stmt) (cursor : Cursor) :
    ∃ made after, statementsUntil stop item rounds done cursor = .read (done.reverse ++ made) after := by
  induction rounds generalizing done cursor with
  | zero => exact ⟨[], cursor, by simp [statementsUntil]⟩
  | succ rounds ih =>
    cases goes : stop cursor.token.kind with
    | true => exact ⟨[], cursor, (statementsUntil_stops _ done goes).trans (by simp)⟩
    | false =>
      obtain ⟨found, middle, read⟩ := orRecover_reads item cursor
      obtain ⟨made, after, further⟩ := ih (found.toList ++ done) middle
      refine ⟨found.toList ++ made, after, ?_⟩
      rw [statementsUntil_next rounds done goes read, further]
      cases found <;> simp

end Lists

section Containing

theorem outlineAll_append (depth : Nat) (first second : List Stmt) :
    Stmt.outlineAll depth (first ++ second) =
      Stmt.outlineAll depth first ++ Stmt.outlineAll depth second := by
  induction first with
  | nil => rfl
  | cons head tail ih => rw [List.cons_append, Stmt.outlineAll, Stmt.outlineAll, ih, List.append_assoc]

/-- The statements of the one list, with all that is in them, come in a row among those of the other,
at some depth. -/
def Contains (outer inner : List Stmt) : Prop :=
  ∀ depth, ∃ deeper, Stmt.outlineAll deeper inner <:+: Stmt.outlineAll depth outer

namespace Contains

variable {outer middle inner : List Stmt}

theorem refl (statements : List Stmt) : Contains statements statements :=
  fun depth => ⟨depth, List.infix_refl _⟩

theorem trans (first : Contains outer middle) (second : Contains middle inner) :
    Contains outer inner := by
  intro depth
  obtain ⟨deeper, inside⟩ := first depth
  obtain ⟨deepest, further⟩ := second deeper
  exact ⟨deepest, further.trans inside⟩

theorem append (before inner after : List Stmt) : Contains (before ++ inner ++ after) inner := by
  intro depth
  refine ⟨depth, Stmt.outlineAll depth before, Stmt.outlineAll depth after, ?_⟩
  rw [outlineAll_append, outlineAll_append]

theorem inside {whole : Stmt} (further : ∀ depth,
      Stmt.outline depth whole = (depth, whole) :: Stmt.outlineAll (depth + 1) inner) :
    Contains [whole] inner := by
  intro depth
  refine ⟨depth + 1, ?_⟩
  rw [Stmt.outlineAll, Stmt.outlineAll, List.append_nil, further]
  exact (List.suffix_cons _ _).isInfix

theorem function (name : Ident) (parameters : List Ident) (body : List Stmt) :
    Contains [.function name parameters body] body :=
  inside fun _ => by rw [Stmt.outline]

theorem block (body : List Stmt) : Contains [.block body] body :=
  inside fun _ => by rw [Stmt.outline]

theorem ifThen (test : Expr) (yes : Stmt) : Contains [.ifThen test yes] [yes] :=
  inside fun _ => by simp [Stmt.outline, Stmt.outlineAll]

theorem ifElse (test : Expr) (yes no : Stmt) : Contains [.ifElse test yes no] [yes, no] :=
  inside fun _ => by simp [Stmt.outline, Stmt.outlineAll]

theorem loop (test : Expr) (body : Stmt) : Contains [.loop test body] [body] :=
  inside fun _ => by simp [Stmt.outline, Stmt.outlineAll]

theorem forLoop (initializer : Option Stmt) (condition : Expr) (increment : Option Expr) (body : Stmt) :
    Contains [Grammar.forLoop initializer condition increment body] [body] := by
  have round (step : Stmt) : Contains [.loop condition (.block [body, step])] [body] :=
    (loop condition _).trans ((block _).trans (append [] [body] [step]))
  have behind (first : Stmt) {looped : Stmt} (contains : Contains [looped] [body]) :
      Contains [.block [first, looped]] [body] :=
    ((block _).trans (append [first] [looped] [])).trans contains
  cases initializer with
  | none =>
    cases increment with
    | none => exact loop condition body
    | some step => exact round _
  | some first =>
    cases increment with
    | none => exact behind first (loop condition body)
    | some step => exact behind first (round _)

end Contains

def Stage.Reads : Stage → List Stmt → Prop
  | .declarations stop bound rounds done cursor, statements => ∃ after,
    statementsUntil stop (Grammar.declaration bound) rounds done cursor = .read statements after
  | .declaration bound cursor, statements => ∃ statement after,
    Grammar.declaration bound cursor = .read statement after ∧ statements = [statement]
  | .statement bound cursor, statements => ∃ statement after,
    Grammar.statement bound cursor = .read statement after ∧ statements = [statement]

theorem Reader.Forward.exists_read {reader : Reader α} (forward : reader.Forward) {cursor : Cursor}
    (quiet : (reader cursor).cursor.faults = #[]) :
    ∃ value after, reader cursor = .read value after := by
  cases result : reader cursor with
  | read value after => exact ⟨value, after, rfl⟩
  | failed after =>
    have more := (forward.failed result).2
    rw [result, Reading.cursor] at quiet
    simp [quiet] at more

theorem Stage.exists_reads {stage : Stage} (quiet : stage.final.faults = #[]) :
    ∃ statements, stage.Reads statements := by
  cases stage with
  | declarations stop bound rounds done cursor =>
    obtain ⟨made, after, read⟩ :=
      statementsUntil_extends stop (Grammar.declaration bound) rounds done cursor
    exact ⟨_, after, read⟩
  | declaration bound cursor =>
    obtain ⟨statement, after, read⟩ := (forwards.declaration bound).exists_read quiet
    exact ⟨_, statement, after, read, rfl⟩
  | statement bound cursor =>
    obtain ⟨statement, after, read⟩ := (forwards.statement bound).exists_read quiet
    exact ⟨_, statement, after, read, rfl⟩

theorem reads_restOfBlock {bound : Nat} {cursor last : Cursor} {change : List Stmt → Stmt}
    {statement : Stmt} {inner : List Stmt}
    (read : (change <$> restOfBlock bound (declaration bound) : Reader Stmt) cursor =
      .read statement last)
    (below : (Stage.declarations endsBlock bound bound [] cursor).Reads inner) :
    statement = change inner := by
  obtain ⟨body, readBody, rfl⟩ := Reader.map_eq_read.mp read
  obtain ⟨found, middle, list, further⟩ := Reader.bind_eq_read.mp readBody
  obtain ⟨after, same⟩ := below
  cases list.symm.trans same
  obtain ⟨brace, _, _, done⟩ := Reader.bind_eq_read.mp further
  cases done
  rfl

theorem Stage.Enters.contains {stage next : Stage} (enters : stage.Enters next)
    {outer inner : List Stmt} (reads : stage.Reads outer) (below : next.Reads inner) :
    Contains outer inner := by
  cases enters with
  -- The statement comes behind those that are done, and others follow it.
  | @attempt stop bound rounds done cursor goes =>
    obtain ⟨statement, middle, read, rfl⟩ := below
    obtain ⟨after, list⟩ := reads
    obtain ⟨made, last, further⟩ := statementsUntil_extends stop (Grammar.declaration bound) rounds
      (statement :: done) middle
    cases (list.symm.trans (statementsUntil_round rounds done goes read)).trans further
    rw [List.reverse_cons]
    exact .append done.reverse [statement] made
  | next goes read =>
    obtain ⟨last, same⟩ := below
    obtain ⟨after, list⟩ := reads
    cases (list.symm.trans (statementsUntil_next _ _ goes read)).trans same
    exact .refl _
  | statement noVar noFun =>
    obtain ⟨statement, middle, read, rfl⟩ := below
    obtain ⟨same, after, whole, rfl⟩ := reads
    cases (whole.symm.trans (declaration_eq_statement noVar noFun)).trans read
    exact .refl _
  | body here kind begun =>
    obtain ⟨statement, after, whole, rfl⟩ := reads
    rw [declaration_eq_function here kind begun] at whole
    rw [reads_restOfBlock whole below]
    exact .function _ _ inner
  | block here kind =>
    obtain ⟨statement, after, whole, rfl⟩ := reads
    rw [statement_eq_block here kind] at whole
    rw [reads_restOfBlock whole below]
    exact .block inner
  -- Whether there is an `else` shows only behind the branch.
  | yes here kind begun =>
    obtain ⟨statement, after, whole, rfl⟩ := reads
    obtain ⟨yes, middle, read, rfl⟩ := below
    rw [statement_eq_if here kind begun, Reader.bind_read read] at whole
    obtain ⟨found, last, _, further⟩ := Reader.bind_eq_read.mp whole
    cases found with
    | none =>
      cases further
      exact .ifThen _ yes
    | some token =>
      obtain ⟨no, _, rfl⟩ := Reader.map_eq_read.mp further
      exact (Contains.ifElse _ yes no).trans (.append [] [yes] [no])
  | @no _ _ _ _ _ _ _ _ _ yes here kind begun readYes next word =>
    obtain ⟨statement, after, whole, rfl⟩ := reads
    obtain ⟨no, middle, read, rfl⟩ := below
    rw [statement_eq_if here kind begun, Reader.bind_read readYes] at whole
    obtain ⟨found, same, rfl⟩ := Reader.map_eq_read.mp ((otherBranch_else next word).symm.trans whole)
    cases same.symm.trans read
    exact (Contains.ifElse _ yes no).trans (.append [yes] [no] [])
  | «while» here kind begun =>
    obtain ⟨statement, after, whole, rfl⟩ := reads
    obtain ⟨body, middle, read, rfl⟩ := below
    rw [statement_eq_while here kind begun] at whole
    obtain ⟨found, same, rfl⟩ := Reader.map_eq_read.mp whole
    cases same.symm.trans read
    exact .loop _ body
  | «for» here kind begun =>
    obtain ⟨statement, after, whole, rfl⟩ := reads
    obtain ⟨body, middle, read, rfl⟩ := below
    rw [statement_eq_for here kind begun] at whole
    obtain ⟨found, same, rfl⟩ := Reader.map_eq_read.mp whole
    cases same.symm.trans read
    exact .forLoop _ _ _ body

theorem Stage.Leads.quiet {stage next : Stage} (leads : stage.Leads next)
    (quiet : stage.final.faults = #[]) : next.final.faults = #[] := by
  have kept := leads.onward.2.faults
  rw [quiet] at kept
  exact Array.toList_eq_nil_iff.mp (List.prefix_nil.mp kept)

/-- Where nothing is reported, every phrase is read, and stands in what it is read in the course of. -/
theorem Stage.Leads.reads {stage next : Stage} (leads : stage.Leads next)
    (quiet : stage.final.faults = #[]) {outer : List Stmt} (reads : stage.Reads outer) :
    ∃ inner, next.Reads inner ∧ Contains outer inner := by
  induction leads with
  | refl => exact ⟨outer, reads, .refl outer⟩
  | @tail middle next leads enters ih =>
    obtain ⟨between, read, contains⟩ := ih
    obtain ⟨inner, below⟩ := exists_reads (Leads.quiet (.tail leads enters) quiet)
    exact ⟨inner, below, contains.trans (enters.contains read below)⟩

end Containing

section Whole

variable {tokens : List Token} {nextId : Nat} {last : Token}

theorem Stage.whole_final (nextId : Nat) (tokens : List Token) :
    (Stage.whole nextId tokens).final.faults.toList = (parse nextId tokens).faults := by
  obtain ⟨program, after, read, result⟩ := parse_eq nextId tokens
  rw [result, whole, final, read, Reading.cursor]

theorem Stage.whole_reads {program : Program} (parsed : (parse nextId tokens).program? = some program) :
    (Stage.whole nextId tokens).final.faults = #[] ∧ (Stage.whole nextId tokens).Reads program := by
  obtain ⟨found, after, read, result⟩ := parse_eq nextId tokens
  rw [Parsed.program?] at parsed
  split at parsed
  · rename_i quiet
    cases parsed
    have none := List.isEmpty_iff.mp quiet
    rw [← whole_final, Array.toList_eq_nil_iff] at none
    rw [result]
    exact ⟨none, after, read⟩
  · cases parsed

theorem mem_outline (depth : Nat) (statement : Stmt) :
    (depth, statement) ∈ Stmt.outline depth statement := by
  cases statement <;> simp [Stmt.outline]

theorem Stage.Leads.examined_mem {stage : Stage} (leads : (Stage.whole nextId tokens).Leads stage)
    (member : last ∈ tokens) (ends : last.kind = .finish) {token : Token}
    (examined : token = stage.cursor.finish ∨ token ∈ stage.cursor.rest) : token ∈ tokens := by
  obtain ⟨first, _, _, stands, _⟩ := leads.stands member ends
  rcases examined with rfl | inside
  · exact List.mem_of_getElem? stands.finish
  · rw [stands.rest] at inside
    exact (List.takeWhile_sublist _).subset (List.mem_of_mem_drop inside)

/-- Nothing that goes wrong is passed over in silence: a declaration that is given up has been reported
at a token that was looked at, tokens are rejected just if there is a report, and a program that is
accepted has a statement for every attempt. -/
theorem parse_attempts (ends : tokens.getLast? = some last) (finish : last.kind = .finish)
    (nextId : Nat) :
    (∀ bound cursor after, (Stage.whole nextId tokens).Leads (.declaration bound cursor) →
      declaration bound cursor = .failed after → ∃ fresh, fresh ≠ [] ∧
        after.faults.toList = cursor.faults.toList ++ fresh ∧
        (∀ fault ∈ fresh, ∃ token ∈ tokens, cursor.Examines after token ∧ fault.At token) ∧
        after.faults.toList <+: (parse nextId tokens).faults) ∧
    ((parse nextId tokens).program? = none ↔ (parse nextId tokens).faults ≠ []) ∧
    ∀ program, (parse nextId tokens).program? = some program →
      (∀ stop bound rounds cursor,
        (Stage.whole nextId tokens).Leads (.declarations stop bound rounds [] cursor) →
        ∃ body after depth, statementsUntil stop (declaration bound) rounds [] cursor =
            .read body after ∧
          Attempts stop (declaration bound) cursor (body.map some) after ∧
          Stmt.outlineAll depth body <:+: program.outline) ∧
      ∀ bound cursor, (Stage.whole nextId tokens).Leads (.declaration bound cursor) →
        ∃ statement after depth, declaration bound cursor = .read statement after ∧
          (depth, statement) ∈ program.outline := by
  have member := List.mem_of_getLast? ends
  refine ⟨fun bound cursor after leads failed => ?_, ?_, fun program parsed => ?_⟩
  · obtain ⟨fresh, some, faults, located⟩ := fresh_of_failed (additives.declaration bound)
      (pointers.declaration bound) (forwards.declaration bound) failed
    have ahead := ((forwards.declaration bound).failed failed).1
    refine ⟨fresh, some, faults, fun fault inside => ?_, ?_⟩
    · obtain ⟨token, examined, points⟩ := located fault inside
      exact ⟨token, leads.examined_mem member finish (examined.among ahead), examined, points⟩
    -- Reports are never taken back, so those of the attempt are still there in the end.
    · have kept := leads.onward.2.faults
      rw [Stage.whole_final, Stage.final, failed] at kept
      exact kept
  · simp [Parsed.program?, List.isEmpty_iff]
  · obtain ⟨quiet, reads⟩ := Stage.whole_reads parsed
    constructor
    · intro stop bound rounds cursor leads
      obtain ⟨stops, room, _⟩ := leads.ample_whole member finish
      obtain ⟨_, _, _, stands, _⟩ := leads.stands member finish
      obtain ⟨attempts, after, list, read⟩ := statementsUntil_attempts stops bound rounds []
        stands.ends room
      obtain ⟨inner, ⟨last, same⟩, contains⟩ := leads.reads quiet reads
      cases read.symm.trans same
      -- A program that is accepted has no reports, hence no attempt that gave up.
      have final : (Stage.declarations stop bound rounds [] cursor).final = after :=
        congrArg Reading.cursor read
      obtain ⟨body, rfl⟩ := list.all_read (forwards.declaration bound) (final ▸ leads.quiet quiet)
      obtain ⟨depth, inside⟩ := contains 0
      have all : (body.map some).reduceOption = body := by simp [List.reduceOption]
      rw [all] at read inside
      exact ⟨body, after, depth, read, list, inside⟩
    · intro bound cursor leads
      obtain ⟨inner, ⟨statement, after, read, rfl⟩, contains⟩ := leads.reads quiet reads
      obtain ⟨depth, inside⟩ := contains 0
      refine ⟨statement, after, depth, read, inside.subset ?_⟩
      rw [Stmt.outlineAll]
      exact List.mem_append_left _ (mem_outline depth statement)

/-- Whatever is read silently behind the misplaced operator, that operator is reported. -/
theorem parse_attempts_misplaced :
    let tokens : List Token :=
      [⟨.symbol .star, "*", none, ⟨1, 0⟩⟩, ⟨.symbol .leftParen, "(", none, ⟨1, 2⟩⟩,
        ⟨.identifier, "a", none, ⟨1, 3⟩⟩, ⟨.symbol .semicolon, ";", none, ⟨1, 4⟩⟩, .finish ⟨1, 5⟩]
    tokens.getLast? = some (.finish ⟨1, 5⟩) ∧
      ∃ after fresh, declaration 14 (Cursor.start 0 tokens) = .failed after ∧ fresh ≠ [] ∧
        after.faults.toList = fresh ∧ after.faults.toList <+: (parse 0 tokens).faults := by
  intro tokens
  have last : tokens.getLast? = some (.finish ⟨1, 5⟩) := rfl
  obtain ⟨after, failed⟩ : ∃ after, declaration 14 (Cursor.start 0 tokens) = .failed after :=
    ⟨_, rfl⟩
  have leads : (Stage.whole 0 tokens).Leads (.declaration 14 (Cursor.start 0 tokens)) :=
    .single (.attempt rfl)
  obtain ⟨fresh, some, faults, _, kept⟩ := (parse_attempts last rfl 0).1 _ _ _ leads failed
  exact ⟨last, after, fresh, failed, some, faults, kept⟩

end Whole
end LoxLang.Grammar

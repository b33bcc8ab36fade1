import Mathlib.Logic.Relation
import LoxLang.Proofs.Grammar.SeamPrograms
import LoxLang.Proofs.Grammar.Taking

/-!
The stages of reading a program: a list of declarations, one attempt at a declaration, a statement. A
stage leads to those that are read in the course of it, and all that happens between the beginning and
the end of the later one happens between the beginning and the end of the earlier one.
-/
namespace LoxLang.Grammar

variable {α β : Type}

theorem Reader.bind_read {first : Reader α} {cursor after : Cursor} {value : α}
    (read : first cursor = .read value after) (next : α → Reader β) :
    (first >>= next) cursor = next value after := by
  rw [bind_apply, read]

theorem Cursor.Onward.bind {next : α → Reader β} (further : ∀ value, (next value).Forward)
    (first : Reader α) (cursor : Cursor) :
    (first cursor).cursor.Onward ((first >>= next) cursor).cursor := by
  rw [Reader.bind_apply]
  cases first cursor with
  | read value after => exact (further value).onward after
  | failed after => exact .refl after

section Heads

/-- A function declaration between its keyword and its body. -/
def functionHead (bound : Nat) : Reader (Ident × List Ident) := do
  let name ← needName .functionName
  let _ ← needSymbol .leftParen .openAfterFunctionName
  let names ← parameters bound
  let _ ← needSymbol .leftBrace .braceBeforeBody
  pure (name, names)

def parenthesized (opening closing : Part) (value : Reader Expr) : Reader Expr := do
  let _ ← needSymbol .leftParen opening
  let test ← value
  let _ ← needSymbol .rightParen closing
  pure test

/-- The clauses of a `for`, with their parentheses. -/
def clauses (value : Reader Expr) : Reader (Option Stmt × Expr × Option Expr) := do
  let line := (← peek).line
  let _ ← needSymbol .leftParen .openAfterFor
  let initializer ← forInitializer value
  let condition ← forCondition line value
  let _ ← needSymbol .semicolon .semicolonAfterLoopCondition
  let increment ← forIncrement value
  let _ ← needSymbol .rightParen .closeAfterForClauses
  pure (initializer, condition, increment)

def otherBranch (test : Expr) (yes : Stmt) (inner : Reader Stmt) : Reader Stmt := do
  match ← takeKeyword? .else with
  | none => pure (.ifThen test yes)
  | some _ => .ifElse test yes <$> inner

variable {value : Reader Expr} {inner : Reader Stmt}

theorem restOfFunction_eq (bound : Nat) (block : Reader (List Stmt)) :
    restOfFunction bound block = functionHead bound >>= fun head =>
      Stmt.function head.1 head.2 <$> block := by
  simp only [functionHead, Reader.bind_assoc]
  rfl

theorem restOfIf_eq (value : Reader Expr) (inner : Reader Stmt) :
    restOfIf value inner = parenthesized .openAfterIf .closeAfterIfCondition value >>= fun test =>
      inner >>= fun yes => otherBranch test yes inner := by
  simp only [parenthesized, Reader.bind_assoc]
  rfl

theorem restOfWhile_eq (value : Reader Expr) (inner : Reader Stmt) :
    restOfWhile value inner = parenthesized .openAfterWhile .closeAfterCondition value >>= fun test =>
      Stmt.loop test <$> inner := by
  simp only [parenthesized, Reader.bind_assoc]
  rfl

theorem restOfFor_eq (value : Reader Expr) (inner : Reader Stmt) :
    restOfFor value inner = clauses value >>= fun parts =>
      forLoop parts.1 parts.2.1 parts.2.2 <$> inner := by
  simp only [clauses, Reader.bind_assoc]
  rfl

theorem forward_functionHead (bound : Nat) : (functionHead bound).Forward :=
  .bind (forwards.needName _) fun _ => .bind (forwards.needSymbol _ _) fun _ =>
    .bind (forwards.parameters bound) fun _ => .bind (forwards.needSymbol _ _) fun _ => .pure _

theorem forward_parenthesized (opening closing : Part) (forward : value.Forward) :
    (parenthesized opening closing value).Forward :=
  .bind (forwards.needSymbol _ _) fun _ => .bind forward fun _ =>
    .bind (forwards.needSymbol _ _) fun _ => .pure _

theorem forward_clauses (forward : value.Forward) : (clauses value).Forward :=
  .bind forward_peek fun _ => .bind (forwards.needSymbol _ _) fun _ =>
    .bind (forwards.forInitializer forward) fun _ => .bind (forwards.forCondition _ forward) fun _ =>
      .bind (forwards.needSymbol _ _) fun _ => .bind (forwards.forIncrement forward) fun _ =>
        .bind (forwards.needSymbol _ _) fun _ => .pure _

theorem forward_otherBranch (test : Expr) (yes : Stmt) (forward : inner.Forward) :
    (otherBranch test yes inner).Forward := by
  refine .bind (forward_takeKind? _) fun found => ?_
  match found with
  | none => exact .pure _
  | some _ => exact forward.map _

end Heads

section Equations

variable {bound : Nat} {cursor after : Cursor} {token : Token} {others : List Token}

theorem takeIf?_takes {choose : TokenKind → Option α} {use : α} (here : cursor.rest = token :: others)
    (chosen : choose token.kind = some use) :
    takeIf? choose cursor = .read (some (use, token)) cursor.advance := by
  obtain ⟨rest, finish, faults, nextId⟩ := cursor
  cases here
  simp [takeIf?, chosen, Cursor.advance]

theorem takeKind?_takes {kind : TokenKind} (here : cursor.rest = token :: others)
    (same : token.kind = kind) : takeKind? kind cursor = .read (some token) cursor.advance :=
  Reader.bind_read (takeIf?_takes here (if_pos same)) _

theorem takeKind?_passes {kind : TokenKind} (apart : cursor.token.kind ≠ kind) :
    takeKind? kind cursor = .read none cursor := by
  refine Seam.takeKind?_leaves fun token next => ?_
  obtain ⟨rest, here⟩ := List.head?_eq_some_iff.mp next
  rwa [Cursor.token_eq here] at apart

theorem declaration_eq_statement (noVar : cursor.token.kind ≠ .keyword .var)
    (noFun : cursor.token.kind ≠ .keyword .fun) :
    declaration (bound + 1) cursor = statement bound cursor :=
  (Reader.bind_read (takeKind?_passes noVar) _).trans (Reader.bind_read (takeKind?_passes noFun) _)

theorem declaration_eq_function (here : cursor.rest = token :: others)
    (kind : token.kind = .keyword .fun) {head : Ident × List Ident}
    (begun : functionHead bound cursor.advance = .read head after) :
    declaration (bound + 1) cursor =
      (Stmt.function head.1 head.2 <$> restOfBlock bound (declaration bound) : Reader Stmt) after := by
  have noVar : cursor.token.kind ≠ .keyword .var := by rw [Cursor.token_eq here, kind]; nofun
  refine (Reader.bind_read (takeKind?_passes noVar) _).trans ?_
  refine (Reader.bind_read (takeKind?_takes here kind) _).trans ?_
  exact (congrFun (restOfFunction_eq _ _) _).trans (Reader.bind_read begun _)

theorem statement_eq_block (here : cursor.rest = token :: others)
    (kind : token.kind = .symbol .leftBrace) :
    statement (bound + 1) cursor =
      (Stmt.block <$> restOfBlock bound (declaration bound) : Reader Stmt) cursor.advance := by
  have opens : opening? token.kind = some .block := by rw [kind]; rfl
  exact Reader.bind_read (takeIf?_takes here opens) _

theorem statement_eq_if (here : cursor.rest = token :: others) (kind : token.kind = .keyword .if)
    {test : Expr} (begun : parenthesized .openAfterIf .closeAfterIfCondition (expression bound)
      cursor.advance = .read test after) :
    statement (bound + 1) cursor =
      (statement bound >>= fun yes => otherBranch test yes (statement bound) : Reader Stmt) after := by
  have opens : opening? token.kind = some .if := by rw [kind]; rfl
  refine (Reader.bind_read (takeIf?_takes here opens) _).trans ?_
  exact (congrFun (restOfIf_eq _ _) _).trans (Reader.bind_read begun _)

theorem statement_eq_while (here : cursor.rest = token :: others) (kind : token.kind = .keyword .while)
    {test : Expr} (begun : parenthesized .openAfterWhile .closeAfterCondition (expression bound)
      cursor.advance = .read test after) :
    statement (bound + 1) cursor = (Stmt.loop test <$> statement bound : Reader Stmt) after := by
  have opens : opening? token.kind = some .while := by rw [kind]; rfl
  refine (Reader.bind_read (takeIf?_takes here opens) _).trans ?_
  exact (congrFun (restOfWhile_eq _ _) _).trans (Reader.bind_read begun _)

theorem statement_eq_for (here : cursor.rest = token :: others) (kind : token.kind = .keyword .for)
    {parts : Option Stmt × Expr × Option Expr}
    (begun : clauses (expression bound) cursor.advance = .read parts after) :
    statement (bound + 1) cursor =
      (forLoop parts.1 parts.2.1 parts.2.2 <$> statement bound : Reader Stmt) after := by
  have opens : opening? token.kind = some .for := by rw [kind]; rfl
  refine (Reader.bind_read (takeIf?_takes here opens) _).trans ?_
  exact (congrFun (restOfFor_eq _ _) _).trans (Reader.bind_read begun _)

theorem otherBranch_else {test : Expr} {yes : Stmt} {inner : Reader Stmt}
    (here : cursor.rest = token :: others) (kind : token.kind = .keyword .else) :
    otherBranch test yes inner cursor = (Stmt.ifElse test yes <$> inner) cursor.advance :=
  Reader.bind_read (takeKind?_takes here kind) _

end Equations

section Stages

/-- A place where a list of declarations, a declaration or a statement is about to be read. -/
inductive Stage where
  | declarations (stop : TokenKind → Bool) (bound rounds : Nat) (done : List Stmt) (cursor : Cursor)
  | declaration (bound : Nat) (cursor : Cursor)
  | statement (bound : Nat) (cursor : Cursor)

def Stage.cursor : Stage → Cursor
  | .declarations _ _ _ _ cursor => cursor
  | .declaration _ cursor => cursor
  | .statement _ cursor => cursor

/-- Where the reading of the phrase ends, be it read or given up. -/
def Stage.final : Stage → Cursor
  | .declarations stop bound rounds done cursor =>
    (statementsUntil stop (Grammar.declaration bound) rounds done cursor).cursor
  | .declaration bound cursor => (Grammar.declaration bound cursor).cursor
  | .statement bound cursor => (Grammar.statement bound cursor).cursor

theorem Stage.onward (stage : Stage) : stage.cursor.Onward stage.final := by
  cases stage with
  | declarations stop bound rounds done cursor =>
    exact (forwards.statementsUntil stop (forwards.declaration bound) rounds done).onward cursor
  | declaration bound cursor => exact (forwards.declaration bound).onward cursor
  | statement bound cursor => exact (forwards.statement bound).onward cursor

def Stage.whole (nextId : Nat) (tokens : List Token) : Stage :=
  .declarations (· == .finish) (enough tokens) (enough tokens) [] (Cursor.start nextId tokens)

/-- The second phrase is read in the course of the first, and none of these comes between them. -/
inductive Stage.Enters : Stage → Stage → Prop
  | attempt {stop : TokenKind → Bool} {bound rounds : Nat} {done : List Stmt} {cursor : Cursor} :
    stop cursor.token.kind = false →
    Enters (.declarations stop bound (rounds + 1) done cursor) (.declaration bound cursor)
  | next {stop : TokenKind → Bool} {bound rounds : Nat} {done : List Stmt} {cursor after : Cursor}
    {found : Option Stmt} : stop cursor.token.kind = false →
    orRecover (Grammar.declaration bound) cursor = .read found after →
    Enters (.declarations stop bound (rounds + 1) done cursor)
      (.declarations stop bound rounds (found.toList ++ done) after)
  | statement {bound : Nat} {cursor : Cursor} : cursor.token.kind ≠ .keyword .var →
    cursor.token.kind ≠ .keyword .fun →
    Enters (.declaration (bound + 1) cursor) (.statement bound cursor)
  | body {bound : Nat} {cursor after : Cursor} {token : Token} {others : List Token}
    {head : Ident × List Ident} : cursor.rest = token :: others → token.kind = .keyword .fun →
    functionHead bound cursor.advance = .read head after →
    Enters (.declaration (bound + 1) cursor) (.declarations endsBlock bound bound [] after)
  | block {bound : Nat} {cursor : Cursor} {token : Token} {others : List Token} :
    cursor.rest = token :: others → token.kind = .symbol .leftBrace →
    Enters (.statement (bound + 1) cursor) (.declarations endsBlock bound bound [] cursor.advance)
  | yes {bound : Nat} {cursor after : Cursor} {token : Token} {others : List Token} {test : Expr} :
    cursor.rest = token :: others → token.kind = .keyword .if →
    parenthesized .openAfterIf .closeAfterIfCondition (expression bound) cursor.advance =
      .read test after →
    Enters (.statement (bound + 1) cursor) (.statement bound after)
  | no {bound : Nat} {cursor middle after : Cursor} {token other : Token} {others more : List Token}
    {test : Expr} {yes : Stmt} : cursor.rest = token :: others → token.kind = .keyword .if →
    parenthesized .openAfterIf .closeAfterIfCondition (expression bound) cursor.advance =
      .read test middle →
    Grammar.statement bound middle = .read yes after → after.rest = other :: more →
    other.kind = .keyword .else →
    Enters (.statement (bound + 1) cursor) (.statement bound after.advance)
  | while {bound : Nat} {cursor after : Cursor} {token : Token} {others : List Token} {test : Expr} :
    cursor.rest = token :: others → token.kind = .keyword .while →
    parenthesized .openAfterWhile .closeAfterCondition (expression bound) cursor.advance =
      .read test after →
    Enters (.statement (bound + 1) cursor) (.statement bound after)
  | for {bound : Nat} {cursor after : Cursor} {token : Token} {others : List Token}
    {parts : Option Stmt × Expr × Option Expr} : cursor.rest = token :: others →
    token.kind = .keyword .for → clauses (expression bound) cursor.advance = .read parts after →
    Enters (.statement (bound + 1) cursor) (.statement bound after)

def Stage.Leads : Stage → Stage → Prop := Relation.ReflTransGen Stage.Enters

theorem final_restOfBlock (bound : Nat) (change : List Stmt → Stmt) (cursor : Cursor) :
    (Stage.declarations endsBlock bound bound [] cursor).final.Onward
      ((change <$> restOfBlock bound (declaration bound) : Reader Stmt) cursor).cursor := by
  have list : (Stage.declarations endsBlock bound bound [] cursor).final.Onward
      (restOfBlock bound (declaration bound) cursor).cursor :=
    .bind (fun _ => .bind (forwards.needSymbol _ _) fun _ => .pure _) _ cursor
  exact list.trans (.bind (fun _ => .pure _) _ cursor)

theorem final_statement (bound : Nat) (change : Stmt → Stmt) (cursor : Cursor) :
    (Stage.statement bound cursor).final.Onward
      ((change <$> statement bound : Reader Stmt) cursor).cursor :=
  .bind (fun _ => .pure _) (statement bound) cursor

theorem Stage.Enters.onward {stage next : Stage} (enters : stage.Enters next) :
    stage.cursor.Onward next.cursor ∧ next.final.Onward stage.final := by
  cases enters with
  -- Behind the attempt and its recovery comes the rest of the list, which goes no way back.
  | @attempt stop bound rounds done cursor goes =>
    have further := forwards.statementsUntil stop (forwards.declaration bound) rounds
    obtain ⟨found, after, read⟩ := orRecover_reads (Grammar.declaration bound) cursor
    refine ⟨.refl cursor, ?_⟩
    simp only [final, statementsUntil_next rounds done goes read]
    exact (orRecover_onward read).trans ((further _).onward after)
  | @next stop bound rounds done cursor after found goes read =>
    refine ⟨(forward_orRecover (forwards.declaration bound)).read read, ?_⟩
    simp only [final, statementsUntil_next rounds done goes read]
    exact .refl _
  | @statement bound cursor noVar noFun =>
    refine ⟨.refl cursor, ?_⟩
    simp only [final, declaration_eq_statement noVar noFun]
    exact .refl _
  | @body bound cursor after token others head here kind begun =>
    refine ⟨(Cursor.Onward.advance cursor).trans ((forward_functionHead bound).read begun), ?_⟩
    simp only [final, declaration_eq_function here kind begun]
    exact final_restOfBlock bound _ after
  | @block bound cursor token others here kind =>
    refine ⟨.advance cursor, ?_⟩
    simp only [final, statement_eq_block here kind]
    exact final_restOfBlock bound _ cursor.advance
  | @yes bound cursor after token others test here kind begun =>
    have head := (forward_parenthesized _ _ (forwards.expression bound)).read begun
    refine ⟨(Cursor.Onward.advance cursor).trans head, ?_⟩
    simp only [final, statement_eq_if here kind begun]
    exact .bind (fun yes => forward_otherBranch test yes (forwards.statement bound)) _ after
  | @no bound cursor middle after token other others more test yes here kind begun readYes next word =>
    have head := (forward_parenthesized _ _ (forwards.expression bound)).read begun
    have branch := (forwards.statement bound).read readYes
    refine ⟨(((Cursor.Onward.advance cursor).trans head).trans branch).trans (.advance after), ?_⟩
    -- That there is an `else` decides what is left to read behind the first branch.
    have last : otherBranch test yes (Grammar.statement bound) after =
      (Stmt.ifElse test yes <$> Grammar.statement bound : Reader Stmt) after.advance :=
      otherBranch_else next word
    simp only [final, statement_eq_if here kind begun, Reader.bind_read readYes, last]
    exact final_statement bound _ after.advance
  | @«while» bound cursor after token others test here kind begun =>
    have head := (forward_parenthesized _ _ (forwards.expression bound)).read begun
    refine ⟨(Cursor.Onward.advance cursor).trans head, ?_⟩
    simp only [final, statement_eq_while here kind begun]
    exact final_statement bound _ after
  | @«for» bound cursor after token others parts here kind begun =>
    have head := (forward_clauses (forwards.expression bound)).read begun
    refine ⟨(Cursor.Onward.advance cursor).trans head, ?_⟩
    simp only [final, statement_eq_for here kind begun]
    exact final_statement bound _ after

/-- Everything that is read lies between the ends of what it is read in the course of. -/
theorem Stage.Leads.onward {stage next : Stage} (leads : stage.Leads next) :
    stage.cursor.Onward next.cursor ∧ next.final.Onward stage.final := by
  induction leads with
  | refl => exact ⟨.refl _, .refl _⟩
  | tail _ enters ih => exact ⟨ih.1.trans enters.onward.1, enters.onward.2.trans ih.2⟩

/-- The tokens that are left pay for the bound: no phrase is given up, and no list left, because of it. -/
def Stage.Ample : Stage → Prop
  | .declarations stop bound rounds _ cursor => stop .finish = true ∧
    cursor.rest.length ≤ rounds ∧ 2 * cursor.rest.length + 4 < bound
  | .declaration bound cursor => 2 * cursor.rest.length + 4 < bound
  | .statement bound cursor => 2 * cursor.rest.length + 3 < bound

theorem Cursor.rest_lt {cursor after : Cursor} {token : Token} {others : List Token}
    (here : cursor.rest = token :: others) (ahead : cursor.advance.Onward after) :
    after.rest.length < cursor.rest.length := by
  have shorter := ahead.rest.length_le
  simp only [advance, here, List.tail_cons] at shorter
  rw [here, List.length_cons]
  omega

theorem Stage.Enters.ample {stage next : Stage} (enters : stage.Enters next)
    (ends : stage.cursor.finish.kind = .finish) (ample : stage.Ample) : next.Ample := by
  cases enters with
  | attempt goes => exact ample.2.2
  | @next stop bound rounds done cursor after found goes read =>
    obtain ⟨stops, room, enough⟩ := ample
    -- An attempt takes a token, which pays for the round.
    have less : after.rest.length < cursor.rest.length :=
      orRecover_length_lt (forwards.declaration bound) (closes_declaration_statement bound).1
        (Cursor.rest_ne_nil_of_goes stops ends goes) read
    exact ⟨stops, by omega, by omega⟩
  | statement noVar noFun =>
    simp only [Ample] at ample ⊢
    omega
  | @body bound cursor after token others head here kind begun =>
    -- The keyword has been taken, which pays for one more level.
    have less := Cursor.rest_lt here ((forward_functionHead bound).read begun)
    simp only [Ample] at ample ⊢
    exact ⟨rfl, by omega, by omega⟩
  | @block bound cursor token others here kind =>
    have less := Cursor.rest_lt here (.refl _)
    simp only [Ample] at ample ⊢
    exact ⟨rfl, by omega, by omega⟩
  | @yes bound cursor after token others test here kind begun
  | @«while» bound cursor after token others test here kind begun =>
    have less := Cursor.rest_lt here
      ((forward_parenthesized _ _ (forwards.expression bound)).read begun)
    simp only [Ample] at ample ⊢
    omega
  | @no bound cursor middle after token other others more test yes here kind begun readYes next word =>
    have head := (forward_parenthesized _ _ (forwards.expression bound)).read begun
    have less := Cursor.rest_lt here
      ((head.trans ((forwards.statement bound).read readYes)).trans (.advance after))
    simp only [Ample] at ample ⊢
    omega
  | @«for» bound cursor after token others parts here kind begun =>
    have less := Cursor.rest_lt here ((forward_clauses (forwards.expression bound)).read begun)
    simp only [Ample] at ample ⊢
    omega

theorem Stage.Leads.ample {stage next : Stage} (leads : stage.Leads next)
    (ends : stage.cursor.finish.kind = .finish) (ample : stage.Ample) : next.Ample := by
  induction leads with
  | refl => exact ample
  | tail leads enters ih => exact enters.ample ((Leads.onward leads).1.finish ▸ ends) ih

end Stages
end LoxLang.Grammar

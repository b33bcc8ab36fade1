import LoxLang.Proofs.Grammar.Reports
import LoxLang.Proofs.Grammar.Stretches
import LoxLang.Proofs.Scanning.Places
import LoxLang.Proofs.Scoping.Reports
import LoxLang.Proofs.Sessions.Atomicity
import LoxLang.Proofs.Sessions.Faults
import LoxLang.Proofs.Sessions.Origins
import LoxLang.Proofs.Sessions.Reading

/-!
Diagnostics point at what they are about. A static fault has the line of the character or of the token
that it is about, and a runtime fault that of the token which stands for the node that raises it, in
the source that the node was read from.
-/
namespace LoxLang

open Grammar

/-- Of the tokens of a node, the one that a fault of the node is about. -/
inductive Marks : Expr → List Token → Token → RuntimeCause → Prop
  | operand {id : Nat} {sign : Token} {operand : Expr} {tokens : List Token} :
    sign.kind = .symbol .minus → Spells operand tokens →
    Marks (.unary ⟨id, sign.line⟩ .negative operand) (sign :: tokens) sign .operandNotNumber
  | numbers {id : Nat} {op : BinaryOp} {sign : Token} {left right : Expr}
    {before after : List Token} : op ≠ .add ∧ op ≠ .equal ∧ op ≠ .notEqual → sign.kind = op.kind →
    Spells left before → Spells right after →
    Marks (.binary ⟨id, sign.line⟩ op left right) (before ++ sign :: after) sign .operandsNotNumbers
  | sum {id : Nat} {sign : Token} {left right : Expr} {before after : List Token} :
    sign.kind = .symbol .plus → Spells left before → Spells right after →
    Marks (.binary ⟨id, sign.line⟩ .add left right) (before ++ sign :: after) sign
      .operandsNotNumbersOrStrings
  | read {id : Nat} {token : Token} : token.kind = .identifier →
    Marks (.variable ⟨id, token.line⟩ token.lexeme) [token] token (.undefinedVariable token.lexeme)
  | assigned {id : Nat} {token sign : Token} {value : Expr} {tokens : List Token} :
    token.kind = .identifier → sign.kind = .symbol .equal → Spells value tokens →
    Marks (.assign ⟨id, token.line⟩ token.lexeme value) (token :: sign :: tokens) token
      (.undefinedVariable token.lexeme)
  | call {id : Nat} {opening closing : Token} {callee : Expr} {arguments : List Expr}
    {before inside : List Token} {cause : RuntimeCause} :
    cause = .notCallable ∨ (∃ expected actual, cause = .arityMismatch expected actual) →
    Spells callee before → opening.kind = .symbol .leftParen → Listed Spells arguments inside →
    closing.kind = .symbol .rightParen →
    Marks (.call ⟨id, closing.line⟩ callee arguments) (before ++ opening :: (inside ++ [closing]))
      closing cause

section Marking

variable {node : Expr} {own : List Token} {token : Token} {cause : RuntimeCause}

theorem Marks.mem (marks : Marks node own token cause) : token ∈ own := by
  cases marks <;> simp

theorem Marks.line (marks : Marks node own token cause) : node.site.line = token.line := by
  cases marks <;> rfl

theorem Raises.evaluating {moment : Moment} {site : Site} (raises : Raises moment site cause) :
    ∃ bound initializing node machine, moment = .evaluating bound initializing node machine ∧
      node.site = site := by
  cases raises <;> exact ⟨_, _, _, _, rfl, rfl⟩

/-- A node that raises a fault has a token for it. -/
theorem Raises.marks {bound : Nat} {initializing : Option Ident} {machine : Machine} {site : Site}
    (raises : Raises (.evaluating bound initializing node machine) site cause)
    (spells : Spells node own) : ∃ token, Marks node own token cause := by
  cases raises with
  | unread _ =>
    cases spells with
    | «variable» kind => exact ⟨_, .read kind⟩
  | unassigned _ _ =>
    cases spells with
    | assign kind equal value => exact ⟨_, .assigned kind equal value⟩
  | operand _ refused =>
    obtain ⟨rfl, rfl⟩ := UnaryOp.apply_eq_error refused
    cases spells with
    | unary kind operand => exact ⟨_, .operand kind operand⟩
  | operands _ _ refused =>
    cases spells with
    | binary left kind right =>
      rcases BinaryOp.apply_eq_error refused with ⟨rfl, rfl⟩ | ⟨plus, equal, different, rfl⟩
      · exact ⟨_, .sum kind left right⟩
      · exact ⟨_, .numbers ⟨plus, equal, different⟩ kind left right⟩
  | refused _ _ reason =>
    cases spells with
    | call callee opens listed closes =>
      exact ⟨_, .call (ValueOver.refusal?_eq_some reason) callee opens listed closes⟩

end Marking
section Words

variable {tokens : List Token} {nodes : List Expr} {words : List Ident} {word : Ident}

theorem Grammar.Covers.pointed (covers : Covers tokens nodes words)
    (pointed : Pointed nodes words word) : ∃ token ∈ tokens, IsWord token word := by
  cases pointed with
  | word member => exact covers.words word member
  | read member =>
    rcases covers.nodes _ member with ⟨site, understood⟩ | ⟨own, inside, spells⟩
    · cases understood
    · cases spells with
      | «variable» kind => exact ⟨_, inside.subset (List.mem_singleton.mpr rfl), .name kind⟩

theorem Grammar.IsWord.fault {source : String} {token : Token} {fault : StaticFault}
    (here : IsWord token word) (member : token ∈ Scanned.tokens (scan source))
    (points : fault.AtWord word) : fault.At token := by
  cases here with
  | name kind => exact ⟨points.line, points.place.trans (by rw [Token.place, kind])⟩
  | «return» kind =>
    have spelling := lexeme_of_keyword member kind
    exact ⟨points.line, points.place.trans (by rw [Token.place, kind, spelling])⟩

end Words
section Reports

variable {session : Session} {source : String}

theorem parse_faults_of_scan (session : Session) (source : String) :
    ∀ fault ∈ (parse session.nextId (Scanned.tokens (scan source))).faults,
      ∃ token ∈ Scanned.tokens (scan source), fault.At token := by
  obtain ⟨finish, ends⟩ := finish_of_scan source
  exact parse_faults ends session.nextId

theorem beforeFinish_within (tokens : List Token) : beforeFinish tokens <:+: tokens :=
  (List.takeWhile_prefix _).isInfix

theorem Session.reports_at (session : Session) (source : String) :
    ∃ others, session.reports source =
        (Scanned.faults (scan source)).map ScanFault.static ++ others ∧
      ∀ fault ∈ others, ∃ token ∈ Scanned.tokens (scan source), fault.At token := by
  unfold Session.reports
  dsimp only
  split
  · rename_i silent
    obtain ⟨lexical, syntactic⟩ := List.append_eq_nil_iff.mp silent
    refine ⟨_, by rw [lexical]; rfl, fun fault member => ?_⟩
    -- what is resolved at all has been read without a fault
    have derives := derives_of_parse (fun token member => ⟨source, member⟩)
      (if_pos (List.isEmpty_iff.mpr syntactic))
    obtain ⟨word, pointed, points⟩ := resolve_faults fault member
    obtain ⟨token, inside, isWord⟩ := derives.covers.pointed pointed
    have among := (beforeFinish_within _).subset inside
    exact ⟨token, among, isWord.fault among points⟩
  · exact ⟨_, rfl, parse_faults_of_scan session source⟩

theorem Session.rejected_reports {bound : Nat} {manner : Manner} {faults : List StaticFault}
    (rejected : (session.runAs bound manner source).1 = .rejected faults) :
    faults = session.reports source := by
  by_cases silent : session.reports source = []
  · obtain ⟨program, distances, accepts⟩ := accepts_of_silent silent
    have ran := ran_of_accepts accepts bound manner
    rw [rejected] at ran
    cases ran
  · rw [runAs_of_reports silent] at rejected
    cases rejected
    rfl

theorem Session.accepts_of_failed {bound : Nat} {manner : Manner} {fault : RuntimeFault}
    (failed : (session.runAs bound manner source).1 = .failed fault) :
    ∃ program distances, session.Accepts source program distances := by
  apply accepts_of_silent
  by_contra found
  rw [runAs_of_reports found] at failed
  cases failed

/-- Whatever node of an accepted source raises a fault, its tokens lie in the source. -/
theorem Session.Accepts.marks {program : Program} {distances : Distances} {node : Expr}
    (accepts : session.Accepts source program distances) (member : node ∈ Stmt.nodesAll program)
    {bound : Nat} {initializing : Option Ident} {machine : Machine} {site : Site}
    {cause : RuntimeCause} (raises : Raises (.evaluating bound initializing node machine) site cause) :
    ∃ own token, own <:+: Scanned.tokens (scan source) ∧ Marks node own token cause := by
  rcases accepts.derives.covers.nodes node member with ⟨site, rfl⟩ | ⟨own, inside, spells⟩
  · cases raises
  · obtain ⟨token, marks⟩ := raises.marks spells
    exact ⟨own, token, inside.trans (beforeFinish_within _), marks⟩

end Reports

/-- The items of every scan lie where their lines say. A source that is rejected is so for the faults of
its scan and for faults that each stand at one of its tokens. And a run that fails does so at a node of a
source that was accepted before, or of its own, and with the line of the token there that the fault is
about. -/
theorem diagnostics_point_at_causes (clock : Nat → Float) (before : List Submission)
    (submission : Submission) :
    let fresh := Session.fresh clock
    let session := (fresh.submit before).2
    let outcome := (session.runAs submission.bound submission.manner submission.source).1
    (∀ source, ∃ placed, placed.map Prod.snd = scan source ∧ Tiles 0 source.toList placed ∧
      ∀ item ∈ placed, ∃ front back, source.toList = front ++ back ∧ item.1 = front.length ∧
        item.2.Begins back ∧ item.2.OnLine front source.toList) ∧
    (∀ faults, outcome = .rejected faults → ∃ others,
      faults = (Scanned.faults (scan submission.source)).map ScanFault.static ++ others ∧
      ∀ fault ∈ others, ∃ token ∈ Scanned.tokens (scan submission.source), fault.At token) ∧
    ∀ fault, outcome = .failed fault →
      ∃ source earlier found node own token,
        fresh.Took (before ++ [submission]) source earlier found ∧ node ∈ Stmt.nodesAll earlier ∧
        own <:+: Scanned.tokens (scan source) ∧ Marks node own token fault.cause ∧
        fault.line = token.line ∧
        ∃ program distances first bound initializing machine,
          session.Accepts submission.source program distances ∧
          Begins submission.bound submission.manner program
            (session.machine.addDistances distances) first ∧
          Reaches first (.evaluating bound initializing node machine) ∧
          Raises (.evaluating bound initializing node machine) node.site fault.cause := by
  intro fresh session outcome
  refine ⟨scan_onLine, fun faults rejected => ?_, fun fault failed => ?_⟩
  · rw [Session.rejected_reports rejected]
    exact session.reports_at submission.source
  · obtain ⟨program, distances, accepts⟩ := Session.accepts_of_failed failed
    obtain ⟨site, cause, ⟨first, moment, begins, reaches, raises⟩, rfl⟩ :=
      (Session.failed_iff accepts).mp failed
    obtain ⟨bound, initializing, node, machine, rfl, rfl⟩ := raises.evaluating
    -- the node was read from some source of the session, and has its tokens there
    obtain ⟨_, earlier, ⟨source, found, took⟩, inside⟩ := Session.origin
      (Machine.known_withNatives clock) before submission accepts begins reaches
    have member := inside node.self_mem_nodes
    obtain ⟨own, token, among, marks⟩ : ∃ own token, own <:+: Scanned.tokens (scan source) ∧
        Marks node own token cause := by
      obtain ⟨_, _, _, _, rfl, taken⟩ := took
      exact taken.marks member raises
    exact ⟨source, earlier, found, node, own, token, took, member, among, marks, marks.line,
      program, distances, first, bound, initializing, machine, accepts, begins, reaches, raises⟩

/-- A source with a stray character and a missing operand; and a function of an earlier source, which
fails on the line that it has there. -/
theorem diagnostics_point_at_causes_earlier :
    let fresh := Session.fresh fun _ => 0
    let declared : Submission := ⟨9, .script, "fun f(a)\n{ return -a; }"⟩
    let broken : Submission := ⟨9, .prompt, "1 +\n; ?"⟩
    let called : Submission := ⟨9, .prompt, "f(nil);"⟩
    (∃ faults others, ((fresh.submit [declared]).2.runAs 9 .prompt broken.source).1 = .rejected faults ∧
      faults.map (·.text) =
        ["[line 2] Error: Unexpected character.", "[line 2] Error at ';': Expect expression."] ∧
      faults = (Scanned.faults (scan broken.source)).map ScanFault.static ++ others ∧
      ∀ fault ∈ others, ∃ token ∈ Scanned.tokens (scan broken.source), fault.At token) ∧
    ∃ source earlier found node own token, fresh.Took [declared, called] source earlier found ∧
      node ∈ Stmt.nodesAll earlier ∧ own <:+: Scanned.tokens (scan source) ∧
      Marks node own token .operandNotNumber ∧ token.line = 2 := by
  intro fresh declared broken called
  obtain ⟨_, rejections, _⟩ := diagnostics_point_at_causes (fun _ => 0) [declared] broken
  obtain ⟨_, _, failures⟩ := diagnostics_point_at_causes (fun _ => 0) [declared] called
  constructor
  · let faults := (fresh.submit [declared]).2.reports broken.source
    have texts : faults.map (·.text) =
        ["[line 2] Error: Unexpected character.", "[line 2] Error at ';': Expect expression."] := by
      decide +kernel
    have rejected : ((fresh.submit [declared]).2.runAs 9 .prompt broken.source).1 =
        .rejected faults := by
      decide +kernel
    obtain ⟨others, same, placed⟩ := rejections faults rejected
    exact ⟨faults, others, rejected, texts, same, placed⟩
  · have failed : ((fresh.submit [declared]).2.runAs 9 .prompt called.source).1 =
        .failed ⟨.operandNotNumber, 2⟩ := by
      decide +kernel
    obtain ⟨source, earlier, found, node, own, token, took, member, among, marks, line, _⟩ :=
      failures _ failed
    exact ⟨source, earlier, found, node, own, token, took, member, among, marks, line.symm⟩

end LoxLang

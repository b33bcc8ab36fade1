import Mathlib
import LoxLang.CommandLine
import LoxLang.Proofs.Evaluation.Printing
import LoxLang.Proofs.Sessions.Loading

/-!
What the whole program prints and which code it ends with. Lines typed to it are cut out of the input
and answered in order by one session; a prompt that is printed in between does not disturb them.
-/
namespace LoxLang

namespace Session

def withOutput (shown : String) (session : Session) : Session :=
  { session with machine := { session.machine with output := shown } }

/-- A source does the same and prints the same, whatever has been printed before. -/
theorem runAs_withOutput (session : Session) (bound : Nat) (manner : Manner) (source : String) :
    ∃ outcome middle printed, ∀ shown, (session.withOutput shown).runAs bound manner source =
      (outcome, withOutput (shown ++ printed) middle) := by
  let ran := session.cleared.runAs bound manner source
  refine ⟨ran.1, ran.2, ran.2.output, fun shown => ?_⟩
  have behind : (session.withOutput shown).machine = session.cleared.machine.behind shown := by
    simp [withOutput, cleared, Machine.behind]
  have verdict : (session.withOutput shown).verdict source = session.cleared.verdict source := rfl
  simp only [ran, runAs_eq, verdict, behind]
  cases session.cleared.verdict source with
  | error faults => rfl
  | ok distances =>
    have same : (session.withOutput shown).read source = session.cleared.read source := rfl
    simp only [same, start_behind]
    rfl

/-- What becomes of a line, and what it prints. -/
structure Answer where
  outcome : Outcome
  printed : String

/-- The session takes the lines one after the other and answers each. -/
inductive Answers (bound : Nat) : Session → List String → List Answer → Session → Prop
  | nil {session : Session} : Answers bound session [] [] session
  | cons {session middle after : Session} {line : String} {lines : List String} {answer : Answer}
    {answers : List Answer} : session.runLine bound line = (answer.outcome, middle) →
    middle.output = session.output ++ answer.printed → Answers bound middle lines answers after →
    Answers bound session (line :: lines) (answer :: answers) after

theorem answers_exist (bound : Nat) (session : Session) (lines : List String) :
    ∃ answers after, session.Answers bound lines answers after := by
  induction lines generalizing session with
  | nil => exact ⟨[], session, .nil⟩
  | cons line lines ih =>
    obtain ⟨outcome, middle, printed, runs⟩ := session.runAs_withOutput bound .prompt line
    obtain ⟨answers, after, further⟩ := ih (middle.withOutput (session.output ++ printed))
    exact ⟨⟨outcome, printed⟩ :: answers, after, .cons (runs session.output) rfl further⟩

theorem runLine_withOutput {session middle : Session} {bound : Nat} {line printed : String}
    {outcome : Outcome} (ran : session.runLine bound line = (outcome, middle))
    (more : middle.output = session.output ++ printed) (shown : String) :
    (session.withOutput shown).runLine bound line =
      (outcome, middle.withOutput (shown ++ printed)) := by
  obtain ⟨other, after, text, runs⟩ := session.runAs_withOutput bound .prompt line
  have here := (runs session.output).symm.trans ran
  cases here
  have same : text = printed := (String.append_right_inj _).mp more
  subst same
  exact runs shown

end Session

namespace CommandLine

section Cutting

/-- The input cut behind every line break. Only the last piece can be without one. -/
inductive Cut : Bytes → List Bytes → Prop
  | nil : Cut [] []
  | last {piece : Bytes} : piece ≠ [] → 10 ∉ piece → Cut piece [piece]
  | line {front rest : Bytes} {others : List Bytes} : 10 ∉ front → Cut rest others →
    Cut (front ++ 10 :: rest) ((front ++ [10]) :: others)

variable {input piece front : Bytes} {cuts done : List Bytes}

theorem Cut.flatten (cut : Cut input cuts) : cuts.flatten = input := by
  induction cut with
  | nil => rfl
  | last some none => simp
  | line none _ ih => simp [ih]

theorem cutFrom_append (none : 10 ∉ front) (piece : Bytes) (done : List Bytes) (rest : Bytes) :
    cutFrom piece done (front ++ rest) = cutFrom (front.reverse ++ piece) done rest := by
  induction front generalizing piece with
  | nil => rfl
  | cons byte front ih =>
    rw [List.mem_cons, not_or] at none
    rw [List.cons_append, cutFrom, if_neg (Ne.symm none.1), ih none.2]
    simp

theorem Cut.cutFrom_eq (cut : Cut input cuts) (done : List Bytes) :
    cutFrom [] done input = done.reverse ++ cuts := by
  induction cut generalizing done with
  | nil => simp [cutFrom]
  | @last piece some none =>
    have cut := cutFrom_append none [] done []
    rw [List.append_nil, List.append_nil] at cut
    rw [cut, cutFrom]
    simp [some]
  | line none _ ih =>
    rw [cutFrom_append none, cutFrom, if_pos rfl, ih]
    simp

theorem exists_cut (front rest : Bytes) (none : 10 ∉ front) : ∃ cuts, Cut (front ++ rest) cuts := by
  induction rest generalizing front with
  | nil =>
    rw [List.append_nil]
    by_cases empty : front = []
    · rw [empty]
      exact ⟨[], .nil⟩
    · exact ⟨[front], .last empty none⟩
  | cons byte rest ih =>
    by_cases ends : byte = 10
    · obtain ⟨cuts, cut⟩ := ih [] (by simp)
      rw [ends]
      exact ⟨_, .line none cut⟩
    · obtain ⟨cuts, cut⟩ := ih (front ++ [byte]) (by simp [none, Ne.symm ends])
      rw [List.append_assoc] at cut
      exact ⟨cuts, cut⟩

/-- There is one way to cut it, and that is how the prompt does. -/
theorem cut_iff : Cut input cuts ↔ cuts = pieces input := by
  have only {cuts : List Bytes} (cut : Cut input cuts) : cuts = pieces input :=
    (cut.cutFrom_eq []).symm
  constructor
  · exact only
  · intro same
    obtain ⟨others, cut⟩ := exists_cut [] input (by simp)
    rw [same, ← only cut]
    exact cut

end Cutting

section Prompting

variable {bound : Nat} {session after : Session} {lines : List String}
  {answers : List Session.Answer}

/-- What a session that answers these lines leaves on the screen. -/
def shownFor (answers : List Session.Answer) : String :=
  String.join (answers.map fun answer => "> " ++ answer.printed)

def complaintsFor (answers : List Session.Answer) : String :=
  String.join ((answers.flatMap (·.outcome.diagnostics)).map (·.text ++ "\n"))

theorem report_eq (diagnostics : List Diagnostic) :
    Diagnostic.report diagnostics = String.join (diagnostics.map (·.text ++ "\n")) := by
  rw [String.join_eq_foldl, List.foldl_map]
  simp only [Diagnostic.report, String.append_assoc]

theorem runPrompt_line {line : String} {outcome : Outcome} {console answered : Console}
    (ran : answerLine bound line (console.present promptText) = (outcome, answered))
    (ended : outcome ≠ .unfinished) (rest : List Bytes) :
    runPrompt bound (.ofText line :: rest) console = runPrompt bound rest answered := by
  rw [runPrompt, Bytes.text?_eq_some.mpr rfl]
  simp only [ran]

/-- Pieces that are text are answered; the prompts stand among what the lines print. -/
theorem runPrompt_answers (answered : session.Answers bound lines answers after)
    (ended : ∀ answer ∈ answers, answer.outcome ≠ .unfinished) (rest : List Bytes)
    (shown complaints : String) :
    runPrompt bound (lines.map .ofText ++ rest) ⟨session.withOutput shown, complaints⟩ =
      runPrompt bound rest
        ⟨after.withOutput (shown ++ shownFor answers), complaints ++ complaintsFor answers⟩ := by
  induction answered generalizing shown complaints with
  | nil => simp [shownFor, complaintsFor]
  | @cons session middle after line lines answer answers ran more _ ih =>
    have prompted : (Console.present promptText ⟨session.withOutput shown, complaints⟩).session =
        session.withOutput (shown ++ "> ") := rfl
    have next : answerLine bound line
        (Console.present promptText ⟨session.withOutput shown, complaints⟩) =
        (answer.outcome, ⟨middle.withOutput (shown ++ "> " ++ answer.printed),
          complaints ++ Diagnostic.report answer.outcome.diagnostics⟩) := by
      rw [answerLine, prompted, Session.runLine_withOutput ran more]
      rfl
    obtain ⟨here, further⟩ := List.forall_mem_cons.mp ended
    rw [List.map_cons, List.cons_append, runPrompt_line next here, ih further]
    simp [shownFor, complaintsFor, report_eq, String.append_assoc]

theorem texts_or_not (cuts : List Bytes) : ∃ lines : List String,
    cuts = lines.map .ofText ∨ ∃ piece rest, cuts = lines.map .ofText ++ piece :: rest ∧
      ∀ line, piece ≠ .ofText line := by
  induction cuts with
  | nil => exact ⟨[], .inl rfl⟩
  | cons first others ih =>
    by_cases text : ∃ line, first = .ofText line
    · obtain ⟨line, rfl⟩ := text
      obtain ⟨lines, rfl | ⟨piece, rest, rfl, broken⟩⟩ := ih
      · exact ⟨line :: lines, .inl rfl⟩
      · exact ⟨line :: lines, .inr ⟨piece, rest, rfl, broken⟩⟩
    · exact ⟨[], .inr ⟨first, others, rfl, not_exists.mp text⟩⟩

theorem runPrompt_finishes (answered : session.Answers bound lines answers after)
    (ended : ∀ answer ∈ answers, answer.outcome ≠ .unfinished) :
    runPrompt bound (lines.map .ofText) ⟨session, ""⟩ =
      ⟨some 0, session.output ++ shownFor answers ++ "> ", complaintsFor answers⟩ := by
  have answers := runPrompt_answers answered ended [] session.output ""
  rw [List.append_nil] at answers
  refine answers.trans ?_
  rw [String.empty_append]
  rfl

theorem runPrompt_breaks (answered : session.Answers bound lines answers after)
    (ended : ∀ answer ∈ answers, answer.outcome ≠ .unfinished) {piece : Bytes}
    (broken : ∀ line, piece ≠ .ofText line) (rest : List Bytes) :
    runPrompt bound (lines.map .ofText ++ piece :: rest) ⟨session, ""⟩ =
      ⟨some 1, session.output ++ shownFor answers ++ "> ",
        complaintsFor answers ++ (Failure.input .notText).report⟩ := by
  refine (runPrompt_answers answered ended (piece :: rest) session.output "").trans ?_
  rw [runPrompt, Bytes.text?_eq_none.mpr broken, String.empty_append]
  rfl

end Prompting

section Preparing

variable {bound : Nat} {clock : Nat → Float} {prelude : Option String} {files : Files}
  {session : Session}

/-- Lines and scripts get a new session, or the one that is left when the scripts before them have all
been run. -/
inductive Prepared (bound : Nat) (clock : Nat → Float) (files : Files) :
    Option String → Session → Prop
  | absent : Prepared bound clock files none (.fresh clock)
  | unnamed : Prepared bound clock files (some "") (.fresh clock)
  | loaded {directory : String} {session : Session} : directory ≠ "" →
    Startup.loading bound files directory (.fresh clock) = (.through, session) →
    Prepared bound clock files (some directory) session

theorem Prepared.start_eq (prepared : Prepared bound clock files prelude session) (input : Bytes)
    (script : Option Path) :
    start bound files input script ((prelude.filter (· != "")).map .ofText) (.fresh clock) =
      runMain bound files input script ⟨session, ""⟩ := by
  cases prepared with
  | absent => rfl
  | unnamed => rfl
  | @loaded directory session named loads =>
    rw [filter_named named, Option.map_some, start]
    simp only [loads]

end Preparing

section Scripts

variable {bound : Nat} {source : String} {session : Session} {outcome : Outcome}

theorem exitCode_eq_static :
    exitCode? (session.run bound source).1 = some 64 ↔ session.reports source ≠ [] := by
  by_cases silent : session.reports source = []
  · obtain ⟨program, distances, accepts⟩ := Session.accepts_of_silent silent
    have kept : (session.run bound source).1.isRejected = false :=
      Session.ran_of_accepts accepts bound .script
    cases outcome : (session.run bound source).1 with
    | rejected faults => simp [outcome, Outcome.isRejected] at kept
    | _ => simp [exitCode?, silent]
  · rw [Session.run, Session.runAs_of_reports silent]
    simp [exitCode?, silent]

theorem exitCode_eq_runtime :
    exitCode? outcome = some 70 ↔ ∃ fault, outcome = .failed fault := by
  cases outcome <;> simp [exitCode?]

theorem exitCode_eq_zero (ended : outcome ≠ .unfinished) (accepted : exitCode? outcome ≠ some 64)
    (unharmed : exitCode? outcome ≠ some 70) : exitCode? outcome = some 0 := by
  cases outcome with
  | finished => rfl
  | rejected faults => exact absurd rfl accepted
  | failed fault => exact absurd rfl unharmed
  | unfinished => exact absurd rfl ended

end Scripts

/-- The transcript of the program. Without a script it answers the pieces of the input, each behind a
prompt, until one of them is not text; with a script its code tells how that has ended; and with more
arguments it does nothing. Of lines and scripts that do not end nothing is said. -/
theorem transcript_exact (bound : Nat) (clock : Nat → Float) (prelude : Option String)
    (files : Files) :
    (∀ session, Prepared bound clock files prelude session →
      (∀ input, ∃ cuts lines answers after, (∀ others, Cut input others ↔ others = cuts) ∧
        cuts.flatten = input ∧ session.Answers bound lines answers after ∧
        let shown := session.output ++ shownFor answers ++ "> "
        (cuts = lines.map .ofText ∧
            ((∀ answer ∈ answers, answer.outcome ≠ .unfinished) →
              run bound clock [] prelude files input = ⟨some 0, shown, complaintsFor answers⟩) ∨
          ∃ piece rest, cuts = lines.map .ofText ++ piece :: rest ∧
            (∀ line, piece ≠ .ofText line) ∧
            ((∀ answer ∈ answers, answer.outcome ≠ .unfinished) →
              run bound clock [] prelude files input =
                ⟨some 1, shown, complaintsFor answers ++ (Failure.input .notText).report⟩))) ∧
      ∀ path source input, files.read (.ofText path) = .ok (.ofText source) →
        let ran := session.run bound source
        let ended := run bound clock [path] prelude files input
        ended.stdout = ran.2.output ∧
          ended.stderr = String.join (ran.1.diagnostics.map (·.text ++ "\n")) ∧
          (ended.exit? = some 64 ↔ session.reports source ≠ []) ∧
          (session.reports source ≠ [] → ran.2.machine = session.machine) ∧
          (ended.exit? = some 70 ↔ ∃ fault, ran.1 = .failed fault) ∧
          (ran.1 ≠ .unfinished → ended.exit? ≠ some 64 → ended.exit? ≠ some 70 →
            ended.exit? = some 0)) ∧
    ∀ arguments input, 2 ≤ arguments.length →
      run bound clock arguments prelude files input =
        ⟨some 64, "", "Usage: loxwalk [script]\n"⟩ := by
  refine ⟨fun session prepared => ⟨fun input => ?typed, ?script⟩, ?surplus⟩
  -- There is only one cut. The lines are its pieces as far as they are text.
  case typed =>
    obtain ⟨lines, cases⟩ := texts_or_not (pieces input)
    obtain ⟨answers, after, answered⟩ := session.answers_exist bound lines
    refine ⟨pieces input, lines, answers, after, fun others => cut_iff, (cut_iff.mpr rfl).flatten,
      answered, ?_⟩
    have prompts : run bound clock [] prelude files input =
        runPrompt bound (pieces input) ⟨session, ""⟩ := prepared.start_eq input none
    rw [prompts]
    rcases cases with texts | ⟨piece, rest, texts, broken⟩
    · refine .inl ⟨texts, fun ended => ?_⟩
      rw [texts]
      exact runPrompt_finishes answered ended
    · refine .inr ⟨piece, rest, texts, broken, fun ended => ?_⟩
      rw [texts]
      exact runPrompt_breaks answered ended broken rest
  -- A file that is text is run as that text, and the code tells how the run has ended.
  case script =>
    intro path source input found ran ended
    have readable : textOf (files.read (.ofText path)) = .ok source :=
      Startup.textOf_ok.mpr found
    have ends : ended = ⟨exitCode? ran.1, ran.2.output, Diagnostic.report ran.1.diagnostics⟩ := by
      refine (prepared.start_eq input (some (.ofText path))).trans ?_
      rw [runMain, runScript, readable]
      simp [Console.complain, Console.finish, ran]
    rw [ends]
    refine ⟨rfl, report_eq _, exitCode_eq_static, ?_, exitCode_eq_runtime, exitCode_eq_zero⟩
    intro rejected
    show (session.runAs bound .script source).2.machine = session.machine
    rw [Session.runAs_of_reports rejected]
  case surplus =>
    intro arguments input many
    cases arguments with
    | nil => simp at many
    | cons first others =>
      cases others with
      | nil => simp at many
      | cons second others => rfl

/-- A line that is text and one that is not; a script that does not parse; and two of them. -/
theorem transcript_exact_broken :
    let tree : FileTree := ⟨[(.ofText "a" :: FileTree.working, .file (.ok [40]))]⟩
    let clock : Nat → Float := fun _ => 0
    run 9 clock [] none tree ((.ofText "print \"b\";\n" : Bytes) ++ [255]) =
        ⟨some 1, "> b\n> ", "Error: stream did not contain valid UTF-8\n"⟩ ∧
      (run 9 clock ["a"] none tree []).exit? = some 64 ∧
      (run 9 clock ["a", "a"] none tree []).exit? = some 64 := by
  intro tree clock
  have read : tree.files.read "a" = .ok (.ofText "(") := by decide +kernel
  have broken : ∀ line, ([255] : Bytes) ≠ Bytes.ofText line :=
    Bytes.text?_eq_none.mp (show Bytes.text? [255] = none by decide +kernel)
  have found : (Session.fresh clock).reports "(" ≠ [] := by decide +kernel
  have printed : ((Session.fresh clock).runLine 9 "print \"b\";\n").1 = .finished ∧
      ((Session.fresh clock).runLine 9 "print \"b\";\n").2.output = "b\n" := by decide +kernel
  obtain ⟨prepared, surplus⟩ := transcript_exact 9 clock none tree
  obtain ⟨typed, script⟩ := prepared (.fresh clock) .absent
  obtain ⟨_, _, code, _⟩ := script "a" "(" [] read
  refine ⟨?_, code.mpr found, ?_⟩
  · obtain ⟨cuts, lines, answers, after, only, _, answered, ends⟩ :=
      typed ((.ofText "print \"b\";\n" : Bytes) ++ [255])
    have cut : [(.ofText "print \"b\";\n" : Bytes), [255]] = cuts :=
      (only _).mp (cut_iff.mpr (by decide +kernel))
    subst cut
    -- The second piece is no text, so this is the second case, with one line answered before it.
    rcases ends with ⟨texts, _⟩ | ⟨piece, rest, texts, notText, ended⟩
    · have member : ([255] : Bytes) ∈ lines.map Bytes.ofText := by simp [← texts]
      obtain ⟨line, _, same⟩ := List.mem_map.mp member
      exact absurd same.symm (broken line)
    · cases lines with
      | nil => exact absurd (List.cons.inj texts).1.symm (notText _)
      | cons first others =>
        obtain ⟨same, behind⟩ := List.cons.inj texts
        cases Bytes.ofText_inj same
        cases others with
        | cons second others => exact absurd (List.cons.inj behind).1 (broken second)
        | nil =>
          cases answered with
          | @cons _ middle _ _ _ answer _ ran more further =>
            cases further
            have finished : answer.outcome = .finished := by
              rw [← printed.1, ran]
            have text : answer.printed = "b\n" := by
              have same := printed.2
              rw [ran, more] at same
              rwa [show (Session.fresh clock).output = "" from rfl, String.empty_append] at same
            refine (ended (by simp [finished])).trans ?_
            simp only [shownFor, complaintsFor, List.map_cons, List.map_nil, List.flatMap_cons,
              List.flatMap_nil, finished, text]
            decide +kernel
  · rw [surplus ["a", "a"] [] (by decide)]

end CommandLine
end LoxLang

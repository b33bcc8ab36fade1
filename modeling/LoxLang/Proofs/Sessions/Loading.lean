import Mathlib
import LoxLang.CommandLine
import LoxLang.Proofs.Files.Listing
import LoxLang.Proofs.Sessions.Atomicity

/-!
The scripts that are run before anything else. Which they are and how they are ordered depends on the
names alone; they run one after the other in one session, and the first that fails is the last.
Listing and reading are functions of their own, so any file may be listed and yet not be read.
-/
namespace LoxLang

theorem Session.faults_of_rejected {session after : Session} {bound : Nat} {manner : Manner}
    {source : String} {faults : List StaticFault}
    (ran : session.runAs bound manner source = (.rejected faults, after)) : faults ≠ [] := by
  by_cases silent : session.reports source = []
  · obtain ⟨program, distances, accepts⟩ := accepts_of_silent silent
    have kept := ran_of_accepts accepts bound manner
    rw [ran] at kept
    cases kept
  · rw [runAs_of_reports silent] at ran
    cases ran
    exact silent

theorem Failure.report_unloadable (path : Path) (first : Diagnostic) :
    (Failure.unloadable path first).report =
      s!"Error: Unable to load prelude file {path.text}\n\nCaused by:\n{indented first.text}\n" :=
  rfl

namespace Startup

/-- Every file can be read as text, and its script runs without an error in the session that the one
before it has left. -/
inductive RunsThrough (bound : Nat) (files : Files) : List Path → Session → Session → Prop
  | nil {session : Session} : RunsThrough bound files [] session session
  | cons {path : Path} {source : String} {rest : List Path} {session middle after : Session} :
    files.read path = .ok (.ofText source) → session.run bound source = (.finished, middle) →
    RunsThrough bound files rest middle after → RunsThrough bound files (path :: rest) session after

/-- How loading fails at a file, and the session that is left then. -/
inductive EndsAt (bound : Nat) (files : Files) (path : Path) (session : Session) :
    Failure → Session → Prop
  | unread {error : FileError} : files.read path = .error error →
    EndsAt bound files path session (.unreadable path error) session
  | notText {bytes : Bytes} : files.read path = .ok bytes → (∀ text, bytes ≠ .ofText text) →
    EndsAt bound files path session (.unreadable path .notText) session
  | faulty {source : String} {outcome : Outcome} {first : Diagnostic} {after : Session} :
    files.read path = .ok (.ofText source) → session.run bound source = (outcome, after) →
    outcome.diagnostics.head? = some first →
    EndsAt bound files path session (.unloadable path first) after

section Files

variable {bound : Nat} {files : Files} {path : Path} {paths before rest : List Path} {bytes : Bytes}
  {source : String} {session middle after : Session} {failure : Failure}

theorem textOf_ok {content : Except FileError Bytes} :
    textOf content = .ok source ↔ content = .ok (.ofText source) := by
  cases content with
  | error error => simp [textOf]
  | ok bytes =>
    rw [Except.ok.injEq, ← Bytes.text?_eq_some]
    cases text : bytes.text? <;> simp [textOf, text]

theorem textOf_error {content : Except FileError Bytes} {error : FileError} :
    textOf content = .error error ↔ content = .error error ∨
      ∃ bytes, content = .ok bytes ∧ (∀ text, bytes ≠ .ofText text) ∧ error = .notText := by
  simp only [← Bytes.text?_eq_none]
  cases content with
  | error other => simp [textOf]
  | ok bytes => cases text : bytes.text? <;> simp [textOf, text, eq_comm]

/-- Everything that becomes of one file. -/
inductive Loads (bound : Nat) (files : Files) (path : Path) (session : Session) :
    Loading → Session → Prop
  | through {source : String} {after : Session} : files.read path = .ok (.ofText source) →
    session.run bound source = (.finished, after) → Loads bound files path session .through after
  | failed {failure : Failure} {after : Session} : EndsAt bound files path session failure after →
    Loads bound files path session (.failed failure) after
  | unfinished {source : String} {after : Session} : files.read path = .ok (.ofText source) →
    session.run bound source = (.unfinished, after) →
    Loads bound files path session .unfinished after

theorem loads_of_loadFile {ended : Loading}
    (loaded : loadFile bound path (files.read path) session = (ended, after)) :
    Loads bound files path session ended after := by
  rw [loadFile] at loaded
  -- Not read, not text, or run.
  cases readable : textOf (files.read path) with
  | error error =>
    simp only [readable] at loaded
    cases loaded
    rcases textOf_error.mp readable with read | ⟨bytes, read, text, rfl⟩
    · exact .failed (.unread read)
    · exact .failed (.notText read text)
  | ok source =>
    have read := textOf_ok.mp readable
    rcases ran : session.run bound source with ⟨outcome, last⟩
    simp only [readable, ran] at loaded
    cases outcome with
    | finished =>
      cases loaded
      exact .through read ran
    | rejected faults =>
      -- A source is never rejected without a reason, so there is something to stop at.
      cases faults with
      | nil => exact absurd rfl (Session.faults_of_rejected ran)
      | cons first others =>
        cases loaded
        exact .failed (.faulty read ran rfl)
    | failed fault =>
      cases loaded
      exact .failed (.faulty read ran rfl)
    | unfinished =>
      cases loaded
      exact .unfinished read ran

theorem Loads.loadFile {ended : Loading} (loads : Loads bound files path session ended after) :
    loadFile bound path (files.read path) session = (ended, after) := by
  rw [Startup.loadFile]
  cases loads with
  | through read ran =>
    simp only [textOf_ok.mpr read, ran]
    rfl
  | unfinished read ran => simp only [textOf_ok.mpr read, ran]
  | failed ends =>
    cases ends with
    | unread read => simp only [textOf_error.mpr (.inl read)]
    | notText read text => simp only [textOf_error.mpr (.inr ⟨_, read, text, rfl⟩)]
    | @faulty source outcome first after read ran some =>
      obtain ⟨others, found⟩ := List.head?_eq_some_iff.mp some
      simp only [textOf_ok.mpr read, ran, found]
      cases outcome with
      | unfinished => cases found
      | _ => rfl

theorem loadFile_failed :
    loadFile bound path (files.read path) session = (.failed failure, after) ↔
      EndsAt bound files path session failure after := by
  constructor
  · intro loaded
    cases loads_of_loadFile loaded with
    | failed ends => exact ends
  · exact fun ends => (Loads.failed ends).loadFile

theorem loadAll_next (loaded : loadFile bound path (files.read path) session = (.through, middle)) :
    loadAll bound files (path :: rest) session = loadAll bound files rest middle := by
  rw [loadAll, loaded]

theorem loadAll_last {ended : Loading} (other : ended ≠ .through)
    (loaded : loadFile bound path (files.read path) session = (ended, after)) :
    loadAll bound files (path :: rest) session = (ended, after) := by
  rw [loadAll, loaded]
  cases ended with
  | through => exact absurd rfl other
  | _ => rfl

theorem RunsThrough.loadAll_append (runs : RunsThrough bound files before session middle)
    (rest : List Path) :
    loadAll bound files (before ++ rest) session = loadAll bound files rest middle := by
  induction runs with
  | nil => rfl
  | cons read ran _ ih =>
    rw [List.cons_append, loadAll_next (Loads.through read ran).loadFile]
    exact ih

theorem loadAll_cases (bound : Nat) (files : Files) (paths : List Path) (session : Session) :
    (∃ after, RunsThrough bound files paths session after ∧
      loadAll bound files paths session = (.through, after)) ∨
    ∃ before path rest middle ended after, paths = before ++ path :: rest ∧
      RunsThrough bound files before session middle ∧ ended ≠ .through ∧
      loadFile bound path (files.read path) middle = (ended, after) ∧
      loadAll bound files paths session = (ended, after) := by
  induction paths generalizing session with
  | nil => exact .inl ⟨session, .nil, rfl⟩
  | cons path rest ih =>
    rcases loaded : loadFile bound path (files.read path) session with ⟨ended, middle⟩
    -- The first file that does not run through ends the loading.
    by_cases passed : ended = .through
    · subst passed
      cases loads_of_loadFile loaded with
      | through read ran =>
        rw [loadAll_next loaded]
        rcases ih middle with ⟨after, runs, all⟩ |
          ⟨before, last, others, reached, ended, after, rfl, runs, other, here, all⟩
        · exact .inl ⟨after, .cons read ran runs, all⟩
        · exact .inr ⟨path :: before, last, others, reached, ended, after, rfl,
            .cons read ran runs, other, here, all⟩
    · exact .inr ⟨[], path, rest, session, ended, middle, rfl, .nil, passed, loaded,
        loadAll_last passed loaded⟩

theorem loadAll_through :
    loadAll bound files paths session = (.through, after) ↔
      RunsThrough bound files paths session after := by
  constructor
  · intro loaded
    rcases loadAll_cases bound files paths session with ⟨last, runs, all⟩ |
      ⟨_, _, _, _, ended, _, _, _, other, _, all⟩
    · rw [loaded] at all
      cases all
      exact runs
    · rw [loaded] at all
      cases all
      exact absurd rfl other
  · intro runs
    have all := runs.loadAll_append []
    rwa [List.append_nil] at all

theorem loadAll_ended {ended : Loading} (other : ended ≠ .through) :
    loadAll bound files paths session = (ended, after) ↔
      ∃ before path rest middle, paths = before ++ path :: rest ∧
        RunsThrough bound files before session middle ∧
        loadFile bound path (files.read path) middle = (ended, after) := by
  constructor
  · intro loaded
    rcases loadAll_cases bound files paths session with ⟨last, _, all⟩ |
      ⟨before, path, rest, middle, last, _, same, runs, _, here, all⟩
    · rw [loaded] at all
      cases all
      exact absurd rfl other
    · rw [loaded] at all
      cases all
      exact ⟨before, path, rest, middle, same, runs, here⟩
  · rintro ⟨before, path, rest, middle, rfl, runs, here⟩
    rw [runs.loadAll_append, loadAll_last other here]

end Files
end Startup

namespace CommandLine

open Startup

variable {files : Files} {directory : Path} {bound : Nat} {session after : Session} {failure : Failure}

theorem start_of_failed (loaded : loading bound files directory session = (.failed failure, after))
    (input : Bytes) (script : Option Path) :
    start bound files input script (some directory) session =
      ⟨some failureCode, after.output, failure.report⟩ := by
  rw [start]
  simp only [loaded]
  simp [Console.fail, Console.complain, Console.finish]

theorem filter_named {directory : String} (named : directory ≠ "") :
    (some directory).filter (· != "") = some directory := by
  simp [named]

theorem run_of_few {directory : String} (named : directory ≠ "") {arguments : List String}
    (few : arguments.length ≤ 1) (bound : Nat) (clock : Nat → Float) (files : Files) (input : Bytes) :
    run bound clock arguments (some directory) files input =
      start bound files input (arguments.head?.map .ofText) (some (.ofText directory))
        (.fresh clock) := by
  cases arguments with
  | nil => rw [run, Invocation.ofArguments?, filter_named named]; rfl
  | cons script others =>
    obtain rfl : others = [] := by simpa using few
    rw [run, Invocation.ofArguments?, filter_named named]
    rfl

end CommandLine

namespace Startup

/-- Whatever the order in which a directory is listed: its scripts are the files with the extension, each
once and by the bytes of their names; they all run in the one session unless one of them cannot be
read or fails, and that one is the last thing that happens. -/
theorem loading_ordered {files : Files} {directory : Path} {entries : List Entry}
    (listed : files.list directory = .ok (entries.map .ok))
    (once : (entries.map Entry.name).Nodup) :
    ∃ names : List Bytes,
      (∀ name, name ∈ names ↔
        ⟨name, true⟩ ∈ entries ∧ ∃ stem, stem ≠ [] ∧ name = stem ++ Bytes.ofText ".lox") ∧
      names.Pairwise (· < ·) ∧
      (names.map directory.join).Nodup ∧
      paths files directory = .ok (names.map directory.join) ∧
      (∀ (other : Files) (others : List Entry), other.read = files.read → others.Perm entries →
        other.list directory = .ok (others.map .ok) →
        paths other directory = paths files directory ∧
        ∀ bound session,
          loading bound other directory session = loading bound files directory session) ∧
      (∀ bound session after, loading bound files directory session = (.through, after) ↔
        RunsThrough bound files (names.map directory.join) session after) ∧
      (∀ bound session failure after,
        loading bound files directory session = (.failed failure, after) ↔
          ∃ before name rest middle, names = before ++ name :: rest ∧
            RunsThrough bound files (before.map directory.join) session middle ∧
            EndsAt bound files (directory.join name) middle failure after) ∧
      (∀ bound session after, loading bound files directory session = (.unfinished, after) →
        ∃ before name rest middle source, names = before ++ name :: rest ∧
          RunsThrough bound files (before.map directory.join) session middle ∧
          files.read (directory.join name) = .ok (.ofText source) ∧
          middle.run bound source = (.unfinished, after)) ∧
      (∀ bound session failure after,
        loading bound files directory session = (.failed failure, after) → ∀ script input,
          CommandLine.start bound files input script (some directory) session =
            ⟨some 1, after.output, failure.report⟩) ∧
      ∀ bound clock failure after directoryName arguments input, directoryName ≠ "" →
        directory = .ofText directoryName →
        loading bound files directory (.fresh clock) = (.failed failure, after) →
        arguments.length ≤ 1 →
        CommandLine.run bound clock arguments (some directoryName) files input =
          ⟨some 1, after.output, failure.report⟩ := by
  have found := paths_eq listed
  have loads (bound : Nat) (session : Session) : loading bound files directory session =
      loadAll bound files ((names entries).map directory.join) session := by
    rw [loading, found]
  -- The paths in front of one of them and behind it, as names.
  have split {ended : Loading} (other : ended ≠ .through) (bound : Nat) (session after : Session) :
      loading bound files directory session = (ended, after) ↔
        ∃ before name rest middle, names entries = before ++ name :: rest ∧
          RunsThrough bound files (before.map directory.join) session middle ∧
          loadFile bound (directory.join name) (files.read (directory.join name)) middle =
            (ended, after) := by
    rw [loads, loadAll_ended other]
    constructor
    · rintro ⟨before, path, rest, middle, same, runs, here⟩
      obtain ⟨first, last, cut, rfl, others⟩ := List.map_eq_append_iff.mp same
      obtain ⟨name, rest, rfl, rfl, rfl⟩ := List.map_eq_cons_iff.mp others
      exact ⟨first, name, rest, middle, cut, runs, here⟩
    · rintro ⟨before, name, rest, middle, same, runs, here⟩
      exact ⟨_, _, _, middle, by rw [same, List.map_append, List.map_cons], runs, here⟩
  refine ⟨names entries, fun name => mem_names, names_lt once,
    (names_nodup once).map fun _ _ => Path.join_inj, found, ?reordered, ?through, ?failed, ?unfinished,
    fun _ _ _ _ loaded script input => CommandLine.start_of_failed loaded input script, ?main⟩
  case reordered =>
    intro other others same reordered listedToo
    have alike : paths other directory = paths files directory := by
      rw [found, paths_eq listedToo, names_reordered reordered]
    refine ⟨alike, fun bound session => ?_⟩
    have all (paths : List Path) (session : Session) :
        loadAll bound other paths session = loadAll bound files paths session := by
      induction paths generalizing session with
      | nil => rfl
      | cons path rest ih => simp only [loadAll, same, ih]
    rw [loading, loading, alike]
    simp only [all]
  case through =>
    intro bound session after
    rw [loads]
    exact loadAll_through
  case failed =>
    intro bound session failure after
    rw [split (by simp)]
    simp only [loadFile_failed]
  case unfinished =>
    intro bound session after cut
    obtain ⟨before, name, rest, middle, same, runs, here⟩ := (split (by simp) _ _ _).mp cut
    cases loads_of_loadFile here with
    | unfinished read ran => exact ⟨before, name, rest, middle, _, same, runs, read, ran⟩
  case main =>
    rintro bound clock failure after directoryName arguments input named rfl loaded few
    rw [CommandLine.run_of_few named few]
    exact CommandLine.start_of_failed loaded input _

/-- Of three scripts the second fails after it has printed something, or cannot be read. The third,
whose name is not even text, never has its turn, and neither has the program's own script. -/
theorem loading_ordered_stops :
    let name (first : UInt8) : Bytes := first :: Bytes.ofText ".lox"
    let script (text : String) : Node := .file (.ok (.ofText text))
    let tree : FileTree := ⟨[(name 255 :: FileTree.working, script "print \"c\";"),
      (name 98 :: FileTree.working, script "print \"b\"; x;"),
      (name 97 :: FileTree.working, script "print \"a\";")]⟩
    let second : Path := Path.join "." (name 98)
    let locked : Files := ⟨tree.files.list, fun path =>
      if path = second then .error (.other "Permission denied (os error 13)") else tree.read path⟩
    let clock : Nat → Float := fun _ => 0
    (∃ first after, first.text = "Undefined variable 'x'.\n[line 1]" ∧
      loading 99 tree "." (.fresh clock) = (.failed (.unloadable second first), after)) ∧
      CommandLine.run 99 clock ["c"] (some ".") tree [] = ⟨some 1, "a\nb\n",
        "Error: Unable to load prelude file ./b.lox\n\nCaused by:\n" ++
          "    Undefined variable 'x'.\n    [line 1]\n"⟩ ∧
      CommandLine.run 99 clock ["c"] (some ".") locked [] = ⟨some 1, "a\n",
        "Error: Unable to read prelude file ./b.lox\n\nCaused by:\n" ++
          "    Permission denied (os error 13)\n"⟩ := by
  intro name script tree second locked clock
  let entries : List Entry := [⟨name 255, true⟩, ⟨name 98, true⟩, ⟨name 97, true⟩]
  have listed : tree.files.list "." = .ok (entries.map .ok) :=
    FileTree.files_list (by decide +kernel)
  have once : (entries.map Entry.name).Nodup := by decide +kernel
  have sorted : names entries = [name 97] ++ name 98 :: [name 255] := by cbv
  have same {files : Files} (listed : files.list "." = .ok (entries.map .ok)) {found : List Bytes}
      (paths : paths files "." = .ok (found.map (Path.join "."))) :
      found = [name 97] ++ name 98 :: [name 255] := by
    rw [paths_eq listed, sorted, Except.ok.injEq] at paths
    exact (List.map_injective_iff.mpr (fun _ _ => Path.join_inj) paths).symm
  have ran : ∃ middle outcome final first,
      (Session.fresh clock).run 99 "print \"a\";" = (.finished, middle) ∧ middle.output = "a\n" ∧
      middle.run 99 "print \"b\"; x;" = (outcome, final) ∧ final.output = "a\nb\n" ∧
      outcome.diagnostics.head? = some first ∧ first.text = "Undefined variable 'x'.\n[line 1]" := by
    let middle : Session := ((Session.fresh clock).run 99 "print \"a\";").2
    have told : (middle.run 99 "print \"b\"; x;").1.diagnostics.head?.map (·.text) =
        some "Undefined variable 'x'.\n[line 1]" := by decide +kernel
    obtain ⟨first, found, text⟩ := Option.map_eq_some_iff.mp told
    have finished : ((Session.fresh clock).run 99 "print \"a\";").1 = .finished := by decide +kernel
    exact ⟨middle, _, _, first, Prod.ext finished rfl, by decide +kernel, rfl, by decide +kernel, found,
      text⟩
  obtain ⟨middle, outcome, final, first, runsFirst, shown, runsSecond, output, found, text⟩ := ran
  have runs {files : Files}
      (read : files.read (Path.join "." (name 97)) = .ok (.ofText "print \"a\";")) :
      RunsThrough 99 files [Path.join "." (name 97)] (.fresh clock) middle :=
    .cons read runsFirst .nil
  obtain ⟨_, _, _, _, paths, _, _, failed, _, _, main⟩ := loading_ordered listed once
  have read : tree.files.read second = .ok (.ofText "print \"b\"; x;") := by decide +kernel
  have loaded : loading 99 tree "." (.fresh clock) = (.failed (.unloadable second first), final) :=
    (failed _ _ _ _).mpr ⟨_, _, _, middle, same listed paths, runs (by decide +kernel),
      .faulty read runsSecond found⟩
  have listedToo : locked.list "." = .ok (entries.map .ok) := listed
  obtain ⟨_, _, _, _, others, _, _, denied, _, _, stopped⟩ := loading_ordered listedToo once
  have unread : locked.read second = .error (.other "Permission denied (os error 13)") := by
    simp [locked]
  have refused : loading 99 locked "." (.fresh clock) =
      (.failed (.unreadable second (.other "Permission denied (os error 13)")), middle) :=
    (denied _ _ _ _).mpr ⟨_, _, _, middle, same listedToo others, runs (by decide +kernel),
      .unread unread⟩
  have place : second.text = "./b.lox" := by decide +kernel
  have faultyReport : (Failure.unloadable second first).report =
      "Error: Unable to load prelude file ./b.lox\n\nCaused by:\n" ++
        "    Undefined variable 'x'.\n    [line 1]\n" := by
    rw [Failure.report_unloadable, place, text]
    decide +kernel
  have unreadReport :
      (Failure.unreadable second (.other "Permission denied (os error 13)")).report =
      "Error: Unable to read prelude file ./b.lox\n\nCaused by:\n" ++
        "    Permission denied (os error 13)\n" := by
    decide +kernel
  refine ⟨⟨first, final, text, loaded⟩, ?_, ?_⟩
  · rw [← output, ← faultyReport]
    exact main 99 clock _ final "." ["c"] [] (by decide) rfl loaded (by decide)
  · rw [← shown, ← unreadReport]
    exact stopped 99 clock _ middle "." ["c"] [] (by decide) rfl refused (by decide)

end Startup
end LoxLang

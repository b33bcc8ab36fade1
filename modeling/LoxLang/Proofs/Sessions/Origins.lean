import LoxLang.Proofs.Evaluation.Effects
import LoxLang.Proofs.Evaluation.Provenance
import LoxLang.Proofs.Sessions.Restoration

/-!
What earlier sources have left behind. Nodes are numbered through all that a session reads, so distances
that are recorded once stay, and code of an earlier source that is run again finds those that were
computed for it.
-/
namespace LoxLang

namespace Session

/-- The programs that are read from the sources, also from those that are rejected. -/
def parses (session : Session) : List Submission → List Program
  | [] => []
  | first :: rest =>
    (session.read first.source).parsed.program ::
      (session.runAs first.bound first.manner first.source).2.parses rest

/-- One of the sources was accepted as this program, with these distances. -/
def Took (session : Session) (history : List Submission) (source : String) (program : Program)
    (distances : Distances) : Prop :=
  ∃ before submission after, history = before ++ submission :: after ∧ submission.source = source ∧
    (session.submit before).2.Accepts source program distances

section Histories

variable {session : Session} {source : String} {program : Program} {distances : Distances}

theorem submit_append (session : Session) (first last : List Submission) :
    (session.submit (first ++ last)).2 = ((session.submit first).2.submit last).2 := by
  induction first generalizing session with
  | nil => rfl
  | cons submission rest ih => exact ih _

theorem runAs_nextId (session : Session) (bound : Nat) (manner : Manner) (source : String) :
    (session.runAs bound manner source).2.nextId = session.nextAfter source := by
  rw [runAs_eq]
  cases session.verdict source <;> rfl

theorem nextId_le_submit (session : Session) (history : List Submission) :
    session.nextId ≤ (session.submit history).2.nextId := by
  induction history generalizing session with
  | nil => exact Nat.le_refl _
  | cons first rest ih =>
    have here := session.nextId_le_nextAfter first.source
    rw [← session.runAs_nextId first.bound first.manner] at here
    exact Nat.le_trans here (ih _)

theorem parses_numbered (session : Session) (history : List Submission) :
    Numbered session.nextId (session.submit history).2.nextId
      ((session.parses history).flatMap Stmt.idsAll) := by
  induction history generalizing session with
  | nil => exact ⟨List.nodup_nil, nofun⟩
  | cons first rest ih =>
    have here : Numbered session.nextId (session.nextAfter first.source)
        (Stmt.idsAll (session.read first.source).parsed.program) := Grammar.parse_numbered _ _
    have later := ih (session.runAs first.bound first.manner first.source).2
    have above := (session.runAs first.bound first.manner first.source).2.nextId_le_submit rest
    rw [runAs_nextId] at later above
    exact here.append later (session.nextId_le_nextAfter first.source) above

theorem runAs_distances (accepts : session.Accepts source program distances) (bound : Nat)
    (manner : Manner) :
    (session.runAs bound manner source).2.machine.distances =
      session.machine.distances ∪ distances := by
  have grows := grows_runProgram bound manner program (session.machine.addDistances distances)
  rw [runAs_of_accepts accepts]
  dsimp only
  rw [start_machine, grows.distances]
  rfl

theorem runAs_distances_old (session : Session) (bound : Nat) (manner : Manner) (source : String)
    {id : Nat} (old : id < session.nextId) :
    (session.runAs bound manner source).2.machine.distances[id]? =
      session.machine.distances[id]? := by
  cases verdict : session.verdict source with
  | error faults => rw [runAs_eq, verdict]
  | ok distances =>
    have accepts := accepts_of_verdict verdict
    rw [runAs_distances accepts]
    exact accepts.add_old old

theorem submit_distances_old (session : Session) (history : List Submission) {id : Nat}
    (old : id < session.nextId) :
    (session.submit history).2.machine.distances[id]? = session.machine.distances[id]? := by
  induction history generalizing session with
  | nil => rfl
  | cons first rest ih =>
    have kept := session.runAs_distances_old first.bound first.manner first.source old
    have above := session.nextId_le_nextAfter first.source
    rw [← session.runAs_nextId first.bound first.manner] at above
    exact (ih (session.runAs first.bound first.manner first.source).2
      (Nat.lt_of_lt_of_le old above)).trans kept

theorem runAs_distances_new (sound : session.Sound)
    (accepts : session.Accepts source program distances) (bound : Nat) (manner : Manner) {id : Nat}
    (member : id ∈ Stmt.idsAll program) :
    (session.runAs bound manner source).2.machine.distances[id]? = distances[id]? := by
  rw [runAs_distances accepts]
  exact accepts.add_new sound.below id member

theorem Took.cons {first : Submission} {rest : List Submission}
    (took : (session.runAs first.bound first.manner first.source).2.Took rest source program
      distances) : session.Took (first :: rest) source program distances := by
  obtain ⟨before, submission, after, rfl, same, accepts⟩ := took
  exact ⟨first :: before, submission, after, rfl, same, accepts⟩

theorem Took.append {history : List Submission} (took : session.Took history source program distances)
    (further : List Submission) : session.Took (history ++ further) source program distances := by
  obtain ⟨before, submission, after, rfl, same, accepts⟩ := took
  exact ⟨before, submission, after ++ further, by simp, same, accepts⟩

theorem Sound.submit (sound : session.Sound) (history : List Submission) :
    (session.submit history).2.Sound := by
  induction history generalizing session with
  | nil => exact sound
  | cons first rest ih => exact ih (sound.runAs first.bound first.manner first.source)

theorem Sound.recorded_lt (sound : session.Sound) {id distance : Nat}
    (recorded : session.machine.distances[id]? = some distance) : id < session.nextId := by
  by_contra beyond
  rw [sound.below id (Nat.not_lt.mp beyond)] at recorded
  cases recorded

theorem Accepts.distances_at (accepts : session.Accepts source program distances)
    (sound : session.Sound) {bound : Nat} {manner : Manner} {first moment : Moment}
    (begins : Begins bound manner program (session.machine.addDistances distances) first)
    (reaches : Reaches first moment) :
    moment.machine.distances = (session.runAs bound manner source).2.machine.distances := by
  obtain ⟨kept, stands⟩ := sound.start accepts
  have top := begins.sound kept stands (accepts.resolvedAll sound.below) accepts.older
  rw [(top.reaches reaches).machine.distances]
  exact (runAs_distances accepts bound manner).symm

theorem Took.recorded (sound : session.Sound) {history : List Submission}
    (took : session.Took history source program distances) {id : Nat}
    (member : id ∈ Stmt.idsAll program) :
    id < (session.submit history).2.nextId ∧
      (session.submit history).2.machine.distances[id]? = distances[id]? := by
  obtain ⟨before, submission, after, rfl, rfl, accepts⟩ := took
  have fresh := runAs_distances_new (sound.submit before) accepts submission.bound submission.manner
    member
  have old := accepts.older id member
  rw [← runAs_nextId _ submission.bound submission.manner] at old
  rw [submit_append]
  exact ⟨Nat.lt_of_lt_of_le old (nextId_le_submit _ after),
    (submit_distances_old _ after old).trans fresh⟩

end Histories
end Session

section Provenance

variable {programs : Program → Prop} {bound : Nat} {manner : Manner} {program : Program}
  {machine : Machine}

theorem keeps_runProgram (bound : Nat) (manner : Manner) (member : programs program) :
    (runProgram bound manner program).Keeps programs fun _ => True := by
  have code : Known programs (Stmt.nodesAll program) := ⟨program, member, List.Subset.refl _⟩
  unfold runProgram
  split
  · rename_i value
    have alone : (executeAlone bound (.expression value)).Keeps programs fun _ => True :=
      (keeps_evaluate bound value).bind fun _ _ => .pure trivial
    apply alone.bind
    intro shown _
    split
    · exact .pure trivial
    · exact keeps_write _
    · exact .pure trivial
  · exact (keeps_runAll (keeps_execute bound) code).bind fun _ _ => .pure trivial

theorem Begins.known {moment : Moment} (begins : Begins bound manner program machine moment)
    (known : machine.Known programs) (member : programs program) : moment.Known programs := by
  have code : Known programs (Stmt.nodesAll program) := ⟨program, member, List.Subset.refl _⟩
  cases begins with
  | alone value => exact ⟨known, code.left⟩
  | comesUp _ comesUp => exact known_comesUp known code comesUp

theorem Machine.known_withNatives (clock : Nat → Float) :
    (Machine.withNatives clock).Known programs := by
  intro frame name value found
  rw [Machine.bound?_withNatives] at found
  split at found
  · cases found
    trivial
  · cases found

theorem Session.known_runAs {session : Session} (known : session.machine.Known programs)
    (bound : Nat) (manner : Manner) {source : String}
    (member : ∀ program distances, session.Accepts source program distances → programs program) :
    (session.runAs bound manner source).2.machine.Known programs := by
  cases verdict : session.verdict source with
  | error faults =>
    rw [runAs_eq, verdict]
    exact known
  | ok distances =>
    have accepts := accepts_of_verdict verdict
    have start : (session.machine.addDistances distances).Known programs := known.of_store rfl
    rw [runAs_of_accepts accepts]
    dsimp only
    rw [start_machine]
    exact (keeps_runProgram bound manner (member _ _ accepts) _ start).1

/-- All functions of a session come from the programs that were accepted in it. -/
theorem Session.known_submit {session : Session} (known : session.machine.Known programs)
    (history : List Submission)
    (member : ∀ source program distances, session.Took history source program distances →
      programs program) : (session.submit history).2.machine.Known programs := by
  induction history generalizing session with
  | nil => exact known
  | cons first rest ih =>
    have here := known_runAs known first.bound first.manner fun program distances accepts =>
      member _ program distances ⟨[], first, rest, rfl, rfl, accepts⟩
    exact ih here fun source program distances took => member source program distances took.cons

/-- Whatever a run comes to is a node of a source that was accepted before, or of its own. -/
theorem Session.origin {session : Session} (known : session.machine.Known fun _ => False)
    (before : List Submission) (submission : Submission) {distances : Distances}
    (accepts : (session.submit before).2.Accepts submission.source program distances)
    {first moment : Moment}
    (begins : Begins bound manner program
      ((session.submit before).2.machine.addDistances distances) first)
    (reaches : Reaches first moment) :
    moment.Known fun earlier => ∃ source found,
      session.Took (before ++ [submission]) source earlier found := by
  have start : (session.submit before).2.machine.Known fun earlier => ∃ source found,
      session.Took (before ++ [submission]) source earlier found :=
    known_submit (known.imp fun _ never => never.elim) before
      fun source earlier found took => ⟨source, found, took.append [submission]⟩
  have own : session.Took (before ++ [submission]) submission.source program distances :=
    ⟨before, submission, [], rfl, rfl, accepts⟩
  have top : first.Known fun earlier => ∃ source found,
      session.Took (before ++ [submission]) source earlier found :=
    begins.known (start.of_store rfl) ⟨submission.source, distances, own⟩
  exact top.reaches reaches

end Provenance

/-- No number of a node is given twice in a session. What a run has recorded for its nodes is not
changed, removed or added to by any run after it; and whatever code of an accepted source comes to be
run, at whatever later time, it finds the distances that were computed for that source. -/
theorem earlier_resolutions_kept (clock : Nat → Float) (history : List Submission) :
    let fresh := Session.fresh clock
    ((fresh.parses history).flatMap Stmt.idsAll).Nodup ∧
    ∀ before submission after, history = before ++ submission :: after →
      let session := (fresh.submit before).2
      let ran := (session.runAs submission.bound submission.manner submission.source).2
      let last := (fresh.submit history).2
      (∀ id distance : Nat, ran.machine.distances[id]? = some distance →
        last.machine.distances[id]? = some distance) ∧
      (∀ program ∈ fresh.parses (before ++ [submission]), ∀ id ∈ Stmt.idsAll program,
        last.machine.distances[id]? = ran.machine.distances[id]?) ∧
      ∀ program distances, session.Accepts submission.source program distances →
        (∀ id ∈ Stmt.idsAll program, ran.machine.distances[id]? = distances[id]?) ∧
        ∀ first bound initializing expr machine,
          Begins submission.bound submission.manner program
            (session.machine.addDistances distances) first →
          Reaches first (.evaluating bound initializing expr machine) →
          ∃ source earlier found, fresh.Took (before ++ [submission]) source earlier found ∧
            expr ∈ Stmt.nodesAll earlier ∧
            machine.distances[expr.site.id]? = found[expr.site.id]? := by
  intro fresh
  have sound : fresh.Sound := Session.sound_fresh clock
  refine ⟨(fresh.parses_numbered history).1, ?_⟩
  rintro before submission after rfl
  intro session ran last
  have kept : session.Sound := sound.submit before
  have through : last = (ran.submit after).2 := fresh.submit_append before (submission :: after)
  have upTo : ran = (fresh.submit (before ++ [submission])).2 :=
    (fresh.submit_append before [submission]).symm
  -- Later sources get numbers of their own and leave those below alone.
  have stays {id : Nat} (old : id < ran.nextId) :
      last.machine.distances[id]? = ran.machine.distances[id]? := by
    rw [through]
    exact ran.submit_distances_old after old
  refine ⟨fun id distance recorded => ?_, fun program member id node => ?_, ?_⟩
  · have ranSound : ran.Sound := kept.runAs submission.bound submission.manner submission.source
    rw [stays (ranSound.recorded_lt recorded), recorded]
  · have numbered := fresh.parses_numbered (before ++ [submission])
    rw [← upTo] at numbered
    exact stays (numbered.2 id (List.mem_flatMap.mpr ⟨program, member, node⟩)).2
  · intro program distances accepts
    constructor
    · intro id member
      exact Session.runAs_distances_new kept accepts submission.bound submission.manner member
    · intro first bound initializing expr machine begins reaches
      obtain ⟨_, earlier, ⟨source, found, took⟩, inside⟩ := Session.origin
        (Machine.known_withNatives clock) before submission accepts begins reaches
      have node := inside expr.self_mem_nodes
      have recorded := (took.recorded sound (Stmt.id_mem_idsAll node)).2
      -- No moment of a run changes the table that the run began with.
      have here : machine.distances = ran.machine.distances :=
        accepts.distances_at kept begins reaches
      rw [← upTo, ← here] at recorded
      exact ⟨source, earlier, found, took, node, recorded⟩

/-- The variable that a function returns, if the run gives one that does nothing else. -/
def Step.returned? : Step Value → Option (Site × String)
  | .done (.callable _ (.function ⟨_, [], [.return _ (some (.variable site name))]⟩ _)) _ =>
    some (site, name)
  | _ => none

theorem Step.of_returned? {step : Step Value} {site : Site} {sought : String}
    (found : step.returned? = some (site, sought)) :
    ∃ identity name line closure machine, step = .done (.callable identity
      (.function ⟨name, [], [.return line (some (.variable site sought))]⟩ closure)) machine := by
  unfold returned? at found
  split at found
  · cases found
    exact ⟨_, _, _, _, _, rfl⟩
  · cases found

/-- The closure of a source that has failed is called two sources later. The name in its body is still
the second scope outwards, as it was resolved when that source was accepted. -/
theorem earlier_resolutions_kept_closure :
    let fresh := Session.fresh fun _ => 0
    let first : Submission :=
      ⟨9, .prompt, "fun f() { var n = true; fun g() { return n; } return g; } var g = f(); -nil;"⟩
    let second : Submission := ⟨9, .prompt, "{ var n; print n }"⟩
    let third : Submission := ⟨9, .prompt, "print g();"⟩
    let session := (fresh.submit [first, second]).2
    (fresh.submit [first, second, third]).2.machine.distances[1]? = some 1 ∧
      ∃ program distances begun bound machine, session.Accepts third.source program distances ∧
        Begins third.bound third.manner program (session.machine.addDistances distances) begun ∧
        Reaches begun (.evaluating bound none (.variable ⟨1, 1⟩ "n") machine) ∧
        ∃ source earlier found, fresh.Took [first, second, third] source earlier found ∧
          .variable ⟨1, 1⟩ "n" ∈ Stmt.nodesAll earlier ∧ machine.distances[1]? = found[1]? := by
  intro fresh first second third session
  let shown : Stmt := .print (.call ⟨9, 1⟩ (.variable ⟨8, 1⟩ "g") [])
  have number : session.nextId = 8 := by decide +kernel
  have read : (session.read third.source).parsed.program = [shown] := by
    rw [Session.read, number]
    cbv
  have accepts : session.Accepts third.source [shown] ∅ := ⟨by decide +kernel, read, by cbv⟩
  let start : Machine := session.machine.addDistances ∅
  -- What the name stands for is a function with this body.
  have body : ∃ identity name line closure called, evaluate 7 (.variable ⟨8, 1⟩ "g") start =
      .done (.callable identity
        (.function ⟨name, [], [.return line (some (.variable ⟨1, 1⟩ "n"))]⟩ closure)) called :=
    Step.of_returned? (by decide +kernel)
  obtain ⟨identity, name, line, closure, called, found⟩ := body
  have begins : Begins 9 .prompt [shown] start (.executing 9 shown start) :=
    .comesUp (by simp [shown]) ⟨[], [], rfl, rfl⟩
  have reaches : Reaches (.executing 9 shown start)
      (.evaluating 6 none (.variable ⟨1, 1⟩ "n") _) :=
    ((Relation.ReflTransGen.single .printed).tail
      (.called found (show evaluateAll _ [] called = .done [] called from rfl) rfl rfl rfl
        ⟨[], [], rfl, rfl⟩)).tail .result
  obtain ⟨_, kept⟩ := earlier_resolutions_kept (fun _ => 0) [first, second, third]
  obtain ⟨stays, _, _⟩ := kept [] first [second, third] rfl
  obtain ⟨_, _, finds⟩ := kept [first, second] third [] rfl
  refine ⟨stays 1 1 (by decide +kernel), _, _, _, _, _, accepts, begins, reaches, ?_⟩
  exact (finds _ _ accepts).2 _ _ _ _ _ begins reaches

end LoxLang

import LoxLang.Proofs.Grammar.Shifting
import LoxLang.Proofs.Scanning.Places
import LoxLang.Proofs.Scoping.Twins
import LoxLang.Proofs.Sessions.Sources

/-!
What is accepted does not depend on the session that reads it, and two accepted sources with a line
break between them are accepted as one. The programs that come out differ from those of the sources
alone in the numbers of their nodes, and the second stands further down.
-/
namespace LoxLang

open Grammar

section Tokens

theorem beforeFinish_scan (source : String) :
    beforeFinish (Scanned.tokens (scan source)) = Scanned.tokens (scanAmong source) := by
  rw [beforeFinish, tokens_scan, List.takeWhile_append_of_pos (scanAmong_unfinished source)]
  exact List.append_nil _

theorem token?_down (lines : Nat) (item : Scanned) :
    (item.down lines).token? = item.token?.map (Token.down lines) := by
  cases item <;> rfl

theorem tokens_down (lines : Nat) (items : List Scanned) :
    Scanned.tokens (items.map (Scanned.down lines)) =
      (Scanned.tokens items).map (Token.down lines) := by
  rw [Scanned.tokens, Scanned.tokens, List.filterMap_map, List.map_filterMap]
  exact congrArg (List.filterMap · items) (funext (token?_down lines))

theorem faults_down {lines : Nat} {items : List Scanned} (clean : Scanned.faults items = []) :
    Scanned.faults (items.map (Scanned.down lines)) = [] := by
  rw [Scanned.faults, List.filterMap_eq_nil_iff] at clean ⊢
  intro item member
  obtain ⟨found, among, rfl⟩ := List.mem_map.mp member
  have silent := clean found among
  cases found with
  | token token => rfl
  | fault fault => cases silent

/-- So many lines down does a text begin behind another one and a line break. -/
def linesBefore (first : String) : Nat := newlines first.toList + 1

theorem closed_of_clean {source : String} (clean : Scanned.faults (scan source) = []) :
    ∀ piece ∈ Piece.all source.toList, piece.isUnclosed = false :=
  closed_of_faults (by rw [clean]; exact nofun)

theorem faults_joined {first last : String} (firstClean : Scanned.faults (scan first) = [])
    (lastClean : Scanned.faults (scan last) = []) :
    Scanned.faults (scan (first ++ "\n" ++ last)) = [] := by
  rw [scan_joined first last (closed_of_clean firstClean), Scanned.faults, List.filterMap_append]
  rw [scan_eq, Scanned.faults, List.filterMap_append] at firstClean
  rw [(List.append_eq_nil_iff.mp firstClean).1, List.nil_append]
  exact faults_down lastClean

theorem beforeFinish_joined {first : String} (clean : Scanned.faults (scan first) = [])
    (last : String) :
    beforeFinish (Scanned.tokens (scan (first ++ "\n" ++ last))) =
      beforeFinish (Scanned.tokens (scan first)) ++
        (beforeFinish (Scanned.tokens (scan last))).map (Token.down (linesBefore first)) := by
  rw [scan_joined first last (closed_of_clean clean), Scanned.tokens, List.filterMap_append,
    ← Scanned.tokens, ← Scanned.tokens, tokens_down, beforeFinish,
    List.takeWhile_append_of_pos (scanAmong_unfinished first), beforeFinish_scan first,
    beforeFinish, List.takeWhile_map]
  rfl

end Tokens

namespace Session

variable {session : Session} {source : String} {program : Program} {distances : Distances}

theorem Accepts.clean_scan (accepts : session.Accepts source program distances) :
    Scanned.faults (scan source) = [] :=
  List.map_eq_nil_iff.mp (List.append_eq_nil_iff.mp accepts.clean).1

theorem Accepts.derives (accepts : session.Accepts source program distances) :
    Derives (.declarations program) (beforeFinish (Scanned.tokens (scan source))) := by
  have silent : (session.read source).parsed.faults = [] :=
    (List.append_eq_nil_iff.mp accepts.clean).2
  have parsed : (session.read source).parsed.program? = some program := by
    rw [← accepts.read]
    exact if_pos (List.isEmpty_iff.mpr silent)
  exact derives_of_parse (fun token member => ⟨source, member⟩) parsed

/-- What is derived is read, under whatever numbers, and then only its scopes can be wrong. -/
theorem accepts_of_derives (session : Session) {tree : List Stmt}
    (clean : Scanned.faults (scan source) = [])
    (derives : Derives (.declarations tree) (beforeFinish (Scanned.tokens (scan source)))) :
    ∃ program, Stmt.eraseAll program = Stmt.eraseAll tree ∧
      ∀ distances, resolve program = .ok distances → session.Accepts source program distances := by
  obtain ⟨found, parsed, alike⟩ := parse_of_derives derives session.nextId
  unfold Parsed.program? at parsed
  split at parsed
  · rename_i silent
    refine ⟨found, alike, fun distances resolved => ⟨?_, Option.some.inj parsed, resolved⟩⟩
    have lexical : (session.read source).lexical = [] := List.map_eq_nil_iff.mpr clean
    rw [ReadSource.faults, lexical]
    exact List.isEmpty_iff.mp silent
  · cases parsed

theorem twins_of_erase {lines : Nat} {program other : Program}
    (alike : Stmt.eraseAll other = Stmt.eraseAll (Stmt.downAll lines program)) :
    List.Forall₂ (Stmt.Twin (.unbound fun _ _ => True)) program other :=
  Stmt.twins_of_erase program alike fun _ _ _ _ _ => trivial

theorem Accepts.elsewhere (accepts : session.Accepts source program distances) (other : Session) :
    ∃ twin found, other.Accepts source twin found ∧ Stmt.eraseAll twin = Stmt.eraseAll program := by
  obtain ⟨twin, alike, accepted⟩ := other.accepts_of_derives accepts.clean_scan accepts.derives
  -- what is accepted does not depend on numbers, so its scopes are right here too
  have twins := twins_of_erase (alike.trans (congrArg _ (Stmt.downAll_zero program)).symm)
  obtain ⟨found, resolved⟩ := resolve_twin twins ⟨distances, accepts.resolved⟩
  exact ⟨twin, found, accepted found resolved, alike⟩

theorem Accepts.withMachine (accepts : session.Accepts source program distances)
    (machine : Machine) : Session.Accepts ⟨machine, session.nextId⟩ source program distances :=
  ⟨accepts.clean, accepts.read, accepts.resolved⟩

theorem eraseAll_append {whole first last : List Stmt}
    (alike : Stmt.eraseAll whole = Stmt.eraseAll (first ++ last)) :
    ∃ front back, whole = front ++ back ∧ Stmt.eraseAll front = Stmt.eraseAll first ∧
      Stmt.eraseAll back = Stmt.eraseAll last := by
  simp only [Stmt.eraseAll_eq_map, List.map_append] at alike ⊢
  obtain ⟨front, back, split, front_eq, back_eq⟩ := List.map_eq_append_iff.mp alike
  exact ⟨front, back, split, front_eq, back_eq⟩

/-- With a line break between them, two accepted sources make one, and its program is that of the
first followed by that of the second. -/
theorem Accepts.joined {other : Session} {first last : String} {firstProgram lastProgram : Program}
    {firstDistances lastDistances : Distances}
    (firstAccepts : session.Accepts first firstProgram firstDistances)
    (lastAccepts : other.Accepts last lastProgram lastDistances) :
    ∃ front back distances, session.Accepts (first ++ "\n" ++ last) (front ++ back) distances ∧
      Stmt.eraseAll front = Stmt.eraseAll firstProgram ∧
      Stmt.eraseAll back = Stmt.eraseAll (Stmt.downAll (linesBefore first) lastProgram) := by
  -- the tokens are those of the first, and behind them those of the second further down
  have derives := firstAccepts.derives.append (lastAccepts.derives.down (linesBefore first))
  rw [← beforeFinish_joined firstAccepts.clean_scan] at derives
  obtain ⟨whole, alike, accepted⟩ := session.accepts_of_derives
    (faults_joined firstAccepts.clean_scan lastAccepts.clean_scan) derives
  obtain ⟨front, back, rfl, frontAlike, backAlike⟩ := eraseAll_append alike
  have frontTwins := twins_of_erase
    (frontAlike.trans (congrArg _ (Stmt.downAll_zero firstProgram)).symm)
  obtain ⟨distances, resolved⟩ := resolve_append frontTwins (twins_of_erase backAlike)
    ⟨firstDistances, firstAccepts.resolved⟩ ⟨lastDistances, lastAccepts.resolved⟩
  exact ⟨front, back, distances, accepted distances resolved, frontAlike, backAlike⟩

end Session
end LoxLang

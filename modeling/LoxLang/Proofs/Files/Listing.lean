import Mathlib
import LoxLang.Startup

/-!
Directories and the scripts in them. What a tree of files lists can be followed to the node it stands
for, and each name once; the scripts among the entries depend on the names alone, not on the order in
which they come.
-/
namespace LoxLang

namespace Path

variable {directory : Path} {name other : Bytes}

theorem names_slash (front : Bytes) (whole : slash ∉ name) :
    names ⟨front ++ slash :: name⟩ = names ⟨front⟩ ++ [name] := by
  rw [names, List.splitOn_append_cons_self, List.splitOn_eq_singleton whole]
  rfl

/-- Behind the name that the directory ends with comes the new one; an empty name at the end is a slash
that is there already. -/
theorem names_join (some : directory.bytes ≠ []) (whole : slash ∉ name) :
    (directory.join name).names = directory.names ++ [name] ∨
      ∃ names, directory.names = names ++ [[]] ∧ (directory.join name).names = names ++ [name] := by
  obtain ⟨bytes⟩ := directory
  by_cases ends : bytes.getLast? = Option.some slash
  · obtain ⟨front, rfl⟩ := List.getLast?_eq_some_iff.mp ends
    refine .inr ⟨names ⟨front⟩, names_slash front (by simp), ?_⟩
    simp only [join, ends, beq_self_eq_true, Bool.or_true, if_true, List.append_assoc,
      List.singleton_append]
    exact names_slash front whole
  · refine .inl ?_
    have apart : (bytes.isEmpty || bytes.getLast? == Option.some slash) = false := by
      simpa [ends] using some
    simp only [join, apart, Bool.false_eq_true, if_false]
    exact names_slash bytes whole

theorem join_inj (same : directory.join name = directory.join other) : name = other := by
  unfold join at same
  split at same <;> simpa using same

/-- Two paths start at the same place if one goes on where the other ends. -/
theorem isAbsolute_join (some : directory.bytes ≠ []) (name : Bytes) :
    (directory.join name).isAbsolute = directory.isAbsolute := by
  obtain ⟨bytes⟩ := directory
  obtain ⟨first, rest, rfl⟩ := List.exists_cons_of_ne_nil some
  unfold join isAbsolute
  split <;> simp

end Path

theorem Location.nameIn?_eq_some {directory location : Location} {name : Bytes} :
    directory.nameIn? location = some name ↔ location = name :: directory := by
  cases location with
  | nil => simp [nameIn?]
  | cons first outer =>
    simp only [nameIn?, Option.ite_none_right_eq_some, Option.some.injEq, List.cons.injEq]
    exact and_comm

namespace FileTree

variable {tree : FileTree} {directory : Path} {location : Location} {name : Bytes}

section Following

theorem some_of_find {spot : Spot} (found : tree.find directory = .ok spot) :
    directory.bytes ≠ [] := by
  rintro empty
  simp [find, empty] at found

/-- The path with a name of a directory leads where the name leads from there. -/
theorem find_join (found : tree.find directory = .ok (.directory location))
    (whole : Path.slash ∉ name) (noZero : 0 ∉ name)
    (short : (directory.join name).bytes.length ≤ maxPathBytes) :
    tree.find (directory.join name) = tree.enter (.directory location) name := by
  have some := some_of_find found
  have more : (directory.join name).bytes = directory.bytes ++ name ∨
      (directory.join name).bytes = directory.bytes ++ Path.slash :: name := by
    unfold Path.join
    split
    · exact .inl rfl
    · exact .inr rfl
  have walk : directory.names.foldlM tree.enter (.directory (startOf directory)) =
      .ok (.directory location) := by
    unfold find at found
    split_ifs at found with empty zero long
    exact found
  have zeroFree : (directory.bytes.contains 0) = false := by
    unfold find at found
    split_ifs at found with empty zero long
    simpa using zero
  have start : startOf (directory.join name) = startOf directory := by
    rw [startOf, startOf, Path.isAbsolute_join some]
  have nonempty : (directory.join name).bytes.isEmpty = false := by
    rcases more with same | same <;> simp [same, some]
  have clean : ((directory.join name).bytes.contains 0) = false := by
    have apart : (0 : UInt8) ≠ Path.slash := by decide
    rcases more with same | same <;> simpa [same, noZero, apart] using zeroFree
  have last (spot : Spot) : [name].foldlM tree.enter spot = tree.enter spot name :=
    bind_pure (tree.enter spot name)
  rw [find, nonempty, clean, start]
  simp only [Bool.false_eq_true, if_false, if_neg (Nat.not_lt.mpr short)]
  rcases Path.names_join some whole with names | ⟨front, ends, names⟩
  · rw [names, List.foldlM_append, walk]
    exact last _
  · rw [names, List.foldlM_append]
    rw [ends, List.foldlM_append] at walk
    cases reached : front.foldlM tree.enter (.directory (startOf directory)) with
    | error error =>
      rw [reached] at walk
      cases walk
    | ok spot =>
      rw [reached] at walk
      -- The empty name behind the last slash leads nowhere else.
      cases spot with
      | file content => cases walk
      | directory reached =>
        cases walk
        exact last _

theorem read_join (found : tree.find directory = .ok (.directory location))
    (whole : Path.slash ∉ name) (noZero : 0 ∉ name)
    (short : (directory.join name).bytes.length ≤ maxPathBytes) (proper : isHere name = false)
    (inner : isOuter name = false) {content : Except FileError Bytes}
    (holds : tree.nodes.lookup (name :: location) = some (.file content)) :
    tree.read (directory.join name) = content ∧ tree.isFile (directory.join name) = true := by
  have leads : tree.find (directory.join name) = .ok (.file content) := by
    rw [find_join found whole noZero short, enter]
    simp [proper, inner, holds]
  constructor
  · rw [read, leads]
    rfl
  · rw [isFile, leads]

end Following

section Distinct

/-- At each location there is one thing at most. -/
def Distinct (tree : FileTree) : Prop := (tree.nodes.map Prod.fst).Nodup

theorem Distinct.empty : FileTree.empty.Distinct := List.nodup_nil

theorem Distinct.put (distinct : tree.Distinct) (location : Location) (node : Node) :
    (tree.put location node).Distinct := by
  have kept : ((tree.nodes.filter (·.1 != location)).map Prod.fst).Nodup :=
    distinct.sublist (List.filter_sublist.map _)
  refine List.nodup_cons.mpr ⟨?_, kept⟩
  simp

theorem Distinct.makeWay {state : FileTree × Location} (distinct : state.1.Distinct) (name : Bytes) :
    (makeWay state name).1.Distinct := by
  unfold FileTree.makeWay
  dsimp only
  split
  · exact distinct
  · split
    · exact distinct
    · split
      · exact distinct
      · exact distinct.put _ _

theorem Distinct.add (distinct : tree.Distinct) (path : Path) (content : Bytes) :
    (tree.add path content).Distinct := by
  have made : (path.names.dropLast.foldl FileTree.makeWay (tree, startOf path)).1.Distinct :=
    List.foldlRecOn (motive := fun state : FileTree × Location => state.1.Distinct) _ _ distinct
      fun _ distinct name _ => distinct.makeWay name
  unfold FileTree.add
  dsimp only
  split
  · exact made
  · exact made
  · exact made.put _ _

theorem distinct_machine (input : Bytes) (files : List (Path × Bytes)) :
    (files.foldl (fun tree file => tree.add file.1 file.2) (machine input)).Distinct := by
  have usual : (usualDirectories.foldl (fun tree name => add tree s!"/{name}/" []) empty).Distinct :=
    List.foldlRecOn usualDirectories _ .empty fun _ distinct _ _ => distinct.add _ _
  have start : (machine input).Distinct := ((usual.add _ _).add _ _).add _ _
  exact List.foldlRecOn files _ start fun _ distinct _ _ => distinct.add _ _

theorem list_eq_ok {entries : List Entry} :
    tree.list directory = .ok entries ↔
      ∃ location, tree.find directory = .ok (.directory location) ∧
        entries = (tree.namesIn location).map fun name =>
          ⟨name, tree.isFile (directory.join name)⟩ := by
  rw [list]
  rcases tree.find directory with error | location | content
  · constructor
    · rintro ⟨⟩
    · rintro ⟨_, ⟨⟩, _⟩
  · constructor
    · rintro ⟨⟩
      exact ⟨location, rfl, rfl⟩
    · rintro ⟨_, ⟨⟩, rfl⟩
      rfl
  · constructor
    · rintro ⟨⟩
    · rintro ⟨_, ⟨⟩, _⟩

theorem files_list {entries : List Entry} (listed : tree.list directory = .ok entries) :
    tree.files.list directory = .ok (entries.map .ok) := by
  simp [files, listed, Except.map]

theorem list_nodup (distinct : tree.Distinct) {entries : List Entry}
    (listed : tree.list directory = .ok entries) : (entries.map Entry.name).Nodup := by
  obtain ⟨location, _, rfl⟩ := list_eq_ok.mp listed
  have names : tree.namesIn location = (tree.nodes.map Prod.fst).filterMap location.nameIn? := by
    rw [namesIn, List.filterMap_map]
    rfl
  rw [List.map_map]
  change ((tree.namesIn location).map id).Nodup
  rw [List.map_id, names]
  refine distinct.filterMap fun place further name here there => ?_
  rw [Option.mem_def, Location.nameIn?_eq_some] at here there
  exact here.trans there.symm

end Distinct
end FileTree

namespace Startup

variable {directory : Path} {name : Bytes} {entries others : List Entry}

/-- The names among the entries that are run. -/
def names (entries : List Entry) : List Bytes :=
  ((entries.filter fun entry => entry.isFile && isScript entry.name).map Entry.name).mergeSort
    (fun left right => decide (left ≤ right))

theorem scripts_eq (directory : Path) (entries : List Entry) :
    scripts directory entries = (names entries).map directory.join := rfl

theorem isScript_iff : isScript name = true ↔ ∃ stem, stem ≠ [] ∧ name = stem ++ extension := by
  rw [isScript, Bool.and_eq_true, List.isSuffixOf_iff_suffix, bne_iff_ne]
  constructor
  · rintro ⟨⟨stem, rfl⟩, other⟩
    exact ⟨stem, fun none => other (by simp [none]), rfl⟩
  · rintro ⟨stem, some, rfl⟩
    exact ⟨⟨stem, rfl⟩, by simpa using some⟩

theorem mem_names : name ∈ names entries ↔
    ⟨name, true⟩ ∈ entries ∧ ∃ stem, stem ≠ [] ∧ name = stem ++ extension := by
  rw [names, List.mem_mergeSort, List.mem_map, ← isScript_iff]
  constructor
  · rintro ⟨⟨name, isFile⟩, member, rfl⟩
    obtain ⟨member, chosen⟩ := List.mem_filter.mp member
    obtain ⟨file, script⟩ := Bool.and_eq_true_iff.mp chosen
    cases file
    exact ⟨member, script⟩
  · rintro ⟨member, script⟩
    exact ⟨_, List.mem_filter.mpr ⟨member, by simpa using script⟩, rfl⟩

theorem names_le (entries : List Entry) : (names entries).Pairwise (· ≤ ·) := by
  have sorted : (names entries).Pairwise fun left right => decide (left ≤ right) = true :=
    List.pairwise_mergeSort (by simpa using fun _ _ _ => List.le_trans)
      (by simpa using List.le_total) _
  exact sorted.imp of_decide_eq_true

theorem names_nodup (distinct : (entries.map Entry.name).Nodup) : (names entries).Nodup :=
  (List.mergeSort_perm _ _).nodup_iff.mpr (distinct.sublist (List.filter_sublist.map _))

theorem names_lt (distinct : (entries.map Entry.name).Nodup) : (names entries).Pairwise (· < ·) :=
  (names_le entries).imp₂ (fun _ _ order apart => Std.lt_of_le_of_ne order apart)
    (names_nodup distinct)

/-- The order in which the entries come makes no difference. -/
theorem names_reordered (reordered : others.Perm entries) : names others = names entries := by
  refine List.Perm.eq_of_pairwise (fun _ _ _ _ => List.le_antisymm) (names_le others)
    (names_le entries) ?_
  exact (List.mergeSort_perm _ _).trans
    (((reordered.filter _).map _).trans (List.mergeSort_perm _ _).symm)

variable {files : Files}

theorem mapM_id_ok (entries : List Entry) :
    (entries.map (Except.ok (ε := FileError))).mapM id = .ok entries := by
  induction entries with
  | nil => rfl
  | cons entry rest ih =>
    rw [List.map_cons, List.mapM_cons, ih]
    rfl

theorem paths_eq (listed : files.list directory = .ok (entries.map .ok)) :
    paths files directory = .ok ((names entries).map directory.join) := by
  rw [paths, listed]
  simp only [mapM_id_ok, scripts_eq]

end Startup
end LoxLang

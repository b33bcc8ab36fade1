import LoxLang.Proofs.Scanning.Joining
import LoxLang.Proofs.Scanning.Tiling

/-!
Where a scan puts its items. Lines are counted by the line breaks of the source, those inside strings
and behind comments included. The end token is the last one and the only one of its kind.
-/
namespace LoxLang

/-- The item is on the line where it begins, after this much of the source; a fault of a string that is
never closed is on the last line. -/
def Scanned.OnLine (before source : List Char) : Scanned → Prop
  | .token found => found.line = newlines before + 1
  | .fault ⟨.unexpectedCharacter, position⟩ => position.line = newlines before + 1
  | .fault ⟨.unterminatedString, position⟩ => position.line = newlines source + 1

theorem Position.line_from_start (text : List Char) :
    (start.after text).line = newlines text + 1 := by
  rw [line_after, Nat.add_comm]
  rfl

theorem Scanned.StandsAt.onLine {before source : List Char} {item : Scanned}
    (stands : item.StandsAt (Position.start.after before) (Position.start.after source)) :
    item.OnLine before source := by
  cases item with
  | token found =>
    exact (congrArg Position.line stands).trans (Position.line_from_start before)
  | fault found =>
    obtain ⟨cause, position⟩ := found
    cases cause with
    | unexpectedCharacter =>
      exact (congrArg Position.line stands).trans (Position.line_from_start before)
    | unterminatedString =>
      exact (congrArg Position.line stands).trans (Position.line_from_start source)

/-- The items of a scan tile the source, and each lies where its text begins and has the position of
this place. -/
theorem scan_standsAt (source : String) :
    ∃ placed, placed.map Prod.snd = scan source ∧ Tiles 0 source.toList placed ∧
      ∀ item ∈ placed, ∃ before after, source.toList = before ++ after ∧ item.1 = before.length ∧
        item.2.Begins after ∧ item.2.StandsAt (Position.start.after before)
          (Position.start.after source.toList) := by
  obtain ⟨placed, same, tiles, positions⟩ := tiles_inPosition source.toList 0 .start
  refine ⟨placed, same, tiles, fun item member => ?_⟩
  obtain ⟨before, after, whole, place, begins⟩ := tiles.begins item member
  obtain ⟨other, _, again, there, stands⟩ := positions item member
  -- both say how much of the source there is before the item
  have equal : before = other :=
    (List.append_inj (whole.symm.trans again) (Nat.add_left_cancel (place.symm.trans there))).1
  subst equal
  exact ⟨before, after, whole, by simpa using place, begins, stands⟩

theorem scan_onLine (source : String) :
    ∃ placed, placed.map Prod.snd = scan source ∧ Tiles 0 source.toList placed ∧
      ∀ item ∈ placed, ∃ before after, source.toList = before ++ after ∧ item.1 = before.length ∧
        item.2.Begins after ∧ item.2.OnLine before source.toList := by
  obtain ⟨placed, same, tiles, standing⟩ := scan_standsAt source
  refine ⟨placed, same, tiles, fun item member => ?_⟩
  obtain ⟨before, after, whole, place, begins, stands⟩ := standing item member
  exact ⟨before, after, whole, place, begins, stands.onLine⟩

section Tokens

variable {source : String} {token : Token}

theorem tokens_scan (source : String) :
    Scanned.tokens (scan source) =
      Scanned.tokens (scanAmong source) ++ [.finish (Position.start.after source.toList)] := by
  rw [scan_eq, Scanned.tokens, List.filterMap_append]
  rfl

theorem spelt_of_scanAmong (member : token ∈ Scanned.tokens (scanAmong source)) :
    token.kind.Spelt token.lexeme.toList token.literal := by
  obtain ⟨placed, same, tiles⟩ := tiles_place source.toList 0 .start
  obtain ⟨front, position, whole, spelt⟩ := tiles.finished
  have among : scanAmong source = front :=
    (List.append_inj' ((scan_eq source).symm.trans (same.symm.trans whole)) rfl).1
  obtain ⟨item, found, shown⟩ := List.mem_filterMap.mp member
  cases item with
  | fault fault => cases shown
  | token other =>
    cases shown
    exact spelt token (among ▸ found)

theorem scanAmong_unfinished (source : String) :
    ∀ token ∈ Scanned.tokens (scanAmong source), (!token.isFinish) = true := by
  intro token member
  have apart := (spelt_of_scanAmong member).ne_finish
  simpa [Token.isFinish] using apart

theorem lexeme_of_keyword (member : token ∈ Scanned.tokens (scan source)) {word : Keyword}
    (kind : token.kind = .keyword word) : token.lexeme = word.spelling := by
  rw [tokens_scan, List.mem_append] at member
  rcases member with among | last
  · have spelt := spelt_of_scanAmong among
    rw [kind] at spelt
    generalize text : token.lexeme.toList = chars, token.literal = value at spelt
    cases spelt with
    | keyword _ _ same => rw [same, ← text, String.ofList_toList]
  · rw [List.mem_singleton.mp last] at kind
    cases kind

theorem finish_of_scan (source : String) :
    ∃ finish, (Scanned.tokens (scan source)).find? (·.isFinish) = some finish := by
  rw [← Option.isSome_iff_exists, List.find?_isSome, tokens_scan]
  exact ⟨_, List.mem_append_right _ (List.mem_singleton.mpr rfl), rfl⟩

end Tokens
end LoxLang

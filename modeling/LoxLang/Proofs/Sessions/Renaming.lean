import LoxLang.Proofs.Grammar.Respelling
import LoxLang.Proofs.Scoping.Renaming
import LoxLang.Proofs.Sessions.Reading
import LoxLang.Proofs.Sessions.Variants

/-!
Renaming a local changes nothing. A variable of a block or of a function, or a parameter, may be called
differently, as long as the references that are bound to it are: the source then passes all static
stages with the same distances, and does the same.
-/
namespace LoxLang

open Grammar

section Tokens

variable {fresh : String} {words others : List Token}

theorem lack_of_scan {source : String}
    (unused : ∀ token ∈ Scanned.tokens (scan source), token.lexeme ≠ fresh) :
    Lack fresh (Scanned.tokens (scanAmong source)) := by
  intro token member
  refine unused token ?_
  rw [scan_eq, tokens_append]
  exact List.mem_append_left _ member

theorem stands_of_scan {source : String}
    (sames : List.Forall₂ Token.SameWord words (Scanned.tokens (scanAmong source))) :
    List.Forall₂ Stands words (Scanned.tokens (scanAmong source)) := by
  have scanned : ∀ token ∈ Scanned.tokens (scanAmong source), token.FromSource := by
    intro token member
    refine ⟨source, ?_⟩
    rw [scan_eq, tokens_append]
    exact List.mem_append_left _ member
  have both := ((List.forall₂_and_left _ _).mpr ⟨scanned, sames.flip⟩).flip
  exact both.imp fun _ _ ⟨source, same⟩ => ⟨same, source⟩

end Tokens

section Programs

variable {session : Session} {source : String} {program renamed other : Program}
  {distances : Distances} {change : Rename}

def sameLine (site twin : Site) : Prop := twin.line = site.line

theorem twins_of_alike (alike : Stmt.eraseAll other = Stmt.eraseAll renamed) :
    List.Forall₂ (Stmt.Twin (.unbound sameLine)) renamed other :=
  Stmt.twins_of_erase renamed (alike.trans (congrArg _ (Stmt.downAll_zero renamed)).symm)
    fun _ _ _ _ line => line

theorem Session.Accepts.resolvedAlone (accepts : session.Accepts source program distances) :
    Stmt.ResolvedAll distances [] program :=
  resolve_resolved accepts.resolved accepts.regular accepts.numbered.1 fun _ _ => rfl

/-- The renamed program is that of a source in which the same words are replaced. -/
theorem Session.Accepts.respell (accepts : session.Accepts source program distances)
    (word : IsIdentifier change.fresh.toList)
    (renames : Stmt.WithinAll (Stmt.Renamed change) program renamed) :
    ∃ text, Respelling change.old change.fresh source text ∧ Scanned.faults (scan text) = [] ∧
      Derives (.declarations renamed) (beforeFinish (Scanned.tokens (scan text))) := by
  have derives := accepts.derives
  rw [beforeFinish_scan] at derives
  obtain ⟨words, respelt, derived⟩ :=
    derives.respellable (isName_of_identifier word) (.declarations (respelt_renamed renames))
  obtain ⟨text, respelling, silent, sames⟩ := scan_respelt word accepts.clean_scan respelt
  refine ⟨text, respelling, silent, ?_⟩
  rw [beforeFinish_scan]
  exact derived _ (stands_of_scan sames)

theorem Session.Accepts.lacks {fresh : String} (accepts : session.Accepts source program distances)
    (unused : ∀ token ∈ Scanned.tokens (scan source), token.lexeme ≠ fresh) :
    Stmt.LacksAll fresh program := by
  have derives := accepts.derives
  rw [beforeFinish_scan] at derives
  exact derives.lacks (lack_of_scan unused)

end Programs

section Sessions

variable {clock : Nat → Float} {session : Session} {source : String} {program renamed : Program}
  {distances : Distances} {old fresh : String}

/-- In a source that passes the static stages a variable that is declared in a block or in a function,
or a parameter, may get as its new name any identifier that does not occur in the source. If the
references that are bound to it get the new name, and nothing else does, then the source passes the
static stages with the same distances, and in the same session it ends in the same way as before, with
the same output, if one of the two ends. -/
theorem renaming_changes_nothing (reachable : Session.Reachable clock session)
    (accepts : session.Accepts source program distances) (word : IsIdentifier fresh.toList)
    (unused : ∀ token ∈ Scanned.tokens (scan source), token.lexeme ≠ fresh)
    (renames : Stmt.WithinAll (Stmt.Renamed ⟨distances, old, fresh⟩) program renamed) :
    ∃ (text : String) (other : Program) (otherDistances : Distances),
      Respelling old fresh source text ∧ session.Accepts text other otherDistances ∧
      Stmt.eraseAll other = Stmt.eraseAll renamed ∧
      List.Forall₂ (Stmt.Twin ⟨sameLine, distances, otherDistances⟩) renamed other ∧
      ∀ manner outcome output, session.Ends manner source outcome output ↔
        session.Ends manner text outcome output := by
  have lacks := accepts.lacks unused
  have resolved := accepts.resolvedAlone
  -- The renamed tree is spelt by the tokens of another source, and that source is read as the tree.
  obtain ⟨text, respelling, silent, derives⟩ := accepts.respell word renames
  obtain ⟨other, alike, accepted⟩ := session.accepts_of_derives silent derives
  have twins := twins_of_alike alike
  obtain ⟨otherDistances, otherResolved⟩ :=
    resolve_twin twins (resolve_renamed renames lacks resolved (resolve_stays accepts.resolved))
  have otherAccepts := accepted otherDistances otherResolved
  have bound := Stmt.Twin.boundAll twins (resolvedAll_renamed renames lacks resolved)
    otherAccepts.resolvedAlone
  -- Same program, other names: variants come to the same end.
  have variants := (variantAll_renamed renames lacks resolved).twin (fun _ _ line => line) twins
  refine ⟨text, other, otherDistances, respelling, otherAccepts, alike, bound, ?_⟩
  intro manner outcome output
  rw [Session.ends_iff_finishes accepts, Session.ends_iff_finishes otherAccepts]
  exact reachable.finishes_of_variant accepts.takes otherAccepts.takes (fun _ none => none) variants
    outcome output

/-- The inner variable of the same name and what is bound to it stay as they are. -/
theorem renaming_changes_nothing_shadowed :
    ∃ (text : String) (other : Program) (distances : Distances),
      Respelling "a" "b" "{ var a; { var a; print a; } print a; }" text ∧
      (Session.fresh fun _ => 0).Accepts text other distances ∧
      Stmt.eraseAll other = Stmt.eraseAll [.block [.var ⟨"b", 1⟩ none,
        .block [.var ⟨"a", 1⟩ none, .print (.variable ⟨0, 1⟩ "a")],
        .print (.variable ⟨1, 1⟩ "b")]] ∧
      ∀ manner outcome output,
        (Session.fresh fun _ => 0).Ends manner "{ var a; { var a; print a; } print a; }" outcome
          output ↔ (Session.fresh fun _ => 0).Ends manner text outcome output := by
  let inner : Stmt := .block [.var ⟨"a", 1⟩ none, .print (.variable ⟨0, 1⟩ "a")]
  let program : Program :=
    [.block ([] ++ .var ⟨"a", 1⟩ none :: [inner, .print (.variable ⟨1, 1⟩ "a")])]
  have accepts : (Session.fresh fun _ => 0).Accepts "{ var a; { var a; print a; } print a; }" program
      {(1, 0), (0, 0)} := ⟨by decide +kernel, by cbv, by cbv⟩
  have word : IsIdentifier "b".toList := .identifier (by decide) (by simp) (by decide)
  have renamed : Stmt.RenamedVar ⟨{(1, 0), (0, 0)}, "a", "b"⟩
      ([] ++ .var ⟨"a", 1⟩ none :: [inner, .print (.variable ⟨1, 1⟩ "a")])
      ([] ++ .var ⟨"b", 1⟩ none :: [inner, .print (.variable ⟨1, 1⟩ "b")]) := by
    have rest : Stmt.renameAll ⟨{(1, 0), (0, 0)}, "a", "b"⟩ 0
        [inner, .print (.variable ⟨1, 1⟩ "a")] = [inner, .print (.variable ⟨1, 1⟩ "b")] := by cbv
    exact rest ▸ .mk
  obtain ⟨text, other, distances, respelling, otherAccepts, alike, _, ends⟩ :=
    renaming_changes_nothing .fresh accepts word (by decide +kernel)
      ⟨[], _, _, [], rfl, rfl, .whole (.blockVar renamed)⟩
  exact ⟨text, other, distances, respelling, otherAccepts, alike, ends⟩

end Sessions
end LoxLang

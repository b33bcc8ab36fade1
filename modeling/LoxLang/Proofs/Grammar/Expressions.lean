import Mathlib
import LoxLang.Proofs.Grammar.Completeness
import LoxLang.Proofs.Grammar.Accepting

/-!
Reading expressions and spelling them are the two directions of one grammar.
-/
namespace LoxLang.Grammar

/-- Every well-levelled tree is read from any tokens that spell it, and whatever is read without a
report is well-levelled and spelt by the tokens that were taken for it. -/
theorem expression_grammar :
    (∀ (tree : Expr) (tokens rest : List Token) (cursor : Cursor) (bound : Nat),
      WellLevelled tree → Spells tree tokens → Rank.assignment.Ends rest →
      cursor.rest = tokens ++ rest → 2 * tokens.length < bound →
      ∃ found nextId,
        expression bound cursor = .read found { cursor with rest := rest, nextId := nextId } ∧
          found.erase = tree.erase) ∧
    ∀ (bound : Nat) (cursor after : Cursor) (found : Expr), cursor.FromSource →
      expression bound cursor = .read found after → after.faults = cursor.faults →
      WellLevelled found ∧ ∃ tokens, Spells found tokens ∧ cursor.rest = tokens ++ after.rest := by
  constructor
  · intro tree tokens rest cursor bound levelled spells ends here enough
    exact takes_expression levelled spells enough cursor rest here ends
  · intro bound cursor after found source read quiet
    obtain ⟨tokens, here, levelled, _, spells⟩ := (accepts_expression bound).2 cursor found after
      source read (Nat.le_of_eq (congrArg Array.size quiet))
    exact ⟨levelled, tokens, spells, here⟩

/-- The tree of `a = -f(nil)` needs no groups. -/
theorem expression_grammar_assignment :
    ∃ found after, expression 15 (Cursor.start 0 (Scanned.tokens (scan "a = -f(nil);"))) =
        .read found after ∧
      found.erase = .assign ⟨0, 1⟩ "a" (.unary ⟨0, 1⟩ .negative
        (.call ⟨0, 1⟩ (.variable ⟨0, 1⟩ "f") [.literal ⟨0, 1⟩ .nil])) ∧
      after.faults = #[] ∧ after.rest.length = 1 ∧ WellLevelled found ∧
      ∃ tokens, Spells found tokens ∧ tokens.length = 7 := by
  have scanned : Scanned.tokens (scan "a = -f(nil);") =
      [⟨.identifier, "a", none, ⟨1, 0⟩⟩, ⟨.symbol .equal, "=", none, ⟨1, 2⟩⟩,
        ⟨.symbol .minus, "-", none, ⟨1, 4⟩⟩, ⟨.identifier, "f", none, ⟨1, 5⟩⟩,
        ⟨.symbol .leftParen, "(", none, ⟨1, 6⟩⟩, ⟨.keyword .nil, "nil", none, ⟨1, 7⟩⟩,
        ⟨.symbol .rightParen, ")", none, ⟨1, 10⟩⟩, ⟨.symbol .semicolon, ";", none, ⟨1, 11⟩⟩,
        .finish ⟨1, 12⟩] := by cbv
  have source {token : Token} (member : token ∈ Scanned.tokens (scan "a = -f(nil);")) :
      token.FromSource := ⟨_, member⟩
  have name (token : Token) (member : token ∈ Scanned.tokens (scan "a = -f(nil);"))
      (kind : token.kind = .identifier) : IsName token.lexeme := ⟨token, source member, kind, rfl⟩
  have nil : IsLiteral .nil :=
    ⟨⟨.keyword .nil, "nil", none, ⟨1, 7⟩⟩, source (by simp [scanned]), rfl⟩
  -- The tree is spelt from its innermost part outwards.
  have call := @Spells.call 0 ⟨.symbol .leftParen, "(", none, ⟨1, 6⟩⟩
    ⟨.symbol .rightParen, ")", none, ⟨1, 10⟩⟩ _ _ _ _
    (@Spells.variable 0 ⟨.identifier, "f", none, ⟨1, 5⟩⟩ rfl) rfl
    (.some (.last (@Spells.literal 0 ⟨.keyword .nil, "nil", none, ⟨1, 7⟩⟩ .nil rfl))) rfl
  have spells := @Spells.assign 0 ⟨.identifier, "a", none, ⟨1, 0⟩⟩ ⟨.symbol .equal, "=", none, ⟨1, 2⟩⟩ _
    _ rfl rfl (@Spells.unary 0 .negative ⟨.symbol .minus, "-", none, ⟨1, 4⟩⟩ _ _ rfl call)
  have levelled : WellLevelled (.assign ⟨0, 1⟩ "a" (.unary ⟨0, 1⟩ .negative
      (.call ⟨0, 1⟩ (.variable ⟨0, 1⟩ "f") [.literal ⟨0, 1⟩ .nil]))) := by
    refine .assign (name ⟨.identifier, "a", none, ⟨1, 0⟩⟩ (by simp [scanned]) rfl)
      (.unary (.call (.variable (name ⟨.identifier, "f", none, ⟨1, 5⟩⟩ (by simp [scanned]) rfl))
        (by decide) (by decide) fun argument member => ?_) (by decide))
    rw [List.mem_singleton.mp member]
    exact .literal nil
  have start : Cursor.start 0 (Scanned.tokens (scan "a = -f(nil);")) =
      ⟨(Scanned.tokens (scan "a = -f(nil);")).take 8, .finish ⟨1, 12⟩, #[], 0⟩ := by
    rw [scanned]
    rfl
  have cursorSource : (Cursor.start 0 (Scanned.tokens (scan "a = -f(nil);"))).FromSource := by
    rw [start]
    exact ⟨fun token member => source (List.mem_of_mem_take member), rfl⟩
  obtain ⟨found, nextId, read, same⟩ := expression_grammar.1 _ _
    [⟨.symbol .semicolon, ";", none, ⟨1, 11⟩⟩]
    (Cursor.start 0 (Scanned.tokens (scan "a = -f(nil);"))) 15 levelled spells
    (Rank.ends_of_closing _ (by simp [endsExpression])) (by rw [start, scanned]; rfl) (by decide)
  obtain ⟨foundLevelled, tokens, foundSpells, here⟩ :=
    expression_grammar.2 _ _ _ _ cursorSource read rfl
  have length := congrArg List.length here
  rw [start, scanned, List.length_append] at length
  exact ⟨found, _, read, same, rfl, rfl, foundLevelled, tokens, foundSpells,
    (Nat.succ.inj length).symm⟩

end LoxLang.Grammar

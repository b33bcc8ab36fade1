import LoxLang.Proofs.Grammar.Derivations
import LoxLang.Proofs.Scanning.Respelling
import LoxLang.Proofs.Syntax.Respelling

/-!
Programs that are spelt differently. If a program is derived from tokens, then a program that has a new
name in some places is derived from tokens that have the new name in the same places.
-/
namespace LoxLang.Grammar

variable {old fresh : String}

/-- The other token comes from a scan and says the same. -/
structure Stands (token other : Token) : Prop extends Token.SameWord token other where
  source : other.FromSource

/-- The tokens can be respelt so that this holds of them, wherever in their lines they stand. -/
def Respellable (old fresh : String) (tokens : List Token) (holds : List Token → Prop) : Prop :=
  ∃ words, List.Forall₂ (Token.Respelt old fresh) tokens words ∧
    ∀ others, List.Forall₂ Stands words others → holds others

namespace Respellable

variable {tokens more : List Token} {holds less also : List Token → Prop}

theorem nil (here : holds []) : Respellable old fresh [] holds := by
  refine ⟨[], .nil, fun others stand => ?_⟩
  cases stand
  exact here

theorem imp (respellable : Respellable old fresh tokens holds)
    (weaker : ∀ others, holds others → less others) : Respellable old fresh tokens less :=
  have ⟨words, respelt, here⟩ := respellable
  ⟨words, respelt, fun others stand => weaker others (here others stand)⟩

theorem append (first : Respellable old fresh tokens holds)
    (second : Respellable old fresh more also) :
    Respellable old fresh (tokens ++ more) fun others =>
      ∃ before after, others = before ++ after ∧ holds before ∧ also after := by
  obtain ⟨words, respelt, here⟩ := first
  obtain ⟨further, further_respelt, there⟩ := second
  refine ⟨words ++ further, List.rel_append respelt further_respelt, fun others stand => ?_⟩
  have before := (List.forall₂_take_append others words further stand.flip).flip
  have after := (List.forall₂_drop_append others words further stand.flip).flip
  exact ⟨_, _, (List.take_append_drop words.length others).symm, here _ before, there _ after⟩

theorem cons (token : Token) (rest : Respellable old fresh tokens holds) :
    Respellable old fresh (token :: tokens) fun others =>
      ∃ first behind, others = first :: behind ∧ Stands token first ∧ holds behind := by
  obtain ⟨words, respelt, there⟩ := rest
  refine ⟨token :: words, .cons (.kept token) respelt, fun others stand => ?_⟩
  cases stand with
  | cons here later => exact ⟨_, _, rfl, here, there _ later⟩

theorem alone (token : Token) :
    Respellable old fresh [token] fun others => ∃ other, others = [other] ∧ Stands token other := by
  refine ⟨[token], .cons (.kept token) .nil, fun others stand => ?_⟩
  cases stand with
  | cons here later =>
    cases later
    exact ⟨_, rfl, here⟩

theorem name {token : Token} (kind : token.kind = .identifier) {other : String}
    (respelt : NameRespelt old fresh token.lexeme other) :
    Respellable old fresh [token] fun others => ∃ word : Token, others = [word] ∧
      word.FromSource ∧ word.kind = .identifier ∧ word.lexeme = other ∧ word.line = token.line := by
  generalize spelling : token.lexeme = lexeme at respelt
  cases respelt with
  | kept =>
    refine (alone token).imp fun _ ⟨word, whole, stands⟩ => ⟨word, whole, stands.source, ?_, ?_, ?_⟩
    · exact stands.kind.trans kind
    · exact stands.lexeme.trans spelling
    · exact stands.line
  | changed =>
    refine ⟨_, .cons (.changed kind spelling) .nil, fun others stand => ?_⟩
    cases stand with
    | cons here later =>
      cases later
      exact ⟨_, rfl, here.source, here.kind.trans kind, here.lexeme, here.line⟩

end Respellable
section Expressions

theorem isName_of_identifier (word : IsIdentifier fresh.toList) : IsName fresh := by
  have pieces : Piece.all (fresh.toList ++ []) = _ := Piece.all_identifier word nofun
  rw [List.append_nil, Piece.all_nil] at pieces
  refine ⟨⟨.identifier, fresh, none, .start⟩, ⟨fresh, ?_⟩, rfl, rfl⟩
  rw [scan, pieces, place_cons, Piece.scanned, String.ofList_toList]
  exact List.mem_cons_self

theorem rank_respelt {tree other : Expr} (respelt : tree.Respelt old fresh other) :
    rank other = rank tree := by
  cases respelt <;> rfl

theorem isName_respelt (word : IsName fresh) {name other : String} (named : IsName name)
    (respelt : NameRespelt old fresh name other) : IsName other := by
  cases respelt with
  | kept => exact named
  | changed => exact word

mutual

theorem WellLevelled.respelt (word : IsName fresh) : ∀ {tree other : Expr}, WellLevelled tree →
    tree.Respelt old fresh other → WellLevelled other
  | .literal _ _, _, .literal given, .literal _ _ => .literal given
  | .variable _ _, _, .variable named, .variable name => .variable (isName_respelt word named name)
  | .assign _ _ _, _, .assign named value, .assign name same =>
    .assign (isName_respelt word named name) (value.respelt word same)
  | .group _ _, _, .group inner, .group same => .group (inner.respelt word same)
  | .unary _ _ _, _, .unary operand above, .unary same =>
    .unary (operand.respelt word same) (by rwa [rank_respelt same])
  | .binary _ _ _ _, _, .binary left leftRank right rightRank, .binary first second =>
    .binary (left.respelt word first) (by rwa [rank_respelt first]) (right.respelt word second)
      (by rwa [rank_respelt second])
  | .logical _ _ _ _, _, .logical left leftRank right rightRank, .logical first second =>
    .logical (left.respelt word first) (by rwa [rank_respelt first]) (right.respelt word second)
      (by rwa [rank_respelt second])
  | .call _ _ arguments, _, .call callee above within levelled, .call first rest =>
    .call (callee.respelt word first) (by rwa [rank_respelt first]) (rest.length_eq ▸ within)
      (levelled_respelt word arguments levelled rest)

theorem levelled_respelt (word : IsName fresh) : ∀ (values : List Expr) {others : List Expr},
    (∀ value ∈ values, WellLevelled value) → List.Forall₂ (Expr.Respelt old fresh) values others →
    ∀ value ∈ others, WellLevelled value
  | [], _, _, .nil => nofun
  | first :: rest, _, levelled, .cons here later => by
    intro value member
    rcases List.mem_cons.mp member with rfl | later_
    · exact (levelled first List.mem_cons_self).respelt word here
    · exact levelled_respelt word rest
        (fun value among => levelled value (List.mem_cons_of_mem _ among)) later value later_

end

theorem Stands.value?_eq {token other : Token} (stands : Stands token other) :
    other.value? = token.value? := by
  rw [Token.value?, Token.value?, stands.kind, stands.literal]

mutual

theorem Spells.respellable : ∀ {tree : Expr} {tokens : List Token}, Spells tree tokens →
    ∀ {other : Expr}, tree.Respelt old fresh other → Respellable old fresh tokens (Spells other)
  | .literal _ _, _, .literal stands, _, .literal _ _ =>
    (Respellable.alone _).imp <| by
      rintro _ ⟨token, rfl, same⟩
      rw [← same.line]
      exact .literal (same.value?_eq.trans stands)
  | .variable _ _, _, .variable kind, _, .variable name =>
    (Respellable.name kind name).imp <| by
      rintro _ ⟨token, rfl, _, identifier, rfl, line⟩
      rw [← line]
      exact .variable identifier
  | .assign _ _ _, _, .assign kind equal value, _, .assign name same =>
    ((Respellable.name kind name).append ((value.respellable same).cons _)).imp <| by
      rintro _ ⟨_, _, rfl, ⟨token, rfl, _, identifier, rfl, line⟩, sign, tokens, rfl, stands, spells⟩
      rw [← line]
      exact .assign identifier (stands.kind.trans equal) spells
  | .group _ _, _, .group opens inner closes, _, .group same =>
    (((inner.respellable same).append (.alone _)).cons _).imp <| by
      rintro _ ⟨opening, _, rfl, first, _, _, rfl, spells, closing, rfl, last⟩
      rw [← first.line]
      exact .group (first.kind.trans opens) spells (last.kind.trans closes)
  | .unary _ _ _, _, .unary kind operand, _, .unary same =>
    ((operand.respellable same).cons _).imp <| by
      rintro _ ⟨sign, _, rfl, stands, spells⟩
      rw [← stands.line]
      exact .unary (stands.kind.trans kind) spells
  | .binary _ _ _ _, _, .binary left kind right, _, .binary first second =>
    ((left.respellable first).append ((right.respellable second).cons _)).imp <| by
      rintro _ ⟨_, _, rfl, before, sign, _, rfl, stands, after⟩
      rw [← stands.line]
      exact .binary before (stands.kind.trans kind) after
  | .logical _ _ _ _, _, .logical left kind right, _, .logical first second =>
    ((left.respellable first).append ((right.respellable second).cons _)).imp <| by
      rintro _ ⟨_, _, rfl, before, sign, _, rfl, stands, after⟩
      rw [← stands.line]
      exact .logical before (stands.kind.trans kind) after
  | .call _ _ arguments, _, .call callee opens listed closes, _, .call first rest =>
    ((callee.respellable first).append
      (((listed_respellable arguments listed rest).append (.alone _)).cons _)).imp <| by
      rintro _ ⟨_, _, rfl, spells, opening, _, rfl, begins, _, _, rfl, inside, closing, rfl, ends⟩
      rw [← ends.line]
      exact .call spells (begins.kind.trans opens) inside (ends.kind.trans closes)

theorem listed_respellable : ∀ (values : List Expr) {tokens : List Token},
    Listed Spells values tokens → ∀ {others : List Expr},
    List.Forall₂ (Expr.Respelt old fresh) values others →
    Respellable old fresh tokens (Listed Spells others)
  | _, _, .none, _, .nil => .nil .none
  | values, _, .some separated, _, same =>
    (separated_respellable values separated same).imp fun _ => .some

theorem separated_respellable : ∀ (values : List Expr) {tokens : List Token},
    Separated Spells values tokens → ∀ {others : List Expr},
    List.Forall₂ (Expr.Respelt old fresh) values others →
    Respellable old fresh tokens (Separated Spells others)
  | [_], _, .last item, _, .cons same .nil => (item.respellable same).imp fun _ => .last
  | _ :: rest, _, .more item comma later, _, .cons same sames =>
    ((item.respellable same).append ((separated_respellable rest later sames).cons _)).imp <| by
      rintro _ ⟨_, _, rfl, first, sign, _, rfl, stands, behind⟩
      exact .more first (stands.kind.trans comma) behind

end

end Expressions
section Statements

theorem Expressed.respellable (word : IsName fresh) {tree other : Expr} {tokens : List Token}
    (expressed : Expressed tree tokens) (respelt : tree.Respelt old fresh other) :
    Respellable old fresh tokens (Expressed other) :=
  (expressed.spells.respellable respelt).imp fun _ spells =>
    ⟨expressed.levelled.respelt word respelt, spells⟩

theorem Names.respellable {name other : Ident} {tokens : List Token} (names : Names name tokens)
    (respelt : name.Respelt old fresh other) : Respellable old fresh tokens (Names other) := by
  obtain ⟨token, rfl, _, kind, rfl⟩ := names
  refine (Respellable.name kind respelt.spelling).imp ?_
  rintro _ ⟨found, rfl, source, identifier, spelling, line⟩
  refine ⟨found, rfl, source, identifier, ?_⟩
  rw [spelling, line, ← show other.line = token.line from respelt.line]

theorem names_respellable {names others : List Ident} {tokens : List Token}
    (separated : Separated Names names tokens)
    (respelt : List.Forall₂ (Ident.Respelt old fresh) names others) :
    Respellable old fresh tokens (Separated Names others) := by
  induction separated generalizing others with
  | last item =>
    cases respelt with
    | cons same none =>
      cases none
      exact (item.respellable same).imp fun _ => .last
  | more item comma _ ih =>
    cases respelt with
    | cons same sames =>
      refine ((item.respellable same).append ((ih sames).cons _)).imp ?_
      rintro _ ⟨_, _, rfl, first, sign, _, rfl, stands, behind⟩
      exact .more first (stands.kind.trans comma) behind

theorem parameters_respellable {names others : List Ident} {tokens : List Token}
    (listed : Listed Names names tokens)
    (respelt : List.Forall₂ (Ident.Respelt old fresh) names others) :
    Respellable old fresh tokens (Listed Names others) := by
  cases listed with
  | none =>
    cases respelt
    exact .nil .none
  | some separated => exact (names_respellable separated respelt).imp fun _ => .some

theorem Optional.respellable (word : IsName fresh) {value other : Option Expr}
    {tokens : List Token} (optional : Optional value tokens)
    (respelt : Option.Rel (Expr.Respelt old fresh) value other) :
    Respellable old fresh tokens (Optional other) := by
  cases optional with
  | none =>
    cases respelt
    exact .nil .none
  | some expressed =>
    cases respelt with
    | some same => exact (expressed.respellable word same).imp fun _ => .some

theorem Initializes.respellable (word : IsName fresh) {value other : Option Expr}
    {tokens : List Token} (initializes : Initializes value tokens)
    (respelt : Option.Rel (Expr.Respelt old fresh) value other) :
    Respellable old fresh tokens (Initializes other) := by
  cases initializes with
  | none =>
    cases respelt
    exact .nil .none
  | some sign expressed =>
    cases respelt with
    | some same =>
      refine ((expressed.respellable word same).cons _).imp ?_
      rintro _ ⟨_, _, rfl, stands, inside⟩
      exact .some (stands.kind.trans sign) inside

theorem DeclaresVariable.respellable (word : IsName fresh) {statement other : Stmt}
    {tokens : List Token} (declares : DeclaresVariable statement tokens)
    (respelt : statement.Respelt old fresh other) :
    Respellable old fresh tokens (DeclaresVariable other) := by
  cases declares with
  | var names initializes ends =>
    cases respelt with
    | var name initial =>
      refine ((names.respellable name).append
        ((initializes.respellable word initial).append (.alone _))).imp ?_
      rintro _ ⟨_, _, rfl, named, _, _, rfl, initialized, semicolon, rfl, last⟩
      exact .var named initialized (last.kind.trans ends)

theorem FirstClause.respellable (word : IsName fresh) {first other : Option Stmt}
    {tokens : List Token} (clause : FirstClause first tokens)
    (respelt : Option.Rel (Stmt.Respelt old fresh) first other) :
    Respellable old fresh tokens (FirstClause other) := by
  cases clause with
  | none ends =>
    cases respelt
    refine (Respellable.alone _).imp ?_
    rintro _ ⟨semicolon, rfl, last⟩
    exact .none (last.kind.trans ends)
  | var keyword declares =>
    cases respelt with
    | some same =>
      refine ((declares.respellable word same).cons _).imp ?_
      rintro _ ⟨_, _, rfl, stands, declared⟩
      exact .var (stands.kind.trans keyword) declared
  | expression expressed ends =>
    cases respelt with
    | some same =>
      cases same with
      | expression value =>
        refine ((expressed.respellable word value).append (.alone _)).imp ?_
        rintro _ ⟨_, _, rfl, inside, semicolon, rfl, last⟩
        exact .expression inside (last.kind.trans ends)

theorem SecondClause.respellable (word : IsName fresh) {line : Nat} {test other : Expr}
    {tokens : List Token} (clause : SecondClause line test tokens)
    (respelt : test.Respelt old fresh other) :
    Respellable old fresh tokens (SecondClause line other) := by
  cases clause with
  | none =>
    cases respelt
    exact .nil .none
  | some expressed => exact (expressed.respellable word respelt).imp fun _ => .some

def round (step : Option Expr) (body : Stmt) : Stmt :=
  match step with
  | none => body
  | some step => .block [body, .expression step]

theorem round_respelt {step : Option Expr} {body other : Stmt}
    (respelt : (round step body).Respelt old fresh other) :
    ∃ otherStep otherBody, other = round otherStep otherBody ∧
      Option.Rel (Expr.Respelt old fresh) step otherStep ∧ body.Respelt old fresh otherBody :=
  match step, respelt with
  | none, respelt => ⟨none, _, rfl, .none, respelt⟩
  | some _, .block (.cons body (.cons (.expression step) .nil)) => ⟨some _, _, rfl, .some step, body⟩

theorem forLoop_respelt {initial : Option Stmt} {test : Expr} {step : Option Expr}
    {body other : Stmt} (respelt : (forLoop initial test step body).Respelt old fresh other) :
    ∃ otherInitial otherTest otherStep otherBody,
      other = forLoop otherInitial otherTest otherStep otherBody ∧
        Option.Rel (Stmt.Respelt old fresh) initial otherInitial ∧
        test.Respelt old fresh otherTest ∧
        Option.Rel (Expr.Respelt old fresh) step otherStep ∧
        body.Respelt old fresh otherBody := by
  cases initial with
  | none =>
    have whole : (Stmt.loop test (round step body)).Respelt old fresh other := respelt
    cases whole with
    | loop tested repeated =>
      obtain ⟨otherStep, otherBody, rfl, stepped, inside⟩ := round_respelt repeated
      exact ⟨none, _, otherStep, otherBody, rfl, .none, tested, stepped, inside⟩
  | some first =>
    have whole : (Stmt.block [first, .loop test (round step body)]).Respelt old fresh other := respelt
    cases whole with
    | block parts =>
      cases parts with
      | cons begun rest =>
        cases rest with
        | cons loop none =>
          cases none
          cases loop with
          | loop tested repeated =>
            obtain ⟨otherStep, otherBody, rfl, stepped, inside⟩ := round_respelt repeated
            exact ⟨some _, _, otherStep, otherBody, rfl, .some begun, tested, stepped, inside⟩

inductive Phrase.Respelt (old fresh : String) : Phrase → Phrase → Prop
  | declarations {program other : List Stmt} :
    List.Forall₂ (Stmt.Respelt old fresh) program other →
    Respelt old fresh (.declarations program) (.declarations other)
  | declaration {statement other : Stmt} : statement.Respelt old fresh other →
    Respelt old fresh (.declaration statement) (.declaration other)
  | statement {closed : Bool} {statement other : Stmt} : statement.Respelt old fresh other →
    Respelt old fresh (.statement closed statement) (.statement closed other)

/-- Whatever a program is derived from, tokens with the new name in some places give one that has the
new name there. -/
theorem Derives.respellable (word : IsName fresh) {phrase : Phrase} {tokens : List Token}
    (derives : Derives phrase tokens) {other : Phrase} (respelt : phrase.Respelt old fresh other) :
    Respellable old fresh tokens (Derives other) := by
  -- in each case the parts of the rule are respelt, and put together in the order of the rule
  induction derives generalizing other with
  | nil =>
    cases respelt with
    | declarations none =>
      cases none
      exact .nil .nil
  | cons _ _ first rest =>
    cases respelt with
    | declarations list =>
      cases list with
      | cons same sames =>
        refine ((first (.declaration same)).append (rest (.declarations sames))).imp ?_
        rintro _ ⟨_, _, rfl, here, later⟩
        exact .cons here later
  | «variable» kind declares =>
    cases respelt with
    | declaration same =>
      refine ((declares.respellable word same).cons _).imp ?_
      rintro _ ⟨_, _, rfl, stands, declared⟩
      exact .variable (stands.kind.trans kind) declared
  | function kind names opens listed within closes braced _ last body =>
    cases respelt with
    | declaration same =>
      cases same with
      | function name parameters bodies =>
        refine (((names.respellable name).append (((parameters_respellable listed parameters).append
          ((((body (.declarations bodies)).append (.alone _)).cons _).cons _)).cons _)).cons _).imp ?_
        rintro _ ⟨_, _, rfl, begins, _, _, rfl, named, _, _, rfl, opening, _, _, rfl, inside, _, _, rfl,
          closing, _, _, rfl, brace, _, _, rfl, program, _, rfl, ends⟩
        exact .function (begins.kind.trans kind) named (opening.kind.trans opens) inside
          (parameters.length_eq ▸ within) (closing.kind.trans closes) (brace.kind.trans braced) program
          (ends.kind.trans last)
  | statement _ inner =>
    cases respelt with
    | declaration same => exact (inner (.statement same)).imp fun _ => .statement
  | expression expressed ends =>
    cases respelt with
    | statement same =>
      cases same with
      | expression value =>
        refine ((expressed.respellable word value).append (.alone _)).imp ?_
        rintro _ ⟨_, _, rfl, inside, _, rfl, semicolon⟩
        exact .expression inside (semicolon.kind.trans ends)
  | print kind expressed ends =>
    cases respelt with
    | statement same =>
      cases same with
      | print value =>
        refine (((expressed.respellable word value).append (.alone _)).cons _).imp ?_
        rintro _ ⟨_, _, rfl, begins, _, _, rfl, inside, _, rfl, semicolon⟩
        exact .print (begins.kind.trans kind) inside (semicolon.kind.trans ends)
  | «return» kind optional ends =>
    cases respelt with
    | statement same =>
      cases same with
      | «return» value =>
        refine (((optional.respellable word value).append (.alone _)).cons _).imp ?_
        rintro _ ⟨_, _, rfl, begins, _, _, rfl, inside, _, rfl, semicolon⟩
        rw [← begins.line]
        exact .return (begins.kind.trans kind) inside (semicolon.kind.trans ends)
  | block kind _ ends body =>
    cases respelt with
    | statement same =>
      cases same with
      | block bodies =>
        refine (((body (.declarations bodies)).append (.alone _)).cons _).imp ?_
        rintro _ ⟨_, _, rfl, begins, _, _, rfl, inside, _, rfl, last⟩
        exact .block (begins.kind.trans kind) inside (last.kind.trans ends)
  | ifThen kind opens expressed closes _ yes =>
    cases respelt with
    | statement same =>
      cases same with
      | ifThen test inner =>
        refine ((((expressed.respellable word test).append
          ((yes (.statement inner)).cons _)).cons _).cons _).imp ?_
        rintro _ ⟨_, _, rfl, begins, _, _, rfl, opening, _, _, rfl, tested, _, _, rfl, closing, inside⟩
        exact .ifThen (begins.kind.trans kind) (opening.kind.trans opens) tested
          (closing.kind.trans closes) inside
  | ifElse kind opens expressed closes _ otherwise _ yes no =>
    cases respelt with
    | statement same =>
      cases same with
      | ifElse test first second =>
        refine ((((expressed.respellable word test).append (((yes (.statement first)).append
          ((no (.statement second)).cons _)).cons _)).cons _).cons _).imp ?_
        rintro _ ⟨_, _, rfl, begins, _, _, rfl, opening, _, _, rfl, tested, _, _, rfl, closing,
          _, _, rfl, inside, _, _, rfl, between, behind⟩
        exact .ifElse (begins.kind.trans kind) (opening.kind.trans opens) tested
          (closing.kind.trans closes) inside (between.kind.trans otherwise) behind
  | «while» kind opens expressed closes _ body =>
    cases respelt with
    | statement same =>
      cases same with
      | loop test inner =>
        refine ((((expressed.respellable word test).append
          ((body (.statement inner)).cons _)).cons _).cons _).imp ?_
        rintro _ ⟨_, _, rfl, begins, _, _, rfl, opening, _, _, rfl, tested, _, _, rfl, closing, inside⟩
        exact .while (begins.kind.trans kind) (opening.kind.trans opens) tested
          (closing.kind.trans closes) inside
  | «for» kind opens first second ends third closes _ body =>
    cases respelt with
    | statement same =>
      obtain ⟨_, _, _, _, rfl, initial, test, step, inner⟩ := forLoop_respelt same
      refine ((((first.respellable word initial).append ((second.respellable word test).append
        (((third.respellable word step).append
          ((body (.statement inner)).cons _)).cons _))).cons _).cons _).imp ?_
      rintro _ ⟨_, _, rfl, begins, _, _, rfl, opening, _, _, rfl, begun, _, _, rfl, tested, _, _, rfl,
        semicolon, _, _, rfl, stepped, _, _, rfl, closing, inside⟩
      rw [← opening.line] at tested
      exact .for (begins.kind.trans kind) (opening.kind.trans opens) begun tested
        (semicolon.kind.trans ends) stepped (closing.kind.trans closes) inside

end Statements
section Lacking

def Lack (fresh : String) (tokens : List Token) : Prop := ∀ token ∈ tokens, token.lexeme ≠ fresh

theorem lack_cons {token : Token} {tokens : List Token} :
    Lack fresh (token :: tokens) ↔ token.lexeme ≠ fresh ∧ Lack fresh tokens :=
  List.forall_mem_cons

theorem lack_append {tokens more : List Token} :
    Lack fresh (tokens ++ more) ↔ Lack fresh tokens ∧ Lack fresh more :=
  List.forall_mem_append

mutual

theorem Spells.lacks : ∀ {tree : Expr} {tokens : List Token}, Spells tree tokens →
    Lack fresh tokens → tree.Lacks fresh
  | .literal _ _, _, .literal _, _ => trivial
  | .variable _ _, _, .variable _, lack => (lack_cons.mp lack).1
  | .assign _ _ _, _, .assign _ _ value, lack =>
    ⟨(lack_cons.mp lack).1, value.lacks (lack_cons.mp (lack_cons.mp lack).2).2⟩
  | .group _ _, _, .group _ inner _, lack =>
    inner.lacks (lack_append.mp (lack_cons.mp lack).2).1
  | .unary _ _ _, _, .unary _ operand, lack => operand.lacks (lack_cons.mp lack).2
  | .binary _ _ _ _, _, .binary left _ right, lack
  | .logical _ _ _ _, _, .logical left _ right, lack =>
    have ⟨before, after⟩ := lack_append.mp lack
    ⟨left.lacks before, right.lacks (lack_cons.mp after).2⟩
  | .call _ _ arguments, _, .call callee _ listed _, lack =>
    have ⟨before, after⟩ := lack_append.mp lack
    ⟨callee.lacks before, listed_lacks arguments listed (lack_append.mp (lack_cons.mp after).2).1⟩

theorem listed_lacks : ∀ (values : List Expr) {tokens : List Token}, Listed Spells values tokens →
    Lack fresh tokens → Expr.LacksAll fresh values
  | _, _, .none, _ => trivial
  | values, _, .some separated, lack => separated_lacks values separated lack

theorem separated_lacks : ∀ (values : List Expr) {tokens : List Token},
    Separated Spells values tokens → Lack fresh tokens → Expr.LacksAll fresh values
  | [_], _, .last item, lack => ⟨item.lacks lack, trivial⟩
  | _ :: rest, _, .more item _ later, lack =>
    have ⟨before, after⟩ := lack_append.mp lack
    ⟨item.lacks before, separated_lacks rest later (lack_cons.mp after).2⟩

end

theorem Names.lacks {name : Ident} {tokens : List Token} (names : Names name tokens)
    (lack : Lack fresh tokens) : name.name ≠ fresh := by
  obtain ⟨token, rfl, _, _, rfl⟩ := names
  exact (lack_cons.mp lack).1

theorem names_lack {names : List Ident} {tokens : List Token}
    (separated : Separated Names names tokens) (lack : Lack fresh tokens) :
    fresh ∉ names.map Ident.name := by
  induction separated with
  | last item => simpa using (item.lacks lack).symm
  | more item _ _ ih =>
    obtain ⟨before, after⟩ := lack_append.mp lack
    rw [List.map_cons, List.mem_cons, not_or]
    exact ⟨(item.lacks before).symm, ih (lack_cons.mp after).2⟩

theorem parameters_lack {names : List Ident} {tokens : List Token}
    (listed : Listed Names names tokens) (lack : Lack fresh tokens) :
    fresh ∉ names.map Ident.name := by
  cases listed with
  | none => exact List.not_mem_nil
  | some separated => exact names_lack separated lack

theorem Optional.lacks {value : Option Expr} {tokens : List Token}
    (optional : Optional value tokens) (lack : Lack fresh tokens) :
    ∀ expr ∈ value, expr.Lacks fresh := by
  cases optional with
  | none => nofun
  | some expressed =>
    rintro _ ⟨⟩
    exact expressed.spells.lacks lack

theorem DeclaresVariable.lacks {statement : Stmt} {tokens : List Token}
    (declares : DeclaresVariable statement tokens) (lack : Lack fresh tokens) :
    statement.Lacks fresh := by
  cases declares with
  | var names initializes _ =>
    obtain ⟨named, behind⟩ := lack_append.mp lack
    refine ⟨names.lacks named, ?_⟩
    cases initializes with
    | none => nofun
    | some _ expressed =>
      rintro _ ⟨⟩
      exact expressed.spells.lacks (lack_cons.mp (lack_append.mp behind).1).2

theorem FirstClause.lacks {first : Option Stmt} {tokens : List Token}
    (clause : FirstClause first tokens) (lack : Lack fresh tokens) :
    ∀ statement ∈ first, statement.Lacks fresh := by
  cases clause with
  | none _ => nofun
  | var _ declares =>
    rintro _ ⟨⟩
    exact declares.lacks (lack_cons.mp lack).2
  | expression expressed _ =>
    rintro _ ⟨⟩
    exact expressed.spells.lacks (lack_append.mp lack).1

theorem SecondClause.lacks {line : Nat} {test : Expr} {tokens : List Token}
    (clause : SecondClause line test tokens) (lack : Lack fresh tokens) : test.Lacks fresh := by
  cases clause with
  | none => trivial
  | some expressed => exact expressed.spells.lacks lack

theorem forLoop_lacks {initial : Option Stmt} {test : Expr} {step : Option Expr} {body : Stmt}
    (first : ∀ statement ∈ initial, statement.Lacks fresh) (second : test.Lacks fresh)
    (third : ∀ expr ∈ step, expr.Lacks fresh) (inside : body.Lacks fresh) :
    (forLoop initial test step body).Lacks fresh := by
  cases initial with
  | none =>
    cases step with
    | none => exact ⟨second, inside⟩
    | some step => exact ⟨second, inside, third step rfl, trivial⟩
  | some begun =>
    cases step with
    | none => exact ⟨first begun rfl, ⟨second, inside⟩, trivial⟩
    | some step => exact ⟨first begun rfl, ⟨second, inside, third step rfl, trivial⟩, trivial⟩

def Phrase.Lacks (fresh : String) : Phrase → Prop
  | .declarations program => Stmt.LacksAll fresh program
  | .declaration tree => tree.Lacks fresh
  | .statement _ tree => tree.Lacks fresh

theorem Derives.lacks {phrase : Phrase} {tokens : List Token} (derives : Derives phrase tokens)
    (lack : Lack fresh tokens) : phrase.Lacks fresh := by
  induction derives with
  | nil => trivial
  | cons _ _ first rest =>
    obtain ⟨before, after⟩ := lack_append.mp lack
    exact ⟨first before, rest after⟩
  | «variable» _ declares => exact declares.lacks (lack_cons.mp lack).2
  | function _ names _ listed _ _ _ _ _ body =>
    simp only [lack_cons, lack_append] at lack
    obtain ⟨_, named, _, inside, _, _, program, _⟩ := lack
    exact ⟨names.lacks named, parameters_lack listed inside, body program⟩
  | statement _ inner => exact inner lack
  | expression expressed _ => exact expressed.spells.lacks (lack_append.mp lack).1
  | print _ expressed _ =>
    exact expressed.spells.lacks (lack_append.mp (lack_cons.mp lack).2).1
  | «return» _ optional _ => exact optional.lacks (lack_append.mp (lack_cons.mp lack).2).1
  | block _ _ _ body => exact body (lack_append.mp (lack_cons.mp lack).2).1
  | ifThen _ _ expressed _ _ yes =>
    simp only [lack_cons, lack_append] at lack
    obtain ⟨_, _, tested, _, inside⟩ := lack
    exact ⟨expressed.spells.lacks tested, yes inside⟩
  | ifElse _ _ expressed _ _ _ _ yes no =>
    simp only [lack_cons, lack_append] at lack
    obtain ⟨_, _, tested, _, inside, _, behind⟩ := lack
    exact ⟨expressed.spells.lacks tested, yes inside, no behind⟩
  | «while» _ _ expressed _ _ body =>
    simp only [lack_cons, lack_append] at lack
    obtain ⟨_, _, tested, _, inside⟩ := lack
    exact ⟨expressed.spells.lacks tested, body inside⟩
  | «for» _ _ first second _ third _ _ body =>
    simp only [lack_cons, lack_append] at lack
    obtain ⟨_, _, begun, tested, _, stepped, _, inside⟩ := lack
    exact forLoop_lacks (first.lacks begun) (second.lacks tested) (third.lacks stepped) (body inside)

end Lacking
end LoxLang.Grammar

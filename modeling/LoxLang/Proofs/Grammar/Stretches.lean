import LoxLang.Proofs.Grammar.Derivations
import LoxLang.Proofs.Syntax.Parts

/-!
The parts of a program among its tokens. Each node is spelt by a stretch of the tokens, without gaps,
and each word by one token. Only the condition of a `for` that has none is a node without tokens.
-/
namespace LoxLang.Grammar

/-- The token of a word: a name as it is spelt, or the keyword of a return. -/
inductive IsWord (token : Token) : Ident → Prop
  | name : token.kind = .identifier → IsWord token ⟨token.lexeme, token.line⟩
  | return : token.kind = .keyword .return → IsWord token ⟨Keyword.return.spelling, token.line⟩

/-- The node is spelt by some of the tokens that lie side by side. -/
def Stretch (tokens : List Token) (node : Expr) : Prop := ∃ own, own <:+: tokens ∧ Spells node own

/-- The tokens have a stretch for each node, unless it is understood, and a token for each word. -/
structure Covers (tokens : List Token) (nodes : List Expr) (words : List Ident) : Prop where
  nodes : ∀ node ∈ nodes, (∃ site, node = .literal site (.boolean true)) ∨ Stretch tokens node
  words : ∀ word ∈ words, ∃ token ∈ tokens, IsWord token word

namespace Covers

variable {tokens before after : List Token} {nodes others : List Expr} {words further : List Ident}

theorem within {more : List Token} (covers : Covers tokens nodes words) (inside : tokens <:+: more) :
    Covers more nodes words := by
  constructor
  · intro node member
    rcases covers.nodes node member with understood | ⟨own, among, spells⟩
    · exact .inl understood
    · exact .inr ⟨own, among.trans inside, spells⟩
  · intro word member
    obtain ⟨token, among, here⟩ := covers.words word member
    exact ⟨token, inside.subset among, here⟩

theorem cons {first : Token} (covers : Covers tokens nodes words) :
    Covers (first :: tokens) nodes words :=
  covers.within (List.suffix_cons first tokens).isInfix

theorem left (covers : Covers before nodes words) : Covers (before ++ after) nodes words :=
  covers.within (List.prefix_append before after).isInfix

theorem right (covers : Covers after nodes words) : Covers (before ++ after) nodes words :=
  covers.within (List.suffix_append before after).isInfix

theorem nil : Covers tokens [] [] := ⟨nofun, nofun⟩

theorem append (covers : Covers tokens nodes words) (also : Covers tokens others further) :
    Covers tokens (nodes ++ others) (words ++ further) :=
  ⟨List.forall_mem_append.mpr ⟨covers.nodes, also.nodes⟩,
    List.forall_mem_append.mpr ⟨covers.words, also.words⟩⟩

theorem whole {tree : Expr} (spells : Spells tree tokens) (covers : Covers tokens nodes words) :
    Covers tokens (tree :: nodes) words :=
  ⟨List.forall_mem_cons.mpr ⟨.inr ⟨tokens, List.infix_refl tokens, spells⟩, covers.nodes⟩,
    covers.words⟩

theorem withWord {token : Token} {word : Ident} (here : IsWord token word)
    (covers : Covers (token :: tokens) nodes words) :
    Covers (token :: tokens) nodes (word :: words) :=
  ⟨covers.nodes, List.forall_mem_cons.mpr ⟨⟨token, List.mem_cons_self, here⟩, covers.words⟩⟩

end Covers

section Expressions

mutual

theorem Spells.covers : ∀ {tree : Expr} {tokens : List Token}, Spells tree tokens →
    Covers tokens tree.nodes []
  | .literal _ _, _, .literal stands => .whole (.literal stands) .nil
  | .variable _ _, _, .variable kind => .whole (.variable kind) .nil
  | .assign _ _ _, _, .assign kind equal value => .whole (.assign kind equal value) value.covers.cons.cons
  | .group _ _, _, .group opens inner closes =>
    .whole (.group opens inner closes) inner.covers.left.cons
  | .unary _ _ _, _, .unary kind operand => .whole (.unary kind operand) operand.covers.cons
  | .binary _ _ _ _, _, .binary left kind right =>
    .whole (.binary left kind right) (left.covers.left.append right.covers.cons.right)
  | .logical _ _ _ _, _, .logical left kind right =>
    .whole (.logical left kind right) (left.covers.left.append right.covers.cons.right)
  | .call _ _ arguments, _, .call callee opens listed closes =>
    .whole (.call callee opens listed closes)
      (callee.covers.left.append (listed_covers arguments listed).left.cons.right)

theorem listed_covers : ∀ (values : List Expr) {tokens : List Token}, Listed Spells values tokens →
    Covers tokens (Expr.nodesAll values) []
  | _, _, .none => .nil
  | values, _, .some separated => separated_covers values separated

theorem separated_covers : ∀ (values : List Expr) {tokens : List Token},
    Separated Spells values tokens → Covers tokens (Expr.nodesAll values) []
  | [_], _, .last item => item.covers.append .nil
  | _ :: rest, _, .more item _ later =>
    item.covers.left.append (separated_covers rest later).cons.right

end

variable {tokens : List Token}

theorem Optional.covers {value : Option Expr} (optional : Optional value tokens) :
    Covers tokens (Expr.nodesOptional value) [] := by
  cases optional with
  | none => exact .nil
  | some expressed => exact expressed.spells.covers

theorem Initializes.covers {value : Option Expr} (initializes : Initializes value tokens) :
    Covers tokens (Expr.nodesOptional value) [] := by
  cases initializes with
  | none => exact .nil
  | some _ expressed => exact expressed.spells.covers.cons

end Expressions
section Statements

variable {tokens : List Token}

theorem Names.covers {name : Ident} (names : Names name tokens) : Covers tokens [] [name] := by
  obtain ⟨token, rfl, _, kind, rfl⟩ := names
  exact .withWord (.name kind) .nil

theorem names_covers {names : List Ident} (separated : Separated Names names tokens) :
    Covers tokens [] names := by
  induction separated with
  | last item => exact item.covers
  | more item _ _ ih => exact item.covers.left.append ih.cons.right

theorem parameters_covers {names : List Ident} (listed : Listed Names names tokens) :
    Covers tokens [] names := by
  cases listed with
  | none => exact .nil
  | some separated => exact names_covers separated

theorem DeclaresVariable.covers {statement : Stmt} (declares : DeclaresVariable statement tokens) :
    Covers tokens statement.nodes statement.words := by
  cases declares with
  | var names initializes _ => exact names.covers.left.append initializes.covers.left.right

theorem FirstClause.covers {first : Option Stmt} (clause : FirstClause first tokens) :
    Covers tokens (Stmt.nodesAll first.toList) (Stmt.wordsAll first.toList) := by
  cases clause with
  | none _ => exact .nil
  | var _ declares => exact declares.covers.cons.append .nil
  | expression expressed _ => exact expressed.spells.covers.left.append .nil

theorem SecondClause.covers {line : Nat} {test : Expr} (clause : SecondClause line test tokens) :
    Covers tokens test.nodes [] := by
  cases clause with
  | none =>
    constructor
    · intro node member
      exact .inl ⟨_, List.mem_singleton.mp member⟩
    · nofun
  | some expressed => exact expressed.spells.covers

theorem forLoop_covers {initial : Option Stmt} {test : Expr} {step : Option Expr} {body : Stmt}
    (first : Covers tokens (Stmt.nodesAll initial.toList) (Stmt.wordsAll initial.toList))
    (second : Covers tokens test.nodes []) (third : Covers tokens (Expr.nodesOptional step) [])
    (inside : Covers tokens body.nodes body.words) :
    Covers tokens (forLoop initial test step body).nodes (forLoop initial test step body).words := by
  have round : Covers tokens (forLoop none test step body).nodes
      (forLoop none test step body).words := by
    cases step with
    | none => exact second.append inside
    | some step => exact second.append (inside.append (third.append .nil))
  cases initial with
  | none => exact round
  | some begun =>
    have begins : Covers tokens begun.nodes begun.words := by
      simpa [Stmt.nodesAll, Stmt.wordsAll] using first
    exact begins.append (round.append .nil)

def Phrase.nodes : Phrase → List Expr
  | .declarations program => Stmt.nodesAll program
  | .declaration tree => tree.nodes
  | .statement _ tree => tree.nodes

def Phrase.words : Phrase → List Ident
  | .declarations program => Stmt.wordsAll program
  | .declaration tree => tree.words
  | .statement _ tree => tree.words

theorem Derives.covers {phrase : Phrase} (derives : Derives phrase tokens) :
    Covers tokens phrase.nodes phrase.words := by
  induction derives with
  | nil => exact .nil
  | cons _ _ first rest => exact first.left.append rest.right
  | «variable» _ declares => exact declares.covers.cons
  | function _ names _ listed _ _ _ _ _ body =>
    exact names.covers.left.cons.append ((parameters_covers listed).left.cons.right.cons.append
      body.left.cons.cons.right.cons.right.cons)
  | statement _ inner => exact inner
  | expression expressed _ => exact expressed.spells.covers.left
  | print _ expressed _ => exact expressed.spells.covers.left.cons
  | «return» kind optional _ => exact .withWord (.return kind) optional.covers.left.cons
  | block _ _ _ body => exact body.left.cons
  | ifThen _ _ expressed _ _ yes =>
    exact expressed.spells.covers.left.cons.cons.append yes.cons.right.cons.cons
  | ifElse _ _ expressed _ _ _ _ yes no =>
    exact expressed.spells.covers.left.cons.cons.append
      (yes.left.cons.right.cons.cons.append no.cons.right.cons.right.cons.cons)
  | «while» _ _ expressed _ _ body =>
    exact expressed.spells.covers.left.cons.cons.append body.cons.right.cons.cons
  | «for» _ _ first second _ third _ _ body =>
    exact forLoop_covers first.covers.left.cons.cons second.covers.left.right.cons.cons
      third.covers.left.cons.right.right.cons.cons body.cons.right.cons.right.right.cons.cons

end Statements
end LoxLang.Grammar

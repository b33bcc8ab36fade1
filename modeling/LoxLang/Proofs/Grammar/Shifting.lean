import LoxLang.Proofs.Grammar.Programs
import LoxLang.Proofs.Scanning.Joining
import LoxLang.Proofs.Syntax.Twins

/-!
Programs further down in a source. Tokens that stand so many lines further down are derived for the
same program with its nodes as many lines further down, and two token lists one behind the other for
one program behind the other.
-/
namespace LoxLang

def Site.down (lines : Nat) (site : Site) : Site := ⟨site.id, site.line + lines⟩

def Ident.down (lines : Nat) (name : Ident) : Ident := ⟨name.name, name.line + lines⟩

mutual

def Expr.down (lines : Nat) : Expr → Expr
  | .literal site value => .literal (site.down lines) value
  | .variable site name => .variable (site.down lines) name
  | .assign site target value => .assign (site.down lines) target (value.down lines)
  | .group site inner => .group (site.down lines) (inner.down lines)
  | .unary site op operand => .unary (site.down lines) op (operand.down lines)
  | .binary site op left right => .binary (site.down lines) op (left.down lines) (right.down lines)
  | .logical site op left right => .logical (site.down lines) op (left.down lines) (right.down lines)
  | .call site callee arguments =>
    .call (site.down lines) (callee.down lines) (Expr.downAll lines arguments)

def Expr.downAll (lines : Nat) : List Expr → List Expr
  | [] => []
  | first :: rest => first.down lines :: Expr.downAll lines rest

end

mutual

def Stmt.down (lines : Nat) : Stmt → Stmt
  | .var name initial => .var (name.down lines) (initial.map (Expr.down lines))
  | .function name parameters body =>
    .function (name.down lines) (parameters.map (Ident.down lines)) (Stmt.downAll lines body)
  | .expression value => .expression (value.down lines)
  | .print value => .print (value.down lines)
  | .block body => .block (Stmt.downAll lines body)
  | .ifThen test yes => .ifThen (test.down lines) (yes.down lines)
  | .ifElse test yes no => .ifElse (test.down lines) (yes.down lines) (no.down lines)
  | .loop test body => .loop (test.down lines) (body.down lines)
  | .return line value => .return (line + lines) (value.map (Expr.down lines))

def Stmt.downAll (lines : Nat) : List Stmt → List Stmt
  | [] => []
  | first :: rest => first.down lines :: Stmt.downAll lines rest

end

theorem Expr.downAll_eq_map (lines : Nat) (values : List Expr) :
    Expr.downAll lines values = values.map (Expr.down lines) := by
  induction values with
  | nil => rfl
  | cons first rest ih => rw [Expr.downAll, ih, List.map_cons]

namespace Piece

theorem all_newlines (count : Nat) :
    all (List.replicate count '\n') = List.replicate count (.blank '\n') := by
  induction count with
  | zero => exact all_nil
  | succ count ih =>
    have blank : cut '\n' (List.replicate count '\n') =
        (.blank '\n', List.replicate count '\n') := rfl
    rw [List.replicate_succ, all_cons, blank, ih, List.replicate_succ]

end Piece

theorem Token.FromSource.down {token : Token} (given : token.FromSource) (lines : Nat) :
    (token.down lines).FromSource := by
  obtain ⟨source, member⟩ := given
  cases lines with
  | zero => exact ⟨source, member⟩
  | succ count =>
    -- the same source, with as many empty lines in front of it as are wanted
    have closed : ∀ piece ∈ Piece.all (String.ofList (List.replicate count '\n')).toList,
        piece.isUnclosed = false := by
      rw [String.toList_ofList, Piece.all_newlines]
      intro piece among
      rw [List.eq_of_mem_replicate among]
      rfl
    have joined := scan_joined (String.ofList (List.replicate count '\n')) source closed
    refine ⟨String.ofList (List.replicate count '\n') ++ "\n" ++ source, ?_⟩
    rw [joined, String.toList_ofList, newlines, List.count_replicate_self, Scanned.tokens,
      List.filterMap_append]
    obtain ⟨item, found, same⟩ := List.mem_filterMap.mp member
    refine List.mem_append_right _ (List.mem_filterMap.mpr ⟨item.down (count + 1),
      List.mem_map_of_mem found, ?_⟩)
    cases item with
    | token other => exact congrArg (Option.map (Token.down (count + 1))) same
    | fault other => cases same

namespace Grammar

variable {lines : Nat}

theorem kind_down (lines : Nat) (token : Token) : (token.down lines).kind = token.kind := rfl

theorem value?_down (lines : Nat) (token : Token) : (token.down lines).value? = token.value? := rfl

theorem rank_down (lines : Nat) (tree : Expr) : rank (tree.down lines) = rank tree := by
  cases tree <;> rfl

mutual

theorem WellLevelled.down : ∀ {tree : Expr}, WellLevelled tree → WellLevelled (tree.down lines)
  | .literal _ _, .literal given => .literal given
  | .variable _ _, .variable named => .variable named
  | .assign _ _ _, .assign named value => .assign named value.down
  | .group _ _, .group inner => .group inner.down
  | .unary _ _ _, .unary operand above => .unary operand.down (by rwa [rank_down])
  | .binary _ _ _ _, .binary left leftRank right rightRank =>
    .binary left.down (by rwa [rank_down]) right.down (by rwa [rank_down])
  | .logical _ _ _ _, .logical left leftRank right rightRank =>
    .logical left.down (by rwa [rank_down]) right.down (by rwa [rank_down])
  | .call _ _ arguments, .call callee above within levelled =>
    .call callee.down (by rwa [rank_down]) (by rwa [Expr.downAll_eq_map, List.length_map])
      (levelled_downAll arguments levelled)

theorem levelled_downAll : ∀ values : List Expr, (∀ value ∈ values, WellLevelled value) →
    ∀ value ∈ Expr.downAll lines values, WellLevelled value
  | [], _ => nofun
  | first :: rest, levelled => by
    intro value member
    rcases List.mem_cons.mp member with rfl | later
    · exact (levelled first List.mem_cons_self).down
    · exact levelled_downAll rest (fun value among => levelled value (List.mem_cons_of_mem _ among))
        value later

end

mutual

theorem Spells.down (lines : Nat) : ∀ {tree : Expr} {tokens : List Token}, Spells tree tokens →
    Spells (tree.down lines) (tokens.map (Token.down lines))
  | .literal _ _, _, .literal stands => .literal ((value?_down lines _).trans stands)
  | .variable _ _, _, .variable kind => .variable ((kind_down lines _).trans kind)
  | .assign _ _ _, _, .assign kind equal value =>
    .assign ((kind_down lines _).trans kind) ((kind_down lines _).trans equal) (value.down lines)
  | .group _ _, _, .group opens inner closes => by
    rw [List.map_cons, List.map_append]
    exact .group ((kind_down lines _).trans opens) (inner.down lines)
      ((kind_down lines _).trans closes)
  | .unary _ _ _, _, .unary kind operand =>
    .unary ((kind_down lines _).trans kind) (operand.down lines)
  | .binary _ _ _ _, _, .binary left kind right => by
    rw [List.map_append, List.map_cons]
    exact .binary (left.down lines) ((kind_down lines _).trans kind) (right.down lines)
  | .logical _ _ _ _, _, .logical left kind right => by
    rw [List.map_append, List.map_cons]
    exact .logical (left.down lines) ((kind_down lines _).trans kind) (right.down lines)
  | .call _ _ arguments, _, .call callee opens listed closes => by
    rw [List.map_append, List.map_cons, List.map_append]
    exact .call (callee.down lines) ((kind_down lines _).trans opens)
      (listed_down lines arguments listed) ((kind_down lines _).trans closes)

theorem listed_down (lines : Nat) : ∀ (values : List Expr) {tokens : List Token},
    Listed Spells values tokens →
    Listed Spells (Expr.downAll lines values) (tokens.map (Token.down lines))
  | _, _, .none => .none
  | values, _, .some separated => .some (separated_down lines values separated)

theorem separated_down (lines : Nat) : ∀ (values : List Expr) {tokens : List Token},
    Separated Spells values tokens →
    Separated Spells (Expr.downAll lines values) (tokens.map (Token.down lines))
  | [_], _, .last item => .last (item.down lines)
  | _ :: rest, _, .more item comma later => by
    rw [List.map_append, List.map_cons]
    exact .more (item.down lines) ((kind_down lines _).trans comma)
      (separated_down lines rest later)

end

theorem Expressed.down {tree : Expr} {tokens : List Token} (expressed : Expressed tree tokens)
    (lines : Nat) : Expressed (tree.down lines) (tokens.map (Token.down lines)) :=
  ⟨expressed.levelled.down, expressed.spells.down lines⟩

theorem Names.down {name : Ident} {tokens : List Token} (names : Names name tokens) (lines : Nat) :
    Names (name.down lines) (tokens.map (Token.down lines)) := by
  obtain ⟨token, rfl, given, kind, rfl⟩ := names
  exact ⟨token.down lines, rfl, given.down lines, kind, rfl⟩

theorem names_down {names : List Ident} {tokens : List Token} (separated : Separated Names names tokens)
    (lines : Nat) :
    Separated Names (names.map (Ident.down lines)) (tokens.map (Token.down lines)) := by
  induction separated with
  | last item => exact .last (item.down lines)
  | more item comma _ ih =>
    rw [List.map_append, List.map_cons]
    exact .more (item.down lines) ((kind_down lines _).trans comma) ih

theorem parameters_down {names : List Ident} {tokens : List Token} (listed : Listed Names names tokens)
    (lines : Nat) : Listed Names (names.map (Ident.down lines)) (tokens.map (Token.down lines)) := by
  cases listed with
  | none => exact .none
  | some separated => exact .some (names_down separated lines)

theorem Optional.down {value : Option Expr} {tokens : List Token} (optional : Optional value tokens)
    (lines : Nat) : Optional (value.map (Expr.down lines)) (tokens.map (Token.down lines)) := by
  cases optional with
  | none => exact .none
  | some expressed => exact .some (expressed.down lines)

theorem DeclaresVariable.down {statement : Stmt} {tokens : List Token}
    (declares : DeclaresVariable statement tokens) (lines : Nat) :
    DeclaresVariable (statement.down lines) (tokens.map (Token.down lines)) := by
  cases declares with
  | var names initializes ends =>
    rw [List.map_append, List.map_append]
    refine .var (names.down lines) ?_ ((kind_down lines _).trans ends)
    cases initializes with
    | none => exact .none
    | some sign expressed => exact .some ((kind_down lines _).trans sign) (expressed.down lines)

theorem FirstClause.down {first : Option Stmt} {tokens : List Token}
    (clause : FirstClause first tokens) (lines : Nat) :
    FirstClause (first.map (Stmt.down lines)) (tokens.map (Token.down lines)) := by
  cases clause with
  | none ends => exact .none ((kind_down lines _).trans ends)
  | var keyword declares => exact .var ((kind_down lines _).trans keyword) (declares.down lines)
  | expression expressed ends =>
    rw [List.map_append]
    exact .expression (expressed.down lines) ((kind_down lines _).trans ends)

theorem SecondClause.down {line : Nat} {test : Expr} {tokens : List Token}
    (clause : SecondClause line test tokens) (lines : Nat) :
    SecondClause (line + lines) (test.down lines) (tokens.map (Token.down lines)) := by
  cases clause with
  | none => exact .none
  | some expressed => exact .some (expressed.down lines)

theorem forLoop_down (lines : Nat) (initial : Option Stmt) (test : Expr) (step : Option Expr)
    (body : Stmt) :
    (forLoop initial test step body).down lines =
      forLoop (initial.map (Stmt.down lines)) (test.down lines) (step.map (Expr.down lines))
        (body.down lines) := by
  cases initial <;> cases step <;> rfl

def Phrase.down (lines : Nat) : Phrase → Phrase
  | .declarations program => .declarations (Stmt.downAll lines program)
  | .declaration tree => .declaration (tree.down lines)
  | .statement closed tree => .statement closed (tree.down lines)

/-- The grammar does not know on which lines tokens stand. -/
theorem Derives.down {phrase : Phrase} {tokens : List Token} (derives : Derives phrase tokens)
    (lines : Nat) : Derives (phrase.down lines) (tokens.map (Token.down lines)) := by
  -- all that the grammar asks of a token is its kind
  have moved {token : Token} {kind : TokenKind} (same : token.kind = kind) :
      (token.down lines).kind = kind := same
  induction derives with
  | nil => exact .nil
  | cons _ _ first rest =>
    rw [List.map_append]
    exact .cons first rest
  | «variable» kind declares => exact .variable (moved kind) (declares.down lines)
  | function kind names opens listed within closes braced _ last body =>
    simp only [List.map_cons, List.map_append]
    exact .function (moved kind) (names.down lines) (moved opens) (parameters_down listed lines)
      (by rwa [List.length_map]) (moved closes) (moved braced) body (moved last)
  | statement _ inner => exact .statement inner
  | expression expressed ends =>
    rw [List.map_append]
    exact .expression (expressed.down lines) (moved ends)
  | print kind expressed ends =>
    rw [List.map_cons, List.map_append]
    exact .print (moved kind) (expressed.down lines) (moved ends)
  | «return» kind optional ends =>
    rw [List.map_cons, List.map_append]
    exact .return (moved kind) (optional.down lines) (moved ends)
  | block kind _ ends body =>
    rw [List.map_cons, List.map_append]
    exact .block (moved kind) body (moved ends)
  | ifThen kind opens expressed closes _ yes =>
    simp only [List.map_cons, List.map_append]
    exact .ifThen (moved kind) (moved opens) (expressed.down lines) (moved closes) yes
  | ifElse kind opens expressed closes _ otherwise _ yes no =>
    simp only [List.map_cons, List.map_append]
    exact .ifElse (moved kind) (moved opens) (expressed.down lines) (moved closes) yes
      (moved otherwise) no
  | «while» kind opens expressed closes _ body =>
    simp only [List.map_cons, List.map_append]
    exact .while (moved kind) (moved opens) (expressed.down lines) (moved closes) body
  | «for» kind opens first second ends third closes _ body =>
    simp only [List.map_cons, List.map_append, Phrase.down, forLoop_down]
    exact .for (moved kind) (moved opens) (first.down lines) (second.down lines) (moved ends)
      (third.down lines) (moved closes) body

theorem Derives.append {first last : List Stmt} {before after : List Token}
    (derives : Derives (.declarations first) before) (further : Derives (.declarations last) after) :
    Derives (.declarations (first ++ last)) (before ++ after) := by
  induction first generalizing before with
  | nil =>
    cases derives
    exact further
  | cons statement rest ih =>
    cases derives with
    | cons here later =>
      rw [List.append_assoc]
      exact .cons here (ih later)

end Grammar

section Twins

variable {lines : Nat} {nodes : Site → Site → Prop}

theorem Pairing.unbound_references {site twin : Site} (node : nodes site twin) :
    (Pairing.unbound nodes).References site twin :=
  ⟨node, Std.TreeMap.getElem?_emptyc.trans Std.TreeMap.getElem?_emptyc.symm⟩

/-- The nodes of two trees, as many lines apart, go together. -/
def Pairs (lines : Nat) (nodes : Site → Site → Prop) (ids others : List Nat) : Prop :=
  ∀ site twin : Site, site.id ∈ ids → twin.id ∈ others → twin.line = site.line + lines →
    nodes site twin

namespace Pairs

variable {id other : Nat} {ids more others further : List Nat}

theorem mono (pairs : Pairs lines nodes ids others) (among : more ⊆ ids) (also : further ⊆ others) :
    Pairs lines nodes more further :=
  fun site twin member matched => pairs site twin (among member) (also matched)

theorem tail (pairs : Pairs lines nodes (id :: ids) (other :: others)) :
    Pairs lines nodes ids others :=
  pairs.mono (List.subset_cons_self _ _) (List.subset_cons_self _ _)

theorem left (pairs : Pairs lines nodes (ids ++ more) (others ++ further)) :
    Pairs lines nodes ids others :=
  pairs.mono (List.subset_append_left _ _) (List.subset_append_left _ _)

theorem right (pairs : Pairs lines nodes (ids ++ more) (others ++ further)) :
    Pairs lines nodes more further :=
  pairs.mono (List.subset_append_right _ _) (List.subset_append_right _ _)

theorem head {site twin : Site} (pairs : Pairs lines nodes (site.id :: ids) (twin.id :: others))
    (same : twin.erase = (site.down lines).erase) : nodes site twin :=
  pairs site twin List.mem_cons_self List.mem_cons_self (congrArg Site.line same)

end Pairs

mutual

/-- Trees that differ in the numbers of their nodes, and stand so many lines apart, are twins. -/
theorem Expr.twin_of_erase : ∀ (expr : Expr) {other : Expr}, other.erase = (expr.down lines).erase →
    Pairs lines nodes expr.ids other.ids → expr.Twin (.unbound nodes) other
  | .literal site value, other, same, pairs => by
    cases other with
    | literal twin otherValue =>
      obtain ⟨line, rfl⟩ := Expr.literal.inj same
      exact .literal (pairs.head line)
    | _ => cases same
  | .variable site name, other, same, pairs => by
    cases other with
    | «variable» twin otherName =>
      obtain ⟨line, rfl⟩ := Expr.variable.inj same
      exact .variable (Pairing.unbound_references (pairs.head line))
    | _ => cases same
  | .assign site target value, other, same, pairs => by
    cases other with
    | assign twin otherTarget otherValue =>
      obtain ⟨line, rfl, inner⟩ := Expr.assign.inj same
      exact .assign (Pairing.unbound_references (pairs.head line))
        (value.twin_of_erase inner pairs.tail)
    | _ => cases same
  | .group site inner, other, same, pairs => by
    cases other with
    | group twin otherInner =>
      obtain ⟨line, inside⟩ := Expr.group.inj same
      exact .group (pairs.head line) (inner.twin_of_erase inside pairs.tail)
    | _ => cases same
  | .unary site op operand, other, same, pairs => by
    cases other with
    | unary twin otherOp otherOperand =>
      obtain ⟨line, rfl, inner⟩ := Expr.unary.inj same
      exact .unary (pairs.head line) (operand.twin_of_erase inner pairs.tail)
    | _ => cases same
  | .binary site op left right, other, same, pairs => by
    cases other with
    | binary twin otherOp otherLeft otherRight =>
      obtain ⟨line, rfl, first, second⟩ := Expr.binary.inj same
      exact .binary (pairs.head line) (left.twin_of_erase first pairs.tail.left)
        (right.twin_of_erase second pairs.tail.right)
    | _ => cases same
  | .logical site op left right, other, same, pairs => by
    cases other with
    | logical twin otherOp otherLeft otherRight =>
      obtain ⟨line, rfl, first, second⟩ := Expr.logical.inj same
      exact .logical (pairs.head line) (left.twin_of_erase first pairs.tail.left)
        (right.twin_of_erase second pairs.tail.right)
    | _ => cases same
  | .call site callee arguments, other, same, pairs => by
    cases other with
    | call twin otherCallee others =>
      obtain ⟨line, first, rest⟩ := Expr.call.inj same
      exact .call (pairs.head line) (callee.twin_of_erase first pairs.tail.left)
        (Expr.twins_of_erase arguments rest pairs.tail.right)
    | _ => cases same

theorem Expr.twins_of_erase : ∀ (values : List Expr) {others : List Expr},
    Expr.eraseAll others = Expr.eraseAll (Expr.downAll lines values) →
    Pairs lines nodes (Expr.idsAll values) (Expr.idsAll others) →
    List.Forall₂ (Expr.Twin (.unbound nodes)) values others
  | [], others, same, _ => by
    cases others with
    | nil => exact .nil
    | cons _ _ => cases same
  | first :: rest, others, same, pairs => by
    cases others with
    | nil => cases same
    | cons twin others =>
      obtain ⟨here, later⟩ := List.cons.inj same
      exact .cons (first.twin_of_erase here pairs.left)
        (Expr.twins_of_erase rest later pairs.right)

end

theorem Expr.twinOptional_of_erase {value other : Option Expr}
    (same : other.map Expr.erase = (value.map (Expr.down lines)).map Expr.erase)
    (pairs : Pairs lines nodes (Expr.idsOptional value) (Expr.idsOptional other)) :
    Option.Rel (Expr.Twin (.unbound nodes)) value other := by
  cases value with
  | none =>
    cases other with
    | none => exact .none
    | some _ => cases same
  | some value =>
    cases other with
    | none => cases same
    | some other => exact .some (value.twin_of_erase (Option.some.inj same) pairs)

mutual

theorem Stmt.twin_of_erase : ∀ (stmt : Stmt) {other : Stmt}, other.erase = (stmt.down lines).erase →
    Pairs lines nodes stmt.ids other.ids → stmt.Twin (.unbound nodes) other
  | .var name initial, other, same, pairs => by
    cases other with
    | var otherName otherInitial =>
      obtain ⟨rfl, inner⟩ := Stmt.var.inj same
      exact .var (Expr.twinOptional_of_erase inner pairs)
    | _ => cases same
  | .function name parameters body, other, same, pairs => by
    cases other with
    | function otherName otherParameters otherBody =>
      obtain ⟨rfl, rfl, inner⟩ := Stmt.function.inj same
      refine .function ?_ (Stmt.twins_of_erase body inner pairs)
      rw [List.map_map]
      rfl
    | _ => cases same
  | .expression value, other, same, pairs => by
    cases other with
    | expression otherValue =>
      exact .expression (value.twin_of_erase (Stmt.expression.inj same) pairs)
    | _ => cases same
  | .print value, other, same, pairs => by
    cases other with
    | print otherValue => exact .print (value.twin_of_erase (Stmt.print.inj same) pairs)
    | _ => cases same
  | .block body, other, same, pairs => by
    cases other with
    | block otherBody => exact .block (Stmt.twins_of_erase body (Stmt.block.inj same) pairs)
    | _ => cases same
  | .ifThen test yes, other, same, pairs => by
    cases other with
    | ifThen otherTest otherYes =>
      obtain ⟨first, second⟩ := Stmt.ifThen.inj same
      exact .ifThen (test.twin_of_erase first pairs.left) (yes.twin_of_erase second pairs.right)
    | _ => cases same
  | .ifElse test yes no, other, same, pairs => by
    cases other with
    | ifElse otherTest otherYes otherNo =>
      obtain ⟨first, second, third⟩ := Stmt.ifElse.inj same
      exact .ifElse (test.twin_of_erase first pairs.left)
        (yes.twin_of_erase second pairs.right.left) (no.twin_of_erase third pairs.right.right)
    | _ => cases same
  | .loop test body, other, same, pairs => by
    cases other with
    | loop otherTest otherBody =>
      obtain ⟨first, second⟩ := Stmt.loop.inj same
      exact .loop (test.twin_of_erase first pairs.left) (body.twin_of_erase second pairs.right)
    | _ => cases same
  | .return line value, other, same, pairs => by
    cases other with
    | «return» otherLine otherValue =>
      obtain ⟨_, inner⟩ := Stmt.return.inj same
      exact .return (Expr.twinOptional_of_erase inner pairs)
    | _ => cases same

theorem Stmt.twins_of_erase : ∀ (body : List Stmt) {others : List Stmt},
    Stmt.eraseAll others = Stmt.eraseAll (Stmt.downAll lines body) →
    Pairs lines nodes (Stmt.idsAll body) (Stmt.idsAll others) →
    List.Forall₂ (Stmt.Twin (.unbound nodes)) body others
  | [], others, same, _ => by
    cases others with
    | nil => exact .nil
    | cons _ _ => cases same
  | first :: rest, others, same, pairs => by
    cases others with
    | nil => cases same
    | cons twin others =>
      obtain ⟨here, later⟩ := List.cons.inj same
      exact .cons (first.twin_of_erase here pairs.left)
        (Stmt.twins_of_erase rest later pairs.right)

end

mutual

theorem Expr.down_zero : ∀ expr : Expr, expr.down 0 = expr
  | .literal _ _ | .variable _ _ => rfl
  | .assign site target value => congrArg (Expr.assign site target) value.down_zero
  | .group site inner => congrArg (Expr.group site) inner.down_zero
  | .unary site op operand => congrArg (Expr.unary site op) operand.down_zero
  | .binary site op left right => congrArg₂ (Expr.binary site op) left.down_zero right.down_zero
  | .logical site op left right => congrArg₂ (Expr.logical site op) left.down_zero right.down_zero
  | .call site callee arguments =>
    congrArg₂ (Expr.call site) callee.down_zero (Expr.downAll_zero arguments)

theorem Expr.downAll_zero : ∀ values : List Expr, Expr.downAll 0 values = values
  | [] => rfl
  | first :: rest => congrArg₂ List.cons first.down_zero (Expr.downAll_zero rest)

end

theorem Expr.downOptional_zero (value : Option Expr) : value.map (Expr.down 0) = value := by
  cases value with
  | none => rfl
  | some value => exact congrArg some value.down_zero

mutual

theorem Stmt.down_zero : ∀ stmt : Stmt, stmt.down 0 = stmt
  | .var name initial => congrArg (Stmt.var name) (Expr.downOptional_zero initial)
  | .function name parameters body =>
    congrArg₂ (Stmt.function name) (List.map_id parameters) (Stmt.downAll_zero body)
  | .expression value => congrArg Stmt.expression value.down_zero
  | .print value => congrArg Stmt.print value.down_zero
  | .block body => congrArg Stmt.block (Stmt.downAll_zero body)
  | .ifThen test yes => congrArg₂ Stmt.ifThen test.down_zero yes.down_zero
  | .ifElse test yes no => by
    rw [Stmt.down, test.down_zero, yes.down_zero, no.down_zero]
  | .loop test body => congrArg₂ Stmt.loop test.down_zero body.down_zero
  | .return line value => congrArg (Stmt.return line) (Expr.downOptional_zero value)

theorem Stmt.downAll_zero : ∀ body : List Stmt, Stmt.downAll 0 body = body
  | [] => rfl
  | first :: rest => congrArg₂ List.cons first.down_zero (Stmt.downAll_zero rest)

end

end Twins
end LoxLang

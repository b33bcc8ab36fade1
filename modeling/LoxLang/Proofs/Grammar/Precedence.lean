import LoxLang.Scan
import LoxLang.Grammar.Expression
import LoxLang.Proofs.Syntax.Nodes

/-!
The grammar of expressions apart from any reader: how tightly a tree holds together, which trees need
no further groups, and which tokens spell them.
-/
namespace LoxLang

/-- A token that the scanner gives for some source. -/
def Token.FromSource (token : Token) : Prop := ∃ source, token ∈ Scanned.tokens (scan source)

def Token.value? (token : Token) : Option Literal :=
  match token.kind with
  | .keyword .true => some (.boolean true)
  | .keyword .false => some (.boolean false)
  | .keyword .nil => some .nil
  | .string | .number => token.literal
  | _ => none

def UnaryOp.kind : UnaryOp → TokenKind
  | .not => .symbol .bang
  | .negative => .symbol .minus

def BinaryOp.kind : BinaryOp → TokenKind
  | .equal => .symbol .equalEqual
  | .notEqual => .symbol .bangEqual
  | .less => .symbol .less
  | .lessEqual => .symbol .lessEqual
  | .greater => .symbol .greater
  | .greaterEqual => .symbol .greaterEqual
  | .add => .symbol .plus
  | .subtract => .symbol .minus
  | .multiply => .symbol .star
  | .divide => .symbol .slash

def LogicalOp.kind : LogicalOp → TokenKind
  | .and => .keyword .and
  | .or => .keyword .or

def Site.erase (site : Site) : Site := ⟨0, site.line⟩

mutual

/-- The tree without the identities of its nodes. -/
def Expr.erase : Expr → Expr
  | .literal site value => .literal site.erase value
  | .variable site name => .variable site.erase name
  | .assign site target value => .assign site.erase target value.erase
  | .group site inner => .group site.erase inner.erase
  | .unary site op operand => .unary site.erase op operand.erase
  | .binary site op left right => .binary site.erase op left.erase right.erase
  | .logical site op left right => .logical site.erase op left.erase right.erase
  | .call site callee arguments => .call site.erase callee.erase (Expr.eraseAll arguments)

def Expr.eraseAll : List Expr → List Expr
  | [] => []
  | first :: rest => first.erase :: Expr.eraseAll rest

end

theorem Expr.eraseAll_eq_map (values : List Expr) : Expr.eraseAll values = values.map Expr.erase := by
  induction values with
  | nil => rfl
  | cons first rest ih => rw [Expr.eraseAll, ih, List.map_cons]

namespace Grammar

def Operator.kind : Operator → TokenKind
  | .binary op => op.kind
  | .logical op => op.kind

def Operator.level : Operator → Level
  | .binary .equal | .binary .notEqual => .equality
  | .binary .less | .binary .lessEqual | .binary .greater | .binary .greaterEqual => .comparison
  | .binary .add | .binary .subtract => .term
  | .binary .multiply | .binary .divide => .factor
  | .logical .and => .conjunction
  | .logical .or => .disjunction

/-- How tightly the parts of a tree hold together. -/
inductive Rank where
  | assignment
  | chain (level : Level)
  | unary
  | call
  | primary
deriving DecidableEq

def Level.height : Level → Nat
  | .disjunction => 1
  | .conjunction => 2
  | .equality => 3
  | .comparison => 4
  | .term => 5
  | .factor => 6

def Rank.height : Rank → Nat
  | .assignment => 0
  | .chain level => level.height
  | .unary => 7
  | .call => 8
  | .primary => 9

instance : LE Rank := ⟨fun loose tight => loose.height ≤ tight.height⟩

instance : LT Rank := ⟨fun loose tight => loose.height < tight.height⟩

instance (loose tight : Rank) : Decidable (loose ≤ tight) :=
  inferInstanceAs (Decidable (loose.height ≤ tight.height))

def Operator.rank (operator : Operator) : Rank := .chain operator.level

def rank : Expr → Rank
  | .literal _ _ => .primary
  | .variable _ _ => .primary
  | .assign _ _ _ => .assignment
  | .group _ _ => .primary
  | .unary _ _ _ => .unary
  | .binary _ op _ _ => (Operator.binary op).rank
  | .logical _ op _ _ => (Operator.logical op).rank
  | .call _ _ _ => .call

def IsName (name : String) : Prop :=
  ∃ token : Token, token.FromSource ∧ token.kind = .identifier ∧ token.lexeme = name

def IsLiteral (value : Literal) : Prop :=
  ∃ token : Token, token.FromSource ∧ token.value? = some value

/-- No part of the tree holds together less tightly than its place asks for, and names and literals
are such as the scanner gives. -/
inductive WellLevelled : Expr → Prop
  | literal {site : Site} {value : Literal} : IsLiteral value → WellLevelled (.literal site value)
  | variable {site : Site} {name : String} : IsName name → WellLevelled (.variable site name)
  | assign {site : Site} {target : String} {value : Expr} : IsName target → WellLevelled value →
    WellLevelled (.assign site target value)
  | group {site : Site} {inner : Expr} : WellLevelled inner → WellLevelled (.group site inner)
  | unary {site : Site} {op : UnaryOp} {operand : Expr} : WellLevelled operand →
    .unary ≤ rank operand → WellLevelled (.unary site op operand)
  | binary {site : Site} {op : BinaryOp} {left right : Expr} : WellLevelled left →
    (Operator.binary op).rank ≤ rank left → WellLevelled right →
    (Operator.binary op).rank < rank right → WellLevelled (.binary site op left right)
  | logical {site : Site} {op : LogicalOp} {left right : Expr} : WellLevelled left →
    (Operator.logical op).rank ≤ rank left → WellLevelled right →
    (Operator.logical op).rank < rank right → WellLevelled (.logical site op left right)
  | call {site : Site} {callee : Expr} {arguments : List Expr} : WellLevelled callee →
    .call ≤ rank callee → arguments.length ≤ maxItems →
    (∀ argument ∈ arguments, WellLevelled argument) → WellLevelled (.call site callee arguments)

section Lists

variable {α : Type}

/-- One item or more, with commas between them. -/
inductive Separated (item : α → List Token → Prop) : List α → List Token → Prop
  | last {value : α} {tokens : List Token} : item value tokens → Separated item [value] tokens
  | more {value : α} {rest : List α} {before after : List Token} {comma : Token} :
    item value before → comma.kind = .symbol .comma → Separated item rest after →
    Separated item (value :: rest) (before ++ comma :: after)

/-- Any number of items, with commas between them. -/
inductive Listed (item : α → List Token → Prop) : List α → List Token → Prop
  | none : Listed item [] []
  | some {values : List α} {tokens : List Token} : Separated item values tokens →
    Listed item values tokens

def Begins (item : α → List Token → Prop) (entry : α × Token) (tokens : List Token) : Prop :=
  item entry.1 tokens ∧ tokens.head? = some entry.2

variable {item : α → List Token → Prop} {values : List α} {tokens : List Token}

theorem Separated.begins (full : ∀ value tokens, item value tokens → 0 < tokens.length)
    (separated : Separated item values tokens) :
    ∃ entries, entries.map Prod.fst = values ∧ Separated (Begins item) entries tokens := by
  have start {value : α} {tokens : List Token} (here : item value tokens) :
      ∃ first, Begins item (value, first) tokens := by
    cases tokens with
    | nil => exact absurd (full value [] here) (Nat.lt_irrefl 0)
    | cons first others => exact ⟨first, here, rfl⟩
  induction separated with
  | @last value tokens here =>
    obtain ⟨first, begins⟩ := start here
    exact ⟨[(value, first)], rfl, .last begins⟩
  | @more value rest before after comma here kind _ ih =>
    obtain ⟨first, begins⟩ := start here
    obtain ⟨entries, rfl, separated⟩ := ih
    exact ⟨(value, first) :: entries, rfl, .more begins kind separated⟩

theorem Separated.first {entries : List (α × Token)}
    (separated : Separated (Begins item) entries tokens) :
    ∃ first more others, entries.map Prod.snd = first :: more ∧ tokens = first :: others := by
  cases separated with
  | @last entry tokens begins =>
    obtain ⟨others, rfl⟩ := List.head?_eq_some_iff.mp begins.2
    exact ⟨_, _, _, rfl, rfl⟩
  | more begins kind further =>
    obtain ⟨others, rfl⟩ := List.head?_eq_some_iff.mp begins.2
    exact ⟨_, _, _, rfl, rfl⟩

theorem Listed.begins (full : ∀ value tokens, item value tokens → 0 < tokens.length)
    (listed : Listed item values tokens) :
    ∃ entries, entries.map Prod.fst = values ∧ Listed (Begins item) entries tokens := by
  cases listed with
  | none => exact ⟨[], rfl, .none⟩
  | some separated =>
    obtain ⟨entries, same, begun⟩ := separated.begins full
    exact ⟨entries, same, .some begun⟩

end Lists

/-- The tokens of a tree in order. Each node has the line of the token that stands for it: an
operator, a word, the opening bracket of a group, the closing one of a call. -/
inductive Spells : Expr → List Token → Prop
  | literal {id : Nat} {token : Token} {value : Literal} : token.value? = some value →
    Spells (.literal ⟨id, token.line⟩ value) [token]
  | variable {id : Nat} {token : Token} : token.kind = .identifier →
    Spells (.variable ⟨id, token.line⟩ token.lexeme) [token]
  | assign {id : Nat} {token sign : Token} {value : Expr} {tokens : List Token} :
    token.kind = .identifier → sign.kind = .symbol .equal → Spells value tokens →
    Spells (.assign ⟨id, token.line⟩ token.lexeme value) (token :: sign :: tokens)
  | group {id : Nat} {opening closing : Token} {inner : Expr} {tokens : List Token} :
    opening.kind = .symbol .leftParen → Spells inner tokens →
    closing.kind = .symbol .rightParen →
    Spells (.group ⟨id, opening.line⟩ inner) (opening :: (tokens ++ [closing]))
  | unary {id : Nat} {op : UnaryOp} {sign : Token} {operand : Expr} {tokens : List Token} :
    sign.kind = op.kind → Spells operand tokens →
    Spells (.unary ⟨id, sign.line⟩ op operand) (sign :: tokens)
  | binary {id : Nat} {op : BinaryOp} {sign : Token} {left right : Expr}
    {before after : List Token} : Spells left before → sign.kind = op.kind → Spells right after →
    Spells (.binary ⟨id, sign.line⟩ op left right) (before ++ sign :: after)
  | logical {id : Nat} {op : LogicalOp} {sign : Token} {left right : Expr}
    {before after : List Token} : Spells left before → sign.kind = op.kind → Spells right after →
    Spells (.logical ⟨id, sign.line⟩ op left right) (before ++ sign :: after)
  | call {id : Nat} {opening closing : Token} {callee : Expr} {arguments : List Expr}
    {before inside : List Token} : Spells callee before → opening.kind = .symbol .leftParen →
    Listed Spells arguments inside → closing.kind = .symbol .rightParen →
    Spells (.call ⟨id, closing.line⟩ callee arguments)
      (before ++ opening :: (inside ++ [closing]))

def Names (name : Ident) (tokens : List Token) : Prop :=
  ∃ token : Token, tokens = [token] ∧ token.FromSource ∧ token.kind = .identifier ∧
    name = ⟨token.lexeme, token.line⟩

/-- A token of this kind would go on a tree that has at least this rank. -/
def Rank.Continues (rank : Rank) (kind : TokenKind) : Prop :=
  kind = .symbol .leftParen ∨ (rank = .assignment ∧ kind = .symbol .equal) ∨
    ∃ operator : Operator, operator.kind = kind ∧ rank ≤ operator.rank

def Rank.Ends (rank : Rank) (rest : List Token) : Prop :=
  ∀ token ∈ rest.head?, ¬rank.Continues token.kind

def startsExpression : TokenKind → Bool
  | .identifier | .string | .number => true
  | .keyword .true | .keyword .false | .keyword .nil => true
  | .symbol .leftParen | .symbol .minus | .symbol .bang => true
  | _ => false

def endsExpression : TokenKind → Bool
  | .symbol .comma | .symbol .rightParen | .symbol .semicolon => true
  | _ => false

theorem operator?_eq_some {level : Level} {kind : TokenKind} {operator : Operator} :
    level.operator? kind = some operator ↔ operator.level = level ∧ operator.kind = kind := by
  constructor
  · intro found
    unfold Level.operator? at found
    split at found <;> cases found <;> exact ⟨rfl, rfl⟩
  · rintro ⟨rfl, rfl⟩
    cases operator with
    | binary op => cases op <;> rfl
    | logical op => cases op <;> rfl

theorem unaryOperator?_eq_some {kind : TokenKind} {op : UnaryOp} :
    unaryOperator? kind = some op ↔ op.kind = kind := by
  constructor
  · intro found
    unfold unaryOperator? at found
    split at found <;> cases found <;> rfl
  · rintro rfl
    cases op <;> rfl

theorem UnaryOp.starts (op : UnaryOp) : startsExpression op.kind = true := by
  cases op <;> rfl

theorem starts_of_value? {token : Token} {value : Literal} (stands : token.value? = some value) :
    startsExpression token.kind = true := by
  unfold Token.value? at stands
  unfold startsExpression
  split at stands <;> simp_all

theorem Spells.head {tree : Expr} {tokens : List Token} (spells : Spells tree tokens) :
    ∃ first rest, tokens = first :: rest ∧ startsExpression first.kind = true := by
  match spells with
  | .literal stands => exact ⟨_, _, rfl, starts_of_value? stands⟩
  | .variable kind => exact ⟨_, _, rfl, by rw [kind]; rfl⟩
  | .assign kind _ _ => exact ⟨_, _, rfl, by rw [kind]; rfl⟩
  | .group kind _ _ => exact ⟨_, _, rfl, by rw [kind]; rfl⟩
  | .unary kind _ => exact ⟨_, _, rfl, kind ▸ UnaryOp.starts _⟩
  | .binary left _ _ | .logical left _ _ | .call left _ _ _ =>
    obtain ⟨first, rest, rfl, starts⟩ := left.head
    exact ⟨first, _, rfl, starts⟩

theorem Spells.length_pos {tree : Expr} {tokens : List Token} (spells : Spells tree tokens) :
    0 < tokens.length := by
  obtain ⟨first, rest, rfl, _⟩ := spells.head
  exact Nat.succ_pos _

theorem Spells.operator {operator : Operator} {site : Site} {left right : Expr} {tokens : List Token}
    (spells : Spells (operator.apply site left right) tokens) :
    ∃ before sign after, tokens = before ++ sign :: after ∧ Spells left before ∧
      sign.kind = operator.kind ∧ sign.line = site.line ∧ Spells right after := by
  cases operator with
  | binary op =>
    cases spells with
    | binary left kind right => exact ⟨_, _, _, rfl, left, kind, rfl, right⟩
  | logical op =>
    cases spells with
    | logical left kind right => exact ⟨_, _, _, rfl, left, kind, rfl, right⟩

theorem WellLevelled.operator {operator : Operator} {site : Site} {left right : Expr}
    (levelled : WellLevelled (operator.apply site left right)) :
    WellLevelled left ∧ operator.rank ≤ rank left ∧ WellLevelled right ∧
      operator.rank < rank right := by
  cases operator with
  | binary op =>
    cases levelled with
    | binary left leftRank right rightRank => exact ⟨left, leftRank, right, rightRank⟩
  | logical op =>
    cases levelled with
    | logical left leftRank right rightRank => exact ⟨left, leftRank, right, rightRank⟩

theorem erase_apply (operator : Operator) (site : Site) (left right : Expr) :
    (operator.apply site left right).erase =
      operator.apply site.erase left.erase right.erase := by
  cases operator <;> rfl

theorem rank_eq_chain {level : Level} {tree : Expr} (same : rank tree = .chain level) :
    ∃ (operator : Operator) (site : Site) (left right : Expr),
      tree = operator.apply site left right ∧ operator.level = level := by
  cases tree with
  | binary site op left right =>
    exact ⟨.binary op, site, left, right, rfl, Rank.chain.inj same⟩
  | logical site op left right =>
    exact ⟨.logical op, site, left, right, rfl, Rank.chain.inj same⟩
  | _ => cases same

theorem rank_eq_call {tree : Expr} (same : rank tree = .call) :
    ∃ (site : Site) (callee : Expr) (arguments : List Expr), tree = .call site callee arguments := by
  cases tree with
  | call site callee arguments => exact ⟨site, callee, arguments, rfl⟩
  | _ => cases same

theorem rank_eq_unary {tree : Expr} (same : rank tree = .unary) :
    ∃ (site : Site) (op : UnaryOp) (operand : Expr), tree = .unary site op operand := by
  cases tree with
  | unary site op operand => exact ⟨site, op, operand, rfl⟩
  | _ => cases same

theorem rank_eq_assignment {tree : Expr} (same : rank tree = .assignment) :
    ∃ (site : Site) (target : String) (value : Expr), tree = .assign site target value := by
  cases tree with
  | assign site target value => exact ⟨site, target, value, rfl⟩
  | _ => cases same

section Ranks

variable {loose tight : Rank} {rest : List Token}

theorem Rank.Ends.tighten (ends : loose.Ends rest) (tighter : loose ≤ tight) : tight.Ends rest := by
  intro token next continues
  refine ends token next ?_
  rcases continues with paren | ⟨rfl, sign⟩ | ⟨operator, kind, further⟩
  · exact .inl paren
  · cases loose with
    | assignment => exact .inr (.inl ⟨rfl, sign⟩)
    | chain level => cases level <;> exact absurd tighter (by decide)
    | unary | call | primary => exact absurd tighter (by decide)
  · exact .inr (.inr ⟨operator, kind, Nat.le_trans tighter further⟩)

theorem Rank.Ends.not_operator {level : Level} (ends : (Rank.chain level).Ends rest) :
    ∀ token ∈ rest.head?, level.operator? token.kind = none := by
  intro token next
  cases found : level.operator? token.kind with
  | none => rfl
  | some operator =>
    obtain ⟨rfl, kind⟩ := operator?_eq_some.mp found
    exact absurd (.inr (.inr ⟨operator, kind, Nat.le_refl _⟩)) (ends token next)

theorem Rank.Ends.not_paren (ends : loose.Ends rest) :
    ∀ token ∈ rest.head?, token.kind ≠ .symbol .leftParen :=
  fun token next paren => ends token next (.inl paren)

theorem Operator.not_continues {operator : Operator} {kind : TokenKind}
    (spelt : kind = operator.kind) (tighter : operator.rank < tight) : ¬tight.Continues kind := by
  subst spelt
  rintro (paren | ⟨rfl, _⟩ | ⟨other, same, further⟩)
  · cases operator with
    | binary op => cases op <;> cases paren
    | logical op => cases op <;> cases paren
  · exact absurd tighter (Nat.not_lt_zero operator.rank.height)
  · have level : other.level = operator.level := by
      revert same
      rcases operator with op | op <;> cases op <;> rcases other with op | op <;> cases op <;>
        decide
    rw [Operator.rank, level] at further
    exact absurd further (Nat.not_le.mpr tighter)

theorem Operator.not_tight (operator : Operator) (above : Rank.unary ≤ tight) :
    ¬tight ≤ operator.rank := by
  have low : operator.rank.height < Rank.unary.height := by
    rcases operator with op | op <;> cases op <;> decide
  exact Nat.not_le.mpr (Nat.lt_of_lt_of_le low above)

def Level.tighter : Level → Rank
  | .disjunction => .chain .conjunction
  | .conjunction => .chain .equality
  | .equality => .chain .comparison
  | .comparison => .chain .term
  | .term => .chain .factor
  | .factor => .unary

theorem Level.tighter_height (level : Level) : level.tighter.height = level.height + 1 := by
  cases level <;> rfl

theorem Level.lt_tighter (level : Level) : Rank.chain level < level.tighter :=
  Nat.lt_of_lt_of_eq (Nat.lt_succ_self _) level.tighter_height.symm

theorem Level.tighter_le {level : Level} (above : Rank.chain level < tight) : level.tighter ≤ tight :=
  Nat.le_trans (Nat.le_of_eq level.tighter_height) above

theorem Rank.height_inj (same : loose.height = tight.height) : loose = tight := by
  rcases loose with _ | ⟨_ | _⟩ | _ | _ | _ <;> rcases tight with _ | ⟨_ | _⟩ | _ | _ | _ <;>
    first | rfl | cases same

theorem Rank.ends_of_closing (rank : Rank)
    (closing : ∀ token ∈ rest.head?, endsExpression token.kind = true) : rank.Ends rest := by
  intro token next continues
  have closes := closing token next
  unfold endsExpression at closes
  rcases continues with paren | ⟨_, sign⟩ | ⟨operator, kind, _⟩
  · rw [paren] at closes
    cases closes
  · rw [sign] at closes
    cases closes
  · rw [← kind] at closes
    rcases operator with op | op <;> cases op <;> cases closes

/-- An equals sign goes on nothing but what it can assign to. -/
theorem Rank.ends_of_equal (apart : tight ≠ .assignment)
    (sign : ∀ token ∈ rest.head?, token.kind = .symbol .equal) : tight.Ends rest := by
  intro token next continues
  rw [sign token next] at continues
  rcases continues with paren | ⟨same, _⟩ | ⟨operator, kind, _⟩
  · cases paren
  · exact apart same
  · rcases operator with op | op <;> cases op <;> cases kind

end Ranks
end Grammar
end LoxLang

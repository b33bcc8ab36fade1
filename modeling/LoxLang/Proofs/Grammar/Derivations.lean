import LoxLang.Grammar.Statement
import LoxLang.Proofs.Grammar.Precedence

/-!
The grammar of programs apart from any reader. A statement is closed if no `if` at its end is left
without its `else`; only closed statements stand in front of an `else`, which so belongs to the nearest
`if` that has none.
-/
namespace LoxLang

mutual

def Stmt.erase : Stmt → Stmt
  | .var name initial => .var name (initial.map Expr.erase)
  | .function name parameters body => .function name parameters (Stmt.eraseAll body)
  | .expression value => .expression value.erase
  | .print value => .print value.erase
  | .block body => .block (Stmt.eraseAll body)
  | .ifThen test yes => .ifThen test.erase yes.erase
  | .ifElse test yes no => .ifElse test.erase yes.erase no.erase
  | .loop test body => .loop test.erase body.erase
  | .return line value => .return line (value.map Expr.erase)

def Stmt.eraseAll : List Stmt → List Stmt
  | [] => []
  | first :: rest => first.erase :: Stmt.eraseAll rest

end

theorem Stmt.eraseAll_eq_map (statements : List Stmt) :
    Stmt.eraseAll statements = statements.map Stmt.erase := by
  induction statements with
  | nil => rfl
  | cons first rest ih => rw [Stmt.eraseAll, ih, List.map_cons]

namespace Grammar

structure Expressed (tree : Expr) (tokens : List Token) : Prop where
  levelled : WellLevelled tree
  spells : Spells tree tokens

inductive Optional : Option Expr → List Token → Prop
  | none : Optional none []
  | some {value : Expr} {tokens : List Token} : Expressed value tokens → Optional (some value) tokens

inductive Initializes : Option Expr → List Token → Prop
  | none : Initializes none []
  | some {sign : Token} {value : Expr} {tokens : List Token} : sign.kind = .symbol .equal →
    Expressed value tokens → Initializes (some value) (sign :: tokens)

inductive DeclaresVariable : Stmt → List Token → Prop
  | var {name : Ident} {initial : Option Expr} {semicolon : Token} {named initialized : List Token} :
    Names name named → Initializes initial initialized → semicolon.kind = .symbol .semicolon →
    DeclaresVariable (.var name initial) (named ++ (initialized ++ [semicolon]))

inductive FirstClause : Option Stmt → List Token → Prop
  | none {semicolon : Token} : semicolon.kind = .symbol .semicolon → FirstClause none [semicolon]
  | var {keyword : Token} {statement : Stmt} {tokens : List Token} : keyword.kind = .keyword .var →
    DeclaresVariable statement tokens → FirstClause (some statement) (keyword :: tokens)
  | expression {value : Expr} {semicolon : Token} {tokens : List Token} : Expressed value tokens →
    semicolon.kind = .symbol .semicolon → FirstClause (some (.expression value)) (tokens ++ [semicolon])

/-- The second clause of a `for`; without a condition it is `true`. -/
inductive SecondClause (line : Nat) : Expr → List Token → Prop
  | none {id : Nat} : SecondClause line (.literal ⟨id, line⟩ (.boolean true)) []
  | some {value : Expr} {tokens : List Token} : Expressed value tokens → SecondClause line value tokens

inductive Phrase where
  | declarations (program : List Stmt)
  | declaration (statement : Stmt)
  | statement (closed : Bool) (statement : Stmt)

/-- The tokens of a phrase. -/
inductive Derives : Phrase → List Token → Prop
  | nil : Derives (.declarations []) []
  | cons {first : Stmt} {rest : List Stmt} {before after : List Token} :
    Derives (.declaration first) before → Derives (.declarations rest) after →
    Derives (.declarations (first :: rest)) (before ++ after)
  | variable {keyword : Token} {statement : Stmt} {tokens : List Token} :
    keyword.kind = .keyword .var → DeclaresVariable statement tokens →
    Derives (.declaration statement) (keyword :: tokens)
  | function {keyword opening closing brace last : Token} {name : Ident} {parameters : List Ident}
    {body : List Stmt} {named listed tokens : List Token} : keyword.kind = .keyword .fun →
    Names name named → opening.kind = .symbol .leftParen → Listed Names parameters listed →
    parameters.length ≤ maxItems → closing.kind = .symbol .rightParen →
    brace.kind = .symbol .leftBrace → Derives (.declarations body) tokens →
    last.kind = .symbol .rightBrace →
    Derives (.declaration (.function name parameters body))
      (keyword :: (named ++ opening :: (listed ++ closing :: brace :: (tokens ++ [last]))))
  | statement {closed : Bool} {statement : Stmt} {tokens : List Token} :
    Derives (.statement closed statement) tokens → Derives (.declaration statement) tokens
  | expression {value : Expr} {semicolon : Token} {tokens : List Token} : Expressed value tokens →
    semicolon.kind = .symbol .semicolon →
    Derives (.statement true (.expression value)) (tokens ++ [semicolon])
  | print {keyword semicolon : Token} {value : Expr} {tokens : List Token} :
    keyword.kind = .keyword .print → Expressed value tokens →
    semicolon.kind = .symbol .semicolon →
    Derives (.statement true (.print value)) (keyword :: (tokens ++ [semicolon]))
  | return {keyword semicolon : Token} {value : Option Expr} {tokens : List Token} :
    keyword.kind = .keyword .return → Optional value tokens →
    semicolon.kind = .symbol .semicolon →
    Derives (.statement true (.return keyword.line value)) (keyword :: (tokens ++ [semicolon]))
  | block {brace last : Token} {body : List Stmt} {tokens : List Token} :
    brace.kind = .symbol .leftBrace → Derives (.declarations body) tokens →
    last.kind = .symbol .rightBrace →
    Derives (.statement true (.block body)) (brace :: (tokens ++ [last]))
  | ifThen {keyword opening closing : Token} {test : Expr} {yes : Stmt} {closed : Bool}
    {tested tokens : List Token} : keyword.kind = .keyword .if →
    opening.kind = .symbol .leftParen → Expressed test tested →
    closing.kind = .symbol .rightParen → Derives (.statement closed yes) tokens →
    Derives (.statement false (.ifThen test yes))
      (keyword :: opening :: (tested ++ closing :: tokens))
  | ifElse {keyword opening closing other : Token} {test : Expr} {yes no : Stmt} {closed : Bool}
    {tested tokens further : List Token} : keyword.kind = .keyword .if →
    opening.kind = .symbol .leftParen → Expressed test tested →
    closing.kind = .symbol .rightParen → Derives (.statement true yes) tokens →
    other.kind = .keyword .else → Derives (.statement closed no) further →
    Derives (.statement closed (.ifElse test yes no))
      (keyword :: opening :: (tested ++ closing :: (tokens ++ other :: further)))
  | while {keyword opening closing : Token} {test : Expr} {body : Stmt} {closed : Bool}
    {tested tokens : List Token} : keyword.kind = .keyword .while →
    opening.kind = .symbol .leftParen → Expressed test tested →
    closing.kind = .symbol .rightParen → Derives (.statement closed body) tokens →
    Derives (.statement closed (.loop test body))
      (keyword :: opening :: (tested ++ closing :: tokens))
  | for {keyword opening semicolon closing : Token} {initial : Option Stmt} {test : Expr}
    {step : Option Expr} {body : Stmt} {closed : Bool} {begun tested stepped tokens : List Token} :
    keyword.kind = .keyword .for → opening.kind = .symbol .leftParen → FirstClause initial begun →
    SecondClause opening.line test tested → semicolon.kind = .symbol .semicolon → Optional step stepped →
    closing.kind = .symbol .rightParen → Derives (.statement closed body) tokens →
    Derives (.statement closed (forLoop initial test step body))
      (keyword :: opening :: (begun ++ (tested ++ semicolon :: (stepped ++ closing :: tokens))))

def Follows (closed : Bool) (rest : List Token) : Prop :=
  closed = false → ∀ token ∈ rest.head?, token.kind ≠ .keyword .else

def startsStatement : TokenKind → Bool
  | .keyword .if | .keyword .while | .keyword .for | .keyword .print | .keyword .return => true
  | .symbol .leftBrace => true
  | kind => startsExpression kind

def startsDeclaration : TokenKind → Bool
  | .keyword .var | .keyword .fun => true
  | kind => startsStatement kind

theorem startsStatement_of_expression {kind : TokenKind} (starts : startsExpression kind = true) :
    startsStatement kind = true := by
  unfold startsStatement
  split <;> first | rfl | exact starts

theorem startsDeclaration_of_statement {kind : TokenKind} (starts : startsStatement kind = true) :
    startsDeclaration kind = true := by
  unfold startsDeclaration
  split <;> first | rfl | exact starts

theorem Expressed.head {tree : Expr} {tokens : List Token} (expressed : Expressed tree tokens) :
    ∃ first rest, tokens = first :: rest ∧ startsExpression first.kind = true :=
  expressed.spells.head

theorem Derives.statement_head {closed : Bool} {statement : Stmt} {tokens : List Token}
    (derives : Derives (.statement closed statement) tokens) :
    ∃ first rest, tokens = first :: rest ∧ startsStatement first.kind = true := by
  cases derives with
  | expression expressed _ =>
    obtain ⟨first, rest, rfl, starts⟩ := expressed.head
    exact ⟨first, _, rfl, startsStatement_of_expression starts⟩
  | print kind _ _ | «return» kind _ _ | block kind _ _ | ifThen kind _ _ _ _
  | ifElse kind _ _ _ _ _ _ | «while» kind _ _ _ _ | «for» kind _ _ _ _ _ _ _ =>
    exact ⟨_, _, rfl, by rw [kind]; rfl⟩

theorem Derives.declaration_head {statement : Stmt} {tokens : List Token}
    (derives : Derives (.declaration statement) tokens) :
    ∃ first rest, tokens = first :: rest ∧ startsDeclaration first.kind = true := by
  cases derives with
  | «variable» kind _ => exact ⟨_, _, rfl, by rw [kind]; rfl⟩
  | function kind _ _ _ _ _ _ _ _ => exact ⟨_, _, rfl, by rw [kind]; rfl⟩
  | statement derives =>
    obtain ⟨first, rest, rfl, starts⟩ := derives.statement_head
    exact ⟨first, rest, rfl, startsDeclaration_of_statement starts⟩

theorem Derives.declarations_head {program : List Stmt} {tokens : List Token}
    (derives : Derives (.declarations program) tokens) :
    ∀ token ∈ tokens.head?, startsDeclaration token.kind = true := by
  cases derives with
  | nil => nofun
  | cons first _ =>
    obtain ⟨token, _, rfl, starts⟩ := first.declaration_head
    rintro _ ⟨⟩
    exact starts

theorem Derives.length_le {program : List Stmt} {tokens : List Token}
    (derives : Derives (.declarations program) tokens) : program.length ≤ tokens.length := by
  match derives with
  | .nil => exact Nat.le_refl _
  | .cons first rest =>
    obtain ⟨token, others, rfl, _⟩ := first.declaration_head
    have further := rest.length_le
    simp only [List.length_append, List.length_cons]
    omega

def Opening.kind : Opening → TokenKind
  | .if => .keyword .if
  | .while => .keyword .while
  | .for => .keyword .for
  | .print => .keyword .print
  | .return => .keyword .return
  | .block => .symbol .leftBrace

theorem opening?_eq_some {kind : TokenKind} {opening : Opening} :
    opening? kind = some opening ↔ kind = opening.kind := by
  constructor
  · intro chosen
    unfold opening? at chosen
    split at chosen <;> cases chosen <;> rfl
  · rintro rfl
    cases opening <;> rfl

theorem opening?_of_expression {kind : TokenKind} (starts : startsExpression kind = true) :
    opening? kind = none := by
  cases kind with
  | symbol sign => cases sign <;> first | rfl | cases starts
  | keyword word => cases word <;> first | rfl | cases starts
  | _ => rfl

end Grammar
end LoxLang

import LoxLang.Syntax
/-!
Reading tokens one after the other. A reader takes tokens from the front of what is left, may report
faults on the way, and either gives a value or gives up; what it took and reported stays taken and
reported in both cases.
-/
namespace LoxLang.Grammar

structure Cursor where
  rest : List Token
  finish : Token
  faults : Array StaticFault
  nextId : Nat

/-- The token that comes next; after the last one it is the end token for ever. -/
def Cursor.token (cursor : Cursor) : Token :=
  match cursor.rest with
  | [] => cursor.finish
  | token :: _ => token

def Cursor.advance (cursor : Cursor) : Cursor := { cursor with rest := cursor.rest.tail }

def Cursor.reportAt (cursor : Cursor) (token : Token) (cause : StaticCause) : Cursor :=
  { cursor with faults := cursor.faults.push ⟨token.line, token.place, cause⟩ }

inductive Reading (α : Type) where
  | read (value : α) (cursor : Cursor)
  | failed (cursor : Cursor)

def Reading.cursor {α : Type} : Reading α → Cursor
  | .read _ cursor => cursor
  | .failed cursor => cursor

def Reader (α : Type) : Type := Cursor → Reading α

namespace Reader

@[always_inline, inline]
def bind {α β : Type} (first : Reader α) (next : α → Reader β) : Reader β := fun cursor =>
  match first cursor with
  | .read value after => next value after
  | .failed after => .failed after

instance : Monad Reader where
  pure value := fun cursor => .read value cursor
  bind := bind

@[simp] theorem pure_apply {α : Type} (value : α) (cursor : Cursor) :
    (pure value : Reader α) cursor = .read value cursor := rfl

theorem bind_apply {α β : Type} (first : Reader α) (next : α → Reader β) (cursor : Cursor) :
    (first >>= next) cursor =
      match first cursor with
      | .read value after => next value after
      | .failed after => .failed after := rfl

end Reader

def peek : Reader Token := fun cursor => .read cursor.token cursor

/-- Takes the next token; the end token stays where it is. -/
def take : Reader Token := fun cursor => .read cursor.token cursor.advance

def report (token : Token) (cause : StaticCause) : Reader Unit :=
  fun cursor => .read () (cursor.reportAt token cause)

/-- Reports at the next token, without taking it, and gives up. -/
def fail {α : Type} (cause : StaticCause) : Reader α :=
  fun cursor => .failed (cursor.reportAt cursor.token cause)

def giveUp {α : Type} : Reader α := fun cursor => .failed cursor

/-- Reads on whether or not `reader` gives up; what it reports goes to a list of its own, which is
thrown away. -/
def silently {α : Type} (reader : Reader α) : Reader Unit := fun cursor =>
  let kept := cursor.faults
  .read () { (reader { cursor with faults := #[] }).cursor with faults := kept }

/-- Takes the next token if `choose` has a use for its kind. -/
def takeIf? {α : Type} (choose : TokenKind → Option α) : Reader (Option (α × Token)) :=
  fun cursor =>
    match cursor.rest with
    | [] => .read none cursor
    | token :: rest =>
      match choose token.kind with
      | none => .read none cursor
      | some use => .read (some (use, token)) { cursor with rest := rest }

def takeKind? (kind : TokenKind) : Reader (Option Token) := do
  match ← takeIf? (fun found => if found = kind then some () else none) with
  | none => pure none
  | some (_, token) => pure (some token)

def takeSymbol? (symbol : Symbol) : Reader (Option Token) := takeKind? (.symbol symbol)

def takeKeyword? (keyword : Keyword) : Reader (Option Token) := takeKind? (.keyword keyword)

def needSymbol (symbol : Symbol) (part : Part) : Reader Token := do
  match ← takeSymbol? symbol with
  | some token => pure token
  | none => fail (.missing part)

def needName (part : Part) : Reader Ident := do
  match ← takeKind? .identifier with
  | some token => pure ⟨token.lexeme, token.line⟩
  | none => fail (.missing part)

/-- The site of a new node; no two nodes share one. -/
def newSite (line : Nat) : Reader Site :=
  fun cursor => .read ⟨cursor.nextId, line⟩ { cursor with nextId := cursor.nextId + 1 }

end LoxLang.Grammar

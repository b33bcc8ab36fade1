import LoxLang.Piece
/-!
Scanning: the pieces of a source with their positions, less what means nothing. The result lists
tokens and faults in source order and ends in one end token.
-/
namespace LoxLang

inductive ScanCause where
  | unterminatedString
  | unexpectedCharacter
deriving DecidableEq

namespace ScanCause

def static : ScanCause → StaticCause
  | .unterminatedString => .unterminatedString
  | .unexpectedCharacter => .unexpectedCharacter

def message (cause : ScanCause) : String := cause.static.message

end ScanCause

structure ScanFault where
  cause : ScanCause
  position : Position
deriving DecidableEq

namespace ScanFault

def text (fault : ScanFault) : String :=
  s!"scan error: {fault.cause.message} {fault.position.text}"

def static (fault : ScanFault) : StaticFault :=
  ⟨fault.position.line, .unplaced, fault.cause.static⟩

end ScanFault

inductive Scanned where
  | token (found : Token)
  | fault (found : ScanFault)

namespace Scanned

def token? : Scanned → Option Token
  | .token found => some found
  | .fault _ => none

def fault? : Scanned → Option ScanFault
  | .token _ => none
  | .fault found => some found

end Scanned

namespace Piece

/-- What a token's text stands for: a string without its quotes, a number by its digits. -/
def literal (kind : TokenKind) (text : List Char) : Option Literal :=
  match kind with
  | .string => some (.string (String.ofList text.tail.dropLast))
  | .number =>
    some (.number (Double.ofDigits (text.takeWhile Char.isDigit)
      (text.dropWhile Char.isDigit).tail))
  | _ => none

/-- What a piece that starts at `position` amounts to. An unclosed string is noticed where the
input runs out. -/
def scanned (position : Position) : Piece → Option Scanned
  | .blank _ => none
  | .comment _ => none
  | .token kind text =>
    some (.token ⟨kind, String.ofList text, literal kind text, position⟩)
  | .stray _ => some (.fault ⟨.unexpectedCharacter, position⟩)
  | .unclosed text => some (.fault ⟨.unterminatedString, position.after text⟩)

end Piece

/-- Pieces put into place one after the other, followed by the end token. -/
def placeAll (position : Position) (done : List Scanned) : List Piece → List Scanned
  | [] => (.token (.finish position) :: done).reverse
  | piece :: rest =>
    placeAll (position.after piece.text) ((piece.scanned position).toList ++ done) rest

def place (position : Position) (pieces : List Piece) : List Scanned := placeAll position [] pieces

def scan (source : String) : List Scanned := place .start (Piece.all source.toList)

/-- A scanner on its way: what it has not read, where that begins, and whether it has given out the end
token. -/
structure Scanner where
  rest : List Char
  position : Position
  ended : Bool

namespace Scanner

def new (source : String) : Scanner := ⟨source.toList, .start, false⟩

def nextFrom (position : Position) (ended : Bool) : List Char → Option Scanned × Scanner
  | [] =>
    if ended then (none, ⟨[], position, ended⟩)
    else (some (.token (.finish position)), ⟨[], position, true⟩)
  | first :: rest =>
    let position' := position.after (Piece.cut first rest).1.text
    match (Piece.cut first rest).1.scanned position with
    | some item => (some item, ⟨(Piece.cut first rest).2, position', ended⟩)
    | none => nextFrom position' ended (Piece.cut first rest).2
termination_by rest => rest.length
decreasing_by exact Piece.cut_length first rest

/-- The next item, over what means nothing; nothing any more behind the end token. -/
def next (scanner : Scanner) : Option Scanned × Scanner :=
  nextFrom scanner.position scanner.ended scanner.rest

end Scanner

def Scanned.tokens (items : List Scanned) : List Token := items.filterMap token?

def Scanned.faults (items : List Scanned) : List ScanFault := items.filterMap fault?

theorem placeAll_eq (position : Position) (done : List Scanned) (pieces : List Piece) :
    placeAll position done pieces = done.reverse ++ place position pieces := by
  induction pieces generalizing position done with
  | nil => simp [placeAll, place]
  | cons piece rest ih =>
    rw [place, placeAll, placeAll, ih, ih]
    cases piece.scanned position <;> simp

@[simp] theorem place_nil (position : Position) :
    place position [] = [.token (.finish position)] := rfl

theorem place_cons (position : Position) (piece : Piece) (rest : List Piece) :
    place position (piece :: rest) =
      (piece.scanned position).toList ++ place (position.after piece.text) rest := by
  rw [place, placeAll, placeAll_eq]
  cases piece.scanned position <;> simp

end LoxLang

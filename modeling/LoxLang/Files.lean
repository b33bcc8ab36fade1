/-!
Files as a value: what listing a directory and reading a file give, each free to fail, and a tree of
directories and contents where paths are followed name by name.
-/
namespace LoxLang

abbrev Bytes : Type := List UInt8

namespace Bytes

def text? (bytes : Bytes) : Option String := String.fromUTF8? (ByteArray.mk bytes.toArray)

def ofText (text : String) : Bytes := text.toUTF8.data.toList

theorem text?_eq_some {bytes : Bytes} {text : String} :
    bytes.text? = some text ↔ bytes = ofText text := by
  unfold text? String.fromUTF8?
  constructor
  · intro read
    split at read
    · cases read
      rfl
    · cases read
  · rintro rfl
    exact dif_pos text.isValidUTF8

theorem ofText_inj {text other : String} (same : ofText text = ofText other) : text = other :=
  Option.some.inj ((text?_eq_some.mpr rfl).symm.trans (text?_eq_some.mpr same))

theorem text?_eq_none {bytes : Bytes} : bytes.text? = none ↔ ∀ text, bytes ≠ ofText text := by
  simp only [Option.eq_none_iff_forall_ne_some, ne_eq, text?_eq_some]

/-- How far a character has been read whose bytes are still coming: its code until now, and between
which two each of the bytes must lie that are left. -/
structure Decoder where
  shown : String
  code : Nat
  awaited : List (UInt8 × UInt8)

namespace Decoder

def replacement : Char := '\uFFFD'

/-- What has to follow the first byte of a character. Not every byte is one. -/
def behind? (first : UInt8) : Option (List (UInt8 × UInt8)) :=
  let any := (0x80, 0xBF)
  if first < 0x80 then some []
  else if first < 0xC2 then none
  else if first < 0xE0 then some [any]
  else if first < 0xF0 then
    some [if first = 0xE0 then (0xA0, 0xBF) else if first = 0xED then (0x80, 0x9F) else any, any]
  else if first < 0xF5 then
    some [if first = 0xF0 then (0x90, 0xBF) else if first = 0xF4 then (0x80, 0x8F) else any, any, any]
  else none

def start : Decoder := ⟨"", 0, []⟩

/-- A character that is broken off is replaced as a whole. -/
def breakOff (decoder : Decoder) : Decoder :=
  if decoder.awaited.isEmpty then decoder else ⟨decoder.shown.push replacement, 0, []⟩

def await (shown : String) (code : Nat) (awaited : List (UInt8 × UInt8)) : Decoder :=
  if awaited.isEmpty then ⟨shown.push (Char.ofNat code), 0, []⟩ else ⟨shown, code, awaited⟩

/-- The first byte gives as many bits as are not taken up by the length of the character. -/
def begin (decoder : Decoder) (byte : UInt8) : Decoder :=
  let shown := decoder.breakOff.shown
  match behind? byte with
  | none => ⟨shown.push replacement, 0, []⟩
  | some [] => await shown byte.toNat []
  | some awaited => await shown (byte.toNat % (64 >>> awaited.length)) awaited

def take (decoder : Decoder) (byte : UInt8) : Decoder :=
  match decoder.awaited with
  | [] => decoder.begin byte
  | (low, high) :: rest =>
    if low ≤ byte ∧ byte ≤ high then
      await decoder.shown (64 * decoder.code + byte.toNat % 64) rest
    else decoder.begin byte

end Decoder

/-- Bytes for the eye: what is no character is shown as the replacement character. -/
def shown (bytes : Bytes) : String :=
  match bytes.text? with
  | some text => text
  | none => (bytes.foldl Decoder.take .start).breakOff.shown

end Bytes

inductive FileError where
  | missing
  | notDirectory
  | isDirectory
  | nameTooLong
  | notText
  | zeroInPath
  | other (message : String)
deriving DecidableEq

def FileError.message : FileError → String
  | .missing => "No such file or directory (os error 2)"
  | .notDirectory => "Not a directory (os error 20)"
  | .isDirectory => "Is a directory (os error 21)"
  | .nameTooLong => "File name too long (os error 36)"
  | .notText => "stream did not contain valid UTF-8"
  | .zeroInPath => "file name contained an unexpected NUL byte"
  | .other message => message

def textOf (content : Except FileError Bytes) : Except FileError String :=
  match content with
  | .error error => .error error
  | .ok bytes =>
    match bytes.text? with
    | none => .error .notText
    | some text => .ok text

/-- A path is not always text. -/
structure Path where
  bytes : Bytes
deriving DecidableEq

namespace Path

def ofText (text : String) : Path := ⟨.ofText text⟩

instance : Coe String Path := ⟨ofText⟩

def slash : UInt8 := 47

def text (path : Path) : String := path.bytes.shown

def join (directory : Path) (name : Bytes) : Path :=
  if directory.bytes.isEmpty || directory.bytes.getLast? == some slash then ⟨directory.bytes ++ name⟩
  else ⟨directory.bytes ++ slash :: name⟩

def isAbsolute (path : Path) : Bool := path.bytes.head? == some slash

def names (path : Path) : List Bytes := path.bytes.splitOn slash

end Path

/-- A name in a directory, and whether the path with that name leads to a file. -/
structure Entry where
  name : Bytes
  isFile : Bool
deriving DecidableEq

/-- The files that a program sees. That a file is listed does not mean that it can be read, and
listing can fail in the middle. -/
structure Files where
  list : Path → Except FileError (List (Except FileError Entry))
  read : Path → Except FileError Bytes

/-- The names that lead to a place from the root, innermost first. -/
abbrev Location : Type := List Bytes

def Location.nameIn? (directory : Location) : Location → Option Bytes
  | [] => none
  | name :: outer => if outer = directory then some name else none

inductive Node where
  | directory
  | file (content : Except FileError Bytes)

structure FileTree where
  nodes : List (Location × Node)

namespace FileTree

def empty : FileTree := ⟨[]⟩

def maxNameBytes : Nat := 255

def maxPathBytes : Nat := 4095

/-- Why a name is not found in a directory. No file has a name that is too long. -/
def absence (name : Bytes) : FileError :=
  if maxNameBytes < name.length then .nameTooLong else .missing

/-- A name that stays in the directory where it is met. -/
def isHere (name : Bytes) : Bool := name == [] || name == .ofText "."

def isOuter (name : Bytes) : Bool := name == .ofText ".."

/-- Where paths count from that do not start at the root. -/
def working : Location := [.ofText "work", .ofText "tmp"]

def startOf (path : Path) : Location := if path.isAbsolute then [] else working

/-- Where walking along a path has come to. -/
inductive Spot where
  | directory (location : Location)
  | file (content : Except FileError Bytes)

/-- Out of the root the way leads back to the root. -/
def enter (tree : FileTree) (spot : Spot) (name : Bytes) : Except FileError Spot :=
  match spot with
  | .file _ => .error .notDirectory
  | .directory location =>
    if isHere name then .ok spot
    else if isOuter name then .ok (.directory location.tail)
    else
      match tree.nodes.lookup (name :: location) with
      | none => .error (absence name)
      | some .directory => .ok (.directory (name :: location))
      | some (.file content) => .ok (.file content)

/-- A path with a zero or too many bytes is refused before any of its names is looked at. -/
def find (tree : FileTree) (path : Path) : Except FileError Spot :=
  if path.bytes.isEmpty then .error .missing
  else if path.bytes.contains 0 then .error .zeroInPath
  else if maxPathBytes < path.bytes.length then .error .nameTooLong
  else path.names.foldlM tree.enter (.directory (startOf path))

def read (tree : FileTree) (path : Path) : Except FileError Bytes := do
  match ← tree.find path with
  | .file content => content
  | .directory _ => .error .isDirectory

def isFile (tree : FileTree) (path : Path) : Bool :=
  match tree.find path with
  | .ok (.file _) => true
  | _ => false

def namesIn (tree : FileTree) (directory : Location) : List Bytes :=
  tree.nodes.filterMap fun (location, _) => directory.nameIn? location

/-- What stands directly in a directory, in no particular order. -/
def list (tree : FileTree) (path : Path) : Except FileError (List Entry) := do
  match ← tree.find path with
  | .file _ => .error .notDirectory
  | .directory location =>
    .ok ((tree.namesIn location).map fun name => ⟨name, tree.isFile (path.join name)⟩)

def files (tree : FileTree) : Files where
  list path := (tree.list path).map (List.map .ok)
  read := tree.read

instance : Coe FileTree Files := ⟨files⟩

/-- What was at the location before is replaced. -/
def put (tree : FileTree) (location : Location) (node : Node) : FileTree :=
  ⟨(location, node) :: tree.nodes.filter (·.1 != location)⟩

/-- Goes one name further, into a directory that is made if nothing is there. -/
def makeWay (state : FileTree × Location) (name : Bytes) : FileTree × Location :=
  let (tree, location) := state
  if isHere name then state
  else if isOuter name then (tree, location.tail)
  else
    match tree.nodes.lookup (name :: location) with
    | some _ => (tree, name :: location)
    | none => (tree.put (name :: location) .directory, name :: location)

/-- Adds a file, or a directory if the path ends in a slash. Every directory that the path goes
through is made first, also one that it leaves again. -/
def add (tree : FileTree) (path : Path) (content : Bytes) : FileTree :=
  let (made, location) := path.names.dropLast.foldl makeWay (tree, startOf path)
  match path.names.getLast? with
  | none | some [] => made
  | some name => made.put (name :: location) (.file (.ok content))

def usualDirectories : List String :=
  ["bin", "boot", "dev", "etc", "home", "lib", "media", "mnt", "opt", "proc", "root", "run", "sbin",
    "srv", "sys", "tmp", "usr", "var"]

/-- An empty working directory on a machine where the input can be read as a file too. -/
def machine (input : Bytes) : FileTree :=
  let directories := usualDirectories.foldl (fun tree name => add tree s!"/{name}/" []) empty
  ((directories.add "/tmp/work/" []).add "/dev/null" []).add "/dev/stdin" input

end FileTree
end LoxLang

import Std.Data.TreeMap
import LoxLang.Syntax
/-!
Static scoping: for every place where a variable is read or assigned, how many scopes outwards its
declaration is. Blocks and functions open scopes; what no scope declares is global and has no
distance.
-/
namespace LoxLang

/-- Distances by the identity of the expression node. -/
abbrev Distances : Type := Std.TreeMap Nat Nat

/-- Names of one scope; a name that is declared but not yet defined maps to false. -/
abbrev Scope : Type := Std.TreeMap String Bool

structure Scoping where
  scopes : List Scope
  inFunction : Bool
  distances : Distances
  faults : Array StaticFault

namespace Scoping

def start : Scoping := ⟨[], false, ∅, #[]⟩

def report (line : Nat) (lexeme : String) (cause : StaticCause) (state : Scoping) : Scoping :=
  { state with faults := state.faults.push ⟨line, .lexeme lexeme, cause⟩ }

def openScope (state : Scoping) : Scoping := { state with scopes := ∅ :: state.scopes }

def closeScope (state : Scoping) : Scoping := { state with scopes := state.scopes.tail }

/-- Global names may be declared any number of times, local ones once. -/
def declare (name : Ident) (state : Scoping) : Scoping :=
  match state.scopes with
  | [] => state
  | scope :: outer =>
    if scope.contains name.name then state.report name.line name.name .duplicateName
    else { state with scopes := scope.insert name.name false :: outer }

def define (name : Ident) (state : Scoping) : Scoping :=
  match state.scopes with
  | [] => state
  | scope :: outer => { state with scopes := scope.insert name.name true :: outer }

/-- The number of scopes between a use of a name and the innermost scope that has it. -/
def distance? (name : String) (state : Scoping) : Option Nat :=
  state.scopes.findIdx? (·.contains name)

def refer (id : Nat) (name : String) (state : Scoping) : Scoping :=
  match state.distance? name with
  | none => state
  | some distance => { state with distances := state.distances.insert id distance }

def inOwnInitializer (name : String) (state : Scoping) : Bool :=
  match state.scopes with
  | [] => false
  | scope :: _ => scope[name]? == some false

def read (site : Site) (name : String) (state : Scoping) : Scoping :=
  let checked :=
    if state.inOwnInitializer name then state.report site.line name .readInOwnInitializer
    else state
  checked.refer site.id name

mutual

def expression : Expr → Scoping → Scoping
  | .literal _ _, state => state
  | .variable site name, state => state.read site name
  | .assign site target value, state => (expression value state).refer site.id target
  | .group _ inner, state => expression inner state
  | .unary _ _ operand, state => expression operand state
  | .binary _ _ left right, state => expression right (expression left state)
  | .logical _ _ left right, state => expression right (expression left state)
  | .call _ callee arguments, state => expressions arguments (expression callee state)

def expressions : List Expr → Scoping → Scoping
  | [], state => state
  | first :: rest, state => expressions rest (expression first state)

end

def optional (value : Option Expr) (state : Scoping) : Scoping :=
  match value with
  | none => state
  | some value => expression value state

def parameters (names : List Ident) (state : Scoping) : Scoping :=
  names.foldl (fun state name => (state.declare name).define name) state

def checkReturn (line : Nat) (state : Scoping) : Scoping :=
  if state.inFunction then state else state.report line "return" .returnOutsideFunction

/-- Around a function body: its parameters and its statements share one scope. -/
def enterFunction (names : List Ident) (state : Scoping) : Scoping :=
  parameters names { state with inFunction := true }.openScope

def leaveFunction (inFunction : Bool) (state : Scoping) : Scoping :=
  { state.closeScope with inFunction := inFunction }

mutual

/-- A function's name is defined before its body, a variable's only after its initializer. -/
def statement : Stmt → Scoping → Scoping
  | .var name initial, state => (optional initial (state.declare name)).define name
  | .function name names body, state =>
    let declared := (state.declare name).define name
    (statements body (declared.enterFunction names)).leaveFunction state.inFunction
  | .expression value, state => expression value state
  | .print value, state => expression value state
  | .block body, state => (statements body state.openScope).closeScope
  | .ifThen test yes, state => statement yes (expression test state)
  | .ifElse test yes no, state => statement no (statement yes (expression test state))
  | .loop test body, state => statement body (expression test state)
  | .return line value, state => optional value (state.checkReturn line)

def statements : List Stmt → Scoping → Scoping
  | [], state => state
  | first :: rest, state => statements rest (statement first state)

end

end Scoping

/-- The distances of a whole program, or everything that is wrong with its scopes. -/
def resolve (program : Program) : Except (List StaticFault) Distances :=
  let final := Scoping.statements program .start
  if final.faults.isEmpty then .ok final.distances else .error final.faults.toList

end LoxLang

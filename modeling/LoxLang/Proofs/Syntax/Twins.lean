import Mathlib.Data.List.Forall2
import LoxLang.Proofs.Grammar.Derivations
import LoxLang.Proofs.Scoping.Nesting

/-!
Trees that are the same but for where they were read. The nodes of twins have other numbers, and may
stand on other lines; their references are bound alike, each by the distances on its own side.
-/
namespace LoxLang

/-- Which nodes go together, and the distances on both sides. -/
structure Pairing where
  nodes : Site → Site → Prop
  table : Distances
  other : Distances

/-- Nodes that go together and have the same distance, or both none. -/
def Pairing.References (pairing : Pairing) (site twin : Site) : Prop :=
  pairing.nodes site twin ∧ pairing.table[site.id]? = pairing.other[twin.id]?

def Pairing.unbound (nodes : Site → Site → Prop) : Pairing := ⟨nodes, ∅, ∅⟩

inductive Expr.Twin (pairing : Pairing) : Expr → Expr → Prop
  | literal {site twin : Site} {value : Literal} : pairing.nodes site twin →
    Twin pairing (.literal site value) (.literal twin value)
  | variable {site twin : Site} {name : String} : pairing.References site twin →
    Twin pairing (.variable site name) (.variable twin name)
  | assign {site twin : Site} {target : String} {value other : Expr} :
    pairing.References site twin → Twin pairing value other →
    Twin pairing (.assign site target value) (.assign twin target other)
  | group {site twin : Site} {inner other : Expr} : pairing.nodes site twin →
    Twin pairing inner other → Twin pairing (.group site inner) (.group twin other)
  | unary {site twin : Site} {op : UnaryOp} {operand other : Expr} : pairing.nodes site twin →
    Twin pairing operand other → Twin pairing (.unary site op operand) (.unary twin op other)
  | binary {site twin : Site} {op : BinaryOp} {left right otherLeft otherRight : Expr} :
    pairing.nodes site twin → Twin pairing left otherLeft → Twin pairing right otherRight →
    Twin pairing (.binary site op left right) (.binary twin op otherLeft otherRight)
  | logical {site twin : Site} {op : LogicalOp} {left right otherLeft otherRight : Expr} :
    pairing.nodes site twin → Twin pairing left otherLeft → Twin pairing right otherRight →
    Twin pairing (.logical site op left right) (.logical twin op otherLeft otherRight)
  | call {site twin : Site} {callee other : Expr} {arguments others : List Expr} :
    pairing.nodes site twin → Twin pairing callee other →
    List.Forall₂ (Twin pairing) arguments others →
    Twin pairing (.call site callee arguments) (.call twin other others)

/-- Where names are declared and where a return stands makes no difference when a program runs. -/
inductive Stmt.Twin (pairing : Pairing) : Stmt → Stmt → Prop
  | var {name : String} {line otherLine : Nat} {initial other : Option Expr} :
    Option.Rel (Expr.Twin pairing) initial other →
    Twin pairing (.var ⟨name, line⟩ initial) (.var ⟨name, otherLine⟩ other)
  | function {name : String} {line otherLine : Nat} {parameters otherParameters : List Ident}
    {body other : List Stmt} :
    parameters.map Ident.name = otherParameters.map Ident.name →
    List.Forall₂ (Twin pairing) body other →
    Twin pairing (.function ⟨name, line⟩ parameters body)
      (.function ⟨name, otherLine⟩ otherParameters other)
  | expression {value other : Expr} : Expr.Twin pairing value other →
    Twin pairing (.expression value) (.expression other)
  | print {value other : Expr} : Expr.Twin pairing value other →
    Twin pairing (.print value) (.print other)
  | block {body other : List Stmt} : List.Forall₂ (Twin pairing) body other →
    Twin pairing (.block body) (.block other)
  | ifThen {test otherTest : Expr} {yes otherYes : Stmt} : Expr.Twin pairing test otherTest →
    Twin pairing yes otherYes → Twin pairing (.ifThen test yes) (.ifThen otherTest otherYes)
  | ifElse {test otherTest : Expr} {yes no otherYes otherNo : Stmt} :
    Expr.Twin pairing test otherTest → Twin pairing yes otherYes → Twin pairing no otherNo →
    Twin pairing (.ifElse test yes no) (.ifElse otherTest otherYes otherNo)
  | loop {test otherTest : Expr} {body other : Stmt} : Expr.Twin pairing test otherTest →
    Twin pairing body other → Twin pairing (.loop test body) (.loop otherTest other)
  | return {line otherLine : Nat} {value other : Option Expr} :
    Option.Rel (Expr.Twin pairing) value other →
    Twin pairing (.return line value) (.return otherLine other)

section Widening

variable {pairing wider : Pairing}

/-- Whatever goes together in the one way goes together in the other. -/
structure Pairing.Within (pairing wider : Pairing) : Prop where
  nodes : ∀ {site twin}, pairing.nodes site twin → wider.nodes site twin
  references : ∀ {site twin}, pairing.References site twin → wider.References site twin

mutual

theorem Expr.Twin.widen (within : pairing.Within wider) : ∀ {expr other : Expr},
    expr.Twin pairing other → expr.Twin wider other
  | .literal _ _, _, .literal node => .literal (within.nodes node)
  | .variable _ _, _, .variable reference => .variable (within.references reference)
  | .assign _ _ _, _, .assign reference value =>
    .assign (within.references reference) (value.widen within)
  | .group _ _, _, .group node inner => .group (within.nodes node) (inner.widen within)
  | .unary _ _ _, _, .unary node operand => .unary (within.nodes node) (operand.widen within)
  | .binary _ _ _ _, _, .binary node left right =>
    .binary (within.nodes node) (left.widen within) (right.widen within)
  | .logical _ _ _ _, _, .logical node left right =>
    .logical (within.nodes node) (left.widen within) (right.widen within)
  | .call _ _ _, _, .call node callee arguments =>
    .call (within.nodes node) (callee.widen within) (Expr.Twin.widenAll within arguments)

theorem Expr.Twin.widenAll (within : pairing.Within wider) : ∀ {values others : List Expr},
    List.Forall₂ (Expr.Twin pairing) values others → List.Forall₂ (Expr.Twin wider) values others
  | [], _, .nil => .nil
  | _ :: _, _, .cons first rest => .cons (first.widen within) (Expr.Twin.widenAll within rest)

end

theorem Expr.Twin.widenOptional (within : pairing.Within wider) {value other : Option Expr}
    (twin : Option.Rel (Expr.Twin pairing) value other) :
    Option.Rel (Expr.Twin wider) value other := by
  cases twin with
  | none => exact .none
  | some twin => exact .some (twin.widen within)

mutual

theorem Stmt.Twin.widen (within : pairing.Within wider) : ∀ {stmt other : Stmt},
    stmt.Twin pairing other → stmt.Twin wider other
  | .var _ _, _, .var initial => .var (Expr.Twin.widenOptional within initial)
  | .function _ _ _, _, .function names body => .function names (Stmt.Twin.widenAll within body)
  | .expression _, _, .expression value => .expression (value.widen within)
  | .print _, _, .print value => .print (value.widen within)
  | .block _, _, .block body => .block (Stmt.Twin.widenAll within body)
  | .ifThen _ _, _, .ifThen test yes => .ifThen (test.widen within) (yes.widen within)
  | .ifElse _ _ _, _, .ifElse test yes no =>
    .ifElse (test.widen within) (yes.widen within) (no.widen within)
  | .loop _ _, _, .loop test body => .loop (test.widen within) (body.widen within)
  | .return _ _, _, .return value => .return (Expr.Twin.widenOptional within value)

theorem Stmt.Twin.widenAll (within : pairing.Within wider) : ∀ {body other : List Stmt},
    List.Forall₂ (Stmt.Twin pairing) body other → List.Forall₂ (Stmt.Twin wider) body other
  | [], _, .nil => .nil
  | _ :: _, _, .cons first rest => .cons (first.widen within) (Stmt.Twin.widenAll within rest)

end

end Widening

section Binding

variable {pairing : Pairing} {table otherTable : Distances}
  {nesting : Nesting} {pending otherPending : Option String}

mutual

theorem Expr.Twin.bound : ∀ {expr other : Expr}, expr.Twin pairing other →
    expr.Resolved table nesting pending → other.Resolved otherTable nesting otherPending →
    expr.Twin ⟨pairing.nodes, table, otherTable⟩ other
  | .literal _ _, _, .literal node, _, _ => .literal node
  | .variable _ _, _, .variable reference, resolved, same =>
    .variable ⟨reference.1, resolved.2.trans same.2.symm⟩
  | .assign _ _ _, _, .assign reference value, resolved, same =>
    .assign ⟨reference.1, resolved.2.trans same.2.symm⟩ (value.bound resolved.1 same.1)
  | .group _ _, _, .group node inner, resolved, same => .group node (inner.bound resolved same)
  | .unary _ _ _, _, .unary node operand, resolved, same =>
    .unary node (operand.bound resolved same)
  | .binary _ _ _ _, _, .binary node left right, resolved, same =>
    .binary node (left.bound resolved.1 same.1) (right.bound resolved.2 same.2)
  | .logical _ _ _ _, _, .logical node left right, resolved, same =>
    .logical node (left.bound resolved.1 same.1) (right.bound resolved.2 same.2)
  | .call _ _ _, _, .call node callee arguments, resolved, same =>
    .call node (callee.bound resolved.1 same.1)
      (Expr.Twin.boundAll arguments resolved.2 same.2)

theorem Expr.Twin.boundAll : ∀ {values others : List Expr},
    List.Forall₂ (Expr.Twin pairing) values others →
    Expr.ResolvedAll table nesting pending values →
    Expr.ResolvedAll otherTable nesting otherPending others →
    List.Forall₂ (Expr.Twin ⟨pairing.nodes, table, otherTable⟩) values others
  | [], _, .nil, _, _ => .nil
  | _ :: _, _, .cons first rest, resolved, same =>
    .cons (first.bound resolved.1 same.1) (Expr.Twin.boundAll rest resolved.2 same.2)

end

theorem Expr.Twin.boundOptional {value other : Option Expr}
    (twin : Option.Rel (Expr.Twin pairing) value other)
    (resolved : Expr.ResolvedOptional table nesting pending value)
    (same : Expr.ResolvedOptional otherTable nesting otherPending other) :
    Option.Rel (Expr.Twin ⟨pairing.nodes, table, otherTable⟩) value other := by
  cases twin with
  | none => exact .none
  | some twin => exact .some (twin.bound (resolved _ rfl) (same _ rfl))

theorem Stmt.Twin.after {stmt other : Stmt} (twin : stmt.Twin pairing other) (nesting : Nesting) :
    nesting.after other = nesting.after stmt := by
  cases twin <;> rfl

mutual

theorem Stmt.Twin.bound : ∀ {stmt other : Stmt} {nesting : Nesting}, stmt.Twin pairing other →
    stmt.Resolved table nesting → other.Resolved otherTable nesting →
    stmt.Twin ⟨pairing.nodes, table, otherTable⟩ other
  | .var _ _, _, _, .var initial, resolved, same =>
    .var (Expr.Twin.boundOptional initial resolved.2 same.2)
  | .function _ _ _, _, _, .function names body, resolved, same =>
    -- the parameters make the same scope on both sides
    .function names (Stmt.Twin.boundAll body resolved.2.2 (names ▸ same.2.2))
  | .expression _, _, _, .expression value, resolved, same =>
    .expression (value.bound resolved same)
  | .print _, _, _, .print value, resolved, same => .print (value.bound resolved same)
  | .block _, _, _, .block body, resolved, same => .block (Stmt.Twin.boundAll body resolved same)
  | .ifThen _ _, _, _, .ifThen test yes, resolved, same =>
    .ifThen (test.bound resolved.1 same.1) (yes.bound resolved.2.2 same.2.2)
  | .ifElse _ _ _, _, _, .ifElse test yes no, resolved, same =>
    .ifElse (test.bound resolved.1 same.1) (yes.bound resolved.2.1.2 same.2.1.2)
      (no.bound resolved.2.2.2 same.2.2.2)
  | .loop _ _, _, _, .loop test body, resolved, same =>
    .loop (test.bound resolved.1 same.1) (body.bound resolved.2.2 same.2.2)
  | .return _ _, _, _, .return value, resolved, same =>
    .return (Expr.Twin.boundOptional value resolved same)

theorem Stmt.Twin.boundAll : ∀ {body other : List Stmt} {nesting : Nesting},
    List.Forall₂ (Stmt.Twin pairing) body other → Stmt.ResolvedAll table nesting body →
    Stmt.ResolvedAll otherTable nesting other →
    List.Forall₂ (Stmt.Twin ⟨pairing.nodes, table, otherTable⟩) body other
  | [], _, _, .nil, _, _ => .nil
  | _ :: _, _, nesting, .cons first rest, resolved, same =>
    .cons (first.bound resolved.1 same.1)
      (Stmt.Twin.boundAll rest resolved.2 (first.after nesting ▸ same.2))

end

end Binding
end LoxLang

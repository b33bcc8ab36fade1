import Mathlib.Data.List.Forall2
import LoxLang.Proofs.Scoping.Admission
import LoxLang.Proofs.Syntax.Twins

/-!
Programs that do the same although they are written differently: local names may be called differently
on the other side, and a statement that declares nothing may stand in a block of its own there.
-/
namespace LoxLang

/-- Local names with what they are called on the other side, innermost first. -/
abbrev Renaming : Type := List (String × String)

namespace Renaming

/-- Both names stand for the same declaration, or for the same global name. -/
def Relates : Renaming → String → String → Prop
  | [], name, other => name = other
  | (first, second) :: rest, name, other =>
    (first = name ∧ second = other) ∨ (first ≠ name ∧ second ≠ other ∧ Relates rest name other)

def Same (known : Renaming) : Prop := ∀ pair ∈ known, pair.2 = pair.1

theorem Same.relates {known : Renaming} (same : known.Same) (name : String) :
    known.Relates name name := by
  induction known with
  | nil => rfl
  | cons pair rest ih =>
    obtain ⟨first, second⟩ := pair
    obtain rfl : second = first := same _ List.mem_cons_self
    have further := ih fun pair member => same pair (List.mem_cons_of_mem _ member)
    by_cases here : second = name
    · exact .inl ⟨here, here⟩
    · exact .inr ⟨here, here, further⟩

/-- Parameters and what they are called on the other side; the last one is the innermost. -/
def ofParameters (parameters others : List Ident) : Renaming :=
  ((parameters.map Ident.name).zip (others.map Ident.name)).reverse

/-- What is local around a statement, if it does not stand outside all blocks and functions. -/
abbrev Around : Type := Option Renaming

/-- A global declaration adds nothing. -/
def Around.declare (around : Around) (name other : String) : Around :=
  around.map ((name, other) :: ·)

def Around.names (around : Around) : Renaming := around.getD []

def Around.pending (around : Around) (name : String) : Option String := around.map fun _ => name

def Around.Same (around : Around) : Prop := around.names.Same

theorem Around.Same.declare {around : Around} (same : around.Same) (name : String) :
    (around.declare name name).Same := by
  cases around with
  | none => exact same
  | some known =>
    rintro pair (_ | ⟨_, earlier⟩)
    · rfl
    · exact same pair earlier

theorem same_ofParameters (parameters : List Ident) : (ofParameters parameters parameters).Same := by
  intro pair member
  rw [ofParameters, List.mem_reverse] at member
  induction parameters with
  | nil => cases member
  | cons parameter rest ih =>
    rcases List.mem_cons.mp member with rfl | later
    · rfl
    · exact ih later

theorem Same.append {known other : Renaming} (same : known.Same) (further : other.Same) :
    Same (known ++ other) := by
  intro pair member
  rcases List.mem_append.mp member with first | second
  · exact same pair first
  · exact further pair second

/-- A nesting and what is local in it are either both inside a scope or both outside. -/
def Around.Level (around : Around) (nesting : Nesting) : Prop :=
  around = none ↔ nesting = []

theorem Around.Level.pending {around : Around} {nesting : Nesting}
    (level : around.Level nesting) (name : String) : nesting.pending name = around.pending name := by
  cases around with
  | none => rw [level.mp rfl]; rfl
  | some known =>
    cases nesting with
    | nil => cases level.mpr rfl
    | cons names outer => rfl

theorem Around.Level.declare {around : Around} {nesting : Nesting}
    (level : around.Level nesting) (name other sought : String) :
    (around.declare name other).Level (nesting.declare sought) := by
  cases around with
  | none => rw [level.mp rfl]; exact ⟨fun _ => rfl, fun _ => rfl⟩
  | some known =>
    cases nesting with
    | nil => cases level.mpr rfl
    | cons names outer => exact ⟨nofun, nofun⟩

theorem Around.level_inside (known : Renaming) (names : List String)
    (outer : Nesting) : Around.Level (some known) (names :: outer) := ⟨nofun, nofun⟩

end Renaming

open Renaming (Around)

/-- The same expression under other names. Wherever a fault may be reported, the lines are the same;
the pending variable is not read. -/
inductive Expr.Variant (known : Renaming) (pending : Option String) : Expr → Expr → Prop
  | literal {site twin : Site} {value : Literal} :
    Variant known pending (.literal site value) (.literal twin value)
  | variable {site twin : Site} {name other : String} : twin.line = site.line →
    pending ≠ some name → known.Relates name other →
    Variant known pending (.variable site name) (.variable twin other)
  | assign {site twin : Site} {target other : String} {value same : Expr} :
    twin.line = site.line → known.Relates target other →
    Variant known pending value same →
    Variant known pending (.assign site target value) (.assign twin other same)
  | group {site twin : Site} {inner other : Expr} : Variant known pending inner other →
    Variant known pending (.group site inner) (.group twin other)
  | unary {site twin : Site} {op : UnaryOp} {operand other : Expr} : twin.line = site.line →
    Variant known pending operand other →
    Variant known pending (.unary site op operand) (.unary twin op other)
  | binary {site twin : Site} {op : BinaryOp} {left right otherLeft otherRight : Expr} :
    twin.line = site.line → Variant known pending left otherLeft →
    Variant known pending right otherRight →
    Variant known pending (.binary site op left right) (.binary twin op otherLeft otherRight)
  | logical {site twin : Site} {op : LogicalOp} {left right otherLeft otherRight : Expr} :
    Variant known pending left otherLeft → Variant known pending right otherRight →
    Variant known pending (.logical site op left right) (.logical twin op otherLeft otherRight)
  | call {site twin : Site} {callee other : Expr} {arguments others : List Expr} :
    twin.line = site.line → Variant known pending callee other →
    List.Forall₂ (Variant known pending) arguments others →
    Variant known pending (.call site callee arguments) (.call twin other others)

mutual

/-- The same statement, which declares nothing, under other names. -/
inductive Stmt.Variant (further : Prop) : Around → Stmt → Stmt → Prop
  | expression {around : Around} {value other : Expr} :
    Expr.Variant around.names none value other →
    Stmt.Variant further around (.expression value) (.expression other)
  | print {around : Around} {value other : Expr} : Expr.Variant around.names none value other →
    Stmt.Variant further around (.print value) (.print other)
  | block {around : Around} {body other : List Stmt} :
    Stmt.VariantAll further (some around.names) body other →
    Stmt.Variant further around (.block body) (.block other)
  | ifThen {around : Around} {test otherTest : Expr} {yes otherYes : Stmt} :
    Expr.Variant around.names none test otherTest → Stmt.Enclosing further around yes otherYes →
    Stmt.Variant further around (.ifThen test yes) (.ifThen otherTest otherYes)
  | ifElse {around : Around} {test otherTest : Expr} {yes no otherYes otherNo : Stmt} :
    Expr.Variant around.names none test otherTest → Stmt.Enclosing further around yes otherYes →
    Stmt.Enclosing further around no otherNo →
    Stmt.Variant further around (.ifElse test yes no) (.ifElse otherTest otherYes otherNo)
  | loop {around : Around} {test otherTest : Expr} {body other : Stmt} :
    Expr.Variant around.names none test otherTest → Stmt.Enclosing further around body other →
    Stmt.Variant further around (.loop test body) (.loop otherTest other)
  | return {around : Around} {line otherLine : Nat} {value other : Option Expr} :
    Option.Rel (Expr.Variant around.names none) value other →
    Stmt.Variant further around (.return line value) (.return otherLine other)

/-- If further scopes are allowed, the other statement may stand in a block of its own. -/
inductive Stmt.Enclosing (further : Prop) : Around → Stmt → Stmt → Prop
  | bare {around : Around} {stmt other : Stmt} : Stmt.Variant further around stmt other →
    Stmt.Enclosing further around stmt other
  | block {around : Around} {stmt other : Stmt} : further →
    Stmt.Variant further around stmt other → Stmt.Enclosing further around stmt (.block [other])

/-- Statements in order; the names that one of them declares are known to those behind it. -/
inductive Stmt.VariantAll (further : Prop) : Around → List Stmt → List Stmt → Prop
  | nil {around : Around} : Stmt.VariantAll further around [] []
  | cons {around after : Around} {first second : Stmt} {rest others : List Stmt} :
    Stmt.Following further around after first second → Stmt.VariantAll further after rest others →
    Stmt.VariantAll further around (first :: rest) (second :: others)

/-- A statement of a list, with what is local behind it. Global names are the same on both sides. -/
inductive Stmt.Following (further : Prop) : Around → Around → Stmt → Stmt → Prop
  | var {around : Around} {name other : Ident} {initial value : Option Expr} :
    (around = none → other.name = name.name) →
    Option.Rel (Expr.Variant (around.declare name.name other.name).names
      (around.pending name.name)) initial value →
    Stmt.Following further around (around.declare name.name other.name) (.var name initial)
      (.var other value)
  | function {around : Around} {name : String} {line otherLine : Nat}
    {parameters otherParameters : List Ident} {body other : List Stmt} :
    otherParameters.length = parameters.length →
    Stmt.VariantAll further (some (Renaming.ofParameters parameters otherParameters ++
      (around.declare name name).names)) body other →
    Stmt.Following further around (around.declare name name)
      (.function ⟨name, line⟩ parameters body) (.function ⟨name, otherLine⟩ otherParameters other)
  | other {around : Around} {stmt other : Stmt} : Stmt.Enclosing further around stmt other →
    Stmt.Following further around around stmt other

end

section Further

variable {further wider : Prop}

mutual

theorem Stmt.Variant.imp (weaken : further → wider) : ∀ {around : Around} {stmt other : Stmt},
    Stmt.Variant further around stmt other → Stmt.Variant wider around stmt other
  | _, _, _, .expression value => .expression value
  | _, _, _, .print value => .print value
  | _, _, _, .block bodies => .block (Stmt.VariantAll.imp weaken bodies)
  | _, _, _, .ifThen test yes => .ifThen test (Stmt.Enclosing.imp weaken yes)
  | _, _, _, .ifElse test yes no =>
    .ifElse test (Stmt.Enclosing.imp weaken yes) (Stmt.Enclosing.imp weaken no)
  | _, _, _, .loop test body => .loop test (Stmt.Enclosing.imp weaken body)
  | _, _, _, .return value => .return value

theorem Stmt.Enclosing.imp (weaken : further → wider) : ∀ {around : Around} {stmt other : Stmt},
    Stmt.Enclosing further around stmt other → Stmt.Enclosing wider around stmt other
  | _, _, _, .bare variant => .bare (Stmt.Variant.imp weaken variant)
  | _, _, _, .block allowed variant => .block (weaken allowed) (Stmt.Variant.imp weaken variant)

theorem Stmt.VariantAll.imp (weaken : further → wider) : ∀ {around : Around}
    {body other : List Stmt}, Stmt.VariantAll further around body other →
    Stmt.VariantAll wider around body other
  | _, _, _, .nil => .nil
  | _, _, _, .cons first rest =>
    .cons (Stmt.Following.imp weaken first) (Stmt.VariantAll.imp weaken rest)

theorem Stmt.Following.imp (weaken : further → wider) : ∀ {around after : Around}
    {stmt other : Stmt}, Stmt.Following further around after stmt other →
    Stmt.Following wider around after stmt other
  | _, _, _, _, .var global initial => .var global initial
  | _, _, _, _, .function enough bodies => .function enough (Stmt.VariantAll.imp weaken bodies)
  | _, _, _, _, .other enclosing => .other (Stmt.Enclosing.imp weaken enclosing)

end

mutual

theorem Stmt.Variant.stays : ∀ {around : Around} {stmt other : Stmt},
    Stmt.Variant further around stmt other → stmt.Stays → other.Stays
  | _, _, _, .expression _, _ | _, _, _, .print _, _ => trivial
  | _, _, _, .block bodies, stays => bodies.stays stays
  | _, _, _, .ifThen _ yes, stays => yes.stays stays
  | _, _, _, .ifElse _ yes no, stays => ⟨yes.stays stays.1, no.stays stays.2⟩
  | _, _, _, .loop _ body, stays => body.stays stays

theorem Stmt.Enclosing.stays : ∀ {around : Around} {stmt other : Stmt},
    Stmt.Enclosing further around stmt other → stmt.Stays → other.Stays
  | _, _, _, .bare variant, stays => variant.stays stays
  | _, _, _, .block _ variant, stays => ⟨variant.stays stays, trivial⟩

theorem Stmt.VariantAll.stays : ∀ {around : Around} {body other : List Stmt},
    Stmt.VariantAll further around body other → Stmt.StaysAll body → Stmt.StaysAll other
  | _, _, _, .nil, _ => trivial
  | _, _, _, .cons first rest, stays => ⟨first.stays stays.1, rest.stays stays.2⟩

theorem Stmt.Following.stays : ∀ {around after : Around} {stmt other : Stmt},
    Stmt.Following further around after stmt other → stmt.Stays → other.Stays
  | _, _, _, _, .var _ _, _ | _, _, _, _, .function _ _, _ => trivial
  | _, _, _, _, .other enclosing, stays => enclosing.stays stays

end

end Further
section Twins

variable {pairing : Pairing} {further : Prop} {known : Renaming} {pending : Option String}

mutual

theorem Expr.Variant.twin
    (level : ∀ site twin, pairing.nodes site twin → twin.line = site.line) :
    ∀ {expr other same : Expr}, expr.Variant known pending other →
    other.Twin pairing same → expr.Variant known pending same
  | .literal _ _, _, _, .literal, .literal _ => .literal
  | .variable _ _, _, _, .variable line avoids relates, .variable reference =>
    .variable ((level _ _ reference.1).trans line) avoids relates
  | .assign _ _ _, _, _, .assign line relates value, .assign reference same =>
    .assign ((level _ _ reference.1).trans line) relates (value.twin level same)
  | .group _ _, _, _, .group inner, .group _ same => .group (inner.twin level same)
  | .unary _ _ _, _, _, .unary line operand, .unary node same =>
    .unary ((level _ _ node).trans line) (operand.twin level same)
  | .binary _ _ _ _, _, _, .binary line left right, .binary node first second =>
    .binary ((level _ _ node).trans line) (left.twin level first) (right.twin level second)
  | .logical _ _ _ _, _, _, .logical left right, .logical _ first second =>
    .logical (left.twin level first) (right.twin level second)
  | .call _ _ _, _, _, .call line callee arguments, .call node first rest =>
    .call ((level _ _ node).trans line) (callee.twin level first) (Expr.Variant.twins level arguments rest)

theorem Expr.Variant.twins
    (level : ∀ site twin, pairing.nodes site twin → twin.line = site.line) :
    ∀ {values others sames : List Expr},
    List.Forall₂ (Expr.Variant known pending) values others →
    List.Forall₂ (Expr.Twin pairing) others sames →
    List.Forall₂ (Expr.Variant known pending) values sames
  | [], _, _, .nil, .nil => .nil
  | _ :: _, _, _, .cons first rest, .cons same sames =>
    .cons (first.twin level same) (Expr.Variant.twins level rest sames)

end

theorem Expr.Variant.twinOptional
    (level : ∀ site twin, pairing.nodes site twin → twin.line = site.line)
    {value other same : Option Expr}
    (variant : Option.Rel (Expr.Variant known pending) value other)
    (twin : Option.Rel (Expr.Twin pairing) other same) :
    Option.Rel (Expr.Variant known pending) value same := by
  cases variant with
  | none =>
    cases twin
    exact .none
  | some variant =>
    cases twin with
    | some twin => exact .some (variant.twin level twin)

mutual

theorem Stmt.Variant.twin
    (level : ∀ site twin, pairing.nodes site twin → twin.line = site.line) :
    ∀ {around : Around} {stmt other same : Stmt},
    Stmt.Variant further around stmt other → other.Twin pairing same →
    Stmt.Variant further around stmt same
  | _, _, _, _, .expression value, .expression same => .expression (value.twin level same)
  | _, _, _, _, .print value, .print same => .print (value.twin level same)
  | _, _, _, _, .block bodies, .block sames => .block (bodies.twin level sames)
  | _, _, _, _, .ifThen test yes, .ifThen first second =>
    .ifThen (test.twin level first) (yes.twin level second)
  | _, _, _, _, .ifElse test yes no, .ifElse first second third =>
    .ifElse (test.twin level first) (yes.twin level second) (no.twin level third)
  | _, _, _, _, .loop test body, .loop first second => .loop (test.twin level first) (body.twin level second)
  | _, _, _, _, .return value, .return same => .return (Expr.Variant.twinOptional level value same)

theorem Stmt.Enclosing.twin
    (level : ∀ site twin, pairing.nodes site twin → twin.line = site.line) :
    ∀ {around : Around} {stmt other same : Stmt},
    Stmt.Enclosing further around stmt other → other.Twin pairing same →
    Stmt.Enclosing further around stmt same
  | _, _, _, _, .bare variant, same => .bare (variant.twin level same)
  | _, _, _, _, .block allowed variant, .block (.cons same .nil) => .block allowed (variant.twin level same)

theorem Stmt.VariantAll.twin
    (level : ∀ site twin, pairing.nodes site twin → twin.line = site.line) :
    ∀ {around : Around} {body other same : List Stmt},
    Stmt.VariantAll further around body other → List.Forall₂ (Stmt.Twin pairing) other same →
    Stmt.VariantAll further around body same
  | _, _, _, _, .nil, .nil => .nil
  | _, _, _, _, .cons first rest, .cons same sames => .cons (first.twin level same) (rest.twin level sames)

theorem Stmt.Following.twin
    (level : ∀ site twin, pairing.nodes site twin → twin.line = site.line) :
    ∀ {around after : Around} {stmt other same : Stmt},
    Stmt.Following further around after stmt other → other.Twin pairing same →
    Stmt.Following further around after stmt same
  | around, _, _, _, _, .var outside initial, twin => by
    cases twin with
    | @var name line otherLine _ _ same =>
      exact @Stmt.Following.var further around _ ⟨name, otherLine⟩ _ _ outside
        (Expr.Variant.twinOptional level initial same)
  | _, _, _, _, _, .function enough bodies, .function names sames => by
    -- parameters on other lines are called the same
    have lengths := congrArg List.length names
    rw [List.length_map, List.length_map] at lengths
    refine .function (lengths.symm.trans enough) ?_
    rw [Renaming.ofParameters, ← names]
    exact bodies.twin level sames
  | _, _, _, _, _, .other enclosing, same => .other (enclosing.twin level same)

end

end Twins
section Itself

variable {further : Prop} {known : Renaming} {pending : Option String}

mutual

theorem Expr.Avoids.variant (same : known.Same) : ∀ {expr : Expr}, expr.Avoids pending →
    expr.Variant known pending expr
  | .literal _ _, _ => .literal
  | .variable _ name, avoids => .variable rfl avoids (same.relates name)
  | .assign _ target value, avoids =>
    .assign rfl (same.relates target)
      ((show value.Avoids pending from avoids).variant same)
  | .group _ inner, avoids => .group ((show inner.Avoids pending from avoids).variant same)
  | .unary _ _ operand, avoids => .unary rfl ((show operand.Avoids pending from avoids).variant same)
  | .binary _ _ _ _, avoids => .binary rfl (avoids.1.variant same) (avoids.2.variant same)
  | .logical _ _ _ _, avoids => .logical (avoids.1.variant same) (avoids.2.variant same)
  | .call _ _ _, avoids => .call rfl (avoids.1.variant same) (Expr.AvoidsAll.variants same avoids.2)

theorem Expr.AvoidsAll.variants (same : known.Same) : ∀ {values : List Expr},
    Expr.AvoidsAll pending values → List.Forall₂ (Expr.Variant known pending) values values
  | [], _ => .nil
  | _ :: _, avoids => .cons (avoids.1.variant same) (Expr.AvoidsAll.variants same avoids.2)

end

theorem Expr.variant_itself (same : known.Same) (expr : Expr) :
    expr.Variant known none expr :=
  (Scoping.avoids_none expr).variant same

theorem Expr.variant_optional (same : known.Same) {value : Option Expr}
    (avoids : ∀ expr ∈ value, expr.Avoids pending) :
    Option.Rel (Expr.Variant known pending) value value := by
  cases value with
  | none => exact .none
  | some value => exact .some ((avoids value rfl).variant same)

mutual

theorem Stmt.Admitted.variant : ∀ {stmt : Stmt} {around : Around} {nesting : Nesting},
    stmt.isDeclaration = false → stmt.Admitted nesting → around.Same →
    stmt.Variant further around stmt
  | .expression value, _, _, _, _, same => .expression (Expr.variant_itself same value)
  | .print value, _, _, _, _, same => .print (Expr.variant_itself same value)
  | .block body, around, nesting, _, admitted, same =>
    .block (Stmt.AdmittedAll.variants (show Stmt.AdmittedAll ([] :: nesting) body from admitted)
      (Around.level_inside _ _ _) same)
  | .ifThen test _, _, _, _, admitted, same =>
    .ifThen (Expr.variant_itself same test) (.bare (admitted.2.variant admitted.1 same))
  | .ifElse test _ _, _, _, _, admitted, same =>
    .ifElse (Expr.variant_itself same test) (.bare (admitted.1.2.variant admitted.1.1 same))
      (.bare (admitted.2.2.variant admitted.2.1 same))
  | .loop test _, _, _, _, admitted, same =>
    .loop (Expr.variant_itself same test) (.bare (admitted.2.variant admitted.1 same))
  | .return _ value, _, _, _, _, same =>
    .return (Expr.variant_optional same fun expr _ => Scoping.avoids_none expr)

theorem Stmt.Admitted.following : ∀ {stmt : Stmt} {around : Around} {nesting : Nesting},
    stmt.Admitted nesting → around.Level nesting → around.Same →
    ∃ after : Around, stmt.Following further around after stmt ∧
      after.Level (nesting.after stmt) ∧ after.Same
  | .var name initial, around, nesting, admitted, level, same =>
    have declared := same.declare name.name
    ⟨_, .var (fun _ => rfl) (Expr.variant_optional declared fun value member =>
      level.pending name.name ▸ admitted.2 value member), level.declare _ _ _, declared⟩
  | .function name parameters body, around, nesting, admitted, level, same =>
    have declared := same.declare name.name
    have inside := (Renaming.same_ofParameters parameters).append declared
    ⟨_, .function rfl (Stmt.AdmittedAll.variants admitted.2.2 (Around.level_inside _ _ _) inside),
      level.declare _ _ _, declared⟩
  -- what declares nothing leaves the names as they are
  | .expression _, around, _, admitted, level, same
  | .print _, around, _, admitted, level, same
  | .block _, around, _, admitted, level, same
  | .ifThen _ _, around, _, admitted, level, same
  | .ifElse _ _ _, around, _, admitted, level, same
  | .loop _ _, around, _, admitted, level, same
  | .return _ _, around, _, admitted, level, same =>
    ⟨around, .other (.bare (Stmt.Admitted.variant rfl admitted same)), level, same⟩

theorem Stmt.AdmittedAll.variants : ∀ {body : List Stmt} {around : Around} {nesting : Nesting},
    Stmt.AdmittedAll nesting body → around.Level nesting → around.Same →
    Stmt.VariantAll further around body body
  | [], _, _, _, _, _ => .nil
  | _ :: _, _, _, admitted, level, same =>
    have ⟨_, following, levelAfter, sameAfter⟩ := admitted.1.following level same
    .cons following (Stmt.AdmittedAll.variants admitted.2 levelAfter sameAfter)

end

theorem Stmt.variantAll_behind {front rest other : List Stmt} {around : Around} {nesting : Nesting}
    (admitted : Stmt.AdmittedAll nesting front) (level : around.Level nesting) (same : around.Same)
    (behind : ∀ around : Around, around.Level (nesting.afterAll front) → around.Same →
      Stmt.VariantAll further around rest other) :
    Stmt.VariantAll further around (front ++ rest) (front ++ other) := by
  induction front generalizing around nesting with
  | nil => exact behind around level same
  | cons first more ih =>
    obtain ⟨after, following, levelAfter, sameAfter⟩ := admitted.1.following level same
    exact .cons following (ih admitted.2 levelAfter sameAfter behind)

end Itself
end LoxLang

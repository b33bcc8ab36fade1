import LoxLang.Proofs.Evaluation.Frames
import LoxLang.Proofs.Syntax.Places

/-!
Renaming a local. One declaration in a block or in a function gets a name that is not used anywhere, and
so do the references that are bound to it, and no others; the distances tell which these are. With the
new name everything is resolved as before.
-/
namespace LoxLang

/-- The name of a local, the one that it gets instead, and what references are bound to. -/
structure Rename where
  table : Distances
  old : String
  fresh : String

/-- What a reference with this distance is called afterwards, if the local is so many scopes out. -/
def Rename.called (change : Rename) (depth : Nat) (distance : Option Nat) (name : String) : String :=
  if name = change.old ∧ distance = some depth then change.fresh else name

mutual

/-- The references to the local get its new name. -/
def Expr.rename (change : Rename) (depth : Nat) : Expr → Expr
  | .literal site value => .literal site value
  | .variable site name => .variable site (change.called depth change.table[site.id]? name)
  | .assign site target value =>
    .assign site (change.called depth change.table[site.id]? target) (value.rename change depth)
  | .group site inner => .group site (inner.rename change depth)
  | .unary site op operand => .unary site op (operand.rename change depth)
  | .binary site op left right => .binary site op (left.rename change depth) (right.rename change depth)
  | .logical site op left right =>
    .logical site op (left.rename change depth) (right.rename change depth)
  | .call site callee arguments =>
    .call site (callee.rename change depth) (Expr.renameAll change depth arguments)

def Expr.renameAll (change : Rename) (depth : Nat) : List Expr → List Expr
  | [] => []
  | first :: rest => first.rename change depth :: Expr.renameAll change depth rest

end

mutual

/-- The same in statements; blocks and functions put one more scope between. -/
def Stmt.rename (change : Rename) (depth : Nat) : Stmt → Stmt
  | .var name initial => .var name (initial.map (Expr.rename change depth))
  | .function name parameters body =>
    .function name parameters (Stmt.renameAll change (depth + 1) body)
  | .expression value => .expression (value.rename change depth)
  | .print value => .print (value.rename change depth)
  | .block body => .block (Stmt.renameAll change (depth + 1) body)
  | .ifThen test yes => .ifThen (test.rename change depth) (yes.rename change depth)
  | .ifElse test yes no =>
    .ifElse (test.rename change depth) (yes.rename change depth) (no.rename change depth)
  | .loop test body => .loop (test.rename change depth) (body.rename change depth)
  | .return line value => .return line (value.map (Expr.rename change depth))

def Stmt.renameAll (change : Rename) (depth : Nat) : List Stmt → List Stmt
  | [] => []
  | first :: rest => first.rename change depth :: Stmt.renameAll change depth rest

end

/-- One variable of a list of statements is renamed; what stands before it is not bound to it. -/
inductive Stmt.RenamedVar (change : Rename) : List Stmt → List Stmt → Prop
  | mk {front back : List Stmt} {line : Nat} {initial : Option Expr} :
    RenamedVar change (front ++ .var ⟨change.old, line⟩ initial :: back)
      (front ++ .var ⟨change.fresh, line⟩ (initial.map (Expr.rename change 0)) ::
        Stmt.renameAll change 0 back)

/-- A parameter, or a variable of a function's body or of a block, is renamed. -/
inductive Stmt.Renamed (change : Rename) : Stmt → Stmt → Prop
  | parameter {name : Ident} {front back : List Ident} {line : Nat} {body : List Stmt} :
    Renamed change (.function name (front ++ ⟨change.old, line⟩ :: back) body)
      (.function name (front ++ ⟨change.fresh, line⟩ :: back) (Stmt.renameAll change 0 body))
  | functionVar {name : Ident} {parameters : List Ident} {body other : List Stmt} :
    RenamedVar change body other →
    Renamed change (.function name parameters body) (.function name parameters other)
  | blockVar {body other : List Stmt} : RenamedVar change body other →
    Renamed change (.block body) (.block other)

mutual

def Expr.Lacks (fresh : String) : Expr → Prop
  | .literal _ _ => True
  | .variable _ name => name ≠ fresh
  | .assign _ target value => target ≠ fresh ∧ value.Lacks fresh
  | .group _ inner => inner.Lacks fresh
  | .unary _ _ operand => operand.Lacks fresh
  | .binary _ _ left right => left.Lacks fresh ∧ right.Lacks fresh
  | .logical _ _ left right => left.Lacks fresh ∧ right.Lacks fresh
  | .call _ callee arguments => callee.Lacks fresh ∧ Expr.LacksAll fresh arguments

def Expr.LacksAll (fresh : String) : List Expr → Prop
  | [] => True
  | first :: rest => first.Lacks fresh ∧ Expr.LacksAll fresh rest

end

mutual

def Stmt.Lacks (fresh : String) : Stmt → Prop
  | .var name initial => name.name ≠ fresh ∧ ∀ value ∈ initial, value.Lacks fresh
  | .function name parameters body =>
    name.name ≠ fresh ∧ fresh ∉ parameters.map Ident.name ∧ Stmt.LacksAll fresh body
  | .expression value => value.Lacks fresh
  | .print value => value.Lacks fresh
  | .block body => Stmt.LacksAll fresh body
  | .ifThen test yes => test.Lacks fresh ∧ yes.Lacks fresh
  | .ifElse test yes no => test.Lacks fresh ∧ yes.Lacks fresh ∧ no.Lacks fresh
  | .loop test body => test.Lacks fresh ∧ body.Lacks fresh
  | .return _ value => ∀ expr ∈ value, expr.Lacks fresh

def Stmt.LacksAll (fresh : String) : List Stmt → Prop
  | [] => True
  | first :: rest => first.Lacks fresh ∧ Stmt.LacksAll fresh rest

end

theorem Stmt.lacksAll_append {fresh : String} (first last : List Stmt) :
    LacksAll fresh (first ++ last) ↔ LacksAll fresh first ∧ LacksAll fresh last := by
  induction first with
  | nil => simp [LacksAll]
  | cons stmt rest ih => simp only [List.cons_append, LacksAll, ih, and_assoc]

namespace Renaming

def same (names : List String) : Renaming := names.map fun name => (name, name)

theorem same_same (names : List String) : (same names).Same := by
  intro pair member
  obtain ⟨name, _, rfl⟩ := List.mem_map.mp member
  rfl

theorem zip_same (names : List String) : names.zip names = same names := by
  induction names with
  | nil => rfl
  | cons name rest ih => exact congrArg _ ih

theorem ofParameters_same (parameters : List Ident) :
    ofParameters parameters parameters = same (parameters.map Ident.name).reverse := by
  rw [ofParameters, zip_same, same, same, List.map_reverse]

theorem ofParameters_middle (front back : List Ident) (name other : Ident) :
    ofParameters (front ++ name :: back) (front ++ other :: back) =
      same (back.map Ident.name).reverse ++
        (name.name, other.name) :: same (front.map Ident.name).reverse := by
  simp only [ofParameters, List.map_append, List.map_cons]
  rw [List.zip_append rfl, List.zip_cons_cons, zip_same, zip_same, List.reverse_append,
    List.reverse_cons, List.append_assoc, same, same, same, same, List.map_reverse, List.map_reverse]
  rfl

theorem relates_inside {names : List String} {name : String} (member : name ∈ names)
    (known : Renaming) : Relates (same names ++ known) name name := by
  induction names with
  | nil => cases member
  | cons first rest ih =>
    by_cases here : first = name
    · exact .inl ⟨here, here⟩
    · exact .inr ⟨here, here, ih (by simpa [Ne.symm here] using member)⟩

theorem relates_outside {names : List String} {name other : String} (apart : name ∉ names)
    (otherApart : other ∉ names) {known : Renaming} (relates : known.Relates name other) :
    Relates (same names ++ known) name other := by
  induction names with
  | nil => exact relates
  | cons first rest ih =>
    rw [List.mem_cons, not_or] at apart otherApart
    exact .inr ⟨Ne.symm apart.1, Ne.symm otherApart.1, ih apart.2 otherApart.2⟩

def after (known : Renaming) : Stmt → Renaming
  | .var name _ => (name.name, name.name) :: known
  | .function name _ _ => (name.name, name.name) :: known
  | _ => known

end Renaming

section Renamed

variable {change : Rename} {depth : Nat} {nesting other : Nesting} {known : Renaming}
  {pending otherPending : Option String}

/-- The scopes on both sides of the local's name: they are the same, but that the scope `depth` further
out has the new name in place of the old one. -/
inductive Rename.Swaps (change : Rename) : Nat → Nesting → Nesting → Renaming → Prop
  | here {more names : List String} {outer : Nesting} {known : Renaming} :
    change.old ∉ more → change.fresh ∉ more → change.fresh ∉ names → known.Same →
    Swaps change 0 ((more ++ change.old :: names) :: outer)
      ((more ++ change.fresh :: names) :: outer)
      (Renaming.same more ++ (change.old, change.fresh) :: known)
  | inside {depth : Nat} {names : List String} {nesting other : Nesting} {known : Renaming} :
    change.fresh ∉ names → Swaps change depth nesting other known →
    Swaps change (depth + 1) (names :: nesting) (names :: other) (Renaming.same names ++ known)

namespace Rename.Swaps

theorem innermost {names : List String} {outer : Nesting} (unused : change.fresh ∉ names)
    (same : known.Same) :
    change.Swaps 0 ((change.old :: names) :: outer) ((change.fresh :: names) :: outer)
      ((change.old, change.fresh) :: known) := by
  have nothing : change.Swaps 0 (([] ++ change.old :: names) :: outer)
      (([] ++ change.fresh :: names) :: outer)
      (Renaming.same [] ++ (change.old, change.fresh) :: known) :=
    .here List.not_mem_nil List.not_mem_nil unused same
  exact nothing

/-- Whatever it is called then, a reference leads as far as before, and to the same declaration. -/
theorem refers (swaps : change.Swaps depth nesting other known) {name : String}
    (apart : name ≠ change.fresh) :
    other.distance? (change.called depth (nesting.distance? name) name) = nesting.distance? name ∧
      known.Relates name (change.called depth (nesting.distance? name) name) := by
  induction swaps with
  | @here more names outer known early unused new same =>
    rw [Nesting.distance?_cons, Nesting.distance?_cons]
    by_cases bound : name = change.old
    · subst bound
      have renamed : change.called 0 (some 0) change.old = change.fresh := if_pos ⟨rfl, rfl⟩
      have here : change.old ∈ more ++ change.old :: names := by simp
      have there : change.fresh ∈ more ++ change.fresh :: names := by simp
      rw [if_pos here, renamed, if_pos there]
      exact ⟨rfl, Renaming.relates_outside early unused (.inl ⟨rfl, rfl⟩)⟩
    · have kept {distance : Option Nat} : change.called 0 distance name = name :=
        if_neg fun both => bound both.1
      have member : name ∈ more ++ change.fresh :: names ↔ name ∈ more ++ change.old :: names := by
        simp [apart, bound]
      rw [kept, if_congr member rfl rfl]
      refine ⟨rfl, ?_⟩
      by_cases later : name ∈ more
      · exact Renaming.relates_inside later _
      · exact Renaming.relates_outside later later
          (.inr ⟨Ne.symm bound, Ne.symm apart, same.relates name⟩)
  | @inside depth names nesting other known new _ ih =>
    obtain ⟨distance, relates⟩ := ih
    rw [Nesting.distance?_cons, Nesting.distance?_cons]
    by_cases member : name ∈ names
    -- a name of this scope hides the local
    · have kept : change.called (depth + 1) (some 0) name = name :=
        if_neg fun both => by simp at both
      rw [if_pos member, kept, if_pos member]
      exact ⟨rfl, Renaming.relates_inside member known⟩
    · have further : change.called (depth + 1) ((nesting.distance? name).map (· + 1)) name =
          change.called depth (nesting.distance? name) name := by
        unfold called
        congr 2
        cases nesting.distance? name <;> simp
      have outside : change.called depth (nesting.distance? name) name ∉ names := by
        unfold called
        split
        · exact new
        · exact member
      rw [if_neg member, further, if_neg outside, distance]
      exact ⟨rfl, Renaming.relates_outside member outside relates⟩

theorem admits (swaps : change.Swaps depth nesting other known) {name : String}
    (apart : name ≠ change.fresh) (admits : nesting.Admits name) : other.Admits name := by
  cases swaps with
  | here _ _ _ _ =>
    rintro _ ⟨⟩ member
    rcases List.mem_append.mp member with early | later
    · exact admits _ rfl (List.mem_append_left _ early)
    · exact admits _ rfl (by simp [(List.mem_cons.mp later).resolve_left apart])
  | inside _ _ =>
    rintro _ ⟨⟩
    exact admits _ rfl

theorem declare (swaps : change.Swaps depth nesting other known) {name : String}
    (apart : name ≠ change.fresh) (admits : nesting.Admits name) :
    change.Swaps depth (nesting.declare name) (other.declare name) ((name, name) :: known) := by
  cases swaps with
  | @here more names outer known early unused new same =>
    -- the old name is in this scope already, so that it cannot be declared there again
    have different : change.old ≠ name := fun same => admits _ rfl (by simp [same])
    have earlier : change.old ∉ name :: more := by simp [different, early]
    have unusedStill : change.fresh ∉ name :: more := by simp [Ne.symm apart, unused]
    exact .here earlier unusedStill new same
  | @inside depth names nesting other known new inner =>
    have unused : change.fresh ∉ name :: names := by simp [Ne.symm apart, new]
    exact .inside unused inner

theorem after (swaps : change.Swaps depth nesting other known) {stmt : Stmt}
    (lacks : stmt.Lacks change.fresh) (admitted : stmt.Admitted nesting) :
    change.Swaps depth (nesting.after stmt) (other.after (stmt.rename change depth))
      (known.after stmt) := by
  cases stmt with
  | var name initial => exact swaps.declare lacks.1 admitted.1
  | function name parameters body => exact swaps.declare lacks.1 admitted.1
  | _ => exact swaps

theorem pending_eq (swaps : change.Swaps depth nesting other known) (name : String) :
    nesting.pending name = some name ∧ other.pending name = some name := by
  cases swaps <;> exact ⟨rfl, rfl⟩

end Rename.Swaps

/-- The variable whose initializer it is, on both sides. -/
inductive Rename.Pending (change : Rename) : Option String → Option String → Prop
  | same {pending : Option String} : pending ≠ some change.fresh → Pending change pending pending
  | renamed : Pending change (some change.old) (some change.fresh)

theorem Rename.Pending.avoids (pendings : change.Pending pending otherPending) {name : String}
    (apart : name ≠ change.fresh) (avoids : pending ≠ some name) (distance : Option Nat) :
    otherPending ≠ some (change.called depth distance name) := by
  unfold called
  cases pendings with
  | same unused =>
    split
    · exact unused
    · exact avoids
  | renamed =>
    have different : name ≠ change.old := fun same => avoids (congrArg some same.symm)
    rw [if_neg fun both => different both.1]
    exact fun same => apart (Option.some.inj same).symm

mutual

theorem Expr.Resolved.rename (swaps : change.Swaps depth nesting other known)
    (pendings : change.Pending pending otherPending) : ∀ {expr : Expr},
    expr.Resolved change.table nesting pending → expr.Lacks change.fresh →
    (expr.rename change depth).Resolved change.table other otherPending
  | .literal _ _, _, _ => trivial
  | .variable _ _, resolved, lacks =>
    ⟨pendings.avoids lacks resolved.1 _, resolved.2 ▸ (swaps.refers lacks).1.symm⟩
  | .assign _ _ _, resolved, lacks =>
    ⟨resolved.1.rename swaps pendings lacks.2, resolved.2 ▸ (swaps.refers lacks.1).1.symm⟩
  | .group _ inner, resolved, lacks =>
    (show inner.Resolved change.table nesting pending from resolved).rename swaps pendings lacks
  | .unary _ _ operand, resolved, lacks =>
    (show operand.Resolved change.table nesting pending from resolved).rename swaps pendings lacks
  | .binary _ _ _ _, resolved, lacks | .logical _ _ _ _, resolved, lacks =>
    ⟨resolved.1.rename swaps pendings lacks.1, resolved.2.rename swaps pendings lacks.2⟩
  | .call _ _ _, resolved, lacks =>
    ⟨resolved.1.rename swaps pendings lacks.1, resolved.2.renameAll swaps pendings lacks.2⟩

theorem Expr.ResolvedAll.renameAll (swaps : change.Swaps depth nesting other known)
    (pendings : change.Pending pending otherPending) : ∀ {values : List Expr},
    Expr.ResolvedAll change.table nesting pending values → Expr.LacksAll change.fresh values →
    Expr.ResolvedAll change.table other otherPending (Expr.renameAll change depth values)
  | [], _, _ => trivial
  | _ :: _, resolved, lacks =>
    ⟨resolved.1.rename swaps pendings lacks.1, resolved.2.renameAll swaps pendings lacks.2⟩

end

mutual

theorem Expr.Resolved.renamed (swaps : change.Swaps depth nesting other known) : ∀ {expr : Expr},
    expr.Resolved change.table nesting pending → expr.Lacks change.fresh →
    expr.Variant known pending (expr.rename change depth)
  | .literal _ _, _, _ => .literal
  | .variable _ _, resolved, lacks =>
    .variable rfl resolved.1 (resolved.2 ▸ (swaps.refers lacks).2)
  | .assign _ _ _, resolved, lacks =>
    .assign rfl (resolved.2 ▸ (swaps.refers lacks.1).2) (resolved.1.renamed swaps lacks.2)
  | .group _ inner, resolved, lacks =>
    .group ((show inner.Resolved change.table nesting pending from resolved).renamed swaps lacks)
  | .unary _ _ operand, resolved, lacks =>
    .unary rfl
      ((show operand.Resolved change.table nesting pending from resolved).renamed swaps lacks)
  | .binary _ _ _ _, resolved, lacks =>
    .binary rfl (resolved.1.renamed swaps lacks.1) (resolved.2.renamed swaps lacks.2)
  | .logical _ _ _ _, resolved, lacks =>
    .logical (resolved.1.renamed swaps lacks.1) (resolved.2.renamed swaps lacks.2)
  | .call _ _ _, resolved, lacks =>
    .call rfl (resolved.1.renamed swaps lacks.1) (resolved.2.renamedAll swaps lacks.2)

theorem Expr.ResolvedAll.renamedAll (swaps : change.Swaps depth nesting other known) :
    ∀ {values : List Expr}, Expr.ResolvedAll change.table nesting pending values →
    Expr.LacksAll change.fresh values →
    List.Forall₂ (Expr.Variant known pending) values (Expr.renameAll change depth values)
  | [], _, _ => .nil
  | _ :: _, resolved, lacks =>
    .cons (resolved.1.renamed swaps lacks.1) (resolved.2.renamedAll swaps lacks.2)

end

section Optional

variable {value : Option Expr} (lacks : ∀ expr ∈ value, expr.Lacks change.fresh)

include lacks

theorem Expr.ResolvedOptional.rename
    (resolved : Expr.ResolvedOptional change.table nesting pending value)
    (swaps : change.Swaps depth nesting other known)
    (pendings : change.Pending pending otherPending) :
    Expr.ResolvedOptional change.table other otherPending
      (value.map (Expr.rename change depth)) := by
  cases value with
  | none => exact nofun
  | some value =>
    rintro _ ⟨⟩
    exact (resolved value rfl).rename swaps pendings (lacks value rfl)

theorem Expr.ResolvedOptional.renamed
    (resolved : Expr.ResolvedOptional change.table nesting pending value)
    (swaps : change.Swaps depth nesting other known) :
    Option.Rel (Expr.Variant known pending) value (value.map (Expr.rename change depth)) := by
  cases value with
  | none => exact .none
  | some value => exact .some ((resolved value rfl).renamed swaps (lacks value rfl))

end Optional

theorem Stmt.rename_isDeclaration (change : Rename) (depth : Nat) (stmt : Stmt) :
    (stmt.rename change depth).isDeclaration = stmt.isDeclaration := by
  cases stmt <;> rfl

theorem Rename.Pending.none : change.Pending none none := .same nofun

theorem Rename.Swaps.block (swaps : change.Swaps depth nesting other known) :
    change.Swaps (depth + 1) ([] :: nesting) ([] :: other) known :=
  .inside List.not_mem_nil swaps

theorem Rename.Swaps.function (swaps : change.Swaps depth nesting other known)
    {parameters : List Ident} (lacks : change.fresh ∉ parameters.map Ident.name) :
    change.Swaps (depth + 1) ((parameters.map Ident.name).reverse :: nesting)
      ((parameters.map Ident.name).reverse :: other)
      (Renaming.ofParameters parameters parameters ++ known) := by
  rw [Renaming.ofParameters_same]
  exact .inside (by simpa using lacks) swaps

mutual

theorem Stmt.Resolved.rename : ∀ {stmt : Stmt} {depth : Nat} {nesting other : Nesting}
    {known : Renaming}, stmt.Resolved change.table nesting → stmt.Lacks change.fresh →
    change.Swaps depth nesting other known →
    (stmt.rename change depth).Resolved change.table other
  | .var name initial, _, _, _, _, resolved, lacks, swaps => by
    obtain ⟨here, there⟩ := swaps.pending_eq name.name
    have declared := swaps.declare lacks.1 resolved.1
    refine ⟨swaps.admits lacks.1 resolved.1, resolved.2.rename lacks.2 declared ?_⟩
    rw [here, there]
    exact .same fun same => lacks.1 (Option.some.inj same)
  | .function _ _ body, _, _, _, _, resolved, lacks, swaps =>
    have inside := (swaps.declare lacks.1 resolved.1).function lacks.2.1
    ⟨swaps.admits lacks.1 resolved.1, resolved.2.1, resolved.2.2.renameAll lacks.2.2 inside⟩
  | .expression value, _, nesting, _, _, resolved, lacks, swaps =>
    (show value.Resolved change.table nesting none from resolved).rename swaps .none lacks
  | .print value, _, nesting, _, _, resolved, lacks, swaps =>
    (show value.Resolved change.table nesting none from resolved).rename swaps .none lacks
  | .block body, _, nesting, _, _, resolved, lacks, swaps =>
    (show Stmt.ResolvedAll change.table ([] :: nesting) body from resolved).renameAll lacks
      swaps.block
  | .ifThen _ yes, _, _, _, _, resolved, lacks, swaps =>
    ⟨resolved.1.rename swaps .none lacks.1, (yes.rename_isDeclaration change _).trans resolved.2.1,
      resolved.2.2.rename lacks.2 swaps⟩
  | .ifElse _ yes no, _, _, _, _, resolved, lacks, swaps =>
    ⟨resolved.1.rename swaps .none lacks.1,
      ⟨(yes.rename_isDeclaration change _).trans resolved.2.1.1,
        resolved.2.1.2.rename lacks.2.1 swaps⟩,
      (no.rename_isDeclaration change _).trans resolved.2.2.1,
      resolved.2.2.2.rename lacks.2.2 swaps⟩
  | .loop _ body, _, _, _, _, resolved, lacks, swaps =>
    ⟨resolved.1.rename swaps .none lacks.1, (body.rename_isDeclaration change _).trans resolved.2.1,
      resolved.2.2.rename lacks.2 swaps⟩
  | .return _ value, _, nesting, _, _, resolved, lacks, swaps =>
    (show Expr.ResolvedOptional change.table nesting none value from resolved).rename lacks swaps
      .none

theorem Stmt.ResolvedAll.renameAll : ∀ {body : List Stmt} {depth : Nat} {nesting other : Nesting}
    {known : Renaming}, Stmt.ResolvedAll change.table nesting body →
    Stmt.LacksAll change.fresh body → change.Swaps depth nesting other known →
    Stmt.ResolvedAll change.table other (Stmt.renameAll change depth body)
  | [], _, _, _, _, _, _, _ => trivial
  | _ :: _, _, _, _, _, resolved, lacks, swaps =>
    ⟨resolved.1.rename lacks.1 swaps,
      resolved.2.renameAll lacks.2 (swaps.after lacks.1 resolved.1.admitted)⟩

end

mutual

theorem Stmt.Resolved.renamed : ∀ {stmt : Stmt} {depth : Nat} {nesting other : Nesting}
    {known : Renaming}, stmt.isDeclaration = false → stmt.Resolved change.table nesting →
    stmt.Lacks change.fresh → change.Swaps depth nesting other known →
    Stmt.Variant False (some known) stmt (stmt.rename change depth)
  | .expression value, _, nesting, _, _, _, resolved, lacks, swaps =>
    .expression
      ((show value.Resolved change.table nesting none from resolved).renamed swaps lacks)
  | .print value, _, nesting, _, _, _, resolved, lacks, swaps =>
    .print ((show value.Resolved change.table nesting none from resolved).renamed swaps lacks)
  | .block body, _, nesting, _, _, _, resolved, lacks, swaps =>
    .block ((show Stmt.ResolvedAll change.table ([] :: nesting) body from resolved).renamedAll lacks
      swaps.block)
  | .ifThen _ _, _, _, _, _, _, resolved, lacks, swaps =>
    .ifThen (resolved.1.renamed swaps lacks.1)
      (.bare (resolved.2.2.renamed resolved.2.1 lacks.2 swaps))
  | .ifElse _ _ _, _, _, _, _, _, resolved, lacks, swaps =>
    .ifElse (resolved.1.renamed swaps lacks.1)
      (.bare (resolved.2.1.2.renamed resolved.2.1.1 lacks.2.1 swaps))
      (.bare (resolved.2.2.2.renamed resolved.2.2.1 lacks.2.2 swaps))
  | .loop _ _, _, _, _, _, _, resolved, lacks, swaps =>
    .loop (resolved.1.renamed swaps lacks.1)
      (.bare (resolved.2.2.renamed resolved.2.1 lacks.2 swaps))
  | .return _ value, _, nesting, _, _, _, resolved, lacks, swaps =>
    .return ((show Expr.ResolvedOptional change.table nesting none value from resolved).renamed lacks
      swaps)

theorem Stmt.Resolved.following : ∀ {stmt : Stmt} {depth : Nat} {nesting other : Nesting}
    {known : Renaming}, stmt.Resolved change.table nesting → stmt.Lacks change.fresh →
    change.Swaps depth nesting other known →
    Stmt.Following False (some known) (some (known.after stmt)) stmt (stmt.rename change depth)
  | .var name _, _, _, _, _, resolved, lacks, swaps => by
    have initial := resolved.2.renamed lacks.2 (swaps.declare lacks.1 resolved.1)
    rw [(swaps.pending_eq name.name).1] at initial
    exact .var nofun initial
  | .function _ _ body, _, _, _, _, resolved, lacks, swaps =>
    have inside := (swaps.declare lacks.1 resolved.1).function lacks.2.1
    .function rfl (resolved.2.2.renamedAll lacks.2.2 inside)
  | .expression _, _, _, _, _, resolved, lacks, swaps
  | .print _, _, _, _, _, resolved, lacks, swaps
  | .block _, _, _, _, _, resolved, lacks, swaps
  | .ifThen _ _, _, _, _, _, resolved, lacks, swaps
  | .ifElse _ _ _, _, _, _, _, resolved, lacks, swaps
  | .loop _ _, _, _, _, _, resolved, lacks, swaps
  | .return _ _, _, _, _, _, resolved, lacks, swaps =>
    .other (.bare (Stmt.Resolved.renamed rfl resolved lacks swaps))

theorem Stmt.ResolvedAll.renamedAll : ∀ {body : List Stmt} {depth : Nat} {nesting other : Nesting}
    {known : Renaming}, Stmt.ResolvedAll change.table nesting body →
    Stmt.LacksAll change.fresh body → change.Swaps depth nesting other known →
    Stmt.VariantAll False (some known) body (Stmt.renameAll change depth body)
  | [], _, _, _, _, _, _, _ => .nil
  | _ :: _, _, _, _, _, resolved, lacks, swaps =>
    .cons (resolved.1.following lacks.1 swaps)
      (resolved.2.renamedAll lacks.2 (swaps.after lacks.1 resolved.1.admitted))

end

theorem Nesting.afterAll_lacks {fresh : String} {names : List String} (nesting : Nesting)
    (unused : fresh ∉ names) {body : List Stmt} (lacks : Stmt.LacksAll fresh body) :
    ∃ more, Nesting.afterAll (names :: nesting) body = more :: nesting ∧ fresh ∉ more := by
  induction body generalizing names with
  | nil => exact ⟨names, rfl, unused⟩
  | cons first rest ih =>
    cases first with
    | var name initial => exact ih (by simp [Ne.symm lacks.1.1, unused]) lacks.2
    | function name parameters body => exact ih (by simp [Ne.symm lacks.1.1, unused]) lacks.2
    | _ => exact ih unused lacks.2

open Renaming (Around)

namespace Stmt.RenamedVar

variable {body renamed : List Stmt} {names : List String}

/-- In the scope of the variable the new name stands in the place of the old one. -/
theorem resolvedAll (var : RenamedVar change body renamed) (unused : change.fresh ∉ names)
    (lacks : Stmt.LacksAll change.fresh body)
    (resolved : Stmt.ResolvedAll change.table (names :: nesting) body) :
    Stmt.ResolvedAll change.table (names :: nesting) renamed := by
  cases var with
  | @mk front back line initial =>
    obtain ⟨early, here, late⟩ := (Stmt.resolvedAll_append front _).mp resolved
    obtain ⟨lacksFront, lacksHere, lacksBack⟩ := (Stmt.lacksAll_append front _).mp lacks
    obtain ⟨more, gathered, new⟩ := Nesting.afterAll_lacks nesting unused lacksFront
    -- up to the declaration both sides are the same, and from there on the scopes have swapped names
    have swaps : change.Swaps 0 ((change.old :: more) :: nesting) ((change.fresh :: more) :: nesting)
        [(change.old, change.fresh)] :=
      .innermost new nofun
    refine (Stmt.resolvedAll_append front _).mpr ⟨early, ?_⟩
    rw [gathered] at here late ⊢
    refine ⟨⟨?_, here.2.rename lacksHere.2 swaps .renamed⟩, late.renameAll lacksBack swaps⟩
    rintro _ ⟨⟩
    exact new

theorem variantAll (var : RenamedVar change body renamed) (unused : change.fresh ∉ names)
    (lacks : Stmt.LacksAll change.fresh body)
    (resolved : Stmt.ResolvedAll change.table (names :: nesting) body) (same : known.Same) :
    Stmt.VariantAll False (some known) body renamed := by
  cases var with
  | @mk front back line initial =>
    obtain ⟨early, here, late⟩ := (Stmt.resolvedAll_append front _).mp resolved
    obtain ⟨lacksFront, lacksHere, lacksBack⟩ := (Stmt.lacksAll_append front _).mp lacks
    obtain ⟨more, gathered, new⟩ := Nesting.afterAll_lacks nesting unused lacksFront
    rw [gathered] at here late
    refine Stmt.variantAll_behind early.admittedAll (Around.level_inside known names nesting) same
      fun around level same => ?_
    rw [gathered] at level
    cases around with
    | none => cases level.mp rfl
    | some known =>
      have swaps : change.Swaps 0 ((change.old :: more) :: nesting)
          ((change.fresh :: more) :: nesting) ((change.old, change.fresh) :: known) :=
        .innermost new same
      exact .cons (.var nofun (here.2.renamed lacksHere.2 swaps)) (late.renamedAll lacksBack swaps)

end Stmt.RenamedVar

section Parameters

variable {front back : List Ident} {line : Nat}
  (nodup : ((front ++ ⟨change.old, line⟩ :: back).map Ident.name).Nodup)
  (lacks : change.fresh ∉ (front ++ ⟨change.old, line⟩ :: back).map Ident.name)

include nodup lacks

theorem Rename.nodup_parameters :
    ((front ++ ⟨change.fresh, line⟩ :: back).map Ident.name).Nodup := by
  rw [List.map_append, List.map_cons, List.nodup_middle, List.nodup_cons] at nodup ⊢
  refine ⟨fun member => lacks ?_, nodup.2⟩
  rw [List.map_append, List.map_cons]
  rcases List.mem_append.mp member with early | late
  · exact List.mem_append_left _ early
  · exact List.mem_append_right _ (List.mem_cons_of_mem _ late)

theorem Rename.Swaps.parameters (nesting : Nesting) (same : known.Same) :
    change.Swaps 0 (((front ++ ⟨change.old, line⟩ :: back).map Ident.name).reverse :: nesting)
      (((front ++ ⟨change.fresh, line⟩ :: back).map Ident.name).reverse :: nesting)
      (Renaming.ofParameters (front ++ ⟨change.old, line⟩ :: back)
        (front ++ ⟨change.fresh, line⟩ :: back) ++ known) := by
  -- parameters stand in their scope in reverse order
  have scope (name : String) :
      ((front ++ (⟨name, line⟩ : Ident) :: back).map Ident.name).reverse =
        (back.map Ident.name).reverse ++ name :: (front.map Ident.name).reverse := by simp
  rw [List.map_append, List.map_cons] at lacks
  rw [List.map_append, List.map_cons, List.nodup_middle, List.nodup_cons, List.mem_append,
    not_or] at nodup
  rw [List.mem_append, List.mem_cons, not_or, not_or] at lacks
  rw [scope, scope, Renaming.ofParameters_middle, List.append_assoc]
  refine .here ?_ ?_ ?_ ((Renaming.same_same _).append same)
  · exact fun member => nodup.1.2 (List.mem_reverse.mp member)
  · exact fun member => lacks.2.2 (List.mem_reverse.mp member)
  · exact fun member => lacks.1 (List.mem_reverse.mp member)

end Parameters

namespace Stmt.Renamed

variable {stmt renamed : Stmt}

theorem isDeclaration_eq (renames : Renamed change stmt renamed) :
    renamed.isDeclaration = stmt.isDeclaration := by
  cases renames <;> rfl

theorem after_eq (renames : Renamed change stmt renamed) :
    nesting.after renamed = nesting.after stmt := by
  cases renames <;> rfl

theorem resolved (renames : Renamed change stmt renamed) (lacks : stmt.Lacks change.fresh)
    (resolved : stmt.Resolved change.table nesting) : renamed.Resolved change.table nesting := by
  cases renames with
  | @parameter name front back line body =>
    have none : Renaming.Same [] := nofun
    have swaps := Rename.Swaps.parameters resolved.2.1 lacks.2.1 (nesting.declare name.name) none
    exact ⟨resolved.1, Rename.nodup_parameters resolved.2.1 lacks.2.1,
      resolved.2.2.renameAll lacks.2.2 swaps⟩
  | functionVar var =>
    exact ⟨resolved.1, resolved.2.1,
      var.resolvedAll (by simpa using lacks.2.1) lacks.2.2 resolved.2.2⟩
  | blockVar var => exact var.resolvedAll List.not_mem_nil lacks resolved

theorem replaces {around : Around} (renames : Renamed change stmt renamed)
    (lacks : stmt.Lacks change.fresh) (resolved : stmt.Resolved change.table nesting)
    (level : around.Level nesting) (same : around.Same) :
    stmt.Replaces False around nesting renamed := by
  cases renames with
  | @parameter name front back line body =>
    have declared := same.declare name.name
    have swaps := Rename.Swaps.parameters resolved.2.1 lacks.2.1 (nesting.declare name.name) declared
    have bodies := resolved.2.2.renamedAll lacks.2.2 swaps
    exact ⟨nofun, _, .function (by simp) bodies, level.declare _ _ _, declared⟩
  | @functionVar name parameters body other var =>
    have declared := same.declare name.name
    have inside := (Renaming.same_ofParameters parameters).append declared
    have bodies := var.variantAll (by simpa using lacks.2.1) lacks.2.2 resolved.2.2 inside
    exact ⟨nofun, _, .function rfl bodies, level.declare _ _ _, declared⟩
  | blockVar var =>
    have bodies := var.variantAll List.not_mem_nil lacks resolved same
    exact .plainly rfl level same (.bare (.block bodies))

end Stmt.Renamed

/-- The new name does not occur where it gets in. -/
structure Stmt.RenamedFresh (change : Rename) (stmt renamed : Stmt) : Prop where
  renames : Stmt.Renamed change stmt renamed
  lacks : stmt.Lacks change.fresh

section Programs

variable {stmt renamed : Stmt} {front back : List Stmt} {program other : Program}

theorem Stmt.lacks_middle {fresh : String} (lacks : Stmt.LacksAll fresh (front ++ stmt :: back)) :
    stmt.Lacks fresh :=
  ((Stmt.lacksAll_append front (stmt :: back)).mp lacks).2.1

theorem Stmt.Within.fresh (within : Within (Stmt.Renamed change) stmt renamed)
    (lacks : stmt.Lacks change.fresh) : Within (Stmt.RenamedFresh change) stmt renamed := by
  induction within with
  | whole renames => exact .whole ⟨renames, lacks⟩
  | function _ ih => exact .function (ih (Stmt.lacks_middle lacks.2.2))
  | block _ ih => exact .block (ih (Stmt.lacks_middle lacks))
  | ifThen _ ih => exact .ifThen (ih lacks.2)
  | yes _ ih => exact .yes (ih lacks.2.1)
  | no _ ih => exact .no (ih lacks.2.2)
  | loop _ ih => exact .loop (ih lacks.2)

theorem Stmt.Within.resolvedAll_middle (within : Within (Stmt.RenamedFresh change) stmt renamed)
    (there : ∀ {nesting}, stmt.Resolved change.table nesting → renamed.Resolved change.table nesting)
    (resolved : Stmt.ResolvedAll change.table nesting (front ++ stmt :: back)) :
    Stmt.ResolvedAll change.table nesting (front ++ renamed :: back) := by
  obtain ⟨early, here, late⟩ := (Stmt.resolvedAll_append front (stmt :: back)).mp resolved
  rw [← within.after_eq fun fresh => fresh.renames.after_eq] at late
  exact (Stmt.resolvedAll_append front (renamed :: back)).mpr ⟨early, there here, late⟩

/-- With the same distances, what is around the place is resolved as before. -/
theorem Stmt.Within.resolved (within : Within (Stmt.RenamedFresh change) stmt renamed)
    {nesting : Nesting} (resolved : stmt.Resolved change.table nesting) :
    renamed.Resolved change.table nesting := by
  have declares {stmt renamed : Stmt} (within : Within (Stmt.RenamedFresh change) stmt renamed) :=
    within.isDeclaration_eq fun fresh => fresh.renames.isDeclaration_eq
  induction within generalizing nesting with
  | whole fresh => exact fresh.renames.resolved fresh.lacks resolved
  | function inside ih =>
    exact ⟨resolved.1, resolved.2.1, inside.resolvedAll_middle ih resolved.2.2⟩
  | block inside ih => exact inside.resolvedAll_middle ih resolved
  | ifThen inside ih | loop inside ih =>
    exact ⟨resolved.1, (declares inside).trans resolved.2.1, ih resolved.2.2⟩
  | yes inside ih =>
    exact ⟨resolved.1, ⟨(declares inside).trans resolved.2.1.1, ih resolved.2.1.2⟩, resolved.2.2⟩
  | no inside ih =>
    exact ⟨resolved.1, resolved.2.1, (declares inside).trans resolved.2.2.1, ih resolved.2.2.2⟩

variable (renames : Stmt.WithinAll (Stmt.Renamed change) program other)
  (lacks : Stmt.LacksAll change.fresh program)
  (resolved : Stmt.ResolvedAll change.table [] program)

include renames lacks resolved

theorem resolvedAll_renamed : Stmt.ResolvedAll change.table [] other := by
  obtain ⟨front, stmt, renamed, back, rfl, rfl, within⟩ := renames
  have fresh := within.fresh (Stmt.lacks_middle lacks)
  exact fresh.resolvedAll_middle fresh.resolved resolved

theorem variantAll_renamed : Stmt.VariantAll False none program other := by
  obtain ⟨front, stmt, renamed, back, rfl, rfl, within⟩ := renames
  have fresh := within.fresh (Stmt.lacks_middle lacks)
  exact Stmt.WithinAll.variantAll ⟨front, stmt, renamed, back, rfl, rfl, fresh⟩
    (fun fresh => fresh.renames.replaces fresh.lacks) resolved ⟨fun _ => rfl, fun _ => rfl⟩ nofun

/-- The renamed program is accepted if the program is. -/
theorem resolve_renamed (stays : Stmt.StaysAll program) :
    ∃ distances, resolve other = .ok distances :=
  resolve_of_admitted (resolvedAll_renamed renames lacks resolved).admittedAll
    ((variantAll_renamed renames lacks resolved).stays stays)

end Programs
end Renamed
end LoxLang

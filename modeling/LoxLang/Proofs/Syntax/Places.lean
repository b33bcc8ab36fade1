import LoxLang.Proofs.Syntax.Variants

/-!
One place in a program. Where two programs are the same but for one statement, whatever makes the second
statement a variant of the first makes the second program one of the first program.
-/
namespace LoxLang

/-- The same statement, but that somewhere in it, or as the whole of it, stand two that `here` relates. -/
inductive Stmt.Within (here : Stmt → Stmt → Prop) : Stmt → Stmt → Prop
  | whole {stmt other : Stmt} : here stmt other → Within here stmt other
  | function {name : Ident} {parameters : List Ident} {front back : List Stmt} {stmt other : Stmt} :
    Within here stmt other →
    Within here (.function name parameters (front ++ stmt :: back))
      (.function name parameters (front ++ other :: back))
  | block {front back : List Stmt} {stmt other : Stmt} : Within here stmt other →
    Within here (.block (front ++ stmt :: back)) (.block (front ++ other :: back))
  | ifThen {test : Expr} {yes other : Stmt} : Within here yes other →
    Within here (.ifThen test yes) (.ifThen test other)
  | yes {test : Expr} {yes no other : Stmt} : Within here yes other →
    Within here (.ifElse test yes no) (.ifElse test other no)
  | no {test : Expr} {yes no other : Stmt} : Within here no other →
    Within here (.ifElse test yes no) (.ifElse test yes other)
  | loop {test : Expr} {body other : Stmt} : Within here body other →
    Within here (.loop test body) (.loop test other)

def Stmt.WithinAll (here : Stmt → Stmt → Prop) (body replaced : List Stmt) : Prop :=
  ∃ front stmt other back, body = front ++ stmt :: back ∧ replaced = front ++ other :: back ∧
    Stmt.Within here stmt other

open Renaming (Around)

/-- What stands in the place of a statement is a variant of it, as a branch and in a list. -/
structure Stmt.Replaces (further : Prop) (around : Around) (nesting : Nesting) (stmt other : Stmt) :
    Prop where
  branch : stmt.isDeclaration = false → Stmt.Enclosing further around stmt other
  listed : ∃ after : Around, Stmt.Following further around after stmt other ∧
    after.Level (nesting.after stmt) ∧ after.Same

section Replacing

variable {further : Prop} {around : Around} {nesting : Nesting} {stmt other : Stmt}
  {front back : List Stmt} {here : Stmt → Stmt → Prop} {table : Distances}

theorem Stmt.Replaces.plainly (plain : stmt.isDeclaration = false) (level : around.Level nesting)
    (same : around.Same) (enclosing : Stmt.Enclosing further around stmt other) :
    stmt.Replaces further around nesting other := by
  refine ⟨fun _ => enclosing, around, .other enclosing, ?_, same⟩
  rwa [Nesting.after_of_not_declaration nesting plain]

theorem Stmt.Replaces.variantAll (bodies : Stmt.AdmittedAll nesting (front ++ stmt :: back))
    (level : around.Level nesting) (same : around.Same)
    (replaces : ∀ {around : Around}, around.Level (nesting.afterAll front) → around.Same →
      stmt.Replaces further around (nesting.afterAll front) other) :
    Stmt.VariantAll further around (front ++ stmt :: back) (front ++ other :: back) := by
  obtain ⟨early, _, late⟩ := (Stmt.admittedAll_append front (stmt :: back)).mp bodies
  refine Stmt.variantAll_behind early level same fun around level same => ?_
  obtain ⟨after, follows, levelAfter, sameAfter⟩ := (replaces level same).listed
  exact .cons follows (late.variants levelAfter sameAfter)

theorem Stmt.resolved_middle (resolved : Stmt.ResolvedAll table nesting (front ++ stmt :: back)) :
    stmt.Resolved table (nesting.afterAll front) :=
  ((Stmt.resolvedAll_append front (stmt :: back)).mp resolved).2.1

theorem Stmt.Within.isDeclaration_eq
    (declares : ∀ {stmt other}, here stmt other → other.isDeclaration = stmt.isDeclaration)
    (within : Within here stmt other) : other.isDeclaration = stmt.isDeclaration := by
  cases within with
  | whole holds => exact declares holds
  | _ => rfl

theorem Stmt.Within.after_eq
    (after : ∀ {stmt other nesting}, here stmt other → Nesting.after nesting other = nesting.after stmt)
    (within : Within here stmt other) (nesting : Nesting) :
    nesting.after other = nesting.after stmt := by
  cases within with
  | whole holds => exact after holds
  | _ => rfl

theorem Stmt.Within.replaces (within : Within here stmt other)
    (there : ∀ {stmt other : Stmt} {nesting : Nesting} {around : Around}, here stmt other →
      stmt.Resolved table nesting → around.Level nesting → around.Same →
      stmt.Replaces further around nesting other)
    (resolved : stmt.Resolved table nesting) (level : around.Level nesting) (same : around.Same) :
    stmt.Replaces further around nesting other := by
  induction within generalizing around nesting with
  | whole holds => exact there holds resolved level same
  | @function name parameters front back stmt other _ ih =>
    have declared := same.declare name.name
    have bodies := Stmt.Replaces.variantAll resolved.2.2.admittedAll (Around.level_inside _ _ _)
      ((Renaming.same_ofParameters parameters).append declared)
      (ih (Stmt.resolved_middle resolved.2.2))
    exact ⟨nofun, _, .function rfl bodies, level.declare _ _ _, declared⟩
  | @block front back stmt other _ ih =>
    have inside : Stmt.ResolvedAll table ([] :: nesting) (front ++ stmt :: back) := resolved
    have bodies := Stmt.Replaces.variantAll inside.admittedAll
      (Around.level_inside around.names _ _) same (ih (Stmt.resolved_middle inside))
    exact .plainly rfl level same (.bare (.block bodies))
  | @ifThen test _ _ _ ih =>
    have yes := (ih resolved.2.2 level same).branch resolved.2.1
    exact .plainly rfl level same (.bare (.ifThen (Expr.variant_itself same test) yes))
  | @yes test _ _ _ _ ih =>
    obtain ⟨_, ⟨plain, resolvedYes⟩, plainNo, resolvedNo⟩ := resolved
    have yes := (ih resolvedYes level same).branch plain
    exact .plainly rfl level same (.bare (.ifElse (Expr.variant_itself same test) yes
      (.bare (resolvedNo.admitted.variant plainNo same))))
  | @no test _ _ _ _ ih =>
    obtain ⟨_, ⟨plain, resolvedYes⟩, plainNo, resolvedNo⟩ := resolved
    have no := (ih resolvedNo level same).branch plainNo
    exact .plainly rfl level same (.bare (.ifElse (Expr.variant_itself same test)
      (.bare (resolvedYes.admitted.variant plain same)) no))
  | @loop test _ _ _ ih =>
    have body := (ih resolved.2.2 level same).branch resolved.2.1
    exact .plainly rfl level same (.bare (.loop (Expr.variant_itself same test) body))

theorem Stmt.WithinAll.variantAll {body replaced : List Stmt} (within : WithinAll here body replaced)
    (there : ∀ {stmt other : Stmt} {nesting : Nesting} {around : Around}, here stmt other →
      stmt.Resolved table nesting → around.Level nesting → around.Same →
      stmt.Replaces further around nesting other)
    (resolved : Stmt.ResolvedAll table nesting body) (level : around.Level nesting)
    (same : around.Same) : Stmt.VariantAll further around body replaced := by
  obtain ⟨front, stmt, other, back, rfl, rfl, inside⟩ := within
  exact Stmt.Replaces.variantAll resolved.admittedAll level same
    (inside.replaces there (Stmt.resolved_middle resolved))

end Replacing
end LoxLang

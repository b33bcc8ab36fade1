import LoxLang.Proofs.Scoping.References
import LoxLang.Proofs.Sessions.Variants
import LoxLang.Proofs.Syntax.Places

/-!
Further scopes are harmless. A statement that declares nothing may stand in a block of its own: the
resolver still accepts the program, the references in the statement that are bound outside of it are one
scope further away, and nothing else changes.
-/
namespace LoxLang

/-- A statement that declares nothing, and a block that holds only this statement. -/
inductive Stmt.Enclosed (inner : Stmt) : Stmt → Stmt → Prop
  | mk : inner.isDeclaration = false → Enclosed inner inner (.block [inner])

namespace Stmt.Enclosed

variable {inner stmt other : Stmt} {front back : List Stmt} {nesting : Nesting}
  {table otherTable : Distances}

theorem isDeclaration_eq (enclosed : inner.Enclosed stmt other) :
    other.isDeclaration = stmt.isDeclaration := by
  cases enclosed with
  | mk plain => exact plain.symm

theorem after_eq (enclosed : inner.Enclosed stmt other) :
    nesting.after other = nesting.after stmt := by
  cases enclosed with
  | mk plain => exact (Nesting.after_of_not_declaration nesting plain).symm

theorem replaces {around : Renaming.Around} (enclosed : inner.Enclosed stmt other)
    (resolved : stmt.Resolved table nesting) (level : around.Level nesting) (same : around.Same) :
    stmt.Replaces True around nesting other := by
  cases enclosed with
  | mk plain => exact .plainly plain level same (.block trivial (resolved.admitted.variant plain same))

theorem ids (within : Within inner.Enclosed stmt other) : other.ids = stmt.ids := by
  induction within with
  | whole enclosed =>
    cases enclosed
    simp [Stmt.ids, Stmt.idsAll]
  | function _ ih | block _ ih => simp only [Stmt.ids, Stmt.idsAll_append, Stmt.idsAll, ih]
  | _ _ ih => simp only [Stmt.ids, ih]

theorem admittedAll_middle (within : Within inner.Enclosed stmt other)
    (admitted : ∀ {nesting}, stmt.Admitted nesting → other.Admitted nesting)
    (bodies : Stmt.AdmittedAll nesting (front ++ stmt :: back)) :
    Stmt.AdmittedAll nesting (front ++ other :: back) := by
  rw [Stmt.admittedAll_append, Stmt.AdmittedAll] at bodies ⊢
  rw [within.after_eq after_eq]
  exact ⟨bodies.1, admitted bodies.2.1, bodies.2.2⟩

theorem admitted (within : Within inner.Enclosed stmt other) {nesting : Nesting}
    (admitted : stmt.Admitted nesting) : other.Admitted nesting := by
  have declares {stmt other : Stmt} (within : Within inner.Enclosed stmt other) :=
    within.isDeclaration_eq isDeclaration_eq
  induction within generalizing nesting with
  | whole enclosed =>
    cases enclosed with
    | mk plain =>
      -- only a declaration would depend on the scope that it stands in
      exact ⟨admitted.elsewhere fun declares => absurd (plain.symm.trans declares) (by simp), trivial⟩
  | function inside ih => exact ⟨admitted.1, admitted.2.1, admittedAll_middle inside ih admitted.2.2⟩
  | block inside ih => exact admittedAll_middle inside ih admitted
  | ifThen inside ih => exact ⟨(declares inside).trans admitted.1, ih admitted.2⟩
  | loop inside ih => exact ⟨(declares inside).trans admitted.1, ih admitted.2⟩
  | yes inside ih => exact ⟨⟨(declares inside).trans admitted.1.1, ih admitted.1.2⟩, admitted.2⟩
  | no inside ih => exact ⟨admitted.1, (declares inside).trans admitted.2.1, ih admitted.2.2⟩

theorem middle_resolved (within : Within inner.Enclosed stmt other)
    (resolved : Stmt.ResolvedAll table nesting (front ++ stmt :: back))
    (otherResolved : Stmt.ResolvedAll otherTable nesting (front ++ other :: back)) :
    (Stmt.ResolvedAll table nesting front ∧ Stmt.ResolvedAll otherTable nesting front) ∧
      (stmt.Resolved table (nesting.afterAll front) ∧
        other.Resolved otherTable (nesting.afterAll front)) ∧
      Stmt.ResolvedAll table ((nesting.afterAll front).after stmt) back ∧
        Stmt.ResolvedAll otherTable ((nesting.afterAll front).after stmt) back := by
  obtain ⟨first, here, last⟩ := (Stmt.resolvedAll_append front (stmt :: back)).mp resolved
  obtain ⟨otherFirst, there, otherLast⟩ :=
    (Stmt.resolvedAll_append front (other :: back)).mp otherResolved
  rw [within.after_eq after_eq] at otherLast
  exact ⟨⟨first, otherFirst⟩, ⟨here, there⟩, last, otherLast⟩

theorem inside (within : Within inner.Enclosed stmt other) {nesting : Nesting}
    (resolved : stmt.Resolved table nesting) (otherResolved : other.Resolved otherTable nesting)
    {id depth : Nat} (refers : inner.Refers id depth) :
    otherTable[id]? = table[id]?.map (beyond depth (· + 1)) := by
  induction within generalizing nesting with
  | whole enclosed =>
    obtain ⟨plain⟩ := enclosed
    -- the scope of the block is empty, so every name that comes from outside is found behind it
    have moved : ∀ name, Nesting.distance? ([] :: nesting) name =
        (nesting.distance? name).map (· + 1) := by
      intro name
      rw [Nesting.distance?_cons, if_neg List.not_mem_nil]
    have closed (declares : inner.isDeclaration = true) (_ : ([] : Nesting) = []) :
        nesting = [] ∧ [] :: nesting = [] := absurd (plain.symm.trans declares) (by simp)
    have found := refers.moved moved closed resolved otherResolved.1
    simpa using found
  | function inside ih =>
    obtain ⟨_, ⟨here, there⟩, _⟩ := middle_resolved inside resolved.2.2 otherResolved.2.2
    exact ih here there
  | block inside ih =>
    obtain ⟨_, ⟨here, there⟩, _⟩ := middle_resolved inside resolved otherResolved
    exact ih here there
  | ifThen _ ih | loop _ ih => exact ih resolved.2.2 otherResolved.2.2
  | yes _ ih => exact ih resolved.2.1.2 otherResolved.2.1.2
  | no _ ih => exact ih resolved.2.2.2 otherResolved.2.2.2

theorem outside_middle (within : Within inner.Enclosed stmt other)
    (resolved : Stmt.ResolvedAll table nesting (front ++ stmt :: back))
    (otherResolved : Stmt.ResolvedAll otherTable nesting (front ++ other :: back)) {id depth : Nat}
    (there : stmt.Resolved table (nesting.afterAll front) →
      other.Resolved otherTable (nesting.afterAll front) → stmt.Refers id depth →
      otherTable[id]? = table[id]?)
    (refers : Stmt.RefersIn (front ++ stmt :: back) id depth) : otherTable[id]? = table[id]? := by
  obtain ⟨⟨first, otherFirst⟩, ⟨here, otherHere⟩, last, otherLast⟩ :=
    middle_resolved within resolved otherResolved
  obtain ⟨found, member, refers⟩ := refers
  rcases List.mem_append.mp member with earlier | later
  · exact Stmt.RefersIn.same ⟨found, earlier, refers⟩ first otherFirst
  · rcases List.mem_cons.mp later with rfl | later
    · exact there here otherHere refers
    · exact Stmt.RefersIn.same ⟨found, later, refers⟩ last otherLast

theorem test_same {test : Expr} {nesting : Nesting} {id : Nat} (refers : test.Refers id)
    (resolved : test.Resolved table nesting none) (otherResolved : test.Resolved otherTable nesting none) :
    otherTable[id]? = table[id]? :=
  (Stmt.Refers.expression refers).same resolved otherResolved

theorem outside (within : Within inner.Enclosed stmt other) {nesting : Nesting}
    (resolved : stmt.Resolved table nesting) (otherResolved : other.Resolved otherTable nesting)
    {id depth : Nat} (apart : ∀ depth, ¬inner.Refers id depth) (refers : stmt.Refers id depth) :
    otherTable[id]? = table[id]? := by
  induction within generalizing nesting depth with
  -- What refers in the enclosed statement is not asked about here.
  | whole enclosed =>
    cases enclosed
    exact absurd refers (apart depth)
  | function inside ih =>
    cases refers with
    | function member refers =>
      exact outside_middle inside resolved.2.2 otherResolved.2.2
        (fun here there refers => ih here there refers) ⟨_, member, refers⟩
  | block inside ih =>
    cases refers with
    | block member refers =>
      exact outside_middle inside resolved otherResolved (fun here there refers => ih here there refers)
        ⟨_, member, refers⟩
  | ifThen _ ih =>
    cases refers with
    | test member => exact test_same member resolved.1 otherResolved.1
    | yes refers => exact ih resolved.2.2 otherResolved.2.2 refers
  | yes _ ih =>
    cases refers with
    | choice member => exact test_same member resolved.1 otherResolved.1
    | first refers => exact ih resolved.2.1.2 otherResolved.2.1.2 refers
    | second refers => exact refers.same resolved.2.2.2 otherResolved.2.2.2
  | no _ ih =>
    cases refers with
    | choice member => exact test_same member resolved.1 otherResolved.1
    | first refers => exact refers.same resolved.2.1.2 otherResolved.2.1.2
    | second refers => exact ih resolved.2.2.2 otherResolved.2.2.2 refers
  | loop _ ih =>
    cases refers with
    | condition member => exact test_same member resolved.1 otherResolved.1
    | loop refers => exact ih resolved.2.2 otherResolved.2.2 refers

theorem refersIn_middle {id depth : Nat} (there : other.Refers id depth → ∃ depth, stmt.Refers id depth)
    (refers : Stmt.RefersIn (front ++ other :: back) id depth) :
    ∃ depth, Stmt.RefersIn (front ++ stmt :: back) id depth := by
  obtain ⟨found, member, refers⟩ := refers
  rcases List.mem_append.mp member with earlier | later
  · exact ⟨depth, found, List.mem_append_left _ earlier, refers⟩
  · rcases List.mem_cons.mp later with rfl | later
    · obtain ⟨other, refers⟩ := there refers
      exact ⟨other, stmt, by simp, refers⟩
    · exact ⟨depth, found, by simp [later], refers⟩

theorem refers (within : Within inner.Enclosed stmt other) {id depth : Nat}
    (refers : other.Refers id depth) : ∃ depth, stmt.Refers id depth := by
  induction within generalizing depth with
  | whole enclosed =>
    cases enclosed
    cases refers with
    | block member refers => exact ⟨_, List.mem_singleton.mp member ▸ refers⟩
  | function _ ih =>
    cases refers with
    | function member refers =>
      obtain ⟨further, found, member, refers⟩ := refersIn_middle (fun refers => ih refers) ⟨_, member, refers⟩
      exact ⟨further + 1, .function member refers⟩
  | block _ ih =>
    cases refers with
    | block member refers =>
      obtain ⟨further, found, member, refers⟩ := refersIn_middle (fun refers => ih refers) ⟨_, member, refers⟩
      exact ⟨further + 1, .block member refers⟩
  | ifThen _ ih =>
    cases refers with
    | test member => exact ⟨0, .test member⟩
    | yes refers => exact (ih refers).imp fun _ => .yes
  | yes _ ih =>
    cases refers with
    | choice member => exact ⟨0, .choice member⟩
    | first refers => exact (ih refers).imp fun _ => .first
    | second refers => exact ⟨_, .second refers⟩
  | no _ ih =>
    cases refers with
    | choice member => exact ⟨0, .choice member⟩
    | first refers => exact ⟨_, .first refers⟩
    | second refers => exact (ih refers).imp fun _ => .second
  | loop _ ih =>
    cases refers with
    | condition member => exact ⟨0, .condition member⟩
    | loop refers => exact (ih refers).imp fun _ => .loop

end Stmt.Enclosed

section Programs

variable {inner : Stmt} {program wrapped : Program} {distances : Distances}

/-- Both tables, compared node by node. -/
theorem distances_enclosed (enclosed : Stmt.WithinAll inner.Enclosed program wrapped) {further : Distances}
    (resolved : Stmt.ResolvedAll distances [] program)
    (otherResolved : Stmt.ResolvedAll further [] wrapped)
    (accepted : resolve program = .ok distances) (otherAccepted : resolve wrapped = .ok further)
    (id : Nat) :
    (∀ depth, inner.Refers id depth → further[id]? = distances[id]?.map (beyond depth (· + 1))) ∧
      ((∀ depth, ¬inner.Refers id depth) → further[id]? = distances[id]?) := by
  obtain ⟨front, stmt, other, back, rfl, rfl, inside⟩ := enclosed
  constructor
  · intro depth refers
    obtain ⟨_, ⟨here, there⟩, _⟩ := Stmt.Enclosed.middle_resolved inside resolved otherResolved
    exact Stmt.Enclosed.inside inside here there refers
  · intro apart
    by_cases refers : ∃ depth, Stmt.RefersIn (front ++ stmt :: back) id depth
    · obtain ⟨depth, refers⟩ := refers
      exact Stmt.Enclosed.outside_middle inside resolved otherResolved
        (fun here there refers => Stmt.Enclosed.outside inside here there apart refers) refers
    -- a node that is no reference has no distance on either side
    · have none := resolve_unreferenced accepted fun depth refer => refers ⟨depth, refer⟩
      have noneToo := resolve_unreferenced otherAccepted fun depth refer =>
        refers (Stmt.Enclosed.refersIn_middle (Stmt.Enclosed.refers inside) refer)
      rw [none, noneToo]

theorem idsAll_enclosed (enclosed : Stmt.WithinAll inner.Enclosed program wrapped) :
    Stmt.idsAll wrapped = Stmt.idsAll program := by
  obtain ⟨front, stmt, other, back, rfl, rfl, inside⟩ := enclosed
  simp only [Stmt.idsAll_append, Stmt.idsAll, Stmt.Enclosed.ids inside]

theorem variantAll_enclosed (enclosed : Stmt.WithinAll inner.Enclosed program wrapped)
    (resolved : Stmt.ResolvedAll distances [] program) :
    Stmt.VariantAll True none program wrapped :=
  enclosed.variantAll Stmt.Enclosed.replaces resolved ⟨fun _ => rfl, fun _ => rfl⟩ nofun

/-- The resolver accepts the program with the further scope. -/
theorem resolve_enclosed (enclosed : Stmt.WithinAll inner.Enclosed program wrapped)
    (resolved : Stmt.ResolvedAll distances [] program) (stays : Stmt.StaysAll program) :
    Stmt.RegularAll wrapped ∧ ∃ further, resolve wrapped = .ok further := by
  have staysStill := (variantAll_enclosed enclosed resolved).stays stays
  obtain ⟨front, stmt, other, back, rfl, rfl, inside⟩ := enclosed
  have still := Stmt.Enclosed.admittedAll_middle inside (Stmt.Enclosed.admitted inside)
    resolved.admittedAll
  exact ⟨still.regularAll, resolve_of_admitted still staysStill⟩

end Programs

section Sessions

variable {clock : Nat → Float} {session : Session} {tokens : List Token} {program wrapped : Program}
  {distances : Distances} {inner : Stmt}

/-- In a parsed program that the resolver accepts, a statement that declares nothing may be put into a
block of its own wherever it stands. The resolver accepts that, too; the references in the statement
whose distance leads out of it get a distance that is greater by one, and no other distance changes;
and in a session both programs end in the same way, with the same output, if one of them ends. -/
theorem further_scopes_harmless (reachable : Session.Reachable clock session)
    (parsed : (Grammar.parse session.nextId tokens).program? = some program)
    (accepted : resolve program = .ok distances)
    (enclosed : Stmt.WithinAll inner.Enclosed program wrapped) :
    ∃ further : Distances, resolve wrapped = .ok further ∧
      (∀ id depth distance : Nat, inner.Refers id depth → distances[id]? = some distance →
        further[id]? = some (if depth ≤ distance then distance + 1 else distance)) ∧
      (∀ id : Nat, distances[id]? = none → further[id]? = none) ∧
      (∀ id : Nat, (∀ depth, ¬inner.Refers id depth) → further[id]? = distances[id]?) ∧
      ∀ outcome output, session.Finishes .script program distances outcome output ↔
        session.Finishes .script wrapped further outcome output := by
  have takes := Session.Takes.of_parse parsed accepted
  have resolved : Stmt.ResolvedAll distances [] program :=
    resolve_resolved accepted takes.regular takes.numbered.1 fun _ _ => rfl
  obtain ⟨regular, further, otherAccepted⟩ :=
    resolve_enclosed enclosed resolved (resolve_stays accepted)
  have ids := idsAll_enclosed enclosed
  have otherTakes : session.Takes _ wrapped further :=
    ⟨otherAccepted, regular, ids.symm ▸ takes.numbered, takes.above⟩
  have otherResolved : Stmt.ResolvedAll further [] wrapped :=
    resolve_resolved otherAccepted regular otherTakes.numbered.1 fun _ _ => rfl
  -- Both tables are determined by the scopes, so they can be compared node by node.
  have compare := distances_enclosed enclosed resolved otherResolved accepted otherAccepted
  refine ⟨further, otherAccepted, ?_, ?_, fun id => (compare id).2, ?_⟩
  · intro id depth distance refers found
    rw [(compare id).1 depth refers, found, Option.map_some, beyond]
    split <;> split <;> first | rfl | omega | (congr 1; omega)
  · intro id none
    by_cases refers : ∃ depth, inner.Refers id depth
    · obtain ⟨depth, refers⟩ := refers
      rw [(compare id).1 depth refers, none, Option.map_none]
    · rw [(compare id).2 fun depth refer => refers ⟨depth, refer⟩, none]
  -- At the prompt a lone expression would be shown, and a block is none.
  · have asked : Manner.script ≠ .prompt := by decide
    exact reachable.finishes_of_variant takes otherTakes (absurd · asked) (variantAll_enclosed enclosed resolved)

/-- A return in a closure gets a block of its own, so that its variable is one scope further away. -/
theorem further_scopes_harmless_return :
    ∃ further : Distances,
      resolve [.block [.var ⟨"a", 1⟩ none, .function ⟨"f", 1⟩ []
          [.block [.return 1 (some (.variable ⟨0, 1⟩ "a"))]],
          .print (.call ⟨2, 1⟩ (.variable ⟨1, 1⟩ "f") [])]] = .ok further ∧
        further[0]? = some 2 ∧ further[1]? = some 0 ∧
      ∀ outcome output,
        (Session.fresh fun _ => 0).Finishes .script
          [.block [.var ⟨"a", 1⟩ none, .function ⟨"f", 1⟩ []
            [.return 1 (some (.variable ⟨0, 1⟩ "a"))],
            .print (.call ⟨2, 1⟩ (.variable ⟨1, 1⟩ "f") [])]] {(1, 0), (0, 1)} outcome output ↔
        (Session.fresh fun _ => 0).Finishes .script
          [.block [.var ⟨"a", 1⟩ none, .function ⟨"f", 1⟩ []
            [.block [.return 1 (some (.variable ⟨0, 1⟩ "a"))]],
            .print (.call ⟨2, 1⟩ (.variable ⟨1, 1⟩ "f") [])]] further outcome output := by
  have body : Stmt.Within (Stmt.return 1 (some (.variable ⟨0, 1⟩ "a"))).Enclosed
      (.function ⟨"f", 1⟩ [] ([] ++ .return 1 (some (.variable ⟨0, 1⟩ "a")) :: []))
      (.function ⟨"f", 1⟩ [] ([] ++ .block [.return 1 (some (.variable ⟨0, 1⟩ "a"))] :: [])) :=
    .function (.whole (.mk rfl))
  have block : Stmt.Within (Stmt.return 1 (some (.variable ⟨0, 1⟩ "a"))).Enclosed
      (.block ([.var ⟨"a", 1⟩ none] ++ .function ⟨"f", 1⟩ [] _ ::
        [.print (.call ⟨2, 1⟩ (.variable ⟨1, 1⟩ "f") [])]))
      (.block ([.var ⟨"a", 1⟩ none] ++ .function ⟨"f", 1⟩ [] _ ::
        [.print (.call ⟨2, 1⟩ (.variable ⟨1, 1⟩ "f") [])])) := .block body
  have parsed : (Grammar.parse (Session.fresh fun _ => 0).nextId (Scanned.tokens (scan
      "{ var a; fun f() { return a; } print f(); }"))).program? = some
      [.block [.var ⟨"a", 1⟩ none, .function ⟨"f", 1⟩ []
        [.return 1 (some (.variable ⟨0, 1⟩ "a"))],
        .print (.call ⟨2, 1⟩ (.variable ⟨1, 1⟩ "f") [])]] := by cbv
  have accepted : resolve [.block [.var ⟨"a", 1⟩ none, .function ⟨"f", 1⟩ []
      [.return 1 (some (.variable ⟨0, 1⟩ "a"))],
      .print (.call ⟨2, 1⟩ (.variable ⟨1, 1⟩ "f") [])]] = .ok {(1, 0), (0, 1)} := by cbv
  obtain ⟨further, resolved, within, _, apart, ends⟩ :=
    further_scopes_harmless .fresh parsed accepted ⟨[], _, _, [], rfl, rfl, block⟩
  have outside (depth : Nat) :
      ¬(Stmt.return 1 (some (.variable ⟨0, 1⟩ "a"))).Refers 1 depth := by
    intro refers
    cases refers with
    | «return» refers =>
      obtain ⟨_, member, same⟩ := refers
      obtain rfl := List.mem_singleton.mp member
      cases same
  refine ⟨further, resolved, ?_, (apart 1 outside).trans (by decide +kernel), ends⟩
  exact within 0 0 1 (.return ⟨_, List.mem_cons_self, rfl⟩) (by decide +kernel)

end Sessions
end LoxLang

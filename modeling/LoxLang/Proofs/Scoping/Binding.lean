import Mathlib
import LoxLang.Scan
import LoxLang.Proofs.Syntax.Occurrences
import LoxLang.Proofs.Scoping.References
import LoxLang.Proofs.Grammar.Numbering
import LoxLang.Proofs.Grammar.Regularity

/-!
The table of distances is lexical scoping. Which scope a reference is bound in is said of its place in
the text alone, and the table of an accepted program says just that of every reference, and nothing of
any other node.
-/
namespace LoxLang

/-- The scope has the name at the place that it is seen from. A function can be referred to in its own
body, and a variable be assigned to in its own initializer. -/
inductive Enclosure.Declares (scope : Enclosure) (kind : ReferenceKind) (name : String) : Prop
  | parameter (declared : Ident) : declared ∈ scope.parameters → declared.name = name →
    Declares scope kind name
  | earlier (stmt : Stmt) (declared : Ident) : stmt ∈ scope.before → stmt.introduced? = some declared →
    declared.name = name → Declares scope kind name
  | function (declared : Ident) (parameters : List Ident) (body : List Stmt) :
    scope.here = some (.function declared parameters body) → declared.name = name →
    Declares scope kind name
  | initializer (declared : Ident) (initial : Option Expr) : kind = .assignment →
    scope.here = some (.var declared initial) → declared.name = name → Declares scope kind name

/-- Of the scopes, counted outwards from zero, this is the first that has the name. -/
structure BoundAt (around : List Enclosure) (kind : ReferenceKind) (name : String)
    (distance : Nat) : Prop where
  declares : ∃ scope, around[distance]? = some scope ∧ scope.Declares kind name
  first : ∀ nearer scope, nearer < distance → around[nearer]? = some scope →
    ¬scope.Declares kind name

namespace Enclosure

/-- The name that the statement around the place adds to its own scope. -/
def own? (scope : Enclosure) (kind : ReferenceKind) : Option Ident :=
  match scope.here with
  | some (.function declared _ _) => some declared
  | some (.var declared _) => if kind = .assignment then some declared else none
  | _ => none

def names (scope : Enclosure) (kind : ReferenceKind) : List String :=
  (scope.own? kind).toList.map Ident.name ++ scope.earlier

variable {scope : Enclosure} {kind : ReferenceKind} {name : String}

theorem mem_earlier : name ∈ scope.earlier ↔
    (∃ stmt ∈ scope.before, ∃ declared, stmt.introduced? = some declared ∧ declared.name = name) ∨
      ∃ declared ∈ scope.parameters, declared.name = name := by
  simp only [earlier, List.mem_append, List.mem_map, List.mem_filterMap, List.mem_reverse]
  constructor
  · rintro (⟨declared, ⟨stmt, member, declares⟩, same⟩ | parameter)
    · exact .inl ⟨stmt, member, declared, declares, same⟩
    · exact .inr parameter
  · rintro (⟨stmt, member, declared, declares, same⟩ | parameter)
    · exact .inl ⟨declared, ⟨stmt, member, declares⟩, same⟩
    · exact .inr parameter

theorem own?_eq_some {declared : Ident} : scope.own? kind = some declared ↔
    (∃ parameters body, scope.here = some (.function declared parameters body)) ∨
      kind = .assignment ∧ ∃ initial, scope.here = some (.var declared initial) := by
  unfold own?
  split
  · simp_all
  · split <;> simp_all
  · simp_all

theorem declares_iff : scope.Declares kind name ↔ name ∈ scope.names kind := by
  simp only [names, List.mem_append, List.mem_map, Option.mem_toList, own?_eq_some, mem_earlier]
  constructor
  · intro declares
    cases declares with
    | parameter declared member same => exact .inr (.inr ⟨declared, member, same⟩)
    | earlier stmt declared member declares same =>
      exact .inr (.inl ⟨stmt, member, declared, declares, same⟩)
    | function declared parameters body here same =>
      exact .inl ⟨declared, .inl ⟨parameters, body, here⟩, same⟩
    | initializer declared initial assigned here same =>
      exact .inl ⟨declared, .inr ⟨assigned, initial, here⟩, same⟩
  · rintro (⟨declared, ⟨parameters, body, here⟩ | ⟨assigned, initial, here⟩, same⟩ |
      ⟨stmt, member, declared, declares, same⟩ | ⟨declared, member, same⟩)
    · exact .function declared parameters body here same
    · exact .initializer declared initial assigned here same
    · exact .earlier stmt declared member declares same
    · exact .parameter declared member same

end Enclosure

section Search

variable {around : List Enclosure} {kind : ReferenceKind} {name : String}

/-- The nesting in which a reference of this kind is looked up. -/
def nestingFor (around : List Enclosure) (kind : ReferenceKind) : Nesting :=
  around.map (·.names kind)

theorem boundAt_iff {distance : Nat} :
    BoundAt around kind name distance ↔
      (nestingFor around kind).distance? name = some distance := by
  rw [Nesting.distance?, List.findIdx?_eq_some_iff_getElem]
  simp only [nestingFor, List.getElem_map, List.contains_iff_mem, List.length_map,
    ← Enclosure.declares_iff]
  constructor
  · rintro ⟨⟨scope, found, declares⟩, first⟩
    obtain ⟨short, rfl⟩ := List.getElem?_eq_some_iff.mp found
    exact ⟨short, declares, fun nearer less =>
      first nearer _ less (List.getElem?_eq_getElem (Nat.lt_trans less short))⟩
  · rintro ⟨short, declares, first⟩
    refine ⟨⟨_, List.getElem?_eq_getElem short, declares⟩, fun nearer scope less found => ?_⟩
    obtain ⟨_, rfl⟩ := List.getElem?_eq_some_iff.mp found
    exact first nearer less

theorem unbound_iff :
    (∀ scope ∈ around, ¬scope.Declares kind name) ↔
      (nestingFor around kind).distance? name = none := by
  rw [Nesting.distance?, List.findIdx?_eq_none_iff]
  simp [nestingFor, Enclosure.declares_iff]

end Search

/-- The names of a scope seen from the scopes inside it: a function there has its own name. -/
def Enclosure.known (scope : Enclosure) : List String := scope.names .read

/-- What the scopes have gathered when the innermost one has come to the statement that is here. -/
def nestingOf : List Enclosure → Nesting
  | [] => []
  | scope :: outer => scope.earlier :: outer.map Enclosure.known

/-- The statement is the one here in the innermost scope, or a branch of it; and the scopes further out
are open at a function or a block. -/
structure Stmt.StandsIn (stmt : Stmt) (around : List Enclosure) : Prop where
  innermost : ∀ scope ∈ around.head?, ∃ here, scope.here = some here ∧
    (here = stmt ∨ here.isDeclaration = false ∧ stmt.isDeclaration = false)
  outwards : ∀ scope ∈ around.tail, ∀ declared initial, scope.here ≠ some (.var declared initial)

namespace Stmt.StandsIn

variable {stmt : Stmt} {scope : Enclosure} {around outer : List Enclosure}

theorem outermost (stmt : Stmt) : stmt.StandsIn [] := ⟨nofun, nofun⟩

theorem listed (stmt : Stmt)
    (passed : ∀ scope ∈ around, ∀ declared initial, scope.here ≠ some (.var declared initial)) :
    stmt.StandsIn (scope.inside stmt :: around) :=
  ⟨fun _ same => ⟨stmt, Option.some.inj same ▸ rfl, .inl rfl⟩, passed⟩

theorem branch {yes : Stmt} (stands : stmt.StandsIn around) (plain : stmt.isDeclaration = false)
    (plainYes : yes.isDeclaration = false) : yes.StandsIn around := by
  refine ⟨fun scope member => ?_, stands.outwards⟩
  obtain ⟨here, found, rfl | ⟨plainHere, _⟩⟩ := stands.innermost scope member
  · exact ⟨here, found, .inr ⟨plain, plainYes⟩⟩
  · exact ⟨here, found, .inr ⟨plainHere, plainYes⟩⟩

theorem open_ (stands : stmt.StandsIn around)
    (opens : ∀ declared initial, stmt ≠ .var declared initial) :
    ∀ scope ∈ around, ∀ declared initial, scope.here ≠ some (.var declared initial) := by
  cases around with
  | nil => nofun
  | cons scope outer =>
    intro other member declared initial found
    rcases List.mem_cons.mp member with rfl | further
    · obtain ⟨here, there, rfl | ⟨plain, _⟩⟩ := stands.innermost other rfl
      · rw [there] at found
        exact opens declared initial (Option.some.inj found)
      · rw [there] at found
        rw [Option.some.inj found] at plain
        cases plain
    · exact stands.outwards other further declared initial found

end Stmt.StandsIn

section Nestings

variable {stmt : Stmt} {scope : Enclosure} {around outer : List Enclosure} {kind : ReferenceKind}

theorem Enclosure.names_eq_known (passed : ∀ declared initial, scope.here ≠ some (.var declared initial)) :
    scope.names kind = scope.known := by
  unfold known names own?
  split
  · rfl
  · rename_i found
    exact absurd found (passed _ _)
  · rfl

theorem nestingFor_eq_known
    (passed : ∀ scope ∈ outer, ∀ declared initial, scope.here ≠ some (.var declared initial)) :
    nestingFor outer kind = outer.map Enclosure.known :=
  List.map_congr_left fun scope member => Enclosure.names_eq_known (passed scope member)

theorem Enclosure.names_of_plain {here : Stmt} (found : scope.here = some here)
    (plain : here.isDeclaration = false) : scope.names kind = scope.earlier := by
  have nothing : scope.own? kind = none := by
    rw [own?, found]
    cases here <;> first | rfl | cases plain
  rw [names, nothing]
  rfl

theorem nestingFor_of_plain (stands : stmt.StandsIn around) (plain : stmt.isDeclaration = false) :
    nestingFor around kind = nestingOf around := by
  cases around with
  | nil => rfl
  | cons scope outer =>
    have inner : scope.names kind = scope.earlier := by
      obtain ⟨here, found, rfl | ⟨plainHere, _⟩⟩ := stands.innermost scope rfl
      · exact Enclosure.names_of_plain found plain
      · exact Enclosure.names_of_plain found plainHere
    have further : nestingFor outer kind = outer.map Enclosure.known :=
      nestingFor_eq_known stands.outwards
    exact congrArg₂ List.cons inner further

theorem known_plain (stands : stmt.StandsIn around) (plain : stmt.isDeclaration = false) :
    around.map Enclosure.known = nestingOf around :=
  show nestingFor around .read = nestingOf around from nestingFor_of_plain stands plain

theorem nestingOf_block (stands : stmt.StandsIn around) (plain : stmt.isDeclaration = false) :
    nestingOf (.block :: around) = [] :: nestingOf around :=
  congrArg ([] :: ·) (known_plain stands plain)

theorem StandsIn.here (stands : stmt.StandsIn (scope :: outer))
    (declares : stmt.isDeclaration = true) : scope.here = some stmt := by
  obtain ⟨here, found, rfl | ⟨_, plain⟩⟩ := stands.innermost scope rfl
  · exact found
  · rw [declares] at plain
    cases plain

theorem known_function {declared : Ident} {parameters : List Ident} {body : List Stmt}
    (stands : (Stmt.function declared parameters body).StandsIn around) :
    around.map Enclosure.known = (nestingOf around).declare declared.name := by
  cases around with
  | nil => rfl
  | cons scope outer =>
    have own : scope.known = declared.name :: scope.earlier := by
      rw [Enclosure.known, Enclosure.names, Enclosure.own?, StandsIn.here stands rfl]
      rfl
    exact congrArg (· :: outer.map Enclosure.known) own

theorem nestingOf_function {declared : Ident} {parameters : List Ident} {body : List Stmt}
    (stands : (Stmt.function declared parameters body).StandsIn around) :
    nestingOf (.ofFunction parameters :: around) =
      (parameters.map Ident.name).reverse :: (nestingOf around).declare declared.name :=
  congrArg ((parameters.map Ident.name).reverse :: ·) (known_function stands)

theorem nestingFor_var {declared : Ident} {initial : Option Expr}
    (stands : (Stmt.var declared initial).StandsIn around) :
    nestingFor around .read = nestingOf around ∧
      nestingFor around .assignment = (nestingOf around).declare declared.name := by
  cases around with
  | nil => exact ⟨rfl, rfl⟩
  | cons scope outer =>
    have here := StandsIn.here stands rfl
    have further {kind : ReferenceKind} : nestingFor outer kind = outer.map Enclosure.known :=
      nestingFor_eq_known stands.outwards
    have reads : scope.names .read = scope.earlier := by
      rw [Enclosure.names, Enclosure.own?, here]
      rfl
    have assigns : scope.names .assignment = declared.name :: scope.earlier := by
      rw [Enclosure.names, Enclosure.own?, here]
      rfl
    exact ⟨congrArg₂ List.cons reads further, congrArg₂ List.cons assigns further⟩

theorem nestingOf_behind (first : Stmt) :
    nestingOf (scope.behind first :: around) = (nestingOf (scope :: around)).after first := by
  cases first <;> rfl

end Nestings

/-- The table gives the reference the distance that its place gives it. -/
def Occurrence.Found (table : Distances) (occurrence : Occurrence) : Prop :=
  ∀ reference, occurrence.item = .reference reference →
    table[reference.site.id]? =
      (nestingFor occurrence.around reference.kind).distance? reference.name

section Resolved

variable {table : Distances} {nesting : Nesting} {pending : Option String} {around : List Enclosure}

mutual

theorem Expr.resolved_visited : ∀ (expr : Expr), expr.Resolved table nesting pending →
    ∀ reference ∈ expr.visited, table[reference.site.id]? = nesting.distance? reference.name ∧
      (reference.kind = .read → pending ≠ some reference.name)
  | .literal _ _, _ => nofun
  | .variable _ _, resolved => by
    intro reference member
    obtain rfl := List.mem_singleton.mp member
    exact ⟨resolved.2, fun _ => resolved.1⟩
  | .assign _ _ value, resolved => by
    intro reference member
    rcases List.mem_append.mp member with inside | target
    · exact Expr.resolved_visited value resolved.1 reference inside
    · obtain rfl := List.mem_singleton.mp target
      exact ⟨resolved.2, nofun⟩
  | .group _ inner, resolved => Expr.resolved_visited inner resolved
  | .unary _ _ operand, resolved => Expr.resolved_visited operand resolved
  | .binary _ _ left right, resolved | .logical _ _ left right, resolved => by
    intro reference member
    rcases List.mem_append.mp member with first | second
    · exact Expr.resolved_visited left resolved.1 reference first
    · exact Expr.resolved_visited right resolved.2 reference second
  | .call _ callee arguments, resolved => by
    intro reference member
    rcases List.mem_append.mp member with first | second
    · exact Expr.resolved_visited callee resolved.1 reference first
    · exact Expr.resolved_visitedAll arguments resolved.2 reference second

theorem Expr.resolved_visitedAll : ∀ (values : List Expr),
    Expr.ResolvedAll table nesting pending values →
    ∀ reference ∈ Expr.visitedAll values,
      table[reference.site.id]? = nesting.distance? reference.name ∧
        (reference.kind = .read → pending ≠ some reference.name)
  | [], _ => nofun
  | first :: rest, resolved => by
    intro reference member
    rcases List.mem_append.mp member with ahead | behind
    · exact Expr.resolved_visited first resolved.1 reference ahead
    · exact Expr.resolved_visitedAll rest resolved.2 reference behind

end

theorem Expr.resolved_visitedOptional (value : Option Expr)
    (resolved : Expr.ResolvedOptional table nesting pending value) :
    ∀ reference ∈ Expr.visitedOptional value,
      table[reference.site.id]? = nesting.distance? reference.name ∧
        (reference.kind = .read → pending ≠ some reference.name) := by
  cases value with
  | none => nofun
  | some value => exact value.resolved_visited (resolved value rfl)

theorem Stmt.found_referring {references : List Reference}
    (found : ∀ reference ∈ references,
      table[reference.site.id]? = (nestingFor around reference.kind).distance? reference.name) :
    ∀ occurrence ∈ Stmt.referring around references, occurrence.Found table := by
  intro occurrence member reference same
  obtain ⟨listed, among, rfl⟩ := List.mem_map.mp member
  obtain rfl : listed = reference := Item.reference.inj same
  exact found listed among

theorem Stmt.found_plain {stmt : Stmt} {references : List Reference} (stands : stmt.StandsIn around)
    (plain : stmt.isDeclaration = false)
    (resolved : ∀ reference ∈ references,
      table[reference.site.id]? = (nestingOf around).distance? reference.name ∧
        (reference.kind = .read → none ≠ some reference.name)) :
    ∀ occurrence ∈ Stmt.referring around references, occurrence.Found table := by
  refine Stmt.found_referring fun reference member => ?_
  rw [nestingFor_of_plain stands plain]
  exact (resolved reference member).1

theorem Nesting.distance?_declare_of_ne {name other : String} (nesting : Nesting)
    (apart : name ≠ other) : (nesting.declare name).distance? other = nesting.distance? other := by
  cases nesting with
  | nil => rfl
  | cons names outer =>
    rw [declare, distance?_cons, distance?_cons]
    simp [apart.symm]

theorem Stmt.found_var {declared : Ident} {initial : Option Expr}
    (stands : (Stmt.var declared initial).StandsIn around)
    (resolved : Expr.ResolvedOptional table ((nestingOf around).declare declared.name)
      ((nestingOf around).pending declared.name) initial) :
    ∀ occurrence ∈ Stmt.referring around (Expr.visitedOptional initial), occurrence.Found table := by
  obtain ⟨reads, assigns⟩ := nestingFor_var stands
  refine Stmt.found_referring fun reference member => ?_
  obtain ⟨found, unready⟩ := Expr.resolved_visitedOptional initial resolved reference member
  rw [found]
  cases kind : reference.kind with
  | assignment => rw [assigns]
  | read =>
    rw [reads]
    -- the name itself would have been reported, unless it is global and has no distance anyway
    cases outermost : nestingOf around with
    | nil => rfl
    | cons names outer =>
      have apart : declared.name ≠ reference.name := by
        rw [outermost] at unready
        exact fun same => unready kind (congrArg some same)
      exact Nesting.distance?_declare_of_ne _ apart

theorem Stmt.found_parametersFrom (done parameters : List Ident) :
    ∀ occurrence ∈ Stmt.parametersFrom around done parameters, occurrence.Found table := by
  induction parameters generalizing done with
  | nil => nofun
  | cons first rest ih =>
    intro occurrence member
    rcases List.mem_cons.mp member with rfl | later
    · nofun
    · exact ih (done ++ [first]) occurrence later

mutual

theorem Stmt.resolved_occurrences : ∀ (stmt : Stmt) (around : List Enclosure),
    stmt.StandsIn around → stmt.Resolved table (nestingOf around) →
    ∀ occurrence ∈ stmt.occurrences around, occurrence.Found table
  | .var _ initial, around, stands, resolved => by
    intro occurrence member
    rcases List.mem_cons.mp member with rfl | inside
    · nofun
    · exact Stmt.found_var stands resolved.2 occurrence inside
  -- Name and parameters are declarations, and only the body has references.
  | .function _ parameters body, around, stands, resolved => by
    intro occurrence member
    rcases List.mem_cons.mp member with rfl | inside
    · nofun
    · rcases List.mem_append.mp inside with named | within
      · exact Stmt.found_parametersFrom [] parameters occurrence named
      · exact Stmt.resolved_occurrencesIn body (.ofFunction parameters) around (stands.open_ nofun)
          (nestingOf_function stands ▸ resolved.2.2) occurrence within
  | .expression value, around, stands, resolved | .print value, around, stands, resolved =>
    Stmt.found_plain stands rfl (value.resolved_visited resolved)
  | .block body, around, stands, resolved =>
    Stmt.resolved_occurrencesIn body .block around (stands.open_ nofun)
      (nestingOf_block stands rfl ▸ resolved)
  -- The test stands next to the statement, the branches stand in it.
  | .ifThen test yes, around, stands, resolved => by
    intro occurrence member
    rcases List.mem_append.mp member with tested | inside
    · exact Stmt.found_plain stands rfl (test.resolved_visited resolved.1) occurrence tested
    · exact Stmt.resolved_occurrences yes around (stands.branch rfl resolved.2.1) resolved.2.2
        occurrence inside
  | .ifElse test yes no, around, stands, resolved => by
    intro occurrence member
    rcases List.mem_append.mp member with tested | inside
    · exact Stmt.found_plain stands rfl (test.resolved_visited resolved.1) occurrence tested
    · rcases List.mem_append.mp inside with first | second
      · exact Stmt.resolved_occurrences yes around (stands.branch rfl resolved.2.1.1)
          resolved.2.1.2 occurrence first
      · exact Stmt.resolved_occurrences no around (stands.branch rfl resolved.2.2.1)
          resolved.2.2.2 occurrence second
  | .loop test body, around, stands, resolved => by
    intro occurrence member
    rcases List.mem_append.mp member with tested | inside
    · exact Stmt.found_plain stands rfl (test.resolved_visited resolved.1) occurrence tested
    · exact Stmt.resolved_occurrences body around (stands.branch rfl resolved.2.1) resolved.2.2
        occurrence inside
  | .return _ value, around, stands, resolved => by
    intro occurrence member
    rcases List.mem_cons.mp member with rfl | inside
    · nofun
    · exact Stmt.found_plain stands rfl (Expr.resolved_visitedOptional value resolved) occurrence
        inside

theorem Stmt.resolved_occurrencesIn : ∀ (body : List Stmt) (scope : Enclosure)
    (around : List Enclosure),
    (∀ scope ∈ around, ∀ declared initial, scope.here ≠ some (.var declared initial)) →
    Stmt.ResolvedAll table (nestingOf (scope :: around)) body →
    ∀ occurrence ∈ Stmt.occurrencesIn scope around body, occurrence.Found table
  | [], _, _, _, _ => nofun
  | first :: rest, scope, around, passed, resolved => by
    intro occurrence member
    rcases List.mem_append.mp member with ahead | behind
    · exact Stmt.resolved_occurrences first _ (.listed first passed) resolved.1 occurrence ahead
    · exact Stmt.resolved_occurrencesIn rest (scope.behind first) around passed
        (nestingOf_behind first ▸ resolved.2) occurrence behind

end

end Resolved

/-- The references of an accepted program are found where their places say. -/
theorem Program.found_occurrences {table : Distances} {program : Program}
    (resolved : Stmt.ResolvedAll table [] program) :
    ∀ occurrence ∈ program.occurrences, occurrence.Found table := by
  induction program with
  | nil => nofun
  | cons first rest ih =>
    intro occurrence member
    rw [Program.occurrences_cons] at member
    rcases List.mem_append.mp member with ahead | behind
    · exact Stmt.resolved_occurrences first [] (.outermost first) resolved.1 occurrence ahead
    · exact ih (Nesting.after_outermost first ▸ resolved.2) occurrence behind

section Numbers

theorem Stmt.references_subset {body : List Stmt} {stmt : Stmt} (member : stmt ∈ body) :
    stmt.references ⊆ Stmt.referencesAll body := by
  induction body with
  | nil => cases member
  | cons first rest ih =>
    rcases List.mem_cons.mp member with rfl | later
    · exact List.subset_append_left _ _
    · exact List.Subset.trans (ih later) (List.subset_append_right _ _)

theorem Reference.Among.mono {references others : List Reference} {id : Nat}
    (among : Reference.Among references id) (more : references ⊆ others) :
    Reference.Among others id := by
  obtain ⟨reference, member, same⟩ := among
  exact ⟨reference, more member, same⟩

theorem Stmt.Refers.among {stmt : Stmt} {id depth : Nat} (refers : stmt.Refers id depth) :
    Reference.Among stmt.references id := by
  induction refers with
  | var refers | expression refers | print refers | «return» refers => exact refers
  | function member _ ih | block member _ ih => exact ih.mono (Stmt.references_subset member)
  | test refers | choice refers | condition refers => exact refers.mono (List.subset_append_left _ _)
  | yes _ ih | loop _ ih => exact ih.mono (List.subset_append_right _ _)
  | first _ ih =>
    exact ih.mono (List.Subset.trans (List.subset_append_left _ _) (List.subset_append_right _ _))
  | second _ ih =>
    exact ih.mono (List.Subset.trans (List.subset_append_right _ _) (List.subset_append_right _ _))

mutual

theorem Expr.references_ids : ∀ expr : Expr, (expr.references.map (·.site.id)).Sublist expr.ids
  | .literal _ _ => List.nil_sublist _
  | .variable _ _ => .refl _
  | .assign _ _ value => (Expr.references_ids value).cons_cons _
  | .group _ inner => (Expr.references_ids inner).cons _
  | .unary _ _ operand => (Expr.references_ids operand).cons _
  | .binary _ _ left right | .logical _ _ left right => by
    rw [Expr.references, List.map_append]
    exact ((Expr.references_ids left).append (Expr.references_ids right)).cons _
  | .call _ callee arguments => by
    rw [Expr.references, List.map_append]
    exact ((Expr.references_ids callee).append (Expr.referencesAll_ids arguments)).cons _

theorem Expr.referencesAll_ids : ∀ values : List Expr,
    ((Expr.referencesAll values).map (·.site.id)).Sublist (Expr.idsAll values)
  | [] => .refl _
  | first :: rest => by
    rw [Expr.referencesAll, List.map_append]
    exact (Expr.references_ids first).append (Expr.referencesAll_ids rest)

end

theorem Expr.optionalReferences_ids (value : Option Expr) :
    ((optionalReferences value).map (·.site.id)).Sublist (Expr.idsOptional value) := by
  cases value with
  | none => exact .refl _
  | some value => exact value.references_ids

mutual

theorem Stmt.references_ids : ∀ stmt : Stmt, (stmt.references.map (·.site.id)).Sublist stmt.ids
  | .var _ initial => Expr.optionalReferences_ids initial
  | .function _ _ body | .block body => Stmt.referencesAll_ids body
  | .expression value | .print value => value.references_ids
  | .ifThen test yes => by
    rw [Stmt.references, List.map_append]
    exact test.references_ids.append (Stmt.references_ids yes)
  | .ifElse test yes no => by
    rw [Stmt.references, List.map_append, List.map_append]
    exact test.references_ids.append ((Stmt.references_ids yes).append (Stmt.references_ids no))
  | .loop test body => by
    rw [Stmt.references, List.map_append]
    exact test.references_ids.append (Stmt.references_ids body)
  | .return _ value => Expr.optionalReferences_ids value

theorem Stmt.referencesAll_ids : ∀ body : List Stmt,
    ((Stmt.referencesAll body).map (·.site.id)).Sublist (Stmt.idsAll body)
  | [] => .refl _
  | first :: rest => by
    rw [Stmt.referencesAll, List.map_append]
    exact (Stmt.references_ids first).append (Stmt.referencesAll_ids rest)

end

end Numbers

/-- The table of an accepted program has one entry for each reference that is bound in a scope, and no
other: the number of scopes, counted outwards, up to the first that has the name. -/
theorem resolve_exact {nextId : Nat} {tokens : List Token} {program : Program}
    {distances : Distances} (parsed : (Grammar.parse nextId tokens).program? = some program)
    (accepted : resolve program = .ok distances) :
    distances.keys.Nodup ∧
      (∀ id ∈ distances, ∃ reference ∈ program.references, reference.site.id = id) ∧
      (program.references.map (·.site.id)).Nodup ∧
      (program.occurrences.filterMap Occurrence.reference?).Perm program.references ∧
      ∀ occurrence ∈ program.occurrences, ∀ reference, occurrence.item = .reference reference →
        (∀ distance, distances[reference.site.id]? = some distance ↔
          BoundAt occurrence.around reference.kind reference.name distance) ∧
        (distances[reference.site.id]? = none ↔
          ∀ scope ∈ occurrence.around, ¬scope.Declares reference.kind reference.name) := by
  have whole := Grammar.Parsed.program_eq parsed
  have regular : Stmt.RegularAll program := whole ▸ Grammar.parse_regular nextId tokens
  have nodup : (Stmt.idsAll program).Nodup := whole ▸ (Grammar.parse_numbered nextId tokens).1
  have resolved := resolve_resolved accepted regular nodup fun _ _ => rfl
  refine ⟨Std.TreeMap.nodup_keys, fun id known => ?_, nodup.sublist (Stmt.referencesAll_ids program),
    program.occurrences_references, fun occurrence member reference same => ?_⟩
  -- A node that is no reference gets no distance.
  · by_contra outside
    have unknown : distances[id]? = none := by
      refine resolve_unreferenced accepted fun depth refersIn => outside ?_
      obtain ⟨stmt, member, refers⟩ := refersIn
      exact refers.among.mono (Stmt.references_subset member)
    rw [Std.TreeMap.mem_iff_isSome_getElem?, unknown] at known
    cases known
  · rw [Program.found_occurrences resolved occurrence member reference same]
    exact ⟨fun distance => boundAt_iff.symm, unbound_iff.symm⟩

/-- A variable assigned in its own initializer, a function that is read in its own body beside a
namesake of an outer variable, and a global variable. -/
theorem resolve_exact_nested :
    ∃ program distances,
      (Grammar.parse 0 (Scanned.tokens (scan
        "{ var a = (a = nil); fun f(b) { a = b; { var a = f; print a; } print c; } }"))).program? =
          some program ∧
      resolve program = .ok distances ∧
      distances.toList = [(2, 0), (5, 0), (6, 1), (7, 2), (8, 0)] ∧
      ∀ occurrence ∈ Program.occurrences program, ∀ reference,
        occurrence.item = .reference reference →
        ∀ distance, distances[reference.site.id]? = some distance ↔
          BoundAt occurrence.around reference.kind reference.name distance := by
  have parsed : (Grammar.parse 0 (Scanned.tokens (scan
      "{ var a = (a = nil); fun f(b) { a = b; { var a = f; print a; } print c; } }"))).program? =
        some [.block [
          .var ⟨"a", 1⟩ (some (.group ⟨3, 1⟩ (.assign ⟨2, 1⟩ "a" (.literal ⟨1, 1⟩ .nil)))),
          .function ⟨"f", 1⟩ [⟨"b", 1⟩] [
            .expression (.assign ⟨6, 1⟩ "a" (.variable ⟨5, 1⟩ "b")),
            .block [.var ⟨"a", 1⟩ (some (.variable ⟨7, 1⟩ "f")), .print (.variable ⟨8, 1⟩ "a")],
            .print (.variable ⟨9, 1⟩ "c")]]] := by cbv
  have accepted : resolve [.block [
      .var ⟨"a", 1⟩ (some (.group ⟨3, 1⟩ (.assign ⟨2, 1⟩ "a" (.literal ⟨1, 1⟩ .nil)))),
      .function ⟨"f", 1⟩ [⟨"b", 1⟩] [
        .expression (.assign ⟨6, 1⟩ "a" (.variable ⟨5, 1⟩ "b")),
        .block [.var ⟨"a", 1⟩ (some (.variable ⟨7, 1⟩ "f")), .print (.variable ⟨8, 1⟩ "a")],
        .print (.variable ⟨9, 1⟩ "c")]]] = .ok {(8, 0), (7, 2), (6, 1), (5, 0), (2, 0)} := by cbv
  obtain ⟨_, _, _, _, binding⟩ := resolve_exact parsed accepted
  refine ⟨_, _, parsed, accepted, by decide +kernel, fun occurrence member reference same => ?_⟩
  exact (binding occurrence member reference same).1

end LoxLang

import LoxLang.Proofs.Lexical.Sessions
import LoxLang.Proofs.Lexical.Variation
import LoxLang.Proofs.Sessions.Resolution

/-!
Variants of a program on one session. What earlier sources have left goes together with itself, so a
program and its variant, each with its own distances, start with the same and end in the same way.
-/
namespace LoxLang

/-- The program is accepted, and all of its nodes are new to the session. -/
structure Session.Takes (session : Session) (limit : Nat) (program : Program)
    (distances : Distances) : Prop where
  resolved : resolve program = .ok distances
  regular : Stmt.RegularAll program
  numbered : Numbered session.nextId limit (Stmt.idsAll program)
  above : session.nextId ≤ limit

/-- With some bound the program comes to an end, with this outcome, and that is the output by then. -/
def Session.Finishes (session : Session) (manner : Manner) (program : Program)
    (distances : Distances) (outcome : Outcome) (output : String) : Prop :=
  outcome ≠ .unfinished ∧ ∃ bound after,
    start bound manner program distances session.machine = (outcome, after) ∧ after.output = output

namespace Session

variable {session : Session} {limit : Nat} {program : Program} {distances table : Distances}
  {source : String}

theorem Accepts.takes (accepts : session.Accepts source program distances) :
    session.Takes (session.nextAfter source) program distances :=
  ⟨accepts.resolved, accepts.regular, accepts.numbered, session.nextId_le_nextAfter source⟩

theorem Takes.of_parse {tokens : List Token}
    (parsed : (Grammar.parse session.nextId tokens).program? = some program)
    (resolved : resolve program = .ok distances) :
    session.Takes (Grammar.parse session.nextId tokens).nextId program distances := by
  have whole := Grammar.Parsed.program_eq parsed
  refine ⟨resolved, ?_, ?_, Grammar.parse_nextId_le _ _⟩
  · exact whole ▸ Grammar.parse_regular _ _
  · exact whole ▸ Grammar.parse_numbered _ _

theorem Takes.older (takes : session.Takes limit program distances) :
    Older limit (Stmt.idsAll program) :=
  fun id member => (takes.numbered.2 id member).2

theorem Takes.add_old (takes : session.Takes limit program distances) {id : Nat}
    (old : id < session.nextId) : (table ∪ distances)[id]? = table[id]? := by
  have outside : id ∉ Stmt.idsAll program := fun member =>
    absurd old (Nat.not_lt.mpr (takes.numbered.2 id member).1)
  rw [Distances.getElem?_add, resolve_getElem?_eq_none takes.resolved outside]
  rfl

theorem Takes.resolvedAll (takes : session.Takes limit program distances)
    (below : table.Below session.nextId) : Stmt.ResolvedAll (table ∪ distances) [] program := by
  refine resolve_resolved takes.resolved takes.regular takes.numbered.1 fun id member => ?_
  rw [Distances.getElem?_add, below id (takes.numbered.2 id member).1, Option.or_none]

theorem ends_iff_finishes (accepts : session.Accepts source program distances) {manner : Manner}
    {outcome : Outcome} {output : String} :
    session.Ends manner source outcome output ↔
      session.Finishes manner program distances outcome output := by
  constructor
  · rintro ⟨ended, bound, after, ran, printed⟩
    rw [runAs_of_accepts accepts] at ran
    cases ran
    exact ⟨ended, bound, _, rfl, printed⟩
  · rintro ⟨ended, bound, after, ran, printed⟩
    refine ⟨ended, bound, ⟨after, session.nextAfter source⟩, ?_, printed⟩
    rw [runAs_of_accepts accepts, ran]

end Session

namespace Lexical

variable {pace : Pace} {further : Prop} {program other : Program} {bound twin : Nat}

theorem together_executeProgram (runs : RunsTogether pace further bound twin)
    (variants : Stmt.VariantAll further none program other) :
    Together pace further (fun _ => True) (executeProgram bound program) (executeProgram twin other)
      fun _ _ _ => True :=
  ((together_runAll runs.follows variants .outermost .outermost).weaken (fun _ _ => .outermost)
    fun _ _ _ ends => ends).bind fun _ _ => .pure fun _ _ => trivial

theorem together_show (shown other : Value) :
    Together pace further (fun memory => Akin further memory shown other)
      (match shown with
        | .nil => pure ()
        | result => write result)
      (match other with
        | .nil => pure ()
        | result => write result)
      fun _ _ _ => True := by
  intro memory twinMemory akin values
  cases values with
  | nil => exact .done (.refl memory) akin trivial
  | string text => exact together_write memory twinMemory akin (.string text)
  | number value => exact together_write memory twinMemory akin (.number value)
  | boolean value => exact together_write memory twinMemory akin (.boolean value)
  | callable identity targets =>
    exact together_write memory twinMemory akin (.callable identity targets)

theorem runProgram_eq {manner : Manner}
    (several : ∀ value, manner = .prompt → program ≠ [.expression value]) (bound : Nat) :
    runProgram bound manner program = executeProgram bound program := by
  unfold runProgram
  split
  · exact absurd rfl (several _ rfl)
  · rfl

theorem together_runProgram (runs : RunsTogether pace further bound twin) {manner : Manner}
    (plain : manner = .prompt → ¬further) (variants : Stmt.VariantAll further none program other) :
    Together pace further (fun _ => True) (runProgram bound manner program)
      (runProgram twin manner other) fun _ _ _ => True := by
  by_cases alone : manner = .prompt ∧
      ((∃ value, program = [.expression value]) ∨ ∃ value, other = [.expression value])
  · obtain ⟨rfl, lone⟩ := alone
    -- a variant of an expression statement is one, too, unless it is put in a block
    have both : ∃ value same, program = [.expression value] ∧ other = [.expression same] ∧
        Expr.Variant [] none value same := by
      rcases lone with ⟨value, rfl⟩ | ⟨value, rfl⟩
      · cases variants with
        | cons first rest =>
          cases rest
          cases first with
          | other enclosing =>
            cases enclosing with
            | bare variant =>
              cases variant with
              | expression values => exact ⟨_, _, rfl, rfl, values⟩
            | block allowed _ => exact absurd allowed (plain rfl)
      · cases variants with
        | cons first rest =>
          cases rest
          cases first with
          | other enclosing =>
            cases enclosing with
            | bare variant =>
              cases variant with
              | expression values => exact ⟨_, _, rfl, rfl, values⟩
    obtain ⟨value, same, rfl, rfl, values⟩ := both
    exact ((runs.evals [] [] values).weaken (fun memory _ => surrounds_nil memory)
      fun _ _ _ akin => akin).bind together_show
  · rw [runProgram_eq fun value prompt lone => alone ⟨prompt, .inl ⟨value, lone⟩⟩,
      runProgram_eq fun value prompt lone => alone ⟨prompt, .inr ⟨value, lone⟩⟩]
    exact together_executeProgram runs variants

theorem akin_start {table : Distances} {memory : Memory} (akin : memory.Akin False memory)
    (resolved : Stmt.ResolvedAll table [] program) (bound : Nat) (manner : Manner) :
    (Session.start bound manner program memory).2.Akin False
      (Session.start bound manner program memory).2 := by
  have level : Renaming.Around.Level none [] := ⟨fun _ => rfl, fun _ => rfl⟩
  have variants : Stmt.VariantAll False none program program :=
    resolved.admittedAll.variants level nofun
  have runs : RunsTogether .even False bound bound := runsTogether nofun rfl
  have plain : manner = .prompt → ¬False := fun _ none => none
  have meets := together_runProgram runs plain variants memory memory akin trivial
  unfold Session.start
  revert meets
  generalize runProgram bound manner program memory = result
  intro meets
  cases meets with
  | done keeps agree _ => exact agree
  | stopped agree => exact agree
  | first forth => cases forth
  | second back => cases back

theorem Memory.Akin.imp {wider : Prop} (weaken : further → wider) {memory twin : Memory}
    (akin : memory.Akin further twin) : memory.Akin wider twin := by
  have values {value other : Value} (values : Lexical.Akin further memory value other) :
      Lexical.Akin wider memory value other := by
    refine ValueOver.Alike.imp values fun target other targets => ?_
    cases targets with
    | native builtin => exact .native builtin
    | function name enough surrounds bodies =>
      exact .function name enough surrounds (Stmt.VariantAll.imp weaken bodies)
  have options {value other : Option Value}
      (options : Option.Rel (Lexical.Akin further memory) value other) :
      Option.Rel (Lexical.Akin wider memory) value other := by
    cases options with
    | none => exact .none
    | some akin => exact .some (values akin)
  exact ⟨akin.size, fun location => options (akin.cells location),
    fun name => options (akin.globals name), akin.output, akin.callables, akin.clock, akin.readings⟩

theorem meets_start (scopes : further → pace ≠ .even) (allows : pace.Allows bound twin)
    {manner : Manner} (plain : manner = .prompt → ¬further)
    (variants : Stmt.VariantAll further none program other) {memory : Memory}
    (akin : memory.Akin further memory) :
    ((Session.start bound manner program memory).1 = (Session.start twin manner other memory).1 ∧
        (Session.start bound manner program memory).2.output =
          (Session.start twin manner other memory).2.output) ∨
      (pace = .forth ∧ (Session.start bound manner program memory).1 = .unfinished) ∨
      pace = .back ∧ (Session.start twin manner other memory).1 = .unfinished := by
  have meets := together_runProgram (runsTogether scopes allows) plain variants memory memory akin
    trivial
  unfold Session.start
  revert meets
  generalize runProgram bound manner program memory = result
  generalize runProgram twin manner other memory = same
  intro meets
  cases meets with
  | done keeps agree _ => exact .inl ⟨rfl, agree.output.symm⟩
  | stopped agree => exact .inl ⟨rfl, agree.output.symm⟩
  | first forth => exact .inr (.inl ⟨forth, rfl⟩)
  | second back => exact .inr (.inr ⟨back, rfl⟩)

variable {session : LoxLang.Session} {links : Links} {model : Session} {limit : Nat}
  {distances : Distances}

theorem Alike.begin (alike : Alike links session model)
    (takes : session.Takes limit program distances) :
    World.Agrees (session.machine.distances ∪ distances) limit
      ⟨links, session.machine.addDistances distances, model.memory⟩ := by
  refine alike.agrees.of_same (fun like => like.imp (fun carries => carries)
    fun resolved older => ⟨?_, ?_⟩) rfl ⟨rfl, rfl, rfl, rfl, rfl⟩
    ⟨alike.agrees.output, alike.agrees.callables, alike.agrees.clock, alike.agrees.readings⟩
  · exact resolved.agree fun id member => takes.add_old (older id member)
  · exact fun id member => Nat.lt_of_lt_of_le (older id member) takes.above

/-- A program ends on the machine as it does in the model. -/
theorem Alike.start_eq (alike : Alike links session model)
    (takes : session.Takes limit program distances) (bound : Nat) (manner : Manner) :
    (LoxLang.Session.start bound manner program distances session.machine).1 =
        (Session.start bound manner program model.memory).1 ∧
      (LoxLang.Session.start bound manner program distances session.machine).2.output =
        (Session.start bound manner program model.memory).2.output := by
  have matched := simulates_runProgram bound manner (takes.resolvedAll alike.below) takes.older
    session.machine.current _ (alike.begin takes) ⟨rfl, .outermost alike.outside⟩
  simp only [LoxLang.Session.start, Session.start]
  revert matched
  cases LoxLang.runProgram bound manner program (session.machine.addDistances distances) with
  | done _ machine =>
    cases runProgram bound manner program model.memory with
    | ok _ memory =>
      rintro ⟨_, _, agrees, _⟩
      exact ⟨rfl, agrees.output⟩
    | error _ _ => exact False.elim
  | stopped _ machine =>
    cases runProgram bound manner program model.memory with
    | ok _ _ => exact False.elim
    | error _ memory =>
      rintro ⟨same, _, _, agrees⟩
      exact ⟨congrArg Outcome.ofStop same, agrees.output⟩

/-- Every session has a model whose memory goes together with itself. -/
theorem reachable_model {clock : Nat → Float} (reachable : LoxLang.Session.Reachable clock session) :
    ∃ links model, Alike links session model ∧ model.memory.Akin False model.memory := by
  induction reachable with
  | fresh =>
    refine ⟨[], _, alike_fresh clock, rfl, fun location => ?_, fun name => ?_, rfl, rfl, rfl, rfl⟩
    · exact .none
    · change Option.Rel _ (Std.TreeMap.insert ∅ "clock" _)[name]?
        (Std.TreeMap.insert ∅ "clock" (ValueOver.callable 0 (.native ⟨"clock", 0, .clock⟩)))[name]?
      rw [Std.TreeMap.getElem?_insert, Std.TreeMap.getElem?_emptyc]
      split
      · exact .some (.callable 0 (.native _))
      · exact .none
  | @next session bound manner source _ ih =>
    obtain ⟨links, model, alike, akin⟩ := ih
    obtain ⟨_, more, further⟩ := alike.runAs bound manner source
    refine ⟨more, _, further, ?_⟩
    rw [Session.runAs_eq alike.nextId]
    cases verdict : session.verdict source with
    -- what is turned down leaves the memory as it is
    | error faults => exact akin
    | ok distances =>
      have accepts := LoxLang.Session.accepts_of_verdict verdict
      exact akin_start akin (accepts.resolvedAll alike.below) bound manner

end Lexical

section Finishing

variable {clock : Nat → Float} {session : Session} {program other : Program} {limit otherLimit : Nat}
  {distances otherDistances : Distances} {manner : Manner} {further : Prop}

/-- A program and its variant come to the same end. -/
theorem Session.Reachable.finishes_of_variant (reachable : Session.Reachable clock session)
    (takes : session.Takes limit program distances)
    (otherTakes : session.Takes otherLimit other otherDistances)
    (plain : manner = .prompt → ¬further)
    (variants : Stmt.VariantAll further none program other) (outcome : Outcome) (output : String) :
    session.Finishes manner program distances outcome output ↔
      session.Finishes manner other otherDistances outcome output := by
  obtain ⟨links, model, alike, itself⟩ := Lexical.reachable_model reachable
  have akin : model.memory.Akin further model.memory := itself.imp nofun
  constructor
  · rintro ⟨ended, bound, after, ran, printed⟩
    obtain ⟨here, text⟩ := alike.start_eq takes bound manner
    -- however many scopes there are further, twice the levels are enough for them
    obtain ⟨there, otherText⟩ := alike.start_eq otherTakes (2 * bound) manner
    have allows : Lexical.Pace.Allows .forth bound (2 * bound) := Nat.le_refl _
    have scopes : further → Lexical.Pace.forth ≠ .even := fun _ => nofun
    rw [ran] at here text
    rcases Lexical.meets_start scopes allows plain variants akin with
      ⟨outcomes, outputs⟩ | ⟨_, never⟩ | ⟨wrong, _⟩
    · refine ⟨ended, 2 * bound, _, Prod.ext ?_ rfl, ?_⟩
      · exact there.trans (outcomes.symm.trans here.symm)
      · exact otherText.trans (outputs.symm.trans (text.symm.trans printed))
    · exact absurd (here.trans never) ended
    · cases wrong
  · rintro ⟨ended, bound, after, ran, printed⟩
    obtain ⟨here, text⟩ := alike.start_eq otherTakes bound manner
    -- without the further scopes the same levels are enough
    obtain ⟨there, otherText⟩ := alike.start_eq takes bound manner
    have allows : Lexical.Pace.Allows .back bound bound := Nat.le_refl _
    have scopes : further → Lexical.Pace.back ≠ .even := fun _ => nofun
    rw [ran] at here text
    rcases Lexical.meets_start scopes allows plain variants akin with
      ⟨outcomes, outputs⟩ | ⟨wrong, _⟩ | ⟨_, never⟩
    · refine ⟨ended, bound, _, Prod.ext ?_ rfl, ?_⟩
      · exact there.trans (outcomes.trans here.symm)
      · exact otherText.trans (outputs.trans (text.symm.trans printed))
    · cases wrong
    · exact absurd (here.trans never) ended

end Finishing
end LoxLang

import LoxLang.Proofs.Evaluation.Moments
import LoxLang.Proofs.Lexical.Refinement

/-!
At every moment of an execution there is a memory that goes together with the machine, and the scopes
around the code that is about to be run are carried by its frames.
-/
namespace LoxLang.Lexical

def Modelled (table : Distances) (limit : Nat) (machine : Machine) (condition : World → Prop) : Prop :=
  ∃ world : World, world.machine = machine ∧ world.Agrees table limit ∧ condition world

def ModelledAt (table : Distances) (limit : Nat) : Moment → Prop
  | .evaluating _ _ expr machine =>
    ∃ (nesting : Nesting) (pending : Option String) (environment : Environment),
      expr.Resolved table nesting pending ∧
      Modelled table limit machine fun world =>
        world.Carries nesting world.machine.current environment
  | .executing _ stmt machine =>
    ∃ (nesting : Nesting) (region : Region) (frame : FrameId),
      stmt.Resolved table nesting ∧ Older limit stmt.ids ∧
      Modelled table limit machine (StandsIn frame nesting region)

variable {table : Distances} {limit bound : Nat} {machine reached : Machine} {nesting : Nesting}
  {region : Region} {frame : FrameId} {environment : Environment} {pending : Option String}

namespace Modelled

variable {here : Option FrameId} {condition : World → Prop} {α β : Type} {exec : LoxLang.Exec α}
  {model : Exec β} {after : α → β → World → Prop}

theorem imp {weaker : World → Prop} (modelled : Modelled table limit machine condition)
    (holds : ∀ world, world.Agrees table limit → condition world → weaker world) :
    Modelled table limit machine weaker := by
  obtain ⟨world, same, agrees, start⟩ := modelled
  exact ⟨world, same, agrees, holds world agrees start⟩

theorem done {value : α} (modelled : Modelled table limit machine condition)
    (simulates : Simulates table limit here condition exec model after)
    (ran : exec machine = .done value reached) :
    Modelled table limit reached fun world => ∃ other, after value other world := by
  obtain ⟨world, rfl, agrees, start⟩ := modelled
  have matched := simulates world agrees start
  rw [ran] at matched
  cases ended : model world.memory with
  | ok other memory =>
    rw [ended] at matched
    obtain ⟨links, _, agree, holds⟩ := matched
    exact ⟨⟨links, reached, memory⟩, rfl, agree, other, holds⟩
  | error stop memory =>
    rw [ended] at matched
    exact False.elim matched

theorem past {before : World → Prop} {value : α} (modelled : Modelled table limit machine condition)
    (simulates : Simulates table limit here before exec model after) (lasting : Lasting here condition)
    (start : ∀ world, condition world → before world) (ran : exec machine = .done value reached) :
    Modelled table limit reached fun world => ∃ other, condition world ∧ after value other world :=
  modelled.done (simulates.keep lasting start) ran

theorem openInside {closure inner : FrameId} {kept : World → Prop} (lasting : Lasting none kept)
    (modelled : Modelled table limit machine fun world =>
      world.Carries nesting closure environment ∧ kept world)
    (opens : LoxLang.openInside closure machine = .done inner reached) :
    Modelled table limit reached fun world =>
      Declares inner [] nesting environment world ∧ kept world := by
  obtain ⟨world, rfl, agrees, carries, holds⟩ := modelled
  cases opens
  exact ⟨world.openFrame closure, rfl, agrees.openFrame closure, .openFrame agrees carries,
    lasting _ _ (extends_openFrame none world closure) holds⟩

theorem enter {names : List String}
    (modelled : Modelled table limit machine (Declares frame names nesting environment)) :
    Modelled table limit { machine with current := frame }
      (StandsIn frame (names :: nesting) (.inside environment)) := by
  obtain ⟨world, rfl, agrees, declares⟩ := modelled
  exact ⟨world.enter frame, rfl, agrees.enter frame, rfl, declares.enter⟩

end Modelled

section Steps

theorem modelled_evaluate {expr : Expr} {value : LoxLang.Value}
    (resolved : expr.Resolved table nesting pending)
    (modelled : Modelled table limit machine fun world =>
      world.Carries nesting world.machine.current environment)
    (ran : LoxLang.evaluate bound expr machine = .done value reached) :
    Modelled table limit reached fun world =>
      ∃ other, world.Carries nesting world.machine.current environment ∧
        Like table limit world value other :=
  modelled.past ((simulates_evaluate_execute bound).1 expr nesting pending environment resolved)
    (lasting_here nesting environment) (fun _ carries => carries) ran

theorem modelled_arguments {callee : Expr} {arguments : List Expr} {value : LoxLang.Value}
    {values : List LoxLang.Value} {called : Machine} (resolved : callee.Resolved table nesting pending)
    (further : Expr.ResolvedAll table nesting pending arguments)
    (modelled : Modelled table limit machine fun world =>
      world.Carries nesting world.machine.current environment)
    (calls : LoxLang.evaluate bound callee machine = .done value called)
    (ready : LoxLang.evaluateAll (LoxLang.evaluate bound) arguments called = .done values reached) :
    Modelled table limit reached fun world => ∃ target others,
      world.Carries nesting world.machine.current environment ∧
        Like table limit world value target ∧ List.Forall₂ (Like table limit world) values others := by
  obtain ⟨world, same, agrees, target, both⟩ := modelled_evaluate resolved modelled calls
  have start : Modelled table limit called fun world =>
      world.Carries nesting world.machine.current environment ∧
        Like table limit world value target := ⟨world, same, agrees, both⟩
  have done := start.past (simulates_evaluateAll (simulates_evaluate_execute bound).1 environment
    arguments further) ((lasting_here nesting environment).and (lasting_like value target))
    (fun _ both => both.1) ready
  exact done.imp fun _ _ ⟨others, kept, likes⟩ => ⟨target, others, kept.1, kept.2, likes⟩

theorem modelled_test {expr : Expr} {value : LoxLang.Value}
    (resolved : expr.Resolved table nesting none)
    (modelled : Modelled table limit machine (StandsIn frame nesting region))
    (ran : LoxLang.evaluate bound expr machine = .done value reached) :
    Modelled table limit reached (StandsIn frame nesting region) := by
  have simulates : Simulates table limit none (StandsIn frame nesting region)
      (LoxLang.evaluate bound expr) (evaluate bound region.environment expr)
      fun value other world => StandsIn frame nesting region world ∧
        Like table limit world value other := (simulates_evaluate_execute bound).1.standing resolved
  exact (modelled.done simulates ran).imp fun _ _ ⟨_, standing, _⟩ => standing

theorem modelled_comesUp {body : List Stmt} {stmt : Stmt}
    (resolved : Stmt.ResolvedAll table nesting body) (older : Older limit (Stmt.idsAll body))
    (modelled : Modelled table limit machine (StandsIn frame nesting region))
    (comesUp : ComesUp (LoxLang.execute bound) body machine stmt reached) :
    ModelledAt table limit (.executing bound stmt reached) := by
  obtain ⟨before, rest, rfl, ran⟩ := comesUp
  rw [Stmt.resolvedAll_append] at resolved
  rw [Stmt.idsAll_append] at older
  have simulates := (simulates_runAll (simulates_evaluate_execute bound).2 frame before region
    resolved.1 older.left).carry (lasting_current frame)
  have start : Modelled table limit machine fun world =>
      world.machine.current = frame ∧ StandsIn frame nesting region world :=
    modelled.imp fun _ _ standing => ⟨standing.1, standing⟩
  obtain ⟨world, same, agrees, other, current, like⟩ := start.done simulates ran
  cases like with
  | next stands =>
    exact ⟨_, _, frame, resolved.2.1, older.right.left, world, same, agrees, current, stands⟩

theorem modelled_rounds {test : Expr} {body : Stmt} {rounds : Nat}
    (resolved : (Stmt.loop test body).Resolved table nesting)
    (older : Older limit (Stmt.loop test body).ids)
    (modelled : Modelled table limit machine (StandsIn frame nesting region))
    (all : Rounds (LoxLang.evaluate bound test) (LoxLang.execute bound body) rounds machine reached) :
    Modelled table limit reached (StandsIn frame nesting region) := by
  induction all with
  | none machine => exact modelled
  | more tested _ ran _ ih =>
    -- the body declares nothing, so that the next round begins where this one did
    have plain := simulates_plain bound frame body nesting region resolved.2.1 resolved.2.2 older.right
    exact ih (((modelled_test resolved.1 modelled tested).past plain lasting_standsIn
      (fun _ standing => standing) ran).imp fun _ _ ⟨_, standing, _⟩ => standing)

theorem modelled_block {body : List Stmt} {opened : Machine} {inner : FrameId} {stmt : Stmt}
    (resolved : Stmt.ResolvedAll table ([] :: nesting) body)
    (older : Older limit (Stmt.idsAll body))
    (modelled : Modelled table limit machine (StandsIn frame nesting region))
    (opens : LoxLang.openInside machine.current machine = .done inner opened)
    (comesUp : ComesUp (LoxLang.execute bound) body { opened with current := inner } stmt reached) :
    ModelledAt table limit (.executing bound stmt reached) := by
  have carried : Modelled table limit machine fun world =>
      world.Carries nesting machine.current region.environment ∧ True := by
    obtain ⟨world, rfl, agrees, _, stands⟩ := modelled
    exact ⟨world, rfl, agrees, stands.carries, trivial⟩
  have inside := (carried.openInside (fun _ _ _ _ => trivial) opens).imp fun _ _ both => both.1
  exact modelled_comesUp resolved older inside.enter comesUp

theorem modelled_called {declaration : Function} {closure inner : FrameId} {identity : Nat}
    {target : Value} {values : List LoxLang.Value} {others : List Value} {opened entered : Machine}
    {stmt : Stmt}
    (modelled : Modelled table limit machine fun world =>
      Like table limit world (.callable identity (.function declaration closure)) target ∧
        List.Forall₂ (Like table limit world) values others)
    (enough : values.length = declaration.parameters.length)
    (opens : LoxLang.openInside closure machine = .done inner opened)
    (binds : LoxLang.bindParameters inner declaration.parameters values opened = .done () entered)
    (comesUp : ComesUp (LoxLang.execute bound) declaration.body { entered with current := inner } stmt
      reached) :
    ModelledAt table limit (.executing bound stmt reached) := by
  obtain ⟨world, rfl, agrees, callee, likes⟩ := modelled
  cases callee with
  | callable _ callee =>
    cases callee with
    | @function _ _ environment nesting carries nodup resolved older =>
      -- the scopes around the body are those of the closure, wherever the call stands
      have carried : Modelled table limit world.machine fun world =>
          world.Carries nesting closure environment ∧
            List.Forall₂ (Like table limit world) values others :=
        ⟨world, rfl, agrees, carries, likes⟩
      have simulates : Simulates table limit (some inner) _ _ _ _ :=
        simulates_bindParameters inner nesting declaration.parameters [] environment values others
          enough nodup fun _ _ => List.not_mem_nil
      obtain ⟨final, same, agree, extended, declares⟩ :=
        (carried.openInside (lasting_likes values others) opens).done simulates binds
      rw [List.append_nil] at declares
      have ready : Modelled table limit entered _ := ⟨final, same, agree, declares⟩
      exact modelled_comesUp resolved older ready.enter comesUp

/-- While its value is made, a local variable has a location without content. -/
theorem modelled_initializer {name : String} (admits : nesting.Admits name)
    (modelled : Modelled table limit machine (StandsIn frame nesting region)) :
    ∃ environment, Modelled table limit machine fun world =>
      world.Carries (nesting.declare name) world.machine.current environment := by
  obtain ⟨world, rfl, agrees, _, stands⟩ := modelled
  cases stands with
  | outermost globals => exact ⟨[], world, rfl, agrees, globals, rfl⟩
  | inside declares =>
    obtain ⟨apart, room, new⟩ := declares.fresh (admits _ rfl)
    exact ⟨_, world.link world.machine.current name, rfl, agrees.link apart room new,
      declares.link.carries⟩

end Steps

/-- Whatever one moment starts is modelled like the moment itself. -/
theorem ModelledAt.starts {moment inner : Moment} (modelled : ModelledAt table limit moment)
    (starts : Starts moment inner) : ModelledAt table limit inner := by
  cases starts with
  | assigned | leftOperand | leftChoice | callee =>
    obtain ⟨nesting, pending, environment, resolved, start⟩ := modelled
    exact ⟨nesting, pending, environment, resolved.1, start⟩
  | grouped | operand => exact modelled
  | rightOperand first | rightChoice first _ =>
    obtain ⟨nesting, pending, environment, resolved, start⟩ := modelled
    exact ⟨nesting, pending, environment, resolved.2,
      (modelled_evaluate resolved.1 start first).imp fun _ _ ⟨_, carries, _⟩ => carries⟩
  | argument calls among ready =>
    obtain ⟨nesting, pending, environment, resolved, start⟩ := modelled
    subst among
    obtain ⟨front, last⟩ := Expr.resolvedAll_append.mp resolved.2
    exact ⟨nesting, pending, environment, last.1,
      (modelled_arguments resolved.1 front start calls ready).imp fun _ _ ⟨_, _, both⟩ => both.1⟩
  -- The memory that the body begins with is the one that the last argument has left.
  | called calls ready enough opens binds comesUp =>
    obtain ⟨nesting, pending, environment, resolved, start⟩ := modelled
    obtain ⟨world, same, agrees, target, others, _, likes⟩ :=
      modelled_arguments resolved.1 resolved.2 start calls ready
    exact modelled_called ⟨world, same, agrees, likes⟩ enough opens binds comesUp
  | initializer =>
    obtain ⟨nesting, region, frame, resolved, _, start⟩ := modelled
    obtain ⟨environment, declared⟩ := modelled_initializer resolved.1 start
    exact ⟨_, _, environment, resolved.2 _ rfl, declared⟩
  | expression | printed =>
    obtain ⟨nesting, region, frame, resolved, _, start⟩ := modelled
    exact ⟨nesting, none, region.environment, resolved,
      start.imp fun _ _ standing => standing.2.carries⟩
  | result =>
    obtain ⟨nesting, region, frame, resolved, _, start⟩ := modelled
    exact ⟨nesting, none, region.environment, resolved _ rfl,
      start.imp fun _ _ standing => standing.2.carries⟩
  | block opens comesUp =>
    obtain ⟨nesting, region, frame, resolved, older, start⟩ := modelled
    exact modelled_block resolved older start opens comesUp
  | testThen | testElse =>
    obtain ⟨nesting, region, frame, resolved, _, start⟩ := modelled
    exact ⟨nesting, none, region.environment, resolved.1,
      start.imp fun _ _ standing => standing.2.carries⟩
  | yesThen tested _ =>
    obtain ⟨nesting, region, frame, resolved, older, start⟩ := modelled
    exact ⟨nesting, region, frame, resolved.2.2, older.right, modelled_test resolved.1 start tested⟩
  | yesElse tested _ =>
    obtain ⟨nesting, region, frame, resolved, older, start⟩ := modelled
    exact ⟨nesting, region, frame, resolved.2.1.2, older.right.left,
      modelled_test resolved.1 start tested⟩
  | noElse tested _ =>
    obtain ⟨nesting, region, frame, resolved, older, start⟩ := modelled
    exact ⟨nesting, region, frame, resolved.2.2.2, older.right.right,
      modelled_test resolved.1 start tested⟩
  | testLoop rounds _ =>
    obtain ⟨nesting, region, frame, resolved, older, start⟩ := modelled
    exact ⟨nesting, none, region.environment, resolved.1,
      (modelled_rounds resolved older start rounds).imp fun _ _ standing => standing.2.carries⟩
  | bodyLoop rounds _ tested _ =>
    obtain ⟨nesting, region, frame, resolved, older, start⟩ := modelled
    exact ⟨nesting, region, frame, resolved.2.2, older.right,
      modelled_test resolved.1 (modelled_rounds resolved older start rounds) tested⟩

theorem ModelledAt.reaches {moment inner : Moment} (modelled : ModelledAt table limit moment)
    (reaches : Reaches moment inner) : ModelledAt table limit inner := by
  induction reaches with
  | refl => exact modelled
  | tail _ starts ih => exact ih.starts starts

end LoxLang.Lexical

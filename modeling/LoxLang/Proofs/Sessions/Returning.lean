import LoxLang.Proofs.Evaluation.Returning
import LoxLang.Proofs.Sessions.Resolution

/-!
A return never leaves the call that it belongs to. Whatever sources have been run before, and wherever
the functions come from that are called, a source that has been accepted does not return itself.
-/
namespace LoxLang

theorem Begins.stays {bound : Nat} {manner : Manner} {program : Program} {machine : Machine}
    {first : Moment} (begins : Begins bound manner program machine first)
    (stays : Stmt.StaysAll program) : first.Stays := by
  cases begins with
  | alone value machine => trivial
  | comesUp _ comesUp =>
    obtain ⟨before, rest, rfl, _⟩ := comesUp
    exact Stmt.staysAll_iff.mp stays _ (by simp)

/-- No statement of an accepted program ends with a return, and neither does the program, on whatever
machine it is run; a return that is come to while it runs gives its value to the innermost call that is
active, and nothing else is done until then; and a call ends with the value of such a return, or with
nil behind the last statement of the body. -/
theorem returns_end_calls {program : Program} {distances : Distances}
    (accepted : resolve program = .ok distances) (bound : Nat) (machine : Machine) :
    (∀ stmt ∈ program, ∀ value after, execute bound stmt machine ≠ .done (.returned value) after) ∧
      (∀ value after, runAll (execute bound) program machine ≠ .done (.returned value) after) ∧
      (∀ manner first inner result after, Begins bound manner program machine first →
        Reaches first inner → inner.Returns result after →
        ∃ call : InnermostCall first inner,
          evaluate (call.depth + 1) (.call call.site call.callee call.arguments) call.caller =
            .done result { after with current := call.caller.current }) ∧
      ∀ declaration closure arguments result final,
        (CallableOver.function declaration closure).run (execute bound) arguments machine =
            .done result final ↔
          (∃ stmt reached inner after,
            CallReaches bound declaration closure arguments machine stmt reached ∧
            ReachesWithin (.executing bound stmt reached) inner ∧ inner.Returns result after ∧
            final = { after with current := machine.current }) ∨
          ∃ last, CallCompletes bound declaration closure arguments machine last ∧ result = .nil ∧
            final = { last with current := machine.current } := by
  have stays := resolve_stays accepted
  refine ⟨fun stmt member => ?_, ?_, ?_, fun _ _ _ _ _ => call_done_iff⟩
  · exact stays_execute bound (Stmt.staysAll_iff.mp stays stmt member) machine
  · exact stays_runAll (fun _ staying => stays_execute bound staying) stays machine
  · intro manner first inner result after begins reaches returns
    have executing : inner.IsExecuting := by
      cases returns
      trivial
    -- A return outside of all calls would have been reported.
    rcases reaches.innermost executing with within | inside
    · exact absurd (within.stays (begins.stays stays)) returns.not_stays
    · obtain ⟨call⟩ := inside
      exact ⟨call, call.gives returns⟩

/-- A return from inside a block in a loop that would never end. -/
theorem returns_end_calls_loop :
    resolve [.function ⟨"f", 1⟩ [] [.loop (.literal ⟨0, 1⟩ (.boolean true))
        (.block [.return 1 (some (.literal ⟨1, 1⟩ (.string "found")))])],
      .print (.call ⟨3, 1⟩ (.variable ⟨2, 1⟩ "f") [])] = .ok ∅ ∧
    ∀ machine : Machine,
      (∀ value after, runAll (execute 9) [.function ⟨"f", 1⟩ [] [.loop (.literal ⟨0, 1⟩ (.boolean true))
          (.block [.return 1 (some (.literal ⟨1, 1⟩ (.string "found")))])],
        .print (.call ⟨3, 1⟩ (.variable ⟨2, 1⟩ "f") [])] machine ≠ .done (.returned value) after) ∧
      ∃ final, (CallableOver.function ⟨⟨"f", 1⟩, [], [.loop (.literal ⟨0, 1⟩ (.boolean true))
          (.block [.return 1 (some (.literal ⟨1, 1⟩ (.string "found")))])]⟩ machine.globals).run
        (execute 9) [] machine = .done (.string "found") final := by
  have accepted : resolve [.function ⟨"f", 1⟩ [] [.loop (.literal ⟨0, 1⟩ (.boolean true))
        (.block [.return 1 (some (.literal ⟨1, 1⟩ (.string "found")))])],
      .print (.call ⟨3, 1⟩ (.variable ⟨2, 1⟩ "f") [])] = .ok ∅ := by cbv
  refine ⟨accepted, fun machine => ?_⟩
  obtain ⟨_, never, _, gives⟩ := returns_end_calls accepted 9 machine
  have inLoop (reached : Machine) : Nests (.executing 9 (.loop (.literal ⟨0, 1⟩ (.boolean true))
      (.block [.return 1 (some (.literal ⟨1, 1⟩ (.string "found")))])) reached)
      (.executing 8 (.block [.return 1 (some (.literal ⟨1, 1⟩ (.string "found")))]) reached) :=
    ⟨.bodyLoop (.none reached) (Nat.succ_pos 7) rfl rfl, trivial, trivial⟩
  have inBlock (reached : Machine) : Nests (.executing 8
      (.block [.return 1 (some (.literal ⟨1, 1⟩ (.string "found")))]) reached)
      (.executing 7 (.return 1 (some (.literal ⟨1, 1⟩ (.string "found"))))
        { (reached.openFrame (some reached.current)).2 with current := reached.store.next }) :=
    ⟨.block rfl ⟨[], [], rfl, rfl⟩, trivial, trivial⟩
  exact ⟨never, _, (gives _ _ _ _ _).mpr (.inl ⟨_, _, _, _, ⟨_, _, ⟨_, rfl, rfl⟩, [], [], rfl, rfl⟩,
    .head (inLoop _) (.head (inBlock _) .refl), .mk rfl, rfl⟩)⟩

end LoxLang

import LoxLang.Proofs.Evaluation.Heaps
import LoxLang.Proofs.Evaluation.Returning
import LoxLang.Proofs.Sessions.Restoration

/-!
The frames of whole sessions. However a machine is worked with from outside, and at every moment in
between, its frames come from the one global frame, its functions from frames that are there, and what
has been opened or bound once is there for good.
-/
namespace LoxLang

/-- Functions that are called from outside, and those that are given to them, are functions of this
machine. -/
def Interaction.Fits (machine : Machine) : Interaction → Prop
  | .call _ target arguments =>
    target.Anchored machine.store ∧ ∀ value ∈ arguments, value.Anchored machine.store
  | _ => True

def Machine.Admits (machine : Machine) : List Interaction → Prop
  | [] => True
  | first :: rest => first.Fits machine ∧ (first.perform machine).Admits rest

/-- The moments that an interaction comes to by itself. -/
inductive Interaction.Begins (machine : Machine) : Interaction → Moment → Prop
  | program {bound program stmt reached} : ComesUp (execute bound) program machine stmt reached →
    Begins machine (.interpret bound program) (.executing bound stmt reached)
  | expression {bound value} :
    Begins machine (.interpretAlone bound (.expression value)) (.evaluating bound none value machine)
  | statement {bound stmt} : (∀ value, stmt ≠ .expression value) →
    Begins machine (.interpretAlone bound stmt) (.executing bound stmt machine)
  | called {bound declaration closure arguments stmt reached} :
    CallReaches bound declaration closure arguments machine stmt reached →
    Begins machine (.call bound (.function declaration closure) arguments)
      (.executing bound stmt reached)

/-- What a machine turns into while an interaction is performed: at the moments that it comes to, from
the beginning of each of them to its end, and from the arguments of a call to the body. A moment begins
with the machine that the one before it has left. -/
inductive Interaction.Passes (interaction : Interaction) (start : Machine) : Machine → Machine → Prop
  | performs : Passes interaction start start (interaction.perform start)
  | begins {opening : Moment} : interaction.Begins start opening →
    Passes interaction start start opening.machine
  | ends {opening : Moment} : interaction.Begins start opening →
    Passes interaction start opening.final (interaction.perform start)
  | runs {opening moment : Moment} : interaction.Begins start opening → Reaches opening moment →
    Passes interaction start moment.machine moment.final
  | descends {opening outer inner : Moment} : interaction.Begins start opening →
    Reaches opening outer → Starts outer inner →
    Passes interaction start outer.machine inner.machine
  | returns {opening outer inner : Moment} : interaction.Begins start opening →
    Reaches opening outer → Starts outer inner → Passes interaction start inner.final outer.final
  | enters {opening bound initializing site callee arguments machine identity} {declaration : Function}
      {closure called values ready stmt reached} : interaction.Begins start opening →
    Reaches opening (.evaluating (bound + 1) initializing (.call site callee arguments) machine) →
    evaluate bound callee machine =
      .done (.callable identity (.function declaration closure)) called →
    evaluateAll (evaluate bound) arguments called = .done values ready →
    values.length = declaration.parameters.length →
    CallReaches bound declaration closure values ready stmt reached →
    Passes interaction start ready reached

def Machine.Passes (start : Machine) (interactions : List Interaction) (earlier later : Machine) : Prop :=
  ∃ before interaction after, interactions = before ++ interaction :: after ∧
    interaction.Passes (start.perform before) earlier later

/-- At some time in the session the one machine is there, and later the other. -/
abbrev Machine.Leads (start : Machine) (interactions : List Interaction) : Machine → Machine → Prop :=
  Relation.ReflTransGen (start.Passes interactions)

/-- Both machines are rooted in the global frame, and the later one has all frames of the earlier one,
each with the same parent, and all names in them. -/
structure Machine.Evolves (globals : FrameId) (earlier later : Machine) : Prop where
  before : earlier.Rooted globals
  after : later.Rooted globals
  grows : earlier.store.Grows later.store

theorem Machine.Evolves.trans {globals : FrameId} {first middle last : Machine}
    (ahead : first.Evolves globals middle) (further : middle.Evolves globals last) :
    first.Evolves globals last :=
  ⟨ahead.before, further.after, ahead.grows.trans further.grows⟩

section Interactions

variable {globals : FrameId} {machine : Machine} {interaction : Interaction} {opening : Moment}

theorem Interaction.rooted (fits : interaction.Fits machine) (rooted : machine.Rooted globals) :
    (interaction.perform machine).Rooted globals := by
  cases interaction with
  | learn distances => exact ⟨rooted.root, rooted.store, rooted.current⟩
  | interpret bound program =>
    exact (upholds_executeProgram (.rooted globals) bound trivial _ machine rooted (.refl _)).machine
  | interpretAlone bound stmt =>
    exact (upholds_executeAlone (.rooted globals) bound trivial _ machine rooted (.refl _)).machine
  | call bound target arguments =>
    have callee : (Law.rooted globals).good machine.store (.callable 0 target) := fits.1
    exact (upholds_callable (upholds_execute _ bound) callee fits.2 machine rooted (.refl _)).machine
  | «show» value => exact ⟨rooted.root, rooted.store, rooted.current⟩

theorem Interaction.grows (interaction : Interaction) (machine : Machine) :
    machine.store.Grows (interaction.perform machine).store := by
  cases interaction with
  | learn distances => exact .refl _
  | interpret bound program => exact (grows_executeProgram bound program machine).store
  | interpretAlone bound stmt => exact (grows_executeAlone bound stmt machine).store
  | call bound target arguments => exact (grows_callDirectly bound target arguments machine).store
  | «show» value => exact .refl _

theorem Interaction.evolves (fits : interaction.Fits machine) (rooted : machine.Rooted globals) :
    machine.Evolves globals (interaction.perform machine) :=
  ⟨rooted, interaction.rooted fits rooted, interaction.grows machine⟩

theorem Machine.Rooted.perform (rooted : machine.Rooted globals) {interactions : List Interaction}
    (admitted : machine.Admits interactions) :
    machine.Evolves globals (machine.perform interactions) := by
  induction interactions generalizing machine with
  | nil => exact ⟨rooted, rooted, .refl _⟩
  | cons first rest ih =>
    have here := first.evolves admitted.1 rooted
    exact here.trans (ih here.after admitted.2)

theorem Machine.admits_append {before rest : List Interaction} :
    machine.Admits (before ++ rest) ↔
      machine.Admits before ∧ (machine.perform before).Admits rest := by
  induction before generalizing machine with
  | nil => exact ⟨fun rest => ⟨trivial, rest⟩, fun both => both.2⟩
  | cons first others ih => exact (and_congr_right fun _ => ih).trans and_assoc.symm

namespace Interaction.Begins

theorem lawful (begins : interaction.Begins machine opening) (fits : interaction.Fits machine)
    (rooted : machine.Rooted globals) : opening.Lawful (.rooted globals) := by
  cases begins with
  | program comesUp => exact lawful_comesUp (.rooted globals) rooted trivial comesUp
  | expression | statement => exact ⟨rooted, trivial⟩
  | @called bound declaration closure arguments stmt reached reaches =>
    obtain ⟨frame, entered, ⟨opened, opens, binds⟩, comesUp⟩ := reaches
    have callee : (Law.rooted globals).good machine.store
        (.callable 0 (.function declaration closure)) := fits.1
    obtain ⟨ready, inside⟩ := lawful_entered (.rooted globals) rooted callee fits.2 opens binds
    have body := (Law.rooted globals).enter ready inside
    exact lawful_comesUp (.rooted globals) body trivial comesUp

theorem ahead (begins : interaction.Begins machine opening) :
    machine.store.Grows opening.machine.store := by
  cases begins with
  | program comesUp => exact grows_comesUp (grows_execute _) comesUp
  | expression | statement => exact .refl _
  | called reaches =>
    obtain ⟨frame, entered, ⟨opened, opens, binds⟩, comesUp⟩ := reaches
    exact grows_entered opens binds comesUp

theorem behind (begins : interaction.Begins machine opening) :
    opening.final.store.Grows (interaction.perform machine).store := by
  cases begins with
  | program comesUp =>
    exact (grows_behind_statement (grows_execute _) comesUp).trans (.behind (fun _ => .pure _) _)
  | expression => exact .behind (fun _ => .pure _) _
  | @statement bound stmt other =>
    cases stmt with
    | expression value => exact (other value rfl).elim
    | _ => exact .behind (fun _ => .pure _) _
  | called reaches =>
    obtain ⟨frame, entered, ⟨opened, opens, binds⟩, comesUp⟩ := reaches
    exact (grows_behind_statement (grows_execute _) comesUp).trans (grows_behind_entered opens binds)

end Interaction.Begins

section Order

variable {start earlier later : Machine} {interactions : List Interaction}

theorem Interaction.Passes.evolves (passes : interaction.Passes start earlier later)
    (fits : interaction.Fits start) (rooted : start.Rooted globals) :
    earlier.Evolves globals later := by
  cases passes with
  | performs => exact interaction.evolves fits rooted
  | begins begins => exact ⟨rooted, (begins.lawful fits rooted).beginning, begins.ahead⟩
  | ends begins =>
    exact ⟨(begins.lawful fits rooted).ending, interaction.rooted fits rooted, begins.behind⟩
  | runs begins reaches =>
    have moment := (begins.lawful fits rooted).reaches reaches
    exact ⟨moment.beginning, moment.ending, Moment.grows _⟩
  -- What a moment starts lies between its beginning and its end.
  | descends begins reaches starts =>
    have outer := (begins.lawful fits rooted).reaches reaches
    exact ⟨outer.beginning, (outer.starts starts).beginning, starts.ahead⟩
  | returns begins reaches starts =>
    have outer := (begins.lawful fits rooted).reaches reaches
    exact ⟨(outer.starts starts).ending, outer.ending, starts.behind⟩
  | enters begins reaches calls passes enough entering =>
    have caller := (begins.lawful fits rooted).reaches reaches
    obtain ⟨frame, entered, ⟨opened, opens, binds⟩, comesUp⟩ := entering
    have body := caller.starts (.called calls passes enough opens binds comesUp)
    exact ⟨(lawful_called caller.1 calls passes).1, body.1, grows_entered opens binds comesUp⟩

theorem Machine.Passes.evolves (passes : start.Passes interactions earlier later)
    (admitted : start.Admits interactions) (rooted : start.Rooted globals) :
    earlier.Evolves globals later := by
  obtain ⟨before, interaction, after, rfl, inside⟩ := passes
  obtain ⟨ahead, fits, _⟩ := Machine.admits_append.mp admitted
  exact inside.evolves fits (rooted.perform ahead).after

theorem Machine.Leads.evolves (leads : start.Leads interactions earlier later)
    (admitted : start.Admits interactions) (rooted : start.Rooted globals)
    (here : earlier.Rooted globals) : earlier.Evolves globals later := by
  induction leads with
  | refl => exact ⟨here, here, .refl _⟩
  | tail _ passes ih => exact ih.trans (passes.evolves admitted rooted)

theorem Machine.leads_perform (start : Machine) (before middle after : List Interaction) :
    start.Leads (before ++ (middle ++ after)) (start.perform before)
      (start.perform (before ++ middle)) := by
  induction middle generalizing before with
  | nil => rw [List.append_nil]
  | cons first rest ih =>
    have here : start.Passes (before ++ (first :: rest ++ after)) (start.perform before)
        (first.perform (start.perform before)) := ⟨before, first, rest ++ after, rfl, .performs⟩
    have further := ih (before ++ [first])
    simp only [List.append_assoc, List.singleton_append] at further
    refine .head here ?_
    rwa [perform, List.foldl_append] at further

theorem Machine.leads_moment {opening moment : Moment} {before after : List Interaction}
    (split : interactions = before ++ interaction :: after)
    (begins : interaction.Begins (start.perform before) opening) (reaches : Reaches opening moment) :
    start.Leads interactions (start.perform before) moment.machine ∧
      start.Leads interactions moment.machine moment.final ∧
      start.Leads interactions moment.final (interaction.perform (start.perform before)) := by
  have inside {first last : Machine} (passes : interaction.Passes (start.perform before) first last) :
      start.Passes interactions first last := ⟨before, interaction, after, split, passes⟩
  refine ⟨?_, .single (inside (.runs begins reaches)), ?_⟩
  · induction reaches with
    | refl => exact .single (inside (.begins begins))
    | tail reaches starts ih => exact .tail ih (inside (.descends begins reaches starts))
  · induction reaches with
    | refl => exact .single (inside (.ends begins))
    | tail reaches starts ih => exact .head (inside (.returns begins reaches starts)) ih

end Order
end Interactions

theorem Machine.rooted_withNatives (clock : Nat → Float) :
    (Machine.withNatives clock).Rooted (Machine.withNatives clock).globals := by
  have only : (Machine.withNatives clock).store.next = 1 := by
    change ((Store.empty.push none).define 0 "clock" _).next = 1
    rw [Store.next_define]
    rfl
  refine ⟨rfl, ⟨Machine.room_withNatives clock, Machine.parent?_withNatives clock, ?_, ?_⟩,
    Machine.room_withNatives clock⟩
  · intro frame there apart
    rw [only] at there
    exact (apart (Nat.lt_one_iff.mp there)).elim
  · intro frame name value found
    rw [Machine.bound?_withNatives] at found
    split at found
    · cases found
      trivial
    · cases found

/-- Every frame of a session but the global one was opened inside an older frame, and the parents that
lead outwards from it end at the global frame; so a search for a name, an assignment and a step to a
frame so many parents away are walks along finitely many frames. Every function that is bound anywhere,
or given by an expression or a return, keeps a frame that is there. This is so between two interactions
and at every moment inside one, however it ends; and from any time in the session to any later one
frames keep their parents, and names stay bound where they are. -/
theorem frames_kept (clock : Nat → Float) {interactions : List Interaction}
    (admitted : (Machine.withNatives clock).Admits interactions) :
    let fresh := Machine.withNatives clock
    (∀ earlier later, fresh.Leads interactions fresh earlier →
      fresh.Leads interactions earlier later → earlier.Evolves fresh.globals later) ∧
    (∀ before interaction after, interactions = before ++ interaction :: after →
      let start := fresh.perform before
      let finish := interaction.perform start
      fresh.Leads interactions fresh start ∧ fresh.Leads interactions start finish ∧
      ∀ opening moment, interaction.Begins start opening → Reaches opening moment →
        fresh.Leads interactions start moment.machine ∧
        fresh.Leads interactions moment.machine moment.final ∧
        fresh.Leads interactions moment.final finish ∧
        ∀ value, moment.Gives value → value.Anchored moment.final.store) ∧
    ∀ machine, fresh.Leads interactions fresh machine → ∀ frame, frame < machine.store.next →
      ∃ chain, machine.store.Walked fresh.globals frame chain := by
  intro fresh
  have root : fresh.Rooted fresh.globals := Machine.rooted_withNatives clock
  -- Every machine of the session comes of the fresh one, and so it is rooted like that.
  have comes {machine : Machine} (leads : fresh.Leads interactions fresh machine) :
      machine.Rooted fresh.globals := (Machine.Leads.evolves leads admitted root root).after
  refine ⟨fun earlier later before after => ?_, ?_, fun machine leads frame there => ?_⟩
  · exact Machine.Leads.evolves after admitted root (comes before)
  · rintro before interaction after rfl start finish
    have begun : fresh.Leads _ fresh start :=
      Machine.leads_perform fresh [] before (interaction :: after)
    have done : fresh.Leads (before ++ interaction :: after) start finish :=
      .single ⟨before, interaction, after, rfl, .performs⟩
    refine ⟨begun, done, fun opening moment begins reaches => ?_⟩
    obtain ⟨ahead, through, behind⟩ := Machine.leads_moment rfl begins reaches
    have fits := (Machine.admits_append.mp admitted).2.1
    -- Rooted machines and code that may run on them are a law, so it holds as far as the execution
    -- reaches.
    have lawful := (begins.lawful fits (comes begun)).reaches reaches
    exact ⟨ahead, through, behind, fun value gives => lawful.gives gives⟩
  · exact (comes leads).store.walked there

/-- A function that was made in a call is called when that call is long over: its frame is opened inside
the one that the call has left. -/
theorem frames_kept_closure :
    let get : Function := ⟨⟨"get", 1⟩, [], [.return 1 (some (.variable ⟨0, 1⟩ "n"))]⟩
    let make : Stmt := .function ⟨"make", 1⟩ [⟨"n", 1⟩]
      [.function get.name get.parameters get.body, .return 1 (some (.variable ⟨1, 1⟩ "get"))]
    let history : List Interaction := [.learn {(0, 1), (1, 0)}, .interpret 9 [make],
      .interpretAlone 9 (.expression (.call ⟨3, 1⟩ (.variable ⟨2, 1⟩ "make")
        [.literal ⟨4, 1⟩ (.string "one")])), .call 9 (.function get 1) []]
    let fresh := Machine.withNatives fun _ => 0
    fresh.Admits history ∧ fresh.Evolves fresh.globals (fresh.perform history) ∧
      ∃ chain, (fresh.perform history).store.Walked fresh.globals 2 chain := by
  intro get make history fresh
  have made : 1 < (fresh.perform (history.take 3)).store.next := by decide +kernel
  have admitted : fresh.Admits history := ⟨trivial, trivial, trivial, ⟨made, nofun⟩, trivial⟩
  obtain ⟨evolves, _, walked⟩ := frames_kept (fun _ => 0) admitted
  have leads : fresh.Leads history fresh (fresh.perform history) :=
    Machine.leads_perform fresh [] history []
  exact ⟨admitted, evolves _ _ .refl leads, walked _ leads 2 (by decide +kernel)⟩

end LoxLang

import Statechart.Proofs.Chart.Remembering
import Statechart.Proofs.Machine.Closure
import Statechart.Proofs.Machine.Mirror

/- Whether the transitions of all active states are looked at.

   Transitions are looked for from the active atomic states upwards. So an active state without an
   active atomic state inside does not hear of events. Entering leaves no such state if parallel
   states have regions and history states lead somewhere, but neither is required of a chart. A
   history state also leads nowhere if its record is empty, which it can become where parents of
   active states have been left. -/
namespace Statechart

namespace MachineM

variable {m m' : Machine} {t : TransitionIndex}

theorem firstEnabled_some {event : Option EventName} {candidates : List TransitionIndex}
    {found : Option TransitionIndex} (offered : t ∈ candidates)
    (meant : m.chart.triggered event t = true) (free : (m.chart.transition t).condition = none)
    (run : firstEnabled event candidates m = .ok found m') : found ≠ none := by
  induction candidates generalizing m with
  | nil => cases offered
  | cons u rest ih =>
    obtain ⟨_,_,got,run⟩ := bind_eq_ok run
    cases got
    split at run
    · obtain ⟨holds,n,search,run⟩ := bind_eq_ok run
      have chart : n.chart = m.chart :=
        congrArg (fun m => m.chart) (Frames.eq_of_ok (P := never) (conditionHolds_frames u) search)
      split at run
      · cases run
        simp
      · rename_i fails
        rcases List.mem_cons.mp offered with rfl | later
        · simp only [conditionHolds, free] at search
          cases search
          exact absurd rfl fails
        · exact ih later (by rw [chart]; exact meant) (by rw [chart]; exact free) run
    · rename_i other
      rcases List.mem_cons.mp offered with rfl | later
      · exact absurd meant other
      · exact ih later meant free run

theorem collectEnabled_some {event : Option EventName} {states : List StateIndex}
    {enabled found : List TransitionIndex} {s : StateIndex}
    (ready : enabled ≠ [] ∨ s ∈ states ∧ t ∈ m.chart.candidates s)
    (meant : m.chart.triggered event t = true) (free : (m.chart.transition t).condition = none)
    (run : collectEnabled event states enabled m = .ok found m') : found ≠ [] := by
  induction states generalizing enabled m with
  | nil =>
    cases run
    exact ready.resolve_right fun nothing => by cases nothing.1
  | cons q rest ih =>
    obtain ⟨_,_,got,run⟩ := bind_eq_ok run
    cases got
    obtain ⟨first,n,search,run⟩ := bind_eq_ok run
    have chart : n.chart = m.chart :=
      congrArg (fun m => m.chart) (Frames.eq_of_ok (P := never) (firstEnabled_frames event _) search)
    have meant' : n.chart.triggered event t = true := by rw [chart]; exact meant
    have free' : (n.chart.transition t).condition = none := by rw [chart]; exact free
    cases first with
    | some u =>
      refine ih (Or.inl ?_) meant' free' run
      split
      · rename_i already
        rintro rfl
        simp at already
      · simp
    | none =>
      refine ih (ready.imp id ?_) meant' free' run
      rintro ⟨hs,offered⟩
      rcases List.mem_cons.mp hs with rfl | later
      · exact absurd rfl (firstEnabled_some offered meant free search)
      · exact ⟨later, by rw [chart]; exact offered⟩

theorem selectTransitions_some {event : Option EventName} {selected : List TransitionIndex}
    {s : StateIndex} (active : s ∈ m.context.configuration) (atomic : m.chart.isAtomic s = true)
    (offered : t ∈ m.chart.candidates s) (meant : m.chart.triggered event t = true)
    (free : (m.chart.transition t).condition = none)
    (run : selectTransitions event m = .ok selected m') : selected ≠ [] := by
  obtain ⟨enabled,k,collected,_⟩ := collectEnabled_ends event _ [] m
  rw [selectTransitions_of_collect collected] at run
  split at run
  · cases run
    intro none
    have member := List.mem_filter.mpr ⟨active, atomic⟩
    exact collectEnabled_some (Or.inr ⟨member, offered⟩) meant free collected
      (Chart.removeConflicts_eq_nil none)
  · cases run

end MachineM

namespace Machine

open MachineM

variable {c : Chart} {m m' n : Machine} {transitions : List TransitionIndex}

/-- The transitions were selected where the machine is. -/
def Chosen (m : Machine) (transitions : List TransitionIndex) : Prop :=
  ∃ n, n.ground = m.ground ∧ Selected n transitions

theorem Chosen.unmixed (chosen : m.Chosen transitions) :
    m.chart.Unmixed m.context.history m.context.configuration transitions := by
  obtain ⟨n,same,enabled,rfl,_⟩ := chosen
  obtain ⟨chart,configuration,history,_⟩ := ground_eq same
  rw [chart, configuration, history]
  exact Chart.removeConflicts_disjoint _ _ _ enabled

theorem passAhead_look (ahead : m.passAhead = some transitions) :
    m.control = .macrostep ∧ ∃ event n, look m = .ok (.transitions event transitions) n ∧
      n.steps < n.options.maxMicrosteps := by
  unfold passAhead at ahead
  split at ahead
  · rename_i control
    split at ahead
    · rename_i event enabled n run
      split at ahead
      · rename_i allowed
        cases ahead
        exact ⟨control, event, n, run, allowed⟩
      · cases ahead
    · cases ahead
  · cases ahead

theorem passAhead_chosen (ahead : m.passAhead = some transitions) : m.Chosen transitions := by
  obtain ⟨-,event,n,run,-⟩ := passAhead_look ahead
  have framed : n.frame = m.frame := (look_same m).of_ok run
  have same : n.frame.ground = m.frame.ground := congrArg ground framed
  refine ⟨n, same, ?_⟩
  cases look_ok run with
  | eventless _ selected => exact selectTransitions_selected selected
  | event _ _ _ selected => exact selectTransitions_selected selected

theorem aheadOn_receive (m : Machine) (input : Input) : m.aheadOn input = [] ∨
    m.control = .waiting ∧ ∃ e n, input = .event e ∧
      receive e m = .ok (m.aheadOn input) n ∧ n.ground = m.ground := by
  unfold aheadOn
  split
  · rename_i e waiting
    cases run : receive e m with
    | error i n => exact Or.inl rfl
    | ok enabled n =>
      have kept := (receiving_outline e { m with steps := 0 }).of_ok (by rw [← receive_eq]; exact run)
      have same : n.outline.ground = { m with steps := 0 }.outline.ground := congrArg ground kept
      exact Or.inr ⟨waiting, e, n, rfl, run, same⟩
  · exact Or.inl rfl

theorem aheadOn_chosen (m : Machine) (input : Input) :
    m.aheadOn input = [] ∨ m.Chosen (m.aheadOn input) := by
  refine (aheadOn_receive m input).imp id ?_
  rintro ⟨-,e,n,-,run,same⟩
  rw [receive_eq] at run
  obtain ⟨_,_,_,selected⟩ := bind_eq_ok run
  exact ⟨n, same, selectTransitions_selected selected⟩

/-- What is taken has been selected, unless it is nothing or the transition by which a machine that has
    not been entered is. -/
theorem takes_origin (takes : Takes m transitions m') :
    transitions = [] ∨ (∃ t, transitions = [t] ∧ m.context.initialized = false ∧
      (m.chart.state Chart.root).initial = some t) ∨ m.Chosen transitions := by
  cases takes with
  | work =>
    unfold ahead
    split
    · split
      · rename_i outside _
        cases entry : (m.chart.state Chart.root).initial with
        | none => exact Or.inl rfl
        | some t => exact Or.inr (Or.inl ⟨t, rfl, outside, rfl⟩)
      · exact Or.inl rfl
    · cases found : m.passAhead with
      | none => exact Or.inl rfl
      | some enabled => exact Or.inr (Or.inr (passAhead_chosen found))
  | take input => exact (aheadOn_chosen m input).imp id Or.inr
  | _ => exact Or.inl rfl

theorem takes_chosen (takes : Takes m transitions m') :
    transitions.length ≤ 1 ∨ m.Chosen transitions := by
  rcases takes_origin takes with rfl | ⟨t,rfl,-⟩ | chosen
  · exact Or.inl (Nat.zero_le 1)
  · exact Or.inl (Nat.le_refl 1)
  · exact Or.inr chosen

/-- Of the transitions that are taken at once, no two leave the same state. -/
theorem takes_unmixed (takes : Takes m transitions m') :
    m.chart.Unmixed m.context.history m.context.configuration transitions := by
  rcases takes_chosen takes with few | chosen
  · match transitions, few with
    | [], _ => exact List.Pairwise.nil
    | [t], _ => exact List.pairwise_singleton _ t
  · exact chosen.unmixed

/-- No record is empty once the machine has left what it leaves to take the transitions. -/
def Remembers (m : Machine) (transitions : List TransitionIndex) : Prop :=
  ∀ entry ∈ m.chart.recalled m.context.history m.context.configuration transitions, entry.2 ≠ []

instance (m : Machine) (transitions : List TransitionIndex) : Decidable (m.Remembers transitions) :=
  inferInstanceAs (Decidable (∀ entry ∈ m.chart.recalled _ _ _, entry.2 ≠ []))

/-- The active states have active atomic states, and the records are of ordinary states. -/
structure Peopled (c : Chart) (m : Machine) : Prop where
  leafed : c.Leafed m.context.configuration
  remembers : c.Remembers m.context.history

theorem Peopled.onward (before : m.Peopled c) (wf : c.WellFormed) (peopled : c.Peopled)
    (grounded : m.Grounded c) (arrives : Arrives m transitions m')
    (unmixed : m.chart.Unmixed m.context.history m.context.configuration transitions)
    (remembers : m.Remembers transitions) : m'.Peopled c := by
  obtain ⟨rfl,_,inward⟩ := grounded
  have ordinary : ∀ entry ∈ m.chart.recalled m.context.history m.context.configuration transitions,
      ∀ r ∈ entry.2, m.chart.isHistory r = false :=
    Chart.recalled_ordinary (fun _ active => before.leafed.ordinary wf active)
      fun entry old => (before.remembers entry old).2
  have remembers : m.chart.Remembers
      (m.chart.recalled m.context.history m.context.configuration transitions) :=
    fun entry recalled => ⟨remembers entry recalled, ordinary entry recalled⟩
  cases arrives with
  | taken taken =>
    constructor
    · exact wf.leafed_of_taken inward remembers peopled unmixed before.leafed taken.configuration
    · rw [taken.history]
      exact remembers
  | left left =>
    constructor
    · rw [left.configuration]
      exact fun _ none => by cases none
    · rw [left.history]
      exact before.remembers

theorem course_peopled {library : ActionLibrary} {source : Source.ChartDef}
    (accepted : Chart.compile library source = .ok c) (peopled : c.Peopled) {options : Options}
    {memory : Memory} (course : Course Remembers (create c options memory).start m) :
    m.control = .crashed ∨ m.Peopled c := by
  have wf := Chart.compile_wellFormed accepted
  generalize first : (create c options memory).start = start at course
  induction course with
  | refl =>
    subst first
    exact Or.inr ⟨fun _ none => (by cases none), fun _ none => (by cases none)⟩
  | next course takes remembers ih =>
    have grounded := run_grounded accepted (first ▸ course.run)
    rcases grounded with crashed | grounded
    · exact Or.inl (takes_crashed takes crashed)
    · rcases ih with crashed | before
      · exact Or.inl (takes_crashed takes crashed)
      · refine (grounded.onward wf.toIsTree takes).imp id fun ⟨_,arrives⟩ => ?_
        exact before.onward wf peopled grounded arrives (takes_unmixed takes) remembers

/-- Let parallel states have regions and history states lead somewhere by default. Along every run
    whose records are not empty, every active state is atomic or has an active atomic descendant. So
    its transitions are among those looked at, and one of them without condition that an event means
    is not passed over for nothing. Where the parents of active states are active, no record becomes
    empty. -/
theorem active_states_are_heard {library : ActionLibrary} {source : Source.ChartDef}
    (accepted : Chart.compile library source = .ok c) (peopled : c.Peopled) {options : Options}
    {memory : Memory} (course : Course Remembers (create c options memory).start m)
    (going : m.control ≠ .crashed) :
    (∀ s ∈ m.context.configuration, c.isAtomic s = true ∨
      ∃ a ∈ m.context.configuration, c.isAtomic a = true ∧ c.Below a s) ∧
    (∀ s ∈ m.context.configuration, ∀ t ∈ (c.state s).transitions,
      (∃ a ∈ m.context.configuration, c.isAtomic a = true ∧ t ∈ c.candidates a) ∧
        ∀ event selected m', c.triggered event t = true → (c.transition t).condition = none →
          selectTransitions event m = .ok selected m' → selected ≠ []) ∧
    ∀ transitions, c.Closed m.context.configuration → m.Remembers transitions := by
  have wf := Chart.compile_wellFormed accepted
  have grounded := (run_grounded accepted course.run).resolve_left going
  have before := (course_peopled accepted peopled course).resolve_left going
  obtain ⟨rfl,_,_⟩ := grounded
  have leaf : ∀ s ∈ m.context.configuration, ∃ a ∈ m.context.configuration,
      m.chart.isAtomic a = true ∧ m.chart.Within a s := before.leafed
  refine ⟨fun s hs => ?_, fun s hs t ht => ?_, fun transitions closed => ?_⟩
  · obtain ⟨a,ha,atomic,rfl | below⟩ := leaf s hs
    · exact Or.inl atomic
    · exact Or.inr ⟨a, ha, atomic, below⟩
  · obtain ⟨a,ha,atomic,within⟩ := leaf s hs
    have offered : t ∈ m.chart.candidates a :=
      List.mem_flatMap.mpr ⟨s, List.mem_cons.mpr (within.imp Eq.symm id), ht⟩
    exact ⟨⟨a, ha, atomic, offered⟩, fun event selected m' meant free run =>
      selectTransitions_some ha atomic offered meant free run⟩
  · exact before.leafed.recalled_some wf (Chart.compile_inward accepted) peopled closed
      fun entry old => (before.remembers entry old).1

end Machine

namespace DeepReturn

/-- The parallel state is left, and come back to through its history state. -/
def returned : Machine :=
  sending (Machine.step^[3] (sending (Machine.step^[4] machine) "out")) "back"

/-- It hears again. -/
theorem returned_heard : returned.context.configuration = [1, 3, 4] ∧
    ∃ a ∈ [1, 3, 4], chart.isAtomic a = true ∧ 0 ∈ chart.candidates a := by
  have started : Machine.Course Machine.Remembers machine (Machine.step^[4] machine) :=
    Machine.Course.iterate (.refl _) 4 (by decide +kernel)
  have left := started.next (.take _ (.event { name := ⟨["out"]⟩, type := .external }))
    (by decide +kernel)
  have gone := left.iterate 3 (by decide +kernel)
  have course : Machine.Course Machine.Remembers machine returned :=
    gone.next (.take _ (.event { name := ⟨["back"]⟩, type := .external })) (by decide +kernel)
  have heard := Machine.active_states_are_heard (c := chart)
    (Chart.compile_eq_compiled (by decide +kernel)) (Chart.peopled_of_check (by decide +kernel))
    course (Machine.not_crashed (by decide +kernel))
  have active : returned.context.configuration = [1, 3, 4] := by decide +kernel
  have own : 1 ∈ returned.context.configuration := active ▸ (by decide : 1 ∈ [1, 3, 4])
  exact ⟨active, active ▸ (heard.2.1 1 own 0 (by decide +kernel)).1⟩

end DeepReturn

namespace EmptyParallel

open Source

/-- A parallel state without regions, to be left on an event. -/
def source : ChartDef where
  name := none
  initial := none
  data := []
  extra := none
  states :=
    [.mk (.simple "p" .parallel [⟨some ["go"], none, some ["b"], .external, []⟩]) [],
      .mk (.simple "b" .state []) []]

def chart : Chart := Chart.compiled [] source

def machine : Machine := (Machine.create chart { sessionId := "s" } default).start

def waiting : Machine := Machine.step^[4] machine

def asked : Machine := waiting.take (.event { name := ⟨["go"]⟩, type := .external })

/-- The state is neither atomic nor has it an active state inside, and the event is lost. -/
theorem parallel_deaf : Chart.compile [] source = .ok chart ∧ Machine.Run machine waiting ∧
    waiting.context.initialized = true ∧ waiting.isOver = false ∧
    waiting.context.configuration = [1] ∧ chart.isAtomic 1 = false ∧
    (∀ a ∈ waiting.context.configuration,
      ¬ (chart.isAtomic a = true ∧ chart.isDescendant a 1 = true)) ∧
    (chart.state 1).transitions = [0] ∧ chart.triggered (some ⟨["go"]⟩) 0 = true ∧
    asked.context.configuration = [1] := by
  have course : Machine.Course (fun _ _ => True) machine waiting :=
    Machine.Course.iterate (.refl _) 4 (by decide +kernel)
  exact ⟨Chart.compile_eq_compiled (by decide +kernel), course.run, by decide +kernel⟩

end EmptyParallel

end Statechart

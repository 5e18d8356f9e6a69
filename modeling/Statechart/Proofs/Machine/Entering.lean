import Statechart.Proofs.Machine.Legality
import Statechart.Proofs.Machine.Taking

/- Whether states are entered while they are active.

   States are entered one after another in document order. What a microstep enters has been left
   before or was not active, if the history states that are named lie in the domains. -/
namespace Statechart

namespace Machine

open MachineM

variable {c : Chart} {m m' n k : Machine} {transitions : List TransitionIndex} {s : StateIndex}

/-- The history states that are named lie in the domains, and the root is not named again. -/
def Enclosed (m : Machine) (transitions : List TransitionIndex) : Prop :=
  m.chart.Enclosed m.context.history m.context.configuration transitions

instance (m : Machine) (transitions : List TransitionIndex) : Decidable (m.Enclosed transitions) :=
  inferInstanceAs (Decidable (Chart.Enclosed ..))

theorem takes_none (takes : Takes m transitions m') (crashed : m.control = .crashed) :
    transitions = [] := by
  cases takes with
  | work work => exact ahead_other (by simp [crashed]) (by simp [crashed])
  | take input => exact aheadOn_other (by simp [crashed]) input
  | disturb => rfl
  | restart => rfl
  | retry => rfl

/-- What is active when a state is next: what was active before, and what has been entered. -/
theorem Approaches.members (next : n.Approaches transitions s k) : k.chart = n.chart ∧
    s ∈ (n.chart.entrySet n.context.history transitions).states ∧
      ∀ x, x ∈ k.context.configuration ↔ x ∈ n.context.configuration ∨
        (x ∈ (n.chart.entrySet n.context.history transitions).states ∧ x < s) := by
  obtain ⟨before,after,order,entered⟩ := next
  obtain ⟨chart,members⟩ := enterAll_ok entered
  -- The states stand in ascending order, so those that are less stand before.
  have ascending := n.chart.entrySet_ascending n.context.history transitions
  rw [order] at ascending
  obtain ⟨_,later,less⟩ := List.pairwise_append.mp ascending
  refine ⟨chart, by simp [order], fun x => (members x).trans (or_congr_right ?_)⟩
  rw [order, List.mem_append, List.mem_cons]
  constructor
  · exact fun first => ⟨Or.inl first, less x first s List.mem_cons_self⟩
  · rintro ⟨first | rfl | last,early⟩
    · exact first
    · exact absurd early (Nat.lt_irrefl x)
    · exact absurd early (Nat.lt_asymm ((List.pairwise_cons.mp later).1 x last))

/-- What is active when a state is about to be entered: what has not been left, and what has been
    entered before. -/
theorem Entering.members (entering : Entering m transitions s k) : k.chart = m.chart ∧
    s ∈ m.chart.entered m.context.history m.context.configuration transitions ∧
      ∀ x, x ∈ k.context.configuration ↔
        m.chart.Remains m.context.history m.context.configuration transitions x ∨
          (x ∈ m.chart.entered m.context.history m.context.configuration transitions ∧ x < s) := by
  cases entering with
  | @microstep n n' same left next =>
    obtain ⟨chart,configuration,history,_⟩ := ground_eq same
    obtain ⟨_,n₁,leaving,content⟩ := bind_eq_ok left
    obtain ⟨own,remaining,recorded⟩ := exitStates_ok leaving
    have framed := (performTransitions_frames transitions).eq_of_ok content
    have stayed : n'.context.configuration = n₁.context.configuration :=
      congrArg (fun m => m.context.configuration) framed
    have known : n'.chart = n₁.chart := congrArg (fun m => m.chart) framed
    have members := next.members
    rw [known, show n'.context.history = n₁.context.history from
        congrArg (fun m => m.context.history) framed, own, recorded, stayed, remaining, chart,
      configuration, history] at members
    refine ⟨members.1, members.2.1, fun x => (members.2.2 x).trans ?_⟩
    simp [Chart.Remains, Chart.entered, Chart.recalled]
  | initial same empty next =>
    obtain ⟨chart,configuration,history,_⟩ := ground_eq same
    have members := next.members
    rw [chart, history, configuration, empty] at members
    refine ⟨members.1, ?_, fun x => ?_⟩
    · rw [empty]
      exact members.2.1
    · rw [empty]
      refine (members.2.2 x).trans ?_
      simp [Chart.Remains, Chart.entered, Chart.recalled, Chart.exitSet, Chart.recordAll]

/-- A state that is next and active has not been left. -/
theorem Entering.active (entering : Entering m transitions s k) :
    s ∈ m.chart.entered m.context.history m.context.configuration transitions ∧
      (s ∈ k.context.configuration →
        m.chart.Remains m.context.history m.context.configuration transitions s) := by
  obtain ⟨_,entered,members⟩ := entering.members
  refine ⟨entered, fun active => ?_⟩
  rcases (members s).mp active with remains | ⟨_,before⟩
  · exact remains
  · exact absurd before (Nat.lt_irrefl s)

/-- Where the history states that are named lie in the domains, no state is entered while it is
    active: what a move enters is not what has stayed active, and each state that is entered has its
    time, at which it is not active. -/
theorem entered_when_inactive {library : ActionLibrary} {source : Source.ChartDef}
    (accepted : Chart.compile library source = .ok c) {options : Options} {memory : Memory}
    (run : Run (create c options memory).start m) (takes : Takes m transitions m')
    (enclosed : m.Enclosed transitions) :
    (∀ s ∈ c.entered m.context.history m.context.configuration transitions,
      ¬ c.Remains m.context.history m.context.configuration transitions s ∧
        (m'.control ≠ .crashed → ∃ k, Entering m transitions s k)) ∧
      ∀ s k, Entering m transitions s k → s ∉ k.context.configuration := by
  have wf := Chart.compile_wellFormed accepted
  rcases run_grounded accepted run with crashed | grounded
  · rw [takes_none takes crashed]
    refine ⟨fun s hs => absurd hs List.not_mem_nil, fun s k entering => ?_⟩
    exact absurd entering.active.1 List.not_mem_nil
  · have onward := grounded.onward wf.toIsTree takes
    obtain ⟨rfl,_,inward⟩ := grounded
    have anew := wf.entered_anew inward enclosed
    refine ⟨fun s hs => ⟨anew s hs, fun going => ?_⟩, fun s k entering again => ?_⟩
    · obtain ⟨_,arrives⟩ := onward.resolve_left going
      cases arrives with
      | taken taken => exact taken.entering s hs
      | left => cases hs
    · obtain ⟨entered,remains⟩ := entering.active
      exact anew s entered (remains again)

end Machine

namespace NearReturn

open Source

/-- A state with a history state and a nested state. It can be left and come back to, and from the
    nested state one can go to the history state at once. -/
def source : ChartDef where
  name := none
  initial := none
  data := []
  extra := none
  states :=
    [.mk (.simple "p" .state [⟨some ["out"], none, some ["q"], .external, []⟩])
      [.mk (.simple "h" .history [⟨none, none, some ["a2"], .external, []⟩]) [],
        .mk { StateInfo.simple "a" .state [] with onEntry := [.log none (some "'in a'")] }
          [.mk (.simple "a1" .state [⟨some ["go"], none, some ["h"], .external, []⟩]) [],
            .mk (.simple "a2" .state []) []]],
      .mk (.simple "q" .state [⟨some ["back"], none, some ["h"], .external, []⟩]) []]

def chart : Chart := Chart.compiled [] source

def machine : Machine := (Machine.create chart { sessionId := "s" } default).start

def sending (m : Machine) (name : String) : Machine :=
  m.take (.event { name := ⟨[name]⟩, type := .external })

def waiting : Machine := machine.step.step.step.step

def outside : Machine := (sending waiting "out").step.step.step

theorem runs : Machine.Run machine waiting ∧ Machine.Run machine outside := by
  have started : Machine.Run machine (Machine.step^[4] machine) :=
    .iterate (.refl _) 4 (by decide +kernel)
  simp only [Function.iterate_succ_apply, Function.iterate_zero_apply] at started
  have left : Machine.Run machine (sending waiting "out") := started.next (.take _ _)
  have gone := left.iterate 3 (by decide +kernel)
  simp only [Function.iterate_succ_apply, Function.iterate_zero_apply] at gone
  exact ⟨started, gone⟩

/-- Coming back from outside enters all three states anew. -/
theorem back_enters_anew :
    chart.entered outside.context.history outside.context.configuration [5] = [1, 3, 4] ∧
      ∀ s k, Machine.Entering outside [5] s k → s ∉ k.context.configuration := by
  have ahead : outside.aheadOn (.event { name := ⟨["back"]⟩, type := .external }) = [5] := by
    decide +kernel
  have takes : Machine.Takes outside [5] (sending outside "back") := ahead ▸ .take _ _
  exact ⟨by decide +kernel,
    (Machine.entered_when_inactive (Chart.compile_eq_compiled (by decide +kernel)) runs.2 takes
      (by decide +kernel)).2⟩

/-- From inside, the nested state is not left and is entered again, with its content. -/
theorem go_enters_again : Machine.Run machine waiting ∧
    Machine.Takes waiting [2] (sending waiting "go") ∧
    3 ∈ chart.entered waiting.context.history waiting.context.configuration [2] ∧
    chart.Remains waiting.context.history waiting.context.configuration [2] 3 := by
  have ahead : waiting.aheadOn (.event { name := ⟨["go"]⟩, type := .external }) = [2] := by
    decide +kernel
  exact ⟨runs.1, ahead ▸ .take _ _, by decide +kernel⟩

end NearReturn

end Statechart

import Statechart.Proofs.Chart.Layout
import Statechart.Proofs.Machine.Entering
import Statechart.Proofs.Machine.Placement

/- In which order a microstep leaves and enters states.

   States are left in descending and entered in ascending order. In a chart that is laid out in the
   order of the document, a state is left when nothing inside of it is active any more, and entered
   when all has been entered around it. -/
namespace Statechart

namespace Machine

open MachineM

variable {c : Chart} {m n n' k m₀ : Machine} {transitions : List TransitionIndex} {s x : StateIndex}

def exits (m : Machine) (transitions : List TransitionIndex) : List StateIndex :=
  m.chart.exitSet m.context.history m.context.configuration transitions

/-- The machine when it begins to leave states: it has recorded what is to be recorded. -/
def recording (m : Machine) (transitions : List TransitionIndex) : Machine :=
  { m with context := { m.context with
    statesToInvoke := m.context.statesToInvoke.filter (!(m.exits transitions).contains ·)
    history := m.chart.recordAll m.context.configuration (m.exits transitions) m.context.history } }

/-- The machine comes to leave a state: what is left before it has been. -/
def Retreats (m : Machine) (transitions : List TransitionIndex) (s : StateIndex) (k : Machine) :
    Prop :=
  ∃ before after, (m.exits transitions).reverse = before ++ s :: after ∧
    before.forM exitState (m.recording transitions) = .ok () k

/-- States are left from the inside out and entered from the outside in. -/
structure InOrder (n : Machine) (transitions : List TransitionIndex) : Prop where
  /-- All that is active inside of a state stands before it in the order of leaving. -/
  exits : ∀ before s after, (n.exits transitions).reverse = before ++ s :: after →
    ∀ x ∈ n.context.configuration, n.chart.Below x s → x ∈ before
  /-- A state around another one stands before it in the order of entering. -/
  entries : ∀ before s after, n.chart.entered n.context.history n.context.configuration transitions
      = before ++ s :: after →
    ∀ x ∈ n.chart.entered n.context.history n.context.configuration transitions,
      n.chart.Below s x → x ∈ before
  leaving : ∀ s k, n.Retreats transitions s k →
    ∀ x, n.chart.Below x s → x ∉ k.context.configuration
  /-- When a state is entered, all around it that is entered is active. -/
  entering : ∀ s k, Entering n transitions s k →
    ∀ x ∈ n.chart.entered n.context.history n.context.configuration transitions,
      n.chart.Below s x → x ∈ k.context.configuration
  times : ∀ n', microstep transitions n = .ok () n' →
    (∀ s ∈ n.exits transitions, ∃ k, n.Retreats transitions s k) ∧
      ∀ s ∈ n.chart.entered n.context.history n.context.configuration transitions,
        ∃ k, Entering n transitions s k

theorem exitStates_retreats (run : exitStates transitions n = .ok () n')
    (leaves : s ∈ n.exits transitions) : ∃ k, n.Retreats transitions s k := by
  have all : (n.exits transitions).reverse.forM exitState (n.recording transitions) = .ok () n' :=
    run
  obtain ⟨before,after,order⟩ := List.append_of_mem (List.mem_reverse.mpr leaves)
  rw [order] at all
  obtain ⟨k,first,_⟩ := forM_append_ok all
  exact ⟨k, before, after, order, first⟩

/-- What is active when a state is next to be left: what has not been left before. -/
theorem Retreats.active (retreats : n.Retreats transitions s k) (active : x ∈ k.context.configuration) :
    x ∈ n.context.configuration ∧ ∃ before after,
      (n.exits transitions).reverse = before ++ s :: after ∧ x ∉ before := by
  obtain ⟨before,after,order,left⟩ := retreats
  have framed := congrArg (fun m => m.context.configuration) (exitAll_ok left)
  have same : k.context.configuration = (before.foldl MachineM.left
      (n.recording transitions)).context.configuration := framed
  rw [same, configuration_foldl_left] at active
  obtain ⟨was,kept⟩ := List.mem_filter.mp active
  exact ⟨was, before, after, order, by simpa using kept⟩

/-- Every microstep is in order, if active states are listed in ascending order. -/
theorem inOrder (tree : n.chart.IsTree) (ascending : n.context.configuration.Pairwise (· < ·))
    (transitions : List TransitionIndex) : n.InOrder transitions := by
  constructor
  · intro before s after order x active below
    exact tree.left_inside_out ascending order active below
  · intro before s after order x entered below
    exact tree.entered_outside_in order entered below
  · intro s k retreats x below active
    obtain ⟨was,before,after,order,stayed⟩ := retreats.active active
    exact stayed (tree.left_inside_out ascending order was below)
  · intro s k entering x entered below
    obtain ⟨_,_,members⟩ := entering.members
    exact (members x).mpr (Or.inr ⟨entered, tree.below_lt below⟩)
  · intro n' run
    constructor
    · intro s leaves
      obtain ⟨_,n₁,left,_⟩ := bind_eq_ok run
      exact exitStates_retreats left leaves
    · exact (microstep_taken run).entering

theorem create_chart (c : Chart) (options : Options) (memory : Memory) :
    (create c options memory).chart = c := rfl

/-- Accepted charts are laid out in the order of the document, and so every microstep at any point of
    a run, of a machine that was created or resumed, leaves states from the inside out and enters
    them from the outside in. -/
theorem layout_orders_microsteps {library : ActionLibrary} {source : Source.ChartDef}
    (accepted : Chart.compile library source = .ok c) :
    c.Layout ∧ ∀ m₀ m, Unstarted m₀ → m₀.chart = c → Run m₀.start m →
      ∀ (n : Machine) (transitions : List TransitionIndex), n.ground = m.ground →
        n.InOrder transitions := by
  constructor
  · exact Chart.compile_layout accepted
  · intro m₀ m unstarted own run n transitions same
    have wf := Chart.compile_wellFormed accepted
    subst own
    have placed := run_placed wf unstarted run
    obtain ⟨chart,configuration,_⟩ := ground_eq same
    apply inOrder
    · rw [chart, placed.chart]
      exact wf.toIsTree
    · rw [configuration]
      exact placed.context.configuration

end Machine

namespace NearReturn

/-- What is left at once in this chart is left from the inside out, and coming back enters it from the
    outside in. -/
theorem out_and_back_in_order :
    chart.Layout ∧ waiting.InOrder [0] ∧ (waiting.exits [0]).reverse = [4, 3, 1] ∧
      outside.InOrder [5] ∧
      chart.entered outside.context.history outside.context.configuration [5] = [1, 3, 4] := by
  have accepted : Chart.compile [] source = .ok chart :=
    Chart.compile_eq_compiled (by decide +kernel)
  obtain ⟨layout,ordered⟩ := Machine.layout_orders_microsteps accepted
  have ordered (m : Machine) (run : Machine.Run machine m) (transitions : List TransitionIndex) :
      m.InOrder transitions :=
    ordered (Machine.create chart { sessionId := "s" } default) m (.created chart _ _)
      (Machine.create_chart chart _ _) run m transitions rfl
  obtain ⟨waits,stays⟩ := runs
  obtain ⟨left,entered⟩ : (waiting.exits [0]).reverse = [4, 3, 1] ∧
      chart.entered outside.context.history outside.context.configuration [5] = [1, 3, 4] := by
    decide +kernel
  exact ⟨layout, ordered waiting waits [0], left, ordered outside stays [5], entered⟩

end NearReturn

end Statechart

import Statechart.Proofs.Chart.Completion
import Statechart.Proofs.Machine.Closure
import Statechart.Proofs.Machine.Entering

/- Whether a machine hears that a parallel state is done.

   Entering a final state ends with events that the state around is done, and the one around that if
   all its regions are. So what the machine hears of a parallel state depends on the region that is
   the last to be done. -/
namespace Statechart

def Chart.doneEvent (c : Chart) (data : Value) (p : StateIndex) : Event :=
  { name := .doneState (c.state p).id, type := .internal, data }

/-- The events that some states are done; only the first has data. -/
def Chart.doneEvents (c : Chart) (data : Value) : List StateIndex → List Event
  | [] => []
  | parent :: around => c.doneEvent data parent :: around.map (c.doneEvent .undefined)

namespace MachineM

open Machine

variable {m m' k : Machine} {f : StateIndex} {e : EntrySet}

theorem enterFinal_ok (run : enterFinal f m = .ok () m') : ∃ data n,
    evaluateOr (m.chart.state f).doneData m = .ok data n ∧
      m'.context.internalQueue = n.context.internalQueue ++
        m.chart.doneEvents data (m.chart.doneBy m.context.configuration f) := by
  obtain ⟨_,_,got,run⟩ := bind_eq_ok run
  cases got
  obtain ⟨data,n,evaluated,run⟩ := bind_eq_ok run
  refine ⟨data, n, evaluated, ?_⟩
  have active : n.context.configuration = m.context.configuration :=
    congrArg (fun m => m.context.configuration)
      (Frames.eq_of_ok (P := never) (evaluateOr_frames _) evaluated)
  unfold Chart.doneBy
  dsimp only at run ⊢
  generalize (m.chart.state f).parent.getD Chart.root = parent at run ⊢
  split at run
  · rename_i top
    cases run
    simp [top, Chart.doneEvents]
  · rename_i inner
    rw [if_neg inner]
    obtain ⟨_,n₁,queued,run⟩ := bind_eq_ok run
    cases queued
    cases around : (m.chart.state parent).parent with
    | none =>
      rw [around] at run
      cases run
      rfl
    | some grand =>
      rw [around] at run
      obtain ⟨_,_,got,run⟩ := bind_eq_ok run
      cases got
      have looked : (n.enqueue ⟨.doneState (m.chart.state parent).id, .internal, none, none, none,
          none, none, data⟩).context.configuration = m.context.configuration := active
      rw [looked] at run
      split at run
      · rename_i all
        cases run
        simp [Chart.regionsFinal, all, Chart.doneEvents, Machine.enqueue, Chart.doneEvent]
      · rename_i some
        cases run
        simp [Chart.regionsFinal, some, Chart.doneEvents, Machine.enqueue, Chart.doneEvent]

/-- Whatever is done in a final state once it is active, the end is to tell what is done. -/
theorem afterActivation_final {c : Chart} (final : c.isFinal f = true)
    (run : afterActivation e c f m = .ok () m') :
    ∃ k, afterActivation e c f m = enterFinal f k ∧ k.frame = m.frame := by
  have arriving {n : Machine} (run : arrive c f n = .ok () m') :
      ∃ k, arrive c f n = enterFinal f k ∧ k.frame = n.frame := by
    obtain ⟨_,k,traced,_⟩ := bind_eq_ok run
    refine ⟨k, ?_, (trace_frames (P := onlyCrash) _).eq_of_ok traced⟩
    rw [arrive, bind_of_ok _ traced, if_pos final]
  have recalling {n : Machine} (run : enterByHistory e c f n = .ok () m') :
      ∃ k, enterByHistory e c f n = enterFinal f k ∧ k.frame = n.frame := by
    unfold enterByHistory at run ⊢
    cases found : e.historyContent.lookup f with
    | none =>
      rw [found] at run
      exact arriving run
    | some t =>
      rw [found] at run
      obtain ⟨_,l,content,run⟩ := bind_eq_ok run
      obtain ⟨k,same,framed⟩ := arriving run
      exact ⟨k, (bind_of_ok _ content).trans same,
        framed.trans ((executeBlock_frames _).eq_of_ok content)⟩
  unfold afterActivation at run ⊢
  obtain ⟨_,n,entry,run⟩ := bind_eq_ok run
  rw [bind_of_ok _ entry]
  have same : n.frame = m.frame := (executeBlock_frames _).eq_of_ok entry
  dsimp only at run ⊢
  split at run
  · rename_i byDefault
    rw [if_pos byDefault]
    cases start : (c.state f).initial with
    | none =>
      rw [start] at run
      obtain ⟨k,all,framed⟩ := recalling run
      exact ⟨k, all, framed.trans same⟩
    | some t =>
      rw [start] at run
      obtain ⟨_,l,content,run⟩ := bind_eq_ok run
      obtain ⟨k,all,framed⟩ := recalling run
      exact ⟨k, (bind_of_ok _ content).trans all,
        framed.trans (((executeBlock_frames _).eq_of_ok content).trans same)⟩
  · rename_i direct
    rw [if_neg direct]
    obtain ⟨k,all,framed⟩ := recalling run
    exact ⟨k, all, framed.trans same⟩

theorem enterState_final {m : Machine} (final : m.chart.isFinal f = true)
    (run : enterState e f m = .ok () m') : ∃ k, enterState e f m = enterFinal f k ∧
      k.chart = m.chart ∧ k.context.configuration = insertIndex f m.context.configuration := by
  rw [enterState_eq] at run ⊢
  obtain ⟨_,_,got,run⟩ := bind_eq_ok run
  cases got
  obtain ⟨_,m₁,entering,run⟩ := bind_eq_ok run
  obtain ⟨_,m₂,activated,run⟩ := bind_eq_ok run
  have traced := (trace_frames (P := onlyCrash) _).eq_of_ok entering
  cases activated
  obtain ⟨k,same,framed⟩ := afterActivation_final final run
  refine ⟨k, ?_, ?_, ?_⟩
  · rw [← same]
    exact (bind_of_ok _ rfl).trans ((bind_of_ok _ entering).trans (bind_of_ok _ rfl))
  · exact (congrArg (fun m => m.chart) framed).trans (congrArg (fun m => m.chart) traced)
  · refine (congrArg (fun m => m.context.configuration) framed).trans ?_
    exact congrArg (insertIndex f) (congrArg (fun m => m.context.configuration) traced)

end MachineM

namespace Machine

open MachineM

variable {m m' : Machine} {transitions : List TransitionIndex} {f : StateIndex}

/-- Entering a final state ends with events that some states are done. -/
def Tells (m : Machine) (transitions : List TransitionIndex) (f : StateIndex)
    (states : List StateIndex) : Prop :=
  ∃ j k n k' data, Entering m transitions f j ∧
    enterState (j.chart.entrySet j.context.history transitions) f j = enterFinal f k ∧
    (∀ x, x ∈ k.context.configuration ↔ x ∈ m.chart.activeUpTo m.context.history
      m.context.configuration transitions f) ∧
    evaluateOr (m.chart.state f).doneData k = .ok data n ∧ enterFinal f k = .ok () k' ∧
    k'.context.internalQueue = n.context.internalQueue ++ m.chart.doneEvents data states

theorem Taken.tells (taken : Taken m transitions m')
    (entered : f ∈ m.chart.entered m.context.history m.context.configuration transitions)
    (final : m.chart.isFinal f = true) : m.Tells transitions f (m.chart.doneBy
      (m.chart.activeUpTo m.context.history m.context.configuration transitions f) f) := by
  obtain ⟨j,k',entering,run⟩ := taken.entries f entered
  obtain ⟨chart,_,members⟩ := entering.members
  obtain ⟨k,same,own,active⟩ := enterState_final (chart ▸ final) run
  obtain ⟨data,n,evaluated,queued⟩ := enterFinal_ok (same ▸ run)
  have up : ∀ x, x ∈ k.context.configuration ↔ x ∈ m.chart.activeUpTo m.context.history
      m.context.configuration transitions f := by
    intro x
    rw [active, Chart.mem_insertIndex, members x, Chart.mem_activeUpTo]
    constructor
    · rintro (rfl | remains | ⟨own,before⟩)
      · exact Or.inr ⟨entered, Nat.le_refl _⟩
      · exact Or.inl remains
      · exact Or.inr ⟨own, Nat.le_of_lt before⟩
    · rintro (remains | ⟨own,early⟩)
      · exact Or.inr (Or.inl remains)
      · exact (Nat.eq_or_lt_of_le early).imp id fun before => Or.inr ⟨own, before⟩
  rw [own.trans chart] at evaluated queued
  refine ⟨j, k, n, k', data, entering, same, up, evaluated, same ▸ run, ?_⟩
  rw [queued, Chart.doneBy_congr up]

/-- When all regions of a parallel state have come to be in final states, one state entered is the
    last that they waited for. Whoever enters a final state tells what is done by that, and if the
    history states that are named lie in the domains and the configuration is legal, the parallel
    state is told to be done exactly once if the region of the last state is compound. If that region
    is parallel itself, the parallel state is not told to be done. -/
theorem told_by_last_region {library : ActionLibrary} {source : Source.ChartDef} {c : Chart}
    (accepted : Chart.compile library source = .ok c) {options : Options} {memory : Memory}
    (run : Run (create c options memory).start m) (takes : Takes m transitions m')
    (going : m'.control ≠ .crashed) {p : StateIndex} (parallel : c.isParallel p = true)
    (unfinished : c.regionsFinal m.context.configuration p = false)
    (finished : c.regionsFinal m'.context.configuration p = true) :
    ∃ last region,
      c.Finishes m.context.history m.context.configuration transitions p last region ∧
      (∀ f ∈ c.entered m.context.history m.context.configuration transitions, c.isFinal f = true →
        m.Tells transitions f (c.doneBy
          (c.activeUpTo m.context.history m.context.configuration transitions f) f)) ∧
      (c.Contained m.context.history transitions → c.Legal m'.context.configuration →
        (c.told m.context.history m.context.configuration transitions).count p =
          if c.isCompound region = true then 1 else 0) := by
  have wf := Chart.compile_wellFormed accepted
  have grounded := (run_grounded accepted run).resolve_left fun crashed =>
    going (takes_crashed takes crashed)
  obtain ⟨_,arrives⟩ := (grounded.onward wf.toIsTree takes).resolve_left going
  obtain ⟨rfl,_,inward⟩ := grounded
  cases arrives with
  | left left =>
    -- Nothing is active any more, so the regions would have been final before.
    rw [left.configuration] at finished
    rw [Chart.regionsFinal_mono (List.nil_subset _) finished] at unfinished
    cases unfinished
  | taken taken =>
    obtain ⟨last,region,finishes⟩ := wf.exists_finishes unfinished finished taken.configuration
    refine ⟨last, region, finishes, fun f entered final => taken.tells entered final, ?_⟩
    exact fun contained legal => wf.told_count inward contained legal taken.configuration parallel
      finishes

end Machine

namespace NestedRegions

open Source

def region (name event : String) : StateDef :=
  .mk (.simple ("r" ++ name) .state [])
    [.mk (.simple ("a" ++ name) .state [⟨some [event], none, some ["f" ++ name], .external, []⟩]) [],
      .mk (.simple ("f" ++ name) .final []) []]

/-- A parallel state with a parallel and a compound region. -/
def source : ChartDef where
  name := none
  initial := none
  data := []
  extra := none
  states :=
    [.mk (.simple "p" .parallel [])
      [.mk (.simple "q" .parallel []) [region "1" "one", region "2" "two"], region "3" "three"]]

def chart : Chart := Chart.compiled [] source

def machine : Machine := (Machine.create chart { sessionId := "s" } default).start

def sending (m : Machine) (name : String) : Machine :=
  m.take (.event { name := ⟨[name]⟩, type := .external })

/-- One region inside of the parallel one is done. -/
def halfDone : Machine := Machine.step^[4] (sending (Machine.step^[4] machine) "one")

/-- The parallel region is done. -/
def innerDone : Machine := Machine.step^[5] (sending halfDone "two")

/-- The compound region is done. -/
def outerDone : Machine := Machine.step^[4] (sending halfDone "three")

theorem runs : Machine.Run machine innerDone ∧ Machine.Run machine outerDone := by
  have started : Machine.Run machine (Machine.step^[4] machine) :=
    .iterate (.refl _) 4 (by decide +kernel)
  have half : Machine.Run machine halfDone :=
    (started.next (.take _ _)).iterate 4 (by decide +kernel)
  exact ⟨(half.next (.take _ _)).iterate 5 (by decide +kernel),
    (half.next (.take _ _)).iterate 4 (by decide +kernel)⟩

theorem legal {m : Machine} (run : Machine.Run machine m)
    (entered : m.context.initialized = true) (going : m.isOver = false) :
    chart.Legal m.context.configuration := by
  have accepted : Chart.compile [] source = .ok chart :=
    Chart.compile_eq_compiled (by decide +kernel)
  exact (Machine.run_sound (Chart.compile_wellFormed accepted) (by decide +kernel) run).legal
    entered going

/-- What is taken next, and what is done before and after. -/
def turns (m : Machine) (name : String) (t : TransitionIndex) : Bool :=
  m.aheadOn (.event { name := ⟨[name]⟩, type := .external }) == [t] &&
    !chart.regionsFinal m.context.configuration 1 &&
    chart.regionsFinal (sending m name).context.configuration 1 &&
    m.context.initialized && !m.isOver &&
    (sending m name).context.initialized && !(sending m name).isOver

theorem turns_iff {m : Machine} {name : String} {t : TransitionIndex} : turns m name t = true ↔
    m.aheadOn (.event { name := ⟨[name]⟩, type := .external }) = [t] ∧
      chart.regionsFinal m.context.configuration 1 = false ∧
      chart.regionsFinal (sending m name).context.configuration 1 = true ∧
      (m.context.initialized = true ∧ m.isOver = false) ∧
      (sending m name).context.initialized = true ∧ (sending m name).isOver = false := by
  simp [turns, and_assoc]

/-- If the compound region is the last, the parallel state is told to be done. -/
theorem told_after_compound :
    chart.regionsFinal innerDone.context.configuration 1 = false ∧
      chart.regionsFinal (sending innerDone "three").context.configuration 1 = true ∧
      (chart.told innerDone.context.history innerDone.context.configuration [4]).count 1 = 1 := by
  obtain ⟨ahead,unfinished,finished,-,entered,going⟩ := turns_iff.mp
    (by decide +kernel : turns innerDone "three" 4 = true)
  have takes : Machine.Takes innerDone [4] (sending innerDone "three") := ahead ▸ .take _ _
  obtain ⟨last,region,finishes,_,told⟩ := Machine.told_by_last_region (c := chart)
    (Chart.compile_eq_compiled (by decide +kernel)) runs.1 takes (Machine.not_crashed going)
    (by decide +kernel) unfinished finished
  have compound : chart.Contained innerDone.context.history [4] ∧
      ∀ last ∈ chart.entered innerDone.context.history innerDone.context.configuration [4],
        ∀ region ∈ chart.childStates 1, chart.Below last region →
          chart.isCompound region = true := by
    decide +kernel
  have counted := told compound.1 (legal (runs.1.next (.take _ _)) entered going)
  rw [if_pos (compound.2 last finishes.entered region finishes.isRegion finishes.inside)] at counted
  exact ⟨unfinished, finished, counted⟩

/-- If the parallel region is the last, the parallel state is done, and is not told to be. -/
theorem untold_after_parallel : Machine.Run machine outerDone ∧
    Machine.Takes outerDone [2] (sending outerDone "two") ∧
    chart.Legal outerDone.context.configuration ∧
    chart.Legal (sending outerDone "two").context.configuration ∧
    chart.regionsFinal outerDone.context.configuration 1 = false ∧
    chart.regionsFinal (sending outerDone "two").context.configuration 1 = true ∧
    chart.isParallel 1 = true ∧ 1 ∈ (sending outerDone "two").context.configuration ∧
    (chart.told outerDone.context.history outerDone.context.configuration [2]).count 1 = 0 ∧
    (sending outerDone "two").context.internalQueue.map (·.name.text) =
      ["done.state.r2", "done.state.q"] := by
  obtain ⟨ahead,unfinished,finished,before,after⟩ := turns_iff.mp
    (by decide +kernel : turns outerDone "two" 2 = true)
  exact ⟨runs.2, ahead ▸ .take _ _, legal runs.2 before.1 before.2,
    legal (runs.2.next (.take _ _)) after.1 after.2, unfinished, finished, by decide +kernel⟩

end NestedRegions

end Statechart

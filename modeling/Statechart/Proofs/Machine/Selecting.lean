import Statechart.Proofs.Chart.Conflicts
import Statechart.Proofs.Chart.Termination
import Statechart.Proofs.Machine.Stability

/- Selecting transitions. Conditions only make new containers, so each of them has the same outcome
   whenever it is evaluated during a look. What the atomic states select is therefore a function of
   the machine, no state offers two transitions, and conflicts are settled by position and nesting. -/
namespace Statechart

namespace Machine

def holds (m : Machine) (t : TransitionIndex) : Bool :=
  match (m.chart.transition t).condition with
  | none => true
  | some cond =>
    match cond.eval m.scope m.heap with
    | .ok (_, v) => v.isTruthy
    | .error _ => false

/-- Whether a transition is triggered and its condition holds. -/
def isEnabled (m : Machine) (event : Option EventName) (t : TransitionIndex) : Bool :=
  m.chart.triggered event t && m.holds t

/-- Adds what an atomic state selects. -/
def gather (m : Machine) (event : Option EventName) (enabled : List TransitionIndex)
    (s : StateIndex) : List TransitionIndex :=
  match (m.chart.candidates s).find? (m.isEnabled event) with
  | some t => if enabled.contains t then enabled else enabled ++ [t]
  | none => enabled

variable {m k : Machine} {event : Option EventName} {enabled : List TransitionIndex} {t : Nat}

theorem Stays.chart (stays : m.Stays k) : k.chart = m.chart := congrArg (·.1) stays.outlook

theorem Stays.scope (stays : m.Stays k) : k.scope = m.scope := by
  have outlook := stays.outlook
  simp only [Machine.outlook, Prod.mk.injEq] at outlook
  obtain ⟨chart,configuration,data⟩ := outlook
  have inside : k.isInState = m.isInState := by
    funext id
    simp only [isInState, isActive, chart, configuration]
  rw [Machine.scope, Machine.scope, inside, data]

theorem gather_nodup (nodup : enabled.Nodup) (s : StateIndex) : (m.gather event enabled s).Nodup := by
  unfold gather
  split
  · split
    · exact nodup
    · rename_i new
      refine List.nodup_append.mpr ⟨nodup, List.nodup_cons.mpr ⟨List.not_mem_nil, List.nodup_nil⟩, ?_⟩
      intro a ha b hb same
      rw [List.mem_singleton] at hb
      exact new (by simpa [← hb, ← same] using ha)
  · exact nodup

theorem mem_gather {s : StateIndex} (member : t ∈ m.gather event enabled s) :
    t ∈ enabled ∨ (m.chart.candidates s).find? (m.isEnabled event) = some t := by
  unfold gather at member
  split at member
  · rename_i u found
    split at member
    · exact Or.inl member
    · rcases List.mem_append.mp member with old | new
      · exact Or.inl old
      · rw [List.mem_singleton.mp new]
        exact Or.inr found
  · exact Or.inl member

theorem gathered (m : Machine) (event : Option EventName) (states : List StateIndex)
    (enabled : List TransitionIndex) (nodup : enabled.Nodup) :
    (states.foldl (m.gather event) enabled).Nodup ∧ ∀ t ∈ states.foldl (m.gather event) enabled,
      t ∈ enabled ∨ ∃ s ∈ states, (m.chart.candidates s).find? (m.isEnabled event) = some t := by
  induction states generalizing enabled with
  | nil => exact ⟨nodup, fun t ht => Or.inl ht⟩
  | cons s rest ih =>
    obtain ⟨once,origin⟩ := ih _ (gather_nodup nodup s)
    refine ⟨once, fun t ht => ?_⟩
    rcases origin t ht with old | ⟨r,hr,found⟩
    · exact (mem_gather old).imp_right fun found => ⟨s, List.mem_cons_self, found⟩
    · exact Or.inr ⟨r, List.mem_cons_of_mem _ hr, found⟩

end Machine

namespace Chart

variable {c : Chart} {s t : Nat}

theorem find_candidate (own : ∀ a t : Nat, t ∈ (c.state a).transitions → (c.transition t).source = a)
    {p : TransitionIndex → Bool} (found : (c.candidates s).find? p = some t) :
    c.Within s (c.transition t).source ∧
      (c.state (c.transition t).source).transitions.find? p = some t := by
  rw [candidates, List.find?_flatMap] at found
  obtain ⟨a,ha,found⟩ := List.exists_of_findSome?_eq_some found
  have source := own a t (List.mem_of_find?_eq_some found)
  rw [source]
  refine ⟨?_, found⟩
  rcases List.mem_cons.mp ha with rfl | above
  · exact Or.inl rfl
  · exact Or.inr above

end Chart

namespace MachineM

open Machine

variable {m k : Machine} {event : Option EventName}

section Guards

variable (event) (closed : m.heap.Closed) (live : m.context.dataModel < m.heap.size)

include closed live

/-- During a look a condition has the outcome that it had at the start. -/
theorem conditionHolds_holds (stays : m.Stays k) (t : TransitionIndex) :
    ∃ k', conditionHolds t k = .ok (m.holds t) k' ∧ m.Stays k' := by
  have outcome : ∃ k', conditionHolds t k = .ok (m.holds t) k' := by
    unfold conditionHolds holds
    simp only [stays.chart]
    cases (m.chart.transition t).condition with
    | none => exact ⟨k, rfl⟩
    | some cond =>
      have alike := Expr.eval_alike cond m.isInState (closed.corresponds stays.heap)
        fun path _ => .whole ⟨rfl, live⟩
      simp only [evaluate, stays.scope]
      change Expr.Alike _ _ _ (cond.eval m.scope m.heap) (cond.eval m.scope k.heap) at alike
      revert alike
      generalize cond.eval m.scope m.heap = first
      generalize cond.eval m.scope k.heap = second
      intro alike
      cases alike with
      | ok grown like =>
        simp only [like.isTruthy]
        exact ⟨_, rfl⟩
      | error f => exact ⟨_, rfl⟩
  obtain ⟨k',run⟩ := outcome
  exact ⟨k', run, Lasting.trans stays ((conditionHolds_frames (P := never) t k).of_ok run)⟩

theorem firstEnabled_find (stays : m.Stays k) (candidates : List TransitionIndex) :
    ∃ k', firstEnabled event candidates k = .ok (candidates.find? (m.isEnabled event)) k' ∧
      m.Stays k' := by
  induction candidates generalizing k with
  | nil => exact ⟨k, rfl, stays⟩
  | cons t rest ih =>
    rw [firstEnabled, get_bind, stays.chart, List.find?_cons]
    by_cases triggered : m.chart.triggered event t = true
    · obtain ⟨n,run,stays'⟩ := conditionHolds_holds closed live stays t
      rw [if_pos triggered, bind_of_ok _ run]
      simp only [isEnabled, triggered, Bool.true_and]
      cases m.holds t with
      | true => exact ⟨n, rfl, stays'⟩
      | false => exact ih stays'
    · rw [if_neg triggered]
      simp only [isEnabled, Bool.eq_false_iff.mpr triggered, Bool.false_and]
      exact ih stays

/-- A look selects what the atomic states select one after the other. -/
theorem collectEnabled_foldl (stays : m.Stays k) (states : List StateIndex)
    (enabled : List TransitionIndex) :
    ∃ k', collectEnabled event states enabled k =
      .ok (states.foldl (m.gather event) enabled) k' ∧ m.Stays k' := by
  induction states generalizing k enabled with
  | nil => exact ⟨k, rfl, stays⟩
  | cons s rest ih =>
    obtain ⟨n,run,stays'⟩ :=
      firstEnabled_find event closed live stays (m.chart.candidates s)
    rw [collectEnabled, get_bind, stays.chart, bind_of_ok _ run, List.foldl_cons, gather]
    cases (m.chart.candidates s).find? (m.isEnabled event) with
    | some t => exact ih stays' _
    | none => exact ih stays' _

/-- A look succeeds, and the transitions that it finds come from different sources. -/
theorem collectEnabled_enabled
    (own : ∀ a t : Nat, t ∈ (m.chart.state a).transitions → (m.chart.transition t).source = a) :
    ∃ enabled k, collectEnabled event (m.context.configuration.filter m.chart.isAtomic) [] m =
        .ok enabled k ∧ m.chart.Enabled m.context.configuration enabled := by
  obtain ⟨k,run,-⟩ := collectEnabled_foldl event closed live (Lasting.refl m)
    (m.context.configuration.filter m.chart.isAtomic) []
  refine ⟨_, k, run, ?_⟩
  obtain ⟨nodup,origin⟩ := gathered m event (m.context.configuration.filter m.chart.isAtomic) []
    List.nodup_nil
  have source : ∀ t ∈ (m.context.configuration.filter m.chart.isAtomic).foldl (m.gather event) [],
      ∃ y ∈ m.context.configuration, m.chart.isAtomic y = true ∧
        m.chart.Within y (m.chart.transition t).source ∧
        (m.chart.state (m.chart.transition t).source).transitions.find? (m.isEnabled event) =
          some t := by
    intro t ht
    obtain ⟨y,hy,found⟩ := (origin t ht).resolve_left List.not_mem_nil
    obtain ⟨active,atomic⟩ := List.mem_filter.mp hy
    exact ⟨y, active, atomic, Chart.find_candidate own found⟩
  refine ⟨nodup, ?_, ?_, ?_⟩
  · intro t ht u hu same
    obtain ⟨-,-,-,-,found⟩ := source t ht
    obtain ⟨-,-,-,-,found'⟩ := source u hu
    rw [same, found'] at found
    exact (Option.some.inj found).symm
  · intro t ht
    obtain ⟨-,-,-,-,found⟩ := source t ht
    exact List.mem_of_find?_eq_some found
  · intro t ht
    obtain ⟨y,active,atomic,within,-⟩ := source t ht
    exact ⟨y, active, atomic, within⟩

end Guards

variable {library : ActionLibrary} {source : Source.ChartDef}

/-- Of the transitions that are enabled, those are selected that prevail: they stand in document order
    and leave no state in common, and each other one leaves a state in common with a selected one that
    comes from inside its source, or stands before it without it coming from inside that one's. This is
    so whenever the defaults behind the enabled transitions come to an end, as they do in charts
    without circular ones; where they do not, the machine breaks down. -/
theorem conflicts_settled (accepted : Chart.compile library source = .ok m.chart)
    (closed : m.heap.Closed) (live : m.context.dataModel < m.heap.size)
    (event : Option EventName) :
    ∃ enabled k,
      collectEnabled event (m.context.configuration.filter m.chart.isAtomic) [] m = .ok enabled k ∧
      (m.chart.Uncircular → ∀ t ∈ enabled, m.chart.Resolves m.context.history t) ∧
      ((∃ t ∈ enabled, ¬ m.chart.Resolves m.context.history t) →
        selectTransitions event m = .error .crash k) ∧
      ((∀ t ∈ enabled, m.chart.Resolves m.context.history t) → ∃ selected,
        selectTransitions event m = .ok selected k ∧
        selected.Sublist (m.chart.inDocumentOrder enabled) ∧
        (m.chart.inDocumentOrder enabled).Pairwise (fun t u =>
          (m.chart.transition t).document < (m.chart.transition u).document) ∧
        selected.Pairwise (Chart.DisjointExits fun t =>
          m.chart.exitSet m.context.history m.context.configuration [t]) ∧
        ∀ t ∈ enabled, t ∉ selected → ∃ u ∈ selected,
          Chart.Clash (fun t => m.chart.exitSet m.context.history m.context.configuration [t]) t u ∧
            m.chart.Prevails u t) := by
  have wf := Chart.compile_wellFormed accepted
  have order := Chart.compile_preordered accepted
  have inward := Chart.compile_inward accepted
  obtain ⟨enabled,k,collected,offers⟩ :=
    collectEnabled_enabled event closed live wf.own_source
  have selects := selectTransitions_of_collect collected
  refine ⟨enabled, k, collected, ?_, ?_, ?_⟩
  · exact fun uncircular t _ => wf.resolves inward uncircular m.context.history t
  · rintro ⟨t,ht,endless⟩
    rw [selects, if_neg]
    exact fun all => endless (Chart.isFollowed_iff.mp (List.all_eq_true.mp all t ht))
  · intro all
    have followed : enabled.all (m.chart.isFollowed m.context.history) = true :=
      List.all_eq_true.mpr fun t ht => Chart.isFollowed_iff.mpr (all t ht)
    rw [if_pos followed] at selects
    have settled := offers.settled wf.toIsTree order m.context.history
    refine ⟨_, selects, settled.sublist, offers.ordered order,
      Chart.removeConflicts_disjoint _ _ _ _, ?_⟩
    exact fun t ht gone => settled.dropped t (List.mem_mergeSort.mpr ht) gone

end MachineM

namespace Rivals

open Source Machine MachineM

def onE (target : String) : TransitionDef := ⟨some ["e"], none, some [target], .external, []⟩

/-- A parallel state with a transition that leaves it, as one of its regions has; another region has a
    transition of its own. -/
def source : ChartDef where
  name := none
  initial := none
  data := []
  extra := none
  states :=
    [.mk (.simple "w" .parallel [onE "out"])
      [.mk (.simple "a" .state []) [.mk (.simple "a1" .state []) []],
        .mk (.simple "b" .state [])
          [.mk (.simple "b1" .state [onE "b2"]) [], .mk (.simple "b2" .state []) []],
        .mk (.simple "d" .state []) [.mk (.simple "d1" .state [onE "out"]) []]],
      .mk (.simple "out" .state []) []]

/-- A machine in which the parallel state, its regions and their first children are active. -/
def entered : Machine :=
  let created := Machine.create (Chart.compiled [] source) { sessionId := "s" } default
  { created with context := { created.context with configuration := [1, 2, 3, 4, 5, 7, 8] } }

def e : EventName := ⟨["e"]⟩

def sources (found : MachineM (List TransitionIndex)) : List String :=
  match found entered with
  | .ok enabled _ => enabled.map fun t => (entered.chart.state (entered.chart.transition t).source).id
  | .error _ _ => []

/-- Three transitions are enabled of which any two clash; those that are dropped have a selected one that
    prevails. -/
theorem inner_prevails :
    sources (collectEnabled (some e) (entered.context.configuration.filter entered.chart.isAtomic) []) =
        ["w", "b1", "d1"] ∧
      ∃ enabled selected k,
        collectEnabled (some e) (entered.context.configuration.filter entered.chart.isAtomic) []
          entered = .ok enabled k ∧ selectTransitions (some e) entered = .ok selected k ∧
        ∀ t ∈ enabled, t ∉ selected → ∃ u ∈ selected, entered.chart.Prevails u t := by
  have accepted : Chart.compile [] source = .ok entered.chart := by
    simp only [entered, Machine.create]
    exact Chart.compile_eq_compiled (by decide +kernel)
  have closed : entered.heap.Closed := Heap.closed_of_children (by decide +kernel)
  have live : entered.context.dataModel < entered.heap.size := by decide +kernel
  have peopled : entered.chart.Peopled := Chart.peopled_of_check (by decide +kernel)
  obtain ⟨enabled,k,collected,resolve,-,settled⟩ :=
    conflicts_settled (m := entered) accepted closed live (some e)
  obtain ⟨selected,chosen,-,-,-,dropped⟩ := settled (resolve peopled.uncircular)
  refine ⟨by decide +kernel, enabled, selected, k, collected, chosen, ?_⟩
  intro t ht gone
  obtain ⟨u,hu,-,prevails⟩ := dropped t ht gone
  exact ⟨u, hu, prevails⟩

end Rivals

end Statechart

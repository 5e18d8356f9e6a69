import Statechart.Proofs.Chart.Compiled

/- Which targets can be active together.

   The checks on targets refuse a repetition and a target inside another. They do not refuse two
   targets in the same region. So there is a legal configuration that holds all targets of a
   transition exactly if any two of them lie in different regions of a parallel state, and the chart
   has a state to be in at all. -/
namespace Statechart.Chart

variable {c : Chart} {s p a b x y k l : Nat} {targets : List StateIndex}

/-- Some legal configuration holds all targets that can be active. -/
def Enterable (c : Chart) (targets : List StateIndex) : Prop :=
  ∃ configuration, c.Legal configuration ∧
    ∀ s ∈ targets, c.isHistory s = false → s ∈ configuration

/-- Any two targets that can be active lie in different regions. -/
def Spread (c : Chart) (targets : List StateIndex) : Prop :=
  ∀ a ∈ targets, ∀ b ∈ targets, c.isHistory a = false → c.isHistory b = false → a ≠ b → c.Apart a b

/-- A state is active if in every state around it that is not parallel the picked child is. -/
def Picked (c : Chart) (pick : StateIndex → StateIndex) (s : StateIndex) : Prop :=
  ∀ k p, c.Within s k → (c.state k).parent = some p →
    c.isHistory k = false ∧ (c.isParallel p = true ∨ k = pick p)

namespace WellFormed

/-- What lies around a state that can be active can be active. -/
theorem ordinary_around (wf : c.WellFormed) (ordinary : c.isHistory s = false)
    (inside : c.Within s a) : c.isHistory a = false := by
  rcases inside with rfl | inside
  · exact ordinary
  · by_contra past
    obtain ⟨k,hk,_⟩ := wf.child_toward inside
    have child := (wf.child_iff a k).mpr hk
    rw [wf.leaf_history a (by simpa using past)] at child
    cases child

theorem mem_childStates (wf : c.WellFormed) :
    k ∈ c.childStates s ↔ (c.state k).parent = some s ∧ c.isHistory k = false := by
  simp [childStates, wf.child_iff]

theorem kind_of_child (wf : c.WellFormed) (child : k ∈ c.childStates s) :
    c.isCompound s = true ∨ c.isParallel s = true := by
  have inner : (c.state s).children ≠ [] := List.ne_nil_of_mem (List.mem_filter.mp child).1
  cases kind : (c.state s).kind with
  | state => exact Or.inl (by simpa [isCompound, kind] using List.ne_nil_of_mem child)
  | parallel => exact Or.inr (by simp [isParallel, kind])
  | final => exact absurd (wf.leaf_final s (by simp [isFinal, kind])) inner
  | history h => exact absurd (wf.leaf_history s (by simp [isHistory, kind])) inner

/-- States of a legal configuration that are not nested lie in different regions. -/
theorem legal_apart (wf : c.WellFormed) {configuration : List StateIndex}
    (legal : c.Legal configuration) (ha : a ∈ configuration) (hb : b ∈ configuration)
    (oa : c.isHistory a = false) (ob : c.isHistory b = false) (ab : ¬ c.Within a b)
    (ba : ¬ c.Within b a) : c.Apart a b := by
  have upward : ∀ s p, activeOrRoot configuration s → (c.state s).parent = some p →
      activeOrRoot configuration p := by
    rintro s p (rfl | h) hp
    · rw [wf.root_parent] at hp
      cases hp
    · exact (legal.parent s h p hp).symm
  have active : ∀ s k p, s ∈ configuration → c.Within s k → (c.state k).parent = some p →
      k ∈ configuration := by
    intro s k p hs inside hp
    rcases wf.closed_within upward (Or.inr hs) inside with rfl | h
    · rw [wf.root_parent] at hp
      cases hp
    · exact h
  obtain ⟨p,k,l,hk,hl,ne,ak,bl⟩ := wf.parting (wf.within_root (legal.declared a ha))
    (wf.within_root (legal.declared b hb)) ab ba
  have ck : k ∈ c.childStates p := wf.mem_childStates.mpr ⟨hk, wf.ordinary_around oa ak⟩
  have cl : l ∈ c.childStates p := wf.mem_childStates.mpr ⟨hl, wf.ordinary_around ob bl⟩
  have hk' := active a k p ha ak hk
  rcases wf.kind_of_child ck with compound | par
  · have one : c.OneActiveChild configuration p := by
      rcases legal.parent k hk' p hk with inside | rfl
      · exact legal.compound p inside compound
      · exact legal.top
    obtain ⟨j,_,_,only⟩ := one
    have same := (only k ck hk').trans (only l cl (active b l p hb bl hl)).symm
    exact absurd same ne
  · exact ⟨p, k, l, par, hk, hl, ne, ak, bl⟩

theorem exists_choice (wf : c.WellFormed) (spread : c.Spread targets) :
    ∃ pick : StateIndex → StateIndex,
      (∀ p, c.childStates p ≠ [] → pick p ∈ c.childStates p) ∧
      ∀ p k, ∀ x ∈ targets, c.isHistory x = false → c.isParallel p = false →
        (c.state k).parent = some p → c.Within x k → k = pick p := by
  have each : ∀ p, ∃ q, (c.childStates p ≠ [] → q ∈ c.childStates p) ∧
      ∀ k, ∀ x ∈ targets, c.isHistory x = false → c.isParallel p = false →
        (c.state k).parent = some p → c.Within x k → k = q := by
    intro p
    by_cases leads : ∃ q, ∃ y ∈ targets, c.isHistory y = false ∧ (c.state q).parent = some p ∧
        c.Within y q
    · obtain ⟨q,y,hy,oy,hq,yq⟩ := leads
      refine ⟨q, fun _ => wf.mem_childStates.mpr ⟨hq, wf.ordinary_around oy yq⟩, ?_⟩
      intro k x hx ox single hk xk
      by_contra differ
      -- Two targets in different children of a state that is not parallel are not apart.
      have apart : c.Apart x y := by
        refine spread x hx y hy ox oy ?_
        rintro rfl
        exact differ (wf.sibling_unique hk hq xk yq)
      have compatible := wf.compatible_outwards (Or.inr (Or.inr apart)) xk
      have siblings := (wf.compatible_outwards compatible.symm yq).symm
      rw [wf.parallel_of_compatible_siblings hk hq differ siblings] at single
      cases single
    · refine ⟨(c.childStates p).headD 0, fun some => ?_, ?_⟩
      · obtain ⟨k,rest,eq⟩ := List.exists_cons_of_ne_nil some
        simp [eq]
      · intro k x hx ox _ hk xk
        exact absurd ⟨k, x, hx, ox, hk, xk⟩ leads
  choose pick own toward using each
  exact ⟨pick, own, toward⟩

section Picking

variable {pick : StateIndex → StateIndex}

theorem picked_child (wf : c.WellFormed) (picked : c.Picked pick p) (child : k ∈ c.childStates p)
    (regional : c.isParallel p = true ∨ k = pick p) : c.Picked pick k := by
  obtain ⟨hk,ordinary⟩ := wf.mem_childStates.mp child
  intro j q inside hq
  rcases inside with rfl | inside
  · rw [hk] at hq
    cases hq
    exact ⟨ordinary, regional⟩
  · exact picked j q (wf.within_parent_of_below_child hk inside) hq

theorem one_picked (wf : c.WellFormed) {configuration : List StateIndex}
    (own : ∀ p, c.childStates p ≠ [] → pick p ∈ c.childStates p)
    (active : ∀ s p, (c.state s).parent = some p → (s ∈ configuration ↔ c.Picked pick s))
    (picked : c.Picked pick p) (inner : c.childStates p ≠ []) (single : c.isParallel p = false) :
    c.OneActiveChild configuration p := by
  have child := own p inner
  have parent := (wf.mem_childStates.mp child).1
  refine ⟨pick p, child, ?_, fun j hj inside => ?_⟩
  · exact (active _ p parent).mpr (wf.picked_child picked child (Or.inr rfl))
  · have hp := (wf.mem_childStates.mp hj).1
    have regional := ((active j p hp).mp inside j p (Or.inl rfl) hp).2
    simpa [single] using regional

/-- Picking children makes a legal configuration. The root may belong to it or not. -/
theorem picked_legal (wf : c.WellFormed) {configuration : List StateIndex}
    (own : ∀ p, c.childStates p ≠ [] → pick p ∈ c.childStates p)
    (inhabited : c.childStates root ≠ []) (declared : ∀ s ∈ configuration, s < c.states.size)
    (active : ∀ s p, (c.state s).parent = some p → (s ∈ configuration ↔ c.Picked pick s)) :
    c.Legal configuration := by
  have top : c.Picked pick root := by
    intro k p inside hp
    rcases inside with rfl | inside
    · rw [wf.root_parent] at hp
      cases hp
    · exact absurd inside wf.not_root_below
  have picked : ∀ s ∈ configuration, c.Picked pick s := by
    intro s hs
    by_cases first : s = root
    · exact first ▸ top
    · obtain ⟨p,hp,_⟩ := wf.parent_before s (declared s hs) first
      exact (active s p hp).mp hs
  refine ⟨declared, ?_, ?_, ?_, ?_⟩
  · refine wf.one_picked own active top inhabited ?_
    rw [isParallel, wf.root_kind]
    rfl
  · intro s hs p hp
    by_cases first : p = root
    · exact Or.inr first
    · have inside : p < c.states.size :=
        Nat.lt_trans (wf.parent_lt hp) (declared s hs)
      obtain ⟨q,hq,_⟩ := wf.parent_before p inside first
      refine Or.inl ((active p q hq).mpr fun k r up hr => ?_)
      exact picked s hs k r (Or.inr (wf.below_iff.mpr ⟨p, hp, up⟩)) hr
  · intro s hs par k hk
    exact (active k s (wf.mem_childStates.mp hk).1).mpr
      (wf.picked_child (picked s hs) hk (Or.inl par))
  · intro s hs compound
    have single : c.isParallel s = false := by
      by_contra par
      rw [wf.not_compound_of_parallel (by simpa using par)] at compound
      cases compound
    simp only [isCompound, Bool.and_eq_true, Bool.not_eq_true', List.isEmpty_eq_false_iff] at compound
    exact wf.one_picked own active (picked s hs) compound.2 single

end Picking

/-- Targets in different regions can be active together. -/
theorem spread_enterable (wf : c.WellFormed) (inhabited : c.childStates root ≠ [])
    (declared : ∀ s ∈ targets, s < c.states.size) (spread : c.Spread targets) :
    c.Enterable targets := by
  classical
  obtain ⟨pick,own,toward⟩ := wf.exists_choice spread
  have picked : ∀ s ∈ targets, c.isHistory s = false → c.Picked pick s := by
    intro s hs ordinary k p inside hp
    refine ⟨wf.ordinary_around ordinary inside, ?_⟩
    by_cases par : c.isParallel p = true
    · exact Or.inl par
    · exact Or.inr (toward p k s hs ordinary (by simpa using par) hp inside)
  refine ⟨c.indices.filter fun s => c.Picked pick s ∧ (s = root → root ∈ targets), ?_, ?_⟩
  · refine wf.picked_legal own inhabited (fun s hs => ?_) fun s p hp => ?_
    · exact List.mem_range.mp (List.mem_filter.mp hs).1
    · have proper : s ≠ root := by
        rintro rfl
        rw [wf.root_parent] at hp
        cases hp
      have inside : s ∈ c.indices := List.mem_range.mpr (c.parent_in_range hp)
      simp [inside, proper]
  · intro s hs ordinary
    have inside : s ∈ c.indices := List.mem_range.mpr (declared s hs)
    refine List.mem_filter.mpr ⟨inside, ?_⟩
    simp only [decide_eq_true_eq]
    exact ⟨picked s hs ordinary, fun first => first ▸ hs⟩

end WellFormed

/-- The targets of a transition of an accepted chart can be active together exactly if the chart has
    a state to be in and any two of them lie in different regions of a parallel state. -/
theorem targets_enterable_iff {library : ActionLibrary} {source : Source.ChartDef}
    (accepted : compile library source = .ok c) (t : TransitionIndex) :
    c.Enterable (c.transition t).targets ↔
      c.childStates root ≠ [] ∧ c.Spread (c.transition t).targets := by
  have wf := compile_wellFormed accepted
  constructor
  · rintro ⟨configuration,legal,holds⟩
    obtain ⟨k,child,_,_⟩ := legal.top
    refine ⟨List.ne_nil_of_mem child, ?_⟩
    intro a ha b hb oa ob ne
    have separate : ∀ x ∈ (c.transition t).targets, ∀ y ∈ (c.transition t).targets, x ≠ y →
        ¬ c.Within x y := by
      rintro x hx y hy differ (same | below)
      · exact differ same
      · exact wf.targets_separate t x hx y hy differ below
    exact wf.legal_apart legal (holds a ha oa) (holds b hb ob) oa ob (separate a ha b hb ne)
      (separate b hb a ha (Ne.symm ne))
  · rintro ⟨inhabited,spread⟩
    exact wf.spread_enterable inhabited (wf.targets_declared t) spread

end Statechart.Chart

namespace Statechart.PairOfTargets

open Source

/-- A state from which one event leads to two regions of a parallel state, and another to two states
    beside each other. -/
def source : ChartDef where
  name := none
  initial := none
  data := []
  extra := none
  states :=
    [.mk (.simple "a" .state [⟨some ["part"], none, some ["left", "right"], .external, []⟩,
        ⟨some ["crowd"], none, some ["b", "c"], .external, []⟩]) [],
      .mk (.simple "b" .state []) [],
      .mk (.simple "c" .state []) [],
      .mk (.simple "both" .parallel [])
        [.mk (.simple "left" .state []) [], .mk (.simple "right" .state []) []]]

def chart : Chart := Chart.compiled [] source

theorem regions_enterable : (chart.transition 0).targets = [5, 6] ∧
    chart.Enterable (chart.transition 0).targets := by
  have targets : (chart.transition 0).targets = [5, 6] := by decide +kernel
  have apart : chart.Apart 5 6 := ⟨4, 5, 6, by decide +kernel, by decide +kernel, by decide +kernel,
    by decide, Or.inl rfl, Or.inl rfl⟩
  have spread : chart.Spread [5, 6] := by
    intro a ha b hb _ _ ne
    simp only [List.mem_cons, List.not_mem_nil, or_false] at ha hb
    rcases ha with rfl | rfl
    · rcases hb with rfl | rfl
      · exact absurd rfl ne
      · exact apart
    · rcases hb with rfl | rfl
      · exact apart.symm
      · exact absurd rfl ne
  have accepted : Chart.compile [] source = .ok chart :=
    Chart.compile_eq_compiled (by decide +kernel)
  refine ⟨targets, (Chart.targets_enterable_iff accepted 0).mpr ⟨by decide +kernel, ?_⟩⟩
  rw [targets]
  exact spread

/-- The chart is accepted, and nothing legal holds both states that the second event leads to. -/
theorem siblings_not_enterable : (Chart.compile [] source).isOk = true ∧
    (chart.transition 1).targets = [2, 3] ∧
    ¬ chart.Enterable (chart.transition 1).targets := by
  have targets : (chart.transition 1).targets = [2, 3] := by decide +kernel
  refine ⟨by decide +kernel, targets, ?_⟩
  rintro ⟨configuration,legal,holds⟩
  rw [targets] at holds
  obtain ⟨k,_,_,only⟩ := legal.top
  have first := only 2 (by decide +kernel) (holds 2 (by decide) (by decide +kernel))
  have second := only 3 (by decide +kernel) (holds 3 (by decide) (by decide +kernel))
  rw [← second] at first
  cases first

end Statechart.PairOfTargets

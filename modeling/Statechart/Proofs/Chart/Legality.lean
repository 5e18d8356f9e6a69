import Statechart.Proofs.Chart.Taking

/- Selected transitions lead from one legal configuration to the next.

   A transition is offered by an active atomic state, so its domain is active and holds that state.
   Transitions whose exit sets are disjoint therefore have domains in different regions. -/
namespace Statechart.Chart

variable {c : Chart} {history : HistoryTable} {configuration : List StateIndex} {s t a x : Nat}

theorem mem_candidates (h : t ∈ c.candidates s) : ∃ a, c.Within s a ∧ t ∈ (c.state a).transitions := by
  obtain ⟨a,ha,mem⟩ := List.mem_flatMap.mp h
  rcases List.mem_cons.mp ha with rfl | above
  · exact ⟨a, Or.inl rfl, mem⟩
  · exact ⟨a, Or.inr above, mem⟩

/-- Without history states it does not matter what has been recorded. -/
theorem Ready.change_history (plain : c.Plain) {transitions : List TransitionIndex}
    {active : StateIndex → Prop} (history' : HistoryTable)
    (ready : c.Ready history transitions active) : c.Ready history' transitions active := by
  have same : c.domain? history' = c.domain? history :=
    funext fun t => plain.domain_history history' history t
  have apart : c.DomainsApart history' = c.DomainsApart history := by
    funext t u
    simp only [DomainsApart, same]
  exact
    { ready with
      compound := by simpa only [same] using ready.compound
      domains := by simpa only [same] using ready.domains
      apart := by simpa only [apart] using ready.apart }

namespace WellFormed

theorem mem_exitSet (wf : c.WellFormed) (plain : c.Plain) {transitions : List TransitionIndex} :
    x ∈ c.exitSet history configuration transitions ↔ x ∈ configuration ∧
      ∃ t ∈ transitions, ∃ d, c.domain? history t = some d ∧ c.Below x d := by
  simp only [exitSet, List.mem_filter, List.any_eq_true]
  refine and_congr_right fun _ => exists_congr fun t => and_congr_right fun _ => ?_
  cases found : c.domain? history t with
  | none => simp [leaves, found]
  | some d =>
    have targeted : (c.transition t).isTargetless = false := by
      simpa [TransitionNode.isTargetless] using wf.targets_of_domain plain found
    simp [leaves, found, targeted]

/-- A transition that an active atomic state offers lies around that state, and so does its
    domain. -/
theorem candidate_spec (wf : c.WellFormed) (plain : c.Plain) (history : HistoryTable)
    (legal : c.Legal configuration) (active : s ∈ configuration) (atomic : c.isAtomic s = true)
    (offered : t ∈ c.candidates s) :
    (c.transition t).source < c.states.size ∧
      ∀ d, c.domain? history t = some d → c.Below s d ∧ activeOrRoot configuration d := by
  obtain ⟨a,inside,mem⟩ := mem_candidates offered
  have source := wf.own_source a t mem
  have within : c.Within s (c.transition t).source := by rw [source]; exact inside
  have declared : (c.transition t).source < c.states.size :=
    Nat.lt_of_le_of_lt (wf.within_le within) (legal.declared s active)
  refine ⟨declared, ?_⟩
  intro d found
  obtain ⟨compound,above,_⟩ := wf.domain_spec plain declared found
  have up := wf.within_trans within above
  have consistent := wf.consistent_of_legal plain legal
  refine ⟨?_, wf.closed_within consistent.parent (Or.inr active) up⟩
  rcases up with rfl | below
  · obtain ⟨kind,_,_⟩ := (wf.compound_iff plain.no_history).mp compound
    simp only [isCompound, kind, decide_true, Bool.true_and, Bool.not_eq_true'] at compound
    simp [isAtomic, kind, compound] at atomic
  · exact below

theorem selection_ready (wf : c.WellFormed) (plain : c.Plain) (legal : c.Legal configuration)
    {enabled : List TransitionIndex}
    (offered : ∀ t ∈ enabled, ∃ s ∈ configuration, c.isAtomic s = true ∧ t ∈ c.candidates s) :
    c.Ready history (c.removeConflicts history configuration enabled)
      (activeOrRoot configuration) := by
  have consistent := wf.consistent_of_legal plain legal
  have origin : ∀ t ∈ c.removeConflicts history configuration enabled,
      (c.transition t).source < c.states.size ∧ ∀ d, c.domain? history t = some d →
        activeOrRoot configuration d ∧ ∃ s ∈ configuration, c.Below s d := by
    intro t ht
    obtain ⟨s,active,atomic,mem⟩ := offered t (removeConflicts_subset ht)
    obtain ⟨declared,above⟩ := wf.candidate_spec plain history legal active atomic mem
    exact ⟨declared, fun d found => ⟨(above d found).2, s, active, (above d found).1⟩⟩
  refine
    { declared := consistent.declared, root := consistent.root, parent := consistent.parent
      orthogonal := consistent.orthogonal, parallel := consistent.parallel
      compound := fun s active compound => Or.inr (consistent.compound s active compound)
      sources := fun t ht => (origin t ht).1
      domains := fun t ht d found => ((origin t ht).2 d found).1
      apart := ?_ }
  refine (removeConflicts_disjoint c history configuration enabled).imp_of_mem ?_
  intro t u ht hu disjoint d d' found found'
  -- A domain has active states in it; were one domain inside the other, both would be left.
  have shared : ∀ {x}, x ∈ configuration → c.Below x d → c.Below x d' → False := by
    intro x active inside inside'
    have left : x ∈ c.exitSet history configuration [t] :=
      (wf.mem_exitSet plain).mpr ⟨active, t, List.mem_singleton_self t, d, found, inside⟩
    have left' : x ∈ c.exitSet history configuration [u] :=
      (wf.mem_exitSet plain).mpr ⟨active, u, List.mem_singleton_self u, d', found', inside'⟩
    exact disjoint x left left'
  obtain ⟨active,s,hs,below⟩ := (origin t ht).2 d found
  obtain ⟨active',s',hs',below'⟩ := (origin u hu).2 d' found'
  refine (consistent.orthogonal d d' active active').apart ?_ ?_
  · exact fun inside => shared hs below (wf.below_of_below_within below inside)
  · exact fun inside => shared hs' (wf.below_of_below_within below' inside) below'

theorem taking_legal (wf : c.WellFormed) (plain : c.Plain) {transitions : List TransitionIndex}
    (history' : HistoryTable) {configuration' : List StateIndex}
    (ready : c.Ready history transitions (activeOrRoot configuration))
    (taken : ∀ x, x ∈ configuration' ↔
      (x ∈ configuration ∧ x ∉ c.exitSet history configuration transitions) ∨
        x ∈ (c.entrySet history' transitions).states) : c.Legal configuration' := by
  have consistent := wf.taking_consistent plain (ready.change_history plain history')
  have stays : ∀ x, c.Stays history' transitions (activeOrRoot configuration) x ↔
      x = root ∨ x ∈ configuration ∧ x ∉ c.exitSet history configuration transitions := by
    intro x
    have clear : (∀ t ∈ transitions, ∀ d, c.domain? history' t = some d → ¬ c.Below x d) ↔
        ∀ t ∈ transitions, ∀ d, c.domain? history t = some d → ¬ c.Below x d := by
      simp only [plain.domain_history history' history]
    rw [Stays, clear, wf.mem_exitSet plain]
    constructor
    · rintro ⟨rfl | active,free⟩
      · exact Or.inl rfl
      · refine Or.inr ⟨active, ?_⟩
        rintro ⟨_,t,ht,d,found,below⟩
        exact free t ht d found below
    · rintro (rfl | ⟨active,free⟩)
      · exact ⟨Or.inl rfl, fun _ _ _ _ => wf.not_root_below⟩
      · exact ⟨Or.inr active, fun t ht d found below => free ⟨active, t, ht, d, found, below⟩⟩
  have same : (fun x => c.Stays history' transitions (activeOrRoot configuration) x ∨
      x ∈ (c.entrySet history' transitions).states) = activeOrRoot configuration' := by
    funext x
    rw [stays x, activeOrRoot, taken x, or_assoc]
  rw [same] at consistent
  refine wf.legal_of_consistent plain consistent ?_
  intro s hs
  rcases consistent.declared s (Or.inr hs) with rfl | below
  · exact wf.nonempty
  · exact wf.below_in_range below

theorem initial_ready (wf : c.WellFormed) (plain : c.Plain)
    (entry : (c.state root).initial = some t) (history : HistoryTable) :
    c.Ready history [t] (activeOrRoot []) := by
  obtain ⟨u,enters,source,kind,targeted,below⟩ := wf.initial root wf.root_kind wf.root_children
  rw [entry] at enters
  cases enters
  have compound := wf.root_compound plain.no_history
  have domain : ∀ d, c.domain? history t = some d ↔ d = root := by
    intro d
    rw [wf.domain_initial plain compound source kind targeted below, Option.some.injEq, eq_comm]
  have only : ∀ s, activeOrRoot [] s → s = root := by
    rintro s (rfl | active)
    · rfl
    · cases active
  refine
    { declared := fun s active => Or.inl (only s active), root := Or.inl rfl
      parent := ?_, orthogonal := ?_, parallel := ?_, compound := ?_, sources := ?_
      domains := ?_, apart := List.pairwise_singleton _ _ }
  · intro s p active hp
    rw [only s active, wf.root_parent] at hp
    cases hp
  · intro x y hx hy
    rw [only x hx, only y hy]
    exact Compatible.refl c root
  · intro s k active par
    rw [only s active, isParallel, wf.root_kind] at par
    cases par
  · intro s active _
    exact Or.inl ⟨t, List.mem_singleton_self t, (domain s).mpr (only s active)⟩
  · intro u hu
    rw [List.mem_singleton.mp hu, source]
    exact wf.nonempty
  · intro u hu d found
    rw [List.mem_singleton.mp hu] at found
    exact Or.inl ((domain d).mp found)

end WellFormed

end Statechart.Chart

import Mathlib.Data.List.Pairwise
import Statechart.Proofs.Chart.Peopling

/- What stays active keeps an atomic state, and what is recorded is not lost.

   A state whose atomic states are left is the domain of a transition or lies around one, and the
   transition enters something in its domain. Leaving may replace records before that, but not those
   of history states around the domain: no other transition leaves what this one does. -/
namespace Statechart.Chart

variable {c : Chart} {history : HistoryTable} {s p a d r t x y : Nat}

/-- A state that leads into a domain still does once records have changed, if they are the same for
    history states whose parents lie around the domain. -/
theorem LeadsTo.again {history' : HistoryTable} (leads : c.LeadsTo history s r)
    (wf : c.WellFormed) (inward : c.Inward history) (inward' : c.Inward history')
    (remembers : c.Remembers history') (peopled : c.Peopled) (low : c.Below r d)
    (same : ∀ h p, (c.state h).parent = some p → c.Below d p →
      history'.lookup h = history.lookup h) :
    ∃ q, c.LeadsTo history' s q ∧ c.Below q d := by
  -- Where the parent of a history state lies in the domain, whatever it leads to does.
  have inner : ∀ h p, (c.state h).parent = some p → c.Within p d →
      ∃ q, c.LeadsTo history' h q ∧ c.Below q d := by
    intro h p hp within
    obtain ⟨q,leads⟩ := (peopled.founded h).leads remembers
    exact ⟨q, leads,
      leads.lands wf.toIsTree inward' (wf.below_of_below_within (wf.below_parent hp) within)⟩
  have sides : ∀ h p, (c.state h).parent = some p → c.Below r p → c.Within p d ∨ c.Below d p := by
    intro h p _ below
    rcases wf.nested_of_common (Or.inr below) (Or.inr low) with within | (rfl | around)
    · exact Or.inl within
    · exact Or.inl (Or.inl rfl)
    · exact Or.inr around
  induction leads with
  | ordinary ordinary => exact ⟨_, .ordinary ordinary, low⟩
  | recorded past found member =>
    obtain ⟨p,hp⟩ := wf.history_parent past
    rcases sides _ p hp (inward.lookup found member hp) with within | around
    · exact inner _ p hp within
    · exact ⟨_, .recorded past ((same _ p hp around).trans found) member, low⟩
  | byDefault past none enters named leads ih =>
    obtain ⟨p,hp⟩ := wf.history_parent past
    have below := leads.lands wf.toIsTree inward (inward.byDefault _ _ past enters _ named p hp)
    rcases sides _ p hp below with within | around
    · exact inner _ p hp within
    · obtain ⟨q,leads',low'⟩ := ih low sides
      exact ⟨q, .byDefault past ((same _ p hp around).trans none) enters named leads', low'⟩

section Microstep

variable {configuration : List StateIndex} {transitions : List TransitionIndex}

theorem lookup_record {h k : StateIndex} {states : List StateIndex} (other : k ≠ h) :
    (record history h states).lookup k = history.lookup k := by
  rw [record, List.lookup_cons, beq_false_of_ne other]
  exact (lookup_filter history h k).trans (if_neg other)

theorem IsTree.lookup_recordAll_left (tree : c.IsTree) {exits : List StateIndex} {h : StateIndex}
    (left : p ∈ exits) (past : h ∈ c.historyChildren p) :
    (c.recordAll configuration exits history).lookup h = some (c.recordFor configuration p h) := by
  have parent : ∀ s i, i ∈ c.historyChildren s → (c.state i).parent = some s := fun s i hi =>
    (tree.child_iff s i).mp (List.mem_filter.mp hi).1
  have made : ∀ k : HistoryTable, (record k h (c.recordFor configuration p h)).lookup h =
      some (c.recordFor configuration p h) := fun k => by simp [record]
  -- Whatever is recorded for `h` is recorded for its parent.
  have kept : ∀ s, ∀ l ⊆ c.historyChildren s, ∀ k : HistoryTable,
      k.lookup h = some (c.recordFor configuration p h) →
      (l.foldl (fun k i => record k i (c.recordFor configuration s i)) k).lookup h =
        some (c.recordFor configuration p h) := by
    intro s l sub k found
    refine List.foldlRecOn (motive := fun k : HistoryTable => k.lookup h =
      some (c.recordFor configuration p h)) _ _ found ?_
    intro k found i hi
    by_cases same : h = i
    · subst same
      have hs := parent s h (sub hi)
      rw [parent p h past] at hs
      cases hs
      exact made k
    · exact (lookup_record same).trans found
  obtain ⟨before,after,rfl⟩ := List.append_of_mem left
  unfold Chart.recordAll
  rw [List.foldl_append, List.foldl_cons]
  refine List.foldlRecOn (motive := fun k : HistoryTable => k.lookup h =
    some (c.recordFor configuration p h)) _ _ ?_ fun k found s _ =>
      kept s _ (List.Subset.refl _) k found
  obtain ⟨first,rest,split⟩ := List.append_of_mem past
  rw [split, List.foldl_append, List.foldl_cons]
  exact kept p rest (fun i hi => by rw [split]; simp [hi]) _ (made _)

theorem IsTree.lookup_recordAll (tree : c.IsTree) {exits : List StateIndex} {h : StateIndex}
    (hp : (c.state h).parent = some p) (stays : p ∉ exits) :
    (c.recordAll configuration exits history).lookup h = history.lookup h := by
  unfold Chart.recordAll
  refine List.foldlRecOn (motive := fun k : HistoryTable => k.lookup h = history.lookup h) _ _
    rfl ?_
  intro k kept s hs
  refine List.foldlRecOn (motive := fun k : HistoryTable => k.lookup h = history.lookup h) _ _
    kept ?_
  intro k kept i hi
  have child : (c.state i).parent = some s := (tree.child_iff s i).mp (List.mem_filter.mp hi).1
  refine (lookup_record ?_).trans kept
  rintro rfl
  rw [hp] at child
  cases child
  exact stays hs

instance (exits : TransitionIndex → List StateIndex) : Std.Symm (DisjointExits exits) where
  symm _ _ apart y hy hy' := apart y hy' hy

/-- Of the transitions, no two leave the same state. -/
def Unmixed (c : Chart) (history : HistoryTable) (configuration : List StateIndex)
    (transitions : List TransitionIndex) : Prop :=
  transitions.Pairwise (DisjointExits fun t => c.exitSet history configuration [t])

theorem Unmixed.eq_of_left (unmixed : c.Unmixed history configuration transitions)
    {u : TransitionIndex} (ht : t ∈ transitions) (hu : u ∈ transitions)
    (left : x ∈ c.exitSet history configuration [t])
    (left' : x ∈ c.exitSet history configuration [u]) : t = u := by
  by_contra differ
  exact unmixed.forall ht hu differ x left left'

theorem domain?_effective (found : c.domain? history t = some d) :
    ∃ r, r ∈ c.effectiveTargets history t := by
  refine List.exists_mem_of_ne_nil _ fun none => ?_
  rw [domain?_eq_none.mpr none] at found
  cases found

namespace WellFormed

theorem entered_within (wf : c.WellFormed) (inward : c.Inward history)
    (remembers : c.Remembers (c.recalled history configuration transitions))
    (peopled : c.Peopled) (unmixed : c.Unmixed history configuration transitions)
    (ht : t ∈ transitions) (found : c.domain? history t = some d) (ha : a ∈ configuration)
    (below : c.Below a d) : ∃ r ∈ c.entered history configuration transitions, c.Within r d := by
  have inward' : c.Inward (c.recalled history configuration transitions) :=
    inward.recordAll wf.toIsTree _
  obtain ⟨_,supplied⟩ := wf.entrySet_supplies inward' remembers peopled transitions
  obtain ⟨r,effective⟩ := domain?_effective found
  obtain ⟨q,target,leads⟩ := leadsTo_of_targetsWithin effective
  rcases wf.domain?_contains found with rfl | contains
  · obtain ⟨r',leads'⟩ := (peopled.founded q).leads remembers
    have entered := supplied t ht q target r' leads'
    exact ⟨r', entered, wf.within_root (leads'.declared wf inward' (wf.targets_declared t q target))⟩
  · obtain ⟨r',leads',low⟩ := leads.again wf inward inward' remembers peopled
      (contains r effective) fun h p hp around => by
        refine wf.lookup_recordAll hp fun gone => ?_
        -- A parent around the domain is left only with all that lies in the domain.
        obtain ⟨_,u,hu,b,found',under⟩ := mem_exitSet_iff.mp gone
        have inside := wf.below_trans around under
        have left : a ∈ c.exitSet history configuration [t] :=
          mem_exitSet_iff.mpr ⟨ha, t, by simp, d, found, below⟩
        have left' : a ∈ c.exitSet history configuration [u] :=
          mem_exitSet_iff.mpr ⟨ha, u, by simp, b, found', wf.below_trans below inside⟩
        obtain rfl := unmixed.eq_of_left ht hu left left'
        rw [found] at found'
        cases found'
        exact wf.not_below_self inside
    exact ⟨r', supplied t ht q target r' leads', Or.inr low⟩

/-- Taking transitions leaves no state without an atomic state. -/
theorem leafed_of_taken (wf : c.WellFormed) (inward : c.Inward history)
    (remembers : c.Remembers (c.recalled history configuration transitions))
    (peopled : c.Peopled) (unmixed : c.Unmixed history configuration transitions)
    (leafed : c.Leafed configuration) {configuration' : List StateIndex}
    (taken : ∀ x, x ∈ configuration' ↔ c.Remains history configuration transitions x ∨
      x ∈ c.entered history configuration transitions) : c.Leafed configuration' := by
  have inward' : c.Inward (c.recalled history configuration transitions) :=
    inward.recordAll wf.toIsTree _
  obtain ⟨anew,_⟩ := wf.entrySet_supplies inward' remembers peopled transitions
  have entered : ∀ x ∈ c.entered history configuration transitions,
      c.HasLeaf configuration' x := fun x hx =>
    (anew x hx).mono fun y hy => (taken y).mpr (Or.inr hy)
  intro x hx
  rcases (taken x).mp hx with remains | fresh
  · obtain ⟨a,ha,atomic,within⟩ := leafed x remains.1
    by_cases left : a ∈ c.exitSet history configuration transitions
    · obtain ⟨_,t,ht,d,found,below⟩ := mem_exitSet_iff.mp left
      have outside : ¬ c.Below x d := fun inside =>
        remains.2 (mem_exitSet_iff.mpr ⟨remains.1, t, ht, d, found, inside⟩)
      have around : c.Within d x := by
        rcases wf.nested_of_common within (Or.inr below) with (rfl | inside) | around
        · exact Or.inl rfl
        · exact absurd inside outside
        · exact around
      obtain ⟨r,hr,inner⟩ :=
        wf.entered_within inward remembers peopled unmixed ht found ha below
      exact (entered r hr).outwards wf.toIsTree (wf.within_trans inner around)
    · exact ⟨a, (taken a).mpr (Or.inl ⟨ha, left⟩), atomic, within⟩
  · exact entered x fresh

end WellFormed

theorem Leafed.ordinary (leafed : c.Leafed configuration) (wf : c.WellFormed)
    (hx : x ∈ configuration) : c.isHistory x = false := by
  obtain ⟨a,_,atomic,rfl | below⟩ := leafed x hx
  · unfold isAtomic at atomic
    unfold isHistory
    cases kind : (c.state a).kind <;> simp_all
  · exact wf.ordinary_of_below below

/-- Active states are recorded, and these are no history states. -/
theorem recalled_ordinary (active : ∀ x ∈ configuration, c.isHistory x = false)
    (old : ∀ entry ∈ history, ∀ r ∈ entry.2, c.isHistory r = false) :
    ∀ entry ∈ c.recalled history configuration transitions, ∀ r ∈ entry.2,
      c.isHistory r = false := by
  apply recordAll_forall (P := fun entry => ∀ r ∈ entry.2, c.isHistory r = false) old
  intro s _ h _ r hr
  exact active r (active_of_recordFor hr)

theorem WellFormed.not_atomic_of_history (wf : c.WellFormed) (inward : c.Inward [])
    (peopled : c.Peopled) {h : StateIndex} (hh : h ∈ c.historyChildren s) :
    c.isAtomic s = false := by
  have hp := (wf.child_iff s h).mp (List.mem_filter.mp hh).1
  have remembers : c.Remembers [] := fun _ none => by cases none
  obtain ⟨r,leads⟩ := (peopled.founded h).leads remembers
  exact wf.not_atomic_of_below (leads.lands wf.toIsTree inward (wf.below_parent hp))
    (leads.ends remembers)

theorem IsTree.active_above (tree : c.IsTree) (closed : c.Closed configuration)
    (ha : a ∈ configuration) {k : StateIndex} (within : c.Within a k)
    (hk : (c.state k).parent = some s) : k ∈ configuration := by
  induction a using Nat.strongRecOn with
  | ind a ih =>
    rcases within with rfl | below
    · exact ha
    · obtain ⟨p,hp,up⟩ := tree.below_iff.mp below
      rcases closed a ha p hp with active | rfl
      · exact ih p (tree.parent_lt hp) active up
      · rcases up with rfl | above
        · rw [tree.root_parent] at hk
          cases hk
        · exact absurd above tree.not_root_below

/-- Where parents are active, records are not empty. -/
theorem Leafed.recalled_some (leafed : c.Leafed configuration) (wf : c.WellFormed)
    (inward : c.Inward []) (peopled : c.Peopled) (closed : c.Closed configuration)
    (old : ∀ entry ∈ history, entry.2 ≠ []) :
    ∀ entry ∈ c.recalled history configuration transitions, entry.2 ≠ [] := by
  refine recordAll_forall (P := fun entry => entry.2 ≠ []) old ?_
  intro s hs h hh
  obtain ⟨a,ha,atomic,within⟩ := leafed s (mem_exitSet_iff.mp hs).1
  have below : c.Below a s := by
    rcases within with rfl | below
    · rw [wf.not_atomic_of_history inward peopled hh] at atomic
      cases atomic
    · exact below
  unfold recordFor
  split
  · exact List.ne_nil_of_mem (List.mem_filter.mpr ⟨ha, by simp [atomic, below]⟩)
  · obtain ⟨k,hk,inner⟩ := wf.child_toward below
    exact List.ne_nil_of_mem (List.mem_filter.mpr ⟨wf.active_above closed ha inner hk, by simpa using hk⟩)

end Microstep

end Statechart.Chart

import Statechart.Proofs.Chart.Conflicts
import Statechart.Proofs.Chart.Locality
import Statechart.Proofs.Chart.Remembering

/- Coming back through a history state.

   What is recorded is entered first, and the regions of all parallel states around it are then
   occupied: those inside the parent, because all regions of an active parallel state were active and
   each had an atomic state or is recorded itself, and those around the parent by what is recorded. So
   inside the parent nothing is entered by default but what a recorded child brings with it. -/
namespace Statechart.Chart

variable {c : Chart} {history : HistoryTable} {configuration : List StateIndex} {e e' : EntrySet}
  {P a d h k r t u top x y : Nat}

/-- The way states are entered adds to what is there, and for an ordinary state only inside it. -/
structure Tidy (c : Chart) (descend : StateIndex → EntrySet → EntrySet) : Prop where
  grows : ∀ s e, e.states ⊆ (descend s e).states
  within : ∀ k e x, c.isHistory k = false → x ∈ (descend k e).states →
    x ∈ e.states ∨ c.Within x k

theorem WellFormed.addDescendants_tidy (wf : c.WellFormed) (inward : c.Inward history)
    (depth : Nat) : c.Tidy (c.addDescendants history depth) where
  grows s e := wf.addDescendants_grows history depth s e
  within _ _ _ ordinary hx := wf.addDescendants_within inward depth ordinary hx

/-- Something has been entered in each region of the parallel states around `r` that lie in `P`, and in
    those regions around `r` that `P` lies in. -/
def Occupied (c : Chart) (P r : StateIndex) (e : EntrySet) : Prop :=
  ∀ a, c.isParallel a = true → c.Below r a → ∀ k ∈ c.childStates a,
    c.Within a P ∨ c.Within P k → ∃ y ∈ e.states, c.Within y k

theorem Occupied.mono (occupied : c.Occupied P r e) (more : e.states ⊆ e'.states) :
    c.Occupied P r e' := by
  intro a parallel above k hk inside
  obtain ⟨y,hy,within⟩ := occupied a parallel above k hk inside
  exact ⟨y, more hy, within⟩

namespace IsTree

variable {descend : StateIndex → EntrySet → EntrySet}

theorem regions_inside (tree : c.IsTree) (tidy : c.Tidy descend) (parallel : c.isParallel a = true)
    (above : c.Below r a) (occupied : c.Occupied P r e) :
    e.states ⊆ (c.addMissingRegions descend a e).states ∧
      ∀ x, c.Below x P → x ∈ (c.addMissingRegions descend a e).states → x ∈ e.states := by
  unfold addMissingRegions
  refine List.foldlRecOn (motive := fun e' : EntrySet => e.states ⊆ e'.states ∧
    ∀ x, c.Below x P → x ∈ e'.states → x ∈ e.states) _ _ ⟨List.Subset.refl _, fun _ _ hx => hx⟩ ?_
  intro e' ⟨more,inside⟩ k hk
  simp only
  split
  · exact ⟨more, inside⟩
  · rename_i uncovered
    refine ⟨List.Subset.trans more (tidy.grows k e'), fun x below hx => ?_⟩
    refine inside x below ((tidy.within k e' x (childStates_plain hk) hx).resolve_right fun within => ?_)
    -- The region would lie in `P` or around it, so something would have been entered in it.
    have child := tree.childStates_parent hk
    have near : c.Within a P ∨ c.Within P k := by
      rcases tree.nested_of_common within (Or.inr below) with (rfl | low) | around
      · exact Or.inr (Or.inl rfl)
      · exact Or.inl (tree.within_parent_of_below_child child low)
      · exact Or.inr around
    obtain ⟨y,hy,inner⟩ := occupied a parallel above k hk near
    refine uncovered (List.any_eq_true.mpr ⟨y, more hy, ?_⟩)
    simpa [Within] using inner

theorem climb_inside (tree : c.IsTree) (tidy : c.Tidy descend) (low : c.Below r top)
    (occupied : c.Occupied P r e) :
    e.states ⊆ (c.addAncestors descend r top e).states ∧
      ∀ x, c.Below x P → x ∈ (c.addAncestors descend r top e).states → x ∈ e.states ∨ c.Below r x := by
  unfold addAncestors
  refine List.foldlRecOn (motive := fun e' : EntrySet => e.states ⊆ e'.states ∧
    ∀ x, c.Below x P → x ∈ e'.states → x ∈ e.states ∨ c.Below r x) _ _
    ⟨List.Subset.refl _, fun _ _ hx => Or.inl hx⟩ ?_
  intro e' ⟨more,inside⟩ a ha
  have above := ((tree.path_iff low).mp ha).1
  have more' := List.Subset.trans more (subset_add e' a)
  have added : ∀ x, c.Below x P → x ∈ (e'.add a).states → x ∈ e.states ∨ c.Below r x := by
    intro x below hx
    rcases mem_insertIndex.mp hx with rfl | old
    · exact Or.inr above
    · exact inside x below old
  simp only
  split
  · rename_i parallel
    obtain ⟨further,same⟩ := tree.regions_inside tidy parallel above (occupied.mono more')
    exact ⟨List.Subset.trans more' further, fun x below hx => added x below (same x below hx)⟩
  · exact ⟨more', added⟩

theorem climbs_inside (tree : c.IsTree) (tidy : c.Tidy descend) (climbers : List StateIndex)
    (low : ∀ r ∈ climbers, c.Below r top) (occupied : ∀ r ∈ climbers, c.Occupied P r e) :
    let e' := climbers.foldl (fun e r => c.addAncestors descend r top e) e
    e.states ⊆ e'.states ∧
      ∀ x, c.Below x P → x ∈ e'.states → x ∈ e.states ∨ ∃ r ∈ climbers, c.Below r x := by
  refine List.foldlRecOn (motive := fun e' : EntrySet => e.states ⊆ e'.states ∧
    ∀ x, c.Below x P → x ∈ e'.states → x ∈ e.states ∨ ∃ r ∈ climbers, c.Below r x) _ _
    ⟨List.Subset.refl _, fun _ _ hx => Or.inl hx⟩ ?_
  intro e' ⟨more,inside⟩ r hr
  obtain ⟨further,way⟩ := tree.climb_inside tidy (low r hr) ((occupied r hr).mono more)
  refine ⟨List.Subset.trans more further, fun x below hx => ?_⟩
  rcases way x below hx with old | above
  · exact inside x below old
  · exact Or.inr ⟨r, hr, above⟩

end IsTree

section Recording

theorem Legal.leafed (legal : c.Legal configuration) (tree : c.IsTree)
    (ordinary : ∀ x ∈ configuration, c.isHistory x = false)
    (regions : ∀ s, c.isParallel s = true → c.childStates s ≠ []) : c.Leafed configuration := by
  suffices all : ∀ n x : Nat, c.states.size - x = n → x ∈ configuration →
      c.HasLeaf configuration x from fun x hx => all _ x rfl hx
  intro n
  induction n using Nat.strongRecOn with
  | ind n ih =>
    intro x room hx
    have declared : x < c.states.size := legal.declared x hx
    -- What lies in a child lies in its parent.
    have through : ∀ k : Nat, (c.state k).parent = some x → k ∈ configuration →
        c.HasLeaf configuration x := by
      intro k hk active
      have after : x < k := tree.parent_lt hk
      exact (ih (c.states.size - k) (by omega) k rfl active).outwards tree
        (Or.inr (tree.below_parent hk))
    by_cases compound : c.isCompound x = true
    · obtain ⟨k,hk,active,_⟩ := legal.compound x hx compound
      exact through k (tree.childStates_parent hk) active
    · by_cases parallel : c.isParallel x = true
      · obtain ⟨k,hk⟩ := List.exists_mem_of_ne_nil _ (regions x parallel)
        exact through k (tree.childStates_parent hk) (legal.parallel x hx parallel k hk)
      · refine ⟨x, hx, ?_, Or.inl rfl⟩
        have past := ordinary x hx
        revert compound parallel past
        unfold isCompound isParallel isHistory isAtomic
        cases (c.state x).kind <;> simp

theorem mem_recordFor_deep (deep : (c.state h).kind = .history .deep) :
    r ∈ c.recordFor configuration P h ↔
      r ∈ configuration ∧ c.isAtomic r = true ∧ c.Below r P := by
  unfold recordFor
  simp [deep]

theorem mem_recordFor_shallow (shallow : (c.state h).kind ≠ .history .deep) :
    r ∈ c.recordFor configuration P h ↔ r ∈ configuration ∧ (c.state r).parent = some P := by
  unfold recordFor
  split
  · contradiction
  · simp

theorem Legal.occupied (legal : c.Legal configuration) (tree : c.IsTree)
    (leafed : c.Leafed configuration) (active : P ∈ configuration)
    (entered : ∀ r ∈ c.recordFor configuration P h, r ∈ e.states)
    (hr : r ∈ c.recordFor configuration P h) : c.Occupied P r e := by
  have below := recordFor_below tree hr
  intro a parallel above k hk inside
  rcases inside with inside | around
  · have child := tree.childStates_parent hk
    by_cases deep : (c.state h).kind = .history .deep
    · have up : a ∈ configuration := by
        rcases inside with rfl | under
        · exact active
        · obtain ⟨p,hp,_⟩ := tree.below_iff.mp under
          exact tree.active_above legal.parent ((mem_recordFor_deep deep).mp hr).1 (Or.inr above) hp
      obtain ⟨y,hy,atomic,within⟩ := leafed k (legal.parallel a up parallel k hk)
      have low := tree.below_of_within_below within
        (tree.below_of_below_within (tree.below_parent child) inside)
      exact ⟨y, entered y ((mem_recordFor_deep deep).mpr ⟨hy, atomic, low⟩), within⟩
    · -- Around a recorded child and inside `P` there is only `P`.
      have wider := tree.within_parent_of_below_child ((mem_recordFor_shallow deep).mp hr).2 above
      obtain rfl : a = P := by
        rcases inside with same | under
        · exact same
        · exact absurd (tree.below_of_within_below wider under) tree.not_below_self
      have region := legal.parallel a active parallel k hk
      exact ⟨k, entered k ((mem_recordFor_shallow deep).mpr ⟨region, child⟩), Or.inl rfl⟩
  · exact ⟨r, entered r hr, Or.inr (tree.below_of_below_within below around)⟩

/-- Deep records are of all that is active inside: it lies around what is recorded. -/
theorem Legal.mem_deep (legal : c.Legal configuration) (tree : c.IsTree)
    (leafed : c.Leafed configuration) (deep : (c.state h).kind = .history .deep)
    (below : c.Below x P) : x ∈ configuration ↔
      ∃ r ∈ c.recordFor configuration P h, c.Within r x := by
  constructor
  · intro hx
    obtain ⟨r,hr,atomic,within⟩ := leafed x hx
    exact ⟨r, (mem_recordFor_deep deep).mpr ⟨hr, atomic, tree.below_of_within_below within below⟩, within⟩
  · rintro ⟨r,hr,within⟩
    obtain ⟨p,hp,_⟩ := tree.below_iff.mp below
    exact tree.active_above legal.parent ((mem_recordFor_deep deep).mp hr).1 within hp

theorem Legal.recordFor_ne_nil (legal : c.Legal configuration) (wf : c.WellFormed)
    (leafed : c.Leafed configuration) (active : P ∈ configuration) (below : c.Below x P)
    (ordinary : c.isHistory x = false) : c.recordFor configuration P h ≠ [] := by
  obtain ⟨k,child,_⟩ := wf.region_toward below ordinary
  have occupied : ∃ i ∈ configuration, (c.state i).parent = some P := by
    cases kind : (c.state P).kind with
    | state =>
      have compound : c.isCompound P = true := by
        simpa [isCompound, kind] using List.ne_nil_of_mem child
      obtain ⟨i,hi,on,_⟩ := legal.compound P active compound
      exact ⟨i, on, wf.childStates_parent hi⟩
    | parallel =>
      exact ⟨k, legal.parallel P active (by simp [isParallel, kind]) k child,
        wf.childStates_parent child⟩
    | final =>
      rw [childStates, wf.leaf_final P (by simp [isFinal, kind])] at child
      cases child
    | history _ =>
      rw [childStates, wf.leaf_history P (by simp [isHistory, kind])] at child
      cases child
  obtain ⟨i,on,hi⟩ := occupied
  by_cases deep : (c.state h).kind = .history .deep
  · obtain ⟨r,hr,atomic,inner⟩ := leafed i on
    exact List.ne_nil_of_mem ((mem_recordFor_deep deep).mpr
      ⟨hr, atomic, wf.below_of_within_below inner (wf.below_parent hi)⟩)
  · exact List.ne_nil_of_mem ((mem_recordFor_shallow deep).mpr ⟨on, hi⟩)

end Recording

section Restoring

theorem effectiveTargets_of_record {states : List StateIndex} (past : c.isHistory h = true)
    (record : history.lookup h = some states) (only : (c.transition t).targets = [h]) :
    x ∈ c.effectiveTargets history t ↔ x ∈ states := by
  rw [mem_effectiveTargets, only]
  simp [standsFor, past, record]

theorem domain?_of_same_record {history' : HistoryTable} {states : List StateIndex}
    (past : c.isHistory h = true) (record : history.lookup h = some states)
    (record' : history'.lookup h = some states) (only : (c.transition t).targets = [h]) :
    c.domain? history' t = c.domain? history t := by
  have same : c.effectiveTargets history' t = c.effectiveTargets history t := by
    simp [effectiveTargets, targetsWithin, only, past, record, record']
  simp only [domain?, same]

theorem IsTree.domain?_around (tree : c.IsTree) (found : c.domain? history t = some d)
    (outside : ¬ c.Within (c.transition t).source P) (proper : c.Below P root)
    (inside : ∀ r ∈ c.effectiveTargets history t, c.Below r P) : c.Below P d := by
  obtain ⟨r,hr⟩ := domain?_effective found
  have apart : c.Below r d → ¬ c.Within d P → c.Below P d := by
    intro low out
    rcases tree.nested_of_common (Or.inr (inside r hr)) (Or.inr low) with (rfl | around) | within
    · exact absurd (Or.inl rfl) out
    · exact around
    · exact absurd within out
  rcases tree.domain?_cases found with ⟨internal,rfl⟩ | ⟨-,rfl | around,-⟩
  · exact apart (internal.2.2 r hr) outside
  · exact proper
  · exact apart (around.effective r hr) fun within =>
      outside (Or.inr (tree.below_of_below_within around.source within))

/-- `P` is active in a legal configuration and has a history state. -/
structure Remembering (c : Chart) (configuration : List StateIndex) (P h : StateIndex) : Prop where
  legal : c.Legal configuration
  leafed : c.Leafed configuration
  once : configuration.Nodup
  active : P ∈ configuration
  past : h ∈ c.historyChildren P

namespace Remembering

variable (remembering : c.Remembering configuration P h) (wf : c.WellFormed)
  (record : history.lookup h = some (c.recordFor configuration P h))
  (only : (c.transition t).targets = [h])

include remembering

theorem isHistory : c.isHistory h = true := (List.mem_filter.mp remembering.past).2

include wf

theorem parent : (c.state h).parent = some P :=
  (wf.child_iff P h).mp (List.mem_filter.mp remembering.past).1

theorem recorded_ordinary (hr : r ∈ c.recordFor configuration P h) : c.isHistory r = false := by
  refine remembering.leafed.ordinary wf ?_
  unfold recordFor at hr
  split at hr
  · exact (List.mem_filter.mp hr).1
  · exact (List.mem_filter.mp hr).1

theorem mem_recorded (inward : c.Inward history) (fresh : ∀ x ∈ e.states, ¬ c.Below x P)
    (below : c.Below x P) :
    x ∈ ((c.recordFor configuration P h).foldl
        (fun e r => c.addDescendants history (c.nesting - 1) r e) e).states ↔
      if (c.state h).kind = .history .deep then x ∈ c.recordFor configuration P h
      else ∃ k ∈ c.recordFor configuration P h, x ∈ c.enteredAlone history k := by
  split
  · rename_i deep
    obtain ⟨n,inner⟩ := wf.nesting_deep
    have each : ∀ (l : List StateIndex), (∀ r ∈ l, c.isAtomic r = true) → ∀ e : EntrySet,
        x ∈ (l.foldl (fun e r => c.addDescendants history (n + 1) r e) e).states ↔
          x ∈ e.states ∨ x ∈ l := by
      intro l
      induction l with
      | nil => simp
      | cons r rest ih =>
        intro atomic e
        rw [List.foldl_cons, ih (fun q hq => atomic q (List.mem_cons_of_mem _ hq)),
          WellFormed.addDescendants_atomic history n (atomic r List.mem_cons_self), EntrySet.add,
          mem_insertIndex, List.mem_cons]
        tauto
    rw [inner, each _ fun r hr => ((mem_recordFor_deep deep).mp hr).2.1]
    exact or_iff_right fun old => fresh x old below
  · rename_i shallow
    have once : (c.recordFor configuration P h).Nodup := by
      unfold recordFor
      split
      · exact remembering.once.filter _
      · exact remembering.once.filter _
    rw [wf.mem_siblings inward _ (fun k hk => ⟨((mem_recordFor_shallow shallow).mp hk).2,
      remembering.recorded_ordinary wf hk⟩) once fresh]
    exact or_iff_right fun old => fresh x old below

theorem recorded_entered (inward : c.Inward history) (e : EntrySet) :
    ∀ r ∈ c.recordFor configuration P h, r ∈ ((c.recordFor configuration P h).foldl
      (fun e r => c.addDescendants history (c.nesting - 1) r e) e).states := by
  have tidy := wf.addDescendants_tidy inward (c.nesting - 1)
  obtain ⟨n,inner⟩ := wf.nesting_deep
  have grows : ∀ (l : List StateIndex) (e : EntrySet),
      e.states ⊆ (l.foldl (fun e r => c.addDescendants history (c.nesting - 1) r e) e).states :=
    fun l e => List.foldlRecOn (motive := fun e' : EntrySet => e.states ⊆ e'.states) _ _
      (List.Subset.refl _) fun e' more r _ => List.Subset.trans more (tidy.grows r e')
  intro r hr
  have ordinary := remembering.recorded_ordinary wf hr
  obtain ⟨before,after,split⟩ := List.append_of_mem hr
  rw [split, List.foldl_append, List.foldl_cons]
  refine grows after _ ?_
  rw [inner]
  exact wf.addDescendants_self history n ordinary _

include record only

/-- Entering for a transition to the history state enters inside `P` what was active there if the
    history state is deep, and else what the active children of `P` enter each on its own. -/
theorem enterFor_restores (inward : c.Inward history) (found : c.domain? history t = some d)
    (around : c.Below P d) (fresh : ∀ x ∈ e.states, ¬ c.Below x P) (below : c.Below x P) :
    x ∈ (c.enterFor history e t).states ↔
      if (c.state h).kind = .history .deep then x ∈ configuration
      else ∃ k ∈ configuration, (c.state k).parent = some P ∧ x ∈ c.enteredAlone history k := by
  have tree := wf.toIsTree
  have effective : ∀ r, r ∈ c.effectiveTargets history t ↔ r ∈ c.recordFor configuration P h :=
    fun r => effectiveTargets_of_record remembering.isHistory record only
  have low : ∀ r ∈ c.recordFor configuration P h, c.Below r P := fun r hr => recordFor_below tree hr
  have first : c.addDescendants history c.nesting h e =
      c.addTargets (c.addDescendants history (c.nesting - 1)) (c.recordFor configuration P h) P e := by
    obtain ⟨n,deep⟩ : ∃ n, c.nesting = n + 1 := ⟨_, rfl⟩
    rw [deep, addDescendants]
    simp only [remembering.isHistory, if_true, remembering.parent wf, Option.getD_some, record]
    rfl
  simp only [enterFor, only, List.foldl_cons, List.foldl_nil, found, first]
  unfold addTargets
  have started := remembering.mem_recorded wf inward fresh below
  have entered := remembering.recorded_entered wf inward e
  generalize (c.recordFor configuration P h).foldl
    (fun e r => c.addDescendants history (c.nesting - 1) r e) e = e₀ at started entered ⊢
  have occupied : ∀ r ∈ c.recordFor configuration P h, c.Occupied P r e₀ := fun r hr =>
    remembering.legal.occupied tree remembering.leafed remembering.active entered hr
  obtain ⟨more,inside⟩ := tree.climbs_inside (wf.addDescendants_tidy inward _) _ low occupied
  have way : ∀ r ∈ c.recordFor configuration P h, c.Below r x →
      x ∈ ((c.recordFor configuration P h).foldl (fun e r =>
        c.addAncestors (c.addDescendants history (c.nesting - 1)) r P e) e₀).states := fun r hr above =>
    tree.climbs_enter (tree.addDescendants_hooks history _) e₀ hr above below
  generalize (c.recordFor configuration P h).foldl
    (fun e r => c.addAncestors (c.addDescendants history (c.nesting - 1)) r P e) e₀ = e₁
    at more inside way ⊢
  obtain ⟨further,outside⟩ := tree.climbs_inside (e := e₁) (P := P)
    (wf.addDescendants_tidy inward c.nesting) (c.effectiveTargets history t)
    (fun r hr => tree.below_trans (low r ((effective r).mp hr)) around)
    fun r hr => (occupied r ((effective r).mp hr)).mono more
  -- Inside `P` there is what the records have brought and what lies on the way to them.
  have members : x ∈ ((c.effectiveTargets history t).foldl (fun e r =>
      c.addAncestors (c.addDescendants history c.nesting) r d e) e₁).states ↔
      x ∈ e₀.states ∨ ∃ r ∈ c.recordFor configuration P h, c.Below r x := by
    constructor
    · intro hx
      rcases outside x below hx with early | ⟨r,hr,above⟩
      · exact inside x below early
      · exact Or.inr ⟨r, (effective r).mp hr, above⟩
    · rintro (old | ⟨r,hr,above⟩)
      · exact further (more old)
      · exact further (way r hr above)
  rw [members, started]
  split
  · rename_i deep
    rw [remembering.legal.mem_deep tree remembering.leafed deep below]
    constructor
    · rintro (own | ⟨r,hr,above⟩)
      · exact ⟨x, own, Or.inl rfl⟩
      · exact ⟨r, hr, Or.inr above⟩
    · rintro ⟨r,hr,rfl | above⟩
      · exact Or.inl hr
      · exact Or.inr ⟨r, hr, above⟩
  · rename_i shallow
    have nothing : ¬ ∃ r ∈ c.recordFor configuration P h, c.Below r x := by
      rintro ⟨r,hr,above⟩
      have wider := tree.within_parent_of_below_child ((mem_recordFor_shallow shallow).mp hr).2 above
      exact tree.not_below_self (tree.below_of_within_below wider below)
    rw [or_iff_left nothing]
    simp only [mem_recordFor_shallow shallow, and_assoc]

end Remembering

end Restoring

section Taking

variable {transitions : List TransitionIndex} {configuration' : List StateIndex} {u D : Nat}

/-- An active atomic state lies in the source of a transition. -/
def Prompted (c : Chart) (configuration : List StateIndex) (t : TransitionIndex) : Prop :=
  ∃ y ∈ configuration, c.isAtomic y = true ∧ c.Within y (c.transition t).source

theorem Prompted.leaves (prompted : c.Prompted configuration t) (tree : c.IsTree)
    (active : c.Inside configuration) (top : c.isAtomic root = false)
    (found : c.domain? history t = some d) : ∃ y ∈ configuration, c.Below y d := by
  obtain ⟨y,hy,atomic,within⟩ := prompted
  refine ⟨y, hy, tree.atomic_below_domain found atomic within ?_⟩
  refine (tree.within_root (active y hy)).resolve_left ?_
  rintro rfl
  rw [top] at atomic
  cases atomic

/-- While nothing is active in `P`, no other transition that is taken with one whose domain is around
    `P` has a domain that holds anything of `P`. -/
theorem Prompted.outside (prompted : c.Prompted configuration u)
    (other : c.Prompted configuration t) (tree : c.IsTree) (active : c.Inside configuration)
    (top : c.isAtomic root = false) (inactive : ∀ x ∈ configuration, ¬ c.Within x P)
    (apart : DisjointExits (fun t => c.exitSet history configuration [t]) u t)
    (found : c.domain? history t = some d) (around : c.Below P d)
    (found' : c.domain? history u = some D) (inside : c.Below x D) : ¬ c.Below x P := by
  intro below
  obtain ⟨y,hy,low⟩ := other.leaves tree active top found
  obtain ⟨z,hz,low'⟩ := prompted.leaves tree active top found'
  have left : ∀ {t d z}, c.domain? history t = some d → z ∈ configuration → c.Below z d →
      z ∈ c.exitSet history configuration [t] := fun {t d z} found hz below =>
    mem_exitSet_iff.mpr ⟨hz, t, List.mem_singleton_self t, d, found, below⟩
  rcases tree.nested_of_common (Or.inr inside) (Or.inr below) with inner | outer
  · exact inactive z hz (Or.inr (tree.below_of_below_within low' inner))
  · -- Both domains are around `P`, so one lies in the other and both leave what the inner one does.
    rcases tree.nested_of_common outer (Or.inr around) with inner | outer
    · exact apart z (left found' hz low') (left found hz (tree.below_of_below_within low' inner))
    · exact apart y (left found' hy (tree.below_of_below_within low outer)) (left found hy low)

theorem WellFormed.enterFor_outside (wf : c.WellFormed) (inward : c.Inward history')
    (contained : c.Contained history transitions) {others : List TransitionIndex}
    (sub : others ⊆ transitions)
    (outside : ∀ u ∈ others, ∀ D, c.domain? history u = some D → ∀ x, c.Below x D → ¬ c.Below x P)
    (e : EntrySet) (below : c.Below x P) :
    x ∈ (others.foldl (c.enterFor history') e).states ↔ x ∈ e.states := by
  refine List.foldlRecOn (motive := fun e' : EntrySet => x ∈ e'.states ↔ x ∈ e.states) _ _ Iff.rfl ?_
  intro e' same u hu
  rw [← same]
  refine ⟨fun hx => ?_, fun hx => wf.enterFor_grows history' e' u hx⟩
  rcases wf.enterFor_contained inward contained (sub hu) hx with old | ⟨rfl,_⟩ | ⟨D,found,inside⟩
  · exact old
  · exact absurd below wf.not_root_below
  · exact absurd below (outside u hu D found x inside)

/-- A transition to the history state `h` of `P` is taken from outside while nothing is active in `P`,
    with others whose history states lie in their domains. -/
structure Returns (c : Chart) (history : HistoryTable) (configuration : List StateIndex)
    (P h t : StateIndex) (transitions : List TransitionIndex) : Prop where
  member : t ∈ transitions
  only : (c.transition t).targets = [h]
  outside : ¬ c.Within (c.transition t).source P
  inactive : ∀ x ∈ configuration, ¬ c.Within x P
  active : c.Inside configuration
  contained : c.Contained history (transitions.filter (· ≠ t))
  unmixed : c.Unmixed history configuration transitions
  prompted : transitions.length ≤ 1 ∨ ∀ u ∈ transitions, c.Prompted configuration u

theorem Returns.others (returns : c.Returns history configuration P h t transitions)
    (tree : c.IsTree) (top : c.isAtomic root = false) (found : c.domain? history t = some d)
    (around : c.Below P d) {before after : List TransitionIndex}
    (split : transitions = before ++ t :: after) :
    ∀ u ∈ before ++ after, u ∈ transitions.filter (· ≠ t) ∧
      ∀ D, c.domain? history u = some D → ∀ x, c.Below x D → ¬ c.Below x P := by
  intro u hu
  have hu' : u ∈ transitions := by
    rw [split]
    rcases List.mem_append.mp hu with first | last
    · exact List.mem_append_left _ first
    · exact List.mem_append_right _ (List.mem_cons_of_mem _ last)
  have prompted : ∀ u ∈ transitions, c.Prompted configuration u := by
    refine returns.prompted.resolve_left fun few => ?_
    rw [split, List.length_append, List.length_cons] at few
    have short : (before ++ after).length = 0 := by
      rw [List.length_append]
      omega
    rw [List.length_eq_zero_iff.mp short] at hu
    cases hu
  have apart : DisjointExits (fun t => c.exitSet history configuration [t]) u t := by
    have unmixed := returns.unmixed
    rw [split] at unmixed
    obtain ⟨_,later,across⟩ := List.pairwise_append.mp unmixed
    rcases List.mem_append.mp hu with first | last
    · exact across u first t List.mem_cons_self
    · exact Std.Symm.symm _ _ ((List.pairwise_cons.mp later).1 u last)
  have own := prompted t returns.member
  refine ⟨List.mem_filter.mpr ⟨hu', ?_⟩, fun D found' x inside =>
    (prompted u hu').outside own tree returns.active top returns.inactive apart found around found'
      inside⟩
  -- If it were the same transition it would leave nothing.
  simp only [ne_eq, decide_not, Bool.not_eq_true', decide_eq_false_iff_not]
  rintro rfl
  obtain ⟨y,hy,low⟩ := own.leaves tree returns.active top found
  have left := mem_exitSet_iff.mpr ⟨hy, u, List.mem_singleton_self u, d, found, low⟩
  exact apart y left left

/-- When the transition is taken, what has been active in `P` is active there again if the history state
    is deep, and else its active children, each with what entering it on its own enters. -/
theorem Remembering.restored (remembering : c.Remembering configuration P h) (wf : c.WellFormed)
    (inward : c.Inward history) (proper : c.Below P root)
    (record : history.lookup h = some (c.recordFor configuration P h))
    (returns : c.Returns history configuration' P h t transitions) (below : c.Below x P) :
    c.Remains history configuration' transitions x ∨
        x ∈ c.entered history configuration' transitions ↔
      if (c.state h).kind = .history .deep then x ∈ configuration
      else ∃ k ∈ configuration, (c.state k).parent = some P ∧
        x ∈ c.enteredAlone (c.recalled history configuration' transitions) k := by
  have tree := wf.toIsTree
  have inward' : c.Inward (c.recalled history configuration' transitions) :=
    inward.recordAll tree _
  have record' : (c.recalled history configuration' transitions).lookup h =
      some (c.recordFor configuration P h) := by
    refine (tree.lookup_recordAll (remembering.parent wf) fun left => ?_).trans record
    exact returns.inactive P (mem_exitSet_iff.mp left).1 (Or.inl rfl)
  rw [or_iff_right fun remains => returns.inactive x remains.1 (Or.inr below)]
  have known : ∀ r, r ∈ c.effectiveTargets history t ↔ r ∈ c.recordFor configuration P h :=
    fun r => effectiveTargets_of_record remembering.isHistory record returns.only
  have same := domain?_of_same_record remembering.isHistory record record' returns.only
  cases found : c.domain? history t with
  | none =>
    -- Nothing has been recorded, so there are no ordinary states inside.
    have nothing : c.recordFor configuration P h = [] :=
      List.eq_nil_iff_forall_not_mem.mpr fun r hr => by
        rw [← known, domain?_eq_none.mp found] at hr
        cases hr
    refine iff_of_false (fun entered => ?_) fun was => ?_
    · exact remembering.legal.recordFor_ne_nil wf remembering.leafed remembering.active below
        (wf.entrySet_ordinary _ _ x entered) nothing
    · split at was
      · rename_i deep
        obtain ⟨r,hr,_⟩ := (remembering.legal.mem_deep tree remembering.leafed deep below).mp was
        exact absurd nothing (List.ne_nil_of_mem hr)
      · rename_i shallow
        obtain ⟨k,hk,child,_⟩ := was
        exact absurd nothing (List.ne_nil_of_mem ((mem_recordFor_shallow shallow).mpr ⟨hk, child⟩))
  | some d =>
    have around : c.Below P d := tree.domain?_around found returns.outside proper fun r hr =>
      recordFor_below tree ((known r).mp hr)
    have top : c.isAtomic root = false := wf.not_atomic_of_below proper
      (wf.ordinary_of_below (wf.below_parent (remembering.parent wf)))
    obtain ⟨before,after,split⟩ := List.append_of_mem returns.member
    have others := returns.others tree top found around split
    change x ∈ (transitions.foldl (c.enterFor (c.recalled history configuration' transitions))
      {}).states ↔ _
    generalize c.recalled history configuration' transitions = recalled at inward' record' same ⊢
    have quiet : ∀ l ⊆ before ++ after, ∀ e : EntrySet, ∀ x, c.Below x P →
        (x ∈ (l.foldl (c.enterFor recalled) e).states ↔ x ∈ e.states) := fun l sub e x below =>
      wf.enterFor_outside inward' returns.contained (fun u hu => (others u (sub hu)).1)
        (fun u hu => (others u (sub hu)).2) e below
    rw [split, List.foldl_append, List.foldl_cons, quiet after (List.subset_append_right _ _) _ x below]
    refine remembering.enterFor_restores wf record' returns.only inward' (same.trans found) around
      (fun y hy inside => ?_) below
    cases (quiet before (List.subset_append_left _ _) {} y inside).mp hy

/-- What was active in `P` is active there again: all of it if the history state `h` is deep, and else
    the children of `P`, each with what entering it on its own enters. -/
structure Restored (c : Chart) (history : HistoryTable) (P h : StateIndex)
    (configuration configuration' : List StateIndex) : Prop where
  deep : (c.state h).kind = .history .deep → ∀ x, c.Below x P →
    (x ∈ configuration' ↔ x ∈ configuration)
  children : (c.state h).kind ≠ .history .deep → ∀ k, (c.state k).parent = some P →
    (k ∈ configuration' ↔ k ∈ configuration)
  inside : (c.state h).kind ≠ .history .deep → ∀ x, c.Below x P →
    (x ∈ configuration' ↔ ∃ k ∈ configuration', (c.state k).parent = some P ∧
      x ∈ c.enteredAlone history k)

theorem Remembering.restores (remembering : c.Remembering configuration P h) (wf : c.WellFormed)
    (inward : c.Inward history) (proper : c.Below P root)
    (record : history.lookup h = some (c.recordFor configuration P h))
    (returns : c.Returns history configuration' P h t transitions) {after : List StateIndex}
    (taken : ∀ x, x ∈ after ↔ c.Remains history configuration' transitions x ∨
      x ∈ c.entered history configuration' transitions) :
    c.Restored (c.recalled history configuration' transitions) P h configuration after := by
  have inward' : c.Inward (c.recalled history configuration' transitions) :=
    inward.recordAll wf.toIsTree _
  have members := fun x (below : c.Below x P) =>
    (taken x).trans (remembering.restored wf inward proper record returns below)
  have shallow : (c.state h).kind ≠ .history .deep → ∀ x, c.Below x P →
      (x ∈ after ↔ ∃ k ∈ configuration, (c.state k).parent = some P ∧
        x ∈ c.enteredAlone (c.recalled history configuration' transitions) k) := fun shallow x below =>
    (members x below).trans (by rw [if_neg shallow])
  have children : (c.state h).kind ≠ .history .deep → ∀ k, (c.state k).parent = some P →
      (k ∈ after ↔ k ∈ configuration) := by
    intro flat k hk
    rw [shallow flat k (wf.below_parent hk)]
    constructor
    · rintro ⟨q,hq,hq',entered⟩
      have within := wf.enteredAlone_within inward' (remembering.leafed.ordinary wf hq) entered
      exact wf.sibling_unique hk hq' (Or.inl rfl) within ▸ hq
    · exact fun hk' => ⟨k, hk', hk,
        wf.self_enteredAlone _ (remembering.leafed.ordinary wf hk')⟩
  refine ⟨fun deep x below => (members x below).trans (by rw [if_pos deep]), children, ?_⟩
  intro flat x below
  rw [shallow flat x below]
  refine exists_congr fun k => ⟨fun ⟨hk,child,entered⟩ => ?_, fun ⟨hk,child,entered⟩ => ?_⟩
  · exact ⟨(children flat k child).mpr hk, child, entered⟩
  · exact ⟨(children flat k child).mp hk, child, entered⟩

end Taking

end Statechart.Chart

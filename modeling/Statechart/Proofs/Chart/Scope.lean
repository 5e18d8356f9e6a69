import Statechart.Proofs.Chart.Bounds
import Statechart.Proofs.Chart.Closure
import Statechart.Proofs.Chart.Compiled

/- Where entering stays.

   A history state leads inside its parent, be it by what it recorded or by its default. So all that
   a transition enters lies inside its domain if the history states that it names do. If one lies
   outside, the states up to its parent are entered as well, whether or not they have been left. -/
namespace Statechart.Chart

variable {c : Chart} {history history' : HistoryTable} {e : EntrySet} {s p a d r t x D top : Nat}

/-- History states lead inside their parents. -/
structure Inward (c : Chart) (history : HistoryTable) : Prop where
  recorded : ∀ entry ∈ history, ∀ r ∈ entry.2, ∀ p,
    (c.state entry.1).parent = some p → c.Below r p
  byDefault : ∀ h t, c.isHistory h = true → (c.state h).initial = some t →
    ∀ r ∈ (c.transition t).targets, ∀ p, (c.state h).parent = some p → c.Below r p

/-- What entering a state brings with it lies in the state, or in its parent if it stands for others
    there. -/
def Beside (c : Chart) (s x : StateIndex) : Prop :=
  c.Within x s ∨ ∃ p, (c.state s).parent = some p ∧ c.Below x p

/-- The way states are entered adds only what lies beside them. -/
def Confined (c : Chart) (descend : StateIndex → EntrySet → EntrySet) : Prop :=
  ∀ s e, ∀ x ∈ (descend s e).states, x ∈ e.states ∨ c.Beside s x

section Recording

variable {configuration : List StateIndex}

theorem recordFor_below (tree : c.IsTree) {h : StateIndex}
    (recorded : r ∈ c.recordFor configuration s h) : c.Below r s := by
  unfold recordFor at recorded
  split at recorded
  · have inner := (List.mem_filter.mp recorded).2
    simp only [Bool.and_eq_true, isDescendant_iff] at inner
    exact inner.2
  · have child := (List.mem_filter.mp recorded).2
    exact tree.below_parent (by simpa using child)

/-- Leaving states makes records that lead inside. -/
theorem Inward.recordAll (inward : c.Inward history) (tree : c.IsTree) (exits : List StateIndex) :
    c.Inward (c.recordAll configuration exits history) where
  recorded := by
    apply recordAll_forall (P := fun entry => ∀ r ∈ entry.2, ∀ p,
      (c.state entry.1).parent = some p → c.Below r p) inward.recorded
    intro s _ h hh r hr p hp
    have child : (c.state h).parent = some s := (tree.child_iff s h).mp (List.mem_filter.mp hh).1
    rw [child] at hp
    cases hp
    exact recordFor_below tree hr
  byDefault := inward.byDefault

theorem Inward.lookup (inward : c.Inward history) {states : List StateIndex}
    (found : history.lookup s = some states) (hr : r ∈ states)
    (hp : (c.state s).parent = some p) : c.Below r p := by
  obtain ⟨before,after,rfl,_⟩ := List.lookup_eq_some_iff.mp found
  exact inward.recorded (s, states) (by simp) r hr p hp

end Recording

/-- The defaults of an accepted chart lead inside. -/
theorem compile_inward {library : ActionLibrary} {source : Source.ChartDef}
    (accepted : compile library source = .ok c) : c.Inward [] where
  recorded := nofun
  byDefault := by
    intro h t past enters r hr p hp
    obtain ⟨_,_,_,_,_,sound⟩ := compile_parts accepted
    have clear := (chartDefect_none sound).1 h (c.parent_in_range hp)
    unfold Compile.initialDefect? at clear
    simp only [enters, past, if_true, hp, Option.getD_some] at clear
    have below := Compile.firstDefect_none clear r hr
    split at below
    · cases below
    · rename_i inner
      simp only [Bool.or_eq_true, Bool.not_eq_true', not_or, Bool.not_eq_false] at inner
      exact (isDescendant_iff c r p).mp inner.1

namespace IsTree

theorem beside_below (tree : c.IsTree) (beside : c.Beside s x) (inside : c.Below s D) :
    c.Below x D := by
  rcases beside with within | ⟨p,hp,below⟩
  · exact tree.below_of_within_below within inside
  · exact tree.below_of_below_within below (tree.within_parent_of_below_child hp inside)

/-- What a state stands for lies where the state does, if this holds of what a default leads to. -/
theorem standsFor_below (tree : c.IsTree) (inward : c.Inward history) {depth : Nat}
    (defaults : ∀ t D, (∀ s ∈ (c.transition t).targets, c.Below s D) →
      ∀ r ∈ c.targetsWithin history depth t, c.Below r D)
    (inside : c.Below s D) (hr : r ∈ c.standsFor history depth s) : c.Below r D := by
  obtain ⟨p,hp,up⟩ := tree.below_iff.mp inside
  by_cases past : c.isHistory s = true
  · simp only [standsFor, past, if_true] at hr
    cases found : history.lookup s with
    | some states =>
      rw [found] at hr
      exact tree.below_of_below_within (inward.lookup found hr hp) up
    | none =>
      rw [found] at hr
      cases enters : (c.state s).initial with
      | none => simp [enters] at hr
      | some t =>
        rw [enters] at hr
        have leads := defaults t p fun q hq => inward.byDefault s t past enters q hq p hp
        exact tree.below_of_below_within (leads r hr) up
  · simp only [standsFor, past, Bool.false_eq_true, if_false, List.mem_singleton] at hr
    exact hr ▸ inside

theorem targetsWithin_below (tree : c.IsTree) (inward : c.Inward history) (depth : Nat) :
    ∀ t D, (∀ s ∈ (c.transition t).targets, c.Below s D) →
      ∀ r ∈ c.targetsWithin history depth t, c.Below r D := by
  induction depth with
  | zero => exact fun _ _ _ _ none => absurd none List.not_mem_nil
  | succ depth ih =>
    intro t D inside r hr
    obtain ⟨s,hs,hr⟩ := mem_targetsWithin.mp hr
    exact tree.standsFor_below inward ih (inside s hs) hr

theorem effective_below (tree : c.IsTree) (inward : c.Inward history)
    (inside : ∀ s ∈ (c.transition t).targets, c.Below s D) :
    ∀ r ∈ c.effectiveTargets history t, c.Below r D :=
  tree.targetsWithin_below inward _ t D inside

variable {descend : StateIndex → EntrySet → EntrySet}

theorem regions_confined (tree : c.IsTree) (confined : c.Confined descend)
    (hx : x ∈ (c.addMissingRegions descend a e).states) : x ∈ e.states ∨ c.Below x a := by
  unfold addMissingRegions at hx
  revert x
  refine List.foldlRecOn
    (motive := fun e' : EntrySet => ∀ {x}, x ∈ e'.states → x ∈ e.states ∨ c.Below x a) _ _ Or.inl ?_
  intro e' inside k hk x hx
  have child : (c.state k).parent = some a := (tree.child_iff a k).mp (List.mem_filter.mp hk).1
  simp only at hx
  split at hx
  · exact inside hx
  · rcases confined k e' x hx with old | beside
    · exact inside old
    · exact Or.inr (tree.beside_below beside (tree.below_parent child))

theorem ancestors_confined (tree : c.IsTree) (confined : c.Confined descend)
    (low : c.Below r top) (hx : x ∈ (c.addAncestors descend r top e).states) :
    x ∈ e.states ∨ c.Below x top := by
  unfold addAncestors at hx
  revert x
  refine List.foldlRecOn
    (motive := fun e' : EntrySet => ∀ {x}, x ∈ e'.states → x ∈ e.states ∨ c.Below x top) _ _
    Or.inl ?_
  intro e' inside a ha x hx
  have below : c.Below a top := ((tree.path_iff low).mp ha).2
  have added : x ∈ (e'.add a).states → x ∈ e.states ∨ c.Below x top := by
    intro hx
    rcases mem_insertIndex.mp hx with rfl | old
    · exact Or.inr below
    · exact inside old
  simp only at hx
  split at hx
  · rcases tree.regions_confined confined hx with old | inner
    · exact added old
    · exact Or.inr (tree.below_trans inner below)
  · exact added hx

theorem climbs_confined (tree : c.IsTree) (confined : c.Confined descend)
    {climbers : List StateIndex} (low : ∀ r ∈ climbers, c.Below r top)
    (hx : x ∈ (climbers.foldl (fun e r => c.addAncestors descend r top e) e).states) :
    x ∈ e.states ∨ c.Below x top := by
  revert x
  refine List.foldlRecOn
    (motive := fun e' : EntrySet => ∀ {x}, x ∈ e'.states → x ∈ e.states ∨ c.Below x top) _ _
    Or.inl ?_
  intro e' inside r hr x hx
  rcases tree.ancestors_confined confined (low r hr) hx with old | below
  · exact inside old
  · exact Or.inr below

theorem descents_confined (confined : c.Confined descend) {targets : List StateIndex}
    (hx : x ∈ (targets.foldl (fun e r => descend r e) e).states) :
    x ∈ e.states ∨ ∃ r ∈ targets, c.Beside r x := by
  revert x
  refine List.foldlRecOn (motive := fun e' : EntrySet =>
    ∀ {x}, x ∈ e'.states → x ∈ e.states ∨ ∃ r ∈ targets, c.Beside r x) _ _ Or.inl ?_
  intro e' inside r hr x hx
  rcases confined r e' x hx with old | beside
  · exact inside old
  · exact Or.inr ⟨r, hr, beside⟩

theorem targets_confined (tree : c.IsTree) (confined : c.Confined descend)
    {targets : List StateIndex} (low : ∀ r ∈ targets, c.Below r top)
    (hx : x ∈ (c.addTargets descend targets top e).states) : x ∈ e.states ∨ c.Below x top := by
  rcases tree.climbs_confined confined low hx with entered | below
  · rcases descents_confined confined entered with old | ⟨r,hr,beside⟩
    · exact Or.inl old
    · exact Or.inr (tree.beside_below beside (low r hr))
  · exact Or.inr below

end IsTree

namespace WellFormed

theorem initial_below (wf : c.WellFormed) (compound : c.isCompound s = true)
    (enters : (c.state s).initial = some t) : ∀ r ∈ (c.transition t).targets, c.Below r s := by
  simp only [isCompound, Bool.and_eq_true, decide_eq_true_eq, Bool.not_eq_true',
    List.isEmpty_eq_false_iff] at compound
  have children : (c.state s).children ≠ [] := by
    intro none
    exact compound.2 (by simp [childStates, none])
  obtain ⟨u,found,_,_,_,below⟩ := wf.initial s compound.1 children
  rw [enters] at found
  cases found
  exact below

theorem history_parent (wf : c.WellFormed) (past : c.isHistory s = true) :
    ∃ p, (c.state s).parent = some p := by
  have inside : s < c.states.size := by
    by_contra outside
    rw [isHistory, c.state_out_of_range (by omega)] at past
    cases past
  have proper : s ≠ root := by
    rintro rfl
    rw [isHistory, wf.root_kind] at past
    cases past
  obtain ⟨p,hp,_⟩ := wf.parent_before s inside proper
  exact ⟨p, hp⟩

theorem addDescendants_confined (wf : c.WellFormed) (inward : c.Inward history) (depth : Nat) :
    c.Confined (c.addDescendants history depth) := by
  induction depth with
  | zero => exact fun _ _ _ hx => Or.inl hx
  | succ depth ih =>
    intro s e x hx
    rw [addDescendants] at hx
    simp only at hx
    split at hx
    · rename_i past
      obtain ⟨p,hp⟩ := wf.history_parent past
      rw [hp, Option.getD_some] at hx
      cases found : history.lookup s with
      | some states =>
        rw [found] at hx
        rcases wf.targets_confined ih (fun r hr => inward.lookup found hr hp) hx with old | below
        · exact Or.inl old
        · exact Or.inr (Or.inr ⟨p, hp, below⟩)
      | none =>
        rw [found] at hx
        cases enters : (c.state s).initial with
        | some t =>
          rw [enters] at hx
          rcases wf.targets_confined ih (fun r hr => inward.byDefault s t past enters r hr p hp) hx
            with old | below
          · exact Or.inl old
          · exact Or.inr (Or.inr ⟨p, hp, below⟩)
        | none =>
          rw [enters] at hx
          exact Or.inl hx
    · have added : x ∈ (e.add s).states → x ∈ e.states ∨ c.Beside s x := by
        intro hx
        rcases mem_insertIndex.mp hx with rfl | old
        · exact Or.inr (Or.inl (Or.inl rfl))
        · exact Or.inl old
      split at hx
      · rename_i compound
        cases enters : (c.state s).initial with
        | some t =>
          rw [enters] at hx
          rcases wf.targets_confined ih (wf.initial_below compound enters) hx with old | below
          · exact added old
          · exact Or.inr (Or.inl (Or.inr below))
        | none =>
          rw [enters] at hx
          exact added hx
      · split at hx
        · rcases wf.regions_confined ih hx with old | below
          · exact added old
          · exact Or.inr (Or.inl (Or.inr below))
        · exact added hx

end WellFormed

/-- A transition changes its own source only inside. -/
def Internal (c : Chart) (history : HistoryTable) (t : TransitionIndex) : Prop :=
  (c.transition t).kind = .internal ∧ c.isCompound (c.transition t).source = true ∧
    ∀ r ∈ c.effectiveTargets history t, c.Below r (c.transition t).source

/-- A state around the source of a transition and all that the transition leads to. -/
structure Surrounds (c : Chart) (history : HistoryTable) (t : TransitionIndex) (a : StateIndex) :
    Prop where
  source : c.Below (c.transition t).source a
  compound : a = root ∨ c.isCompound a = true
  effective : ∀ r ∈ c.effectiveTargets history t, c.Below r a

namespace IsTree

/-- The domain is the source or the innermost state around all, or for want of one the root. -/
theorem domain?_cases (tree : c.IsTree) (found : c.domain? history t = some d) :
    (c.Internal history t ∧ d = (c.transition t).source) ∨
      (¬ c.Internal history t ∧ (d = root ∨ c.Surrounds history t d) ∧
        ∀ a, c.Surrounds history t a → c.Within d a) := by
  simp only [domain?] at found
  split at found
  · cases found
  · split at found
    · rename_i staying
      cases found
      simp only [Bool.and_eq_true, decide_eq_true_eq, List.all_eq_true, isDescendant_iff] at staying
      exact Or.inl ⟨⟨staying.1.1, staying.1.2, staying.2⟩, rfl⟩
    · rename_i leaving
      cases found
      simp only [Bool.and_eq_true, decide_eq_true_eq, List.all_eq_true, isDescendant_iff] at leaving
      refine Or.inr ⟨fun internal => leaving ⟨⟨internal.1, internal.2.1⟩, internal.2.2⟩, ?_⟩
      have fits : ∀ a, ((a == root || c.isCompound a) &&
          (c.effectiveTargets history t).all fun s => c.isDescendant s a) = true ↔
          (a = root ∨ c.isCompound a = true) ∧
            ∀ r ∈ c.effectiveTargets history t, c.Below r a := by
        simp
      rw [commonAncestor]
      cases search : (c.ancestors (c.transition t).source).find? fun a =>
          (a == root || c.isCompound a) &&
            (c.effectiveTargets history t).all fun s => c.isDescendant s a with
      | none =>
        refine ⟨Or.inl rfl, fun a around => ?_⟩
        have never := List.find?_eq_none.mp search a around.source
        exact absurd ((fits a).mpr ⟨around.compound, around.effective⟩) never
      | some a =>
        obtain ⟨above,good,least⟩ := tree.find_ancestor search
        obtain ⟨compound,effective⟩ := (fits a).mp good
        refine ⟨Or.inr ⟨above, compound, effective⟩, fun b around => ?_⟩
        exact least b around.source ((fits b).mpr ⟨around.compound, around.effective⟩)

theorem domain?_declared (tree : c.IsTree) (found : c.domain? history t = some d) :
    c.Within d root := by
  rcases tree.domain?_cases found with ⟨⟨_,compound,_⟩,rfl⟩ | ⟨_,rfl | around,_⟩
  · refine tree.within_root ?_
    by_contra outside
    simp only [isCompound, childStates, c.state_out_of_range (Nat.not_lt.mp outside)] at compound
    cases compound
  · exact Or.inl rfl
  · have above := around.source
    exact tree.within_root (Nat.lt_trans (tree.below_lt above) (tree.below_in_range above))

theorem domain?_contains (tree : c.IsTree) (found : c.domain? history t = some d) :
    d = root ∨ ∀ r ∈ c.effectiveTargets history t, c.Below r d := by
  rcases tree.domain?_cases found with ⟨internal,rfl⟩ | ⟨_,top | around,_⟩
  · exact Or.inr internal.2.2
  · exact Or.inl top
  · exact Or.inr around.effective

/-- With other records the domain lies no further out, if what they lead to lies in it. -/
theorem domain?_narrows (tree : c.IsTree) (found : c.domain? history t = some D)
    (inside : ∀ r ∈ c.effectiveTargets history' t, c.Below r D)
    (again : c.domain? history' t = some d) : c.Within d D := by
  rcases tree.domain?_cases found with ⟨internal,rfl⟩ | ⟨_,rfl | around,_⟩
  · rcases tree.domain?_cases again with ⟨_,rfl⟩ | ⟨external,_⟩
    · exact Or.inl rfl
    · exact absurd ⟨internal.1, internal.2.1, inside⟩ external
  · exact tree.domain?_declared again
  · rcases tree.domain?_cases again with ⟨_,rfl⟩ | ⟨_,_,least⟩
    · exact Or.inr around.source
    · exact least D ⟨around.source, around.compound, inside⟩

end IsTree

section Taking

variable (c : Chart) (history : HistoryTable) (configuration : List StateIndex)
  (transitions : List TransitionIndex)

/-- The history states that transitions name lie in the domains of these, and the root is not named
    while it is active. -/
def Enclosed : Prop :=
  ∀ t ∈ transitions,
    (∀ h ∈ (c.transition t).targets, c.isHistory h = true →
      ∃ d ∈ c.domain? history t, c.Below h d) ∧
    (root ∈ (c.transition t).targets → root ∉ configuration)

/-- The history states that transitions name lie in the domains of these. -/
def Contained : Prop :=
  ∀ t ∈ transitions, ∀ h ∈ (c.transition t).targets, c.isHistory h = true →
    ∃ d ∈ c.domain? history t, c.Below h d

instance (s a : StateIndex) : Decidable (c.Below s a) :=
  inferInstanceAs (Decidable (a ∈ c.ancestors s))

instance (s a : StateIndex) : Decidable (c.Within s a) :=
  inferInstanceAs (Decidable (s = a ∨ c.Below s a))

instance : Decidable (c.Enclosed history configuration transitions) :=
  inferInstanceAs (Decidable (∀ t ∈ transitions,
    (∀ h ∈ (c.transition t).targets, c.isHistory h = true →
      ∃ d ∈ c.domain? history t, c.Below h d) ∧ _))

instance : Decidable (c.Contained history transitions) :=
  inferInstanceAs (Decidable (∀ t ∈ transitions, ∀ h ∈ (c.transition t).targets,
    c.isHistory h = true → ∃ d ∈ c.domain? history t, c.Below h d))

end Taking

theorem Enclosed.contained {configuration : List StateIndex} {transitions : List TransitionIndex}
    (enclosed : c.Enclosed history configuration transitions) : c.Contained history transitions :=
  fun t ht => (enclosed t ht).1

theorem Contained.targets_below {transitions : List TransitionIndex}
    (contained : c.Contained history transitions) (wf : c.WellFormed)
    (ht : t ∈ transitions) (inner : root ∉ (c.transition t).targets)
    (hs : s ∈ (c.transition t).targets) : ∃ d, c.domain? history t = some d ∧ c.Below s d := by
  by_cases past : c.isHistory s = true
  · exact contained t ht s hs past
  · have effective : s ∈ c.effectiveTargets history t := target_effective hs (by simpa using past)
    cases found : c.domain? history t with
    | none =>
      rw [domain?_eq_none.mp found] at effective
      cases effective
    | some d =>
      refine ⟨d, rfl, ?_⟩
      rcases wf.domain?_contains found with rfl | contains
      · rcases wf.within_root (wf.targets_declared t s hs) with rfl | below
        · exact absurd hs inner
        · exact below
      · exact contains s effective

namespace WellFormed

variable {configuration : List StateIndex} {transitions : List TransitionIndex}

theorem enterFor_confined (wf : c.WellFormed) (inward : c.Inward history')
    (found : c.domain? history t = some D) (inside : ∀ s ∈ (c.transition t).targets, c.Below s D)
    (hx : x ∈ (c.enterFor history' e t).states) : x ∈ e.states ∨ c.Below x D := by
  have confined := wf.addDescendants_confined inward c.nesting
  have effective := wf.effective_below inward inside
  have descended : ∀ {x}, x ∈ ((c.transition t).targets.foldl
      (fun e s => c.addDescendants history' c.nesting s e) e).states →
      x ∈ e.states ∨ c.Below x D := by
    intro x hx
    rcases IsTree.descents_confined confined hx with old | ⟨r,hr,beside⟩
    · exact Or.inl old
    · exact Or.inr (wf.beside_below beside (inside r hr))
  simp only [enterFor] at hx
  cases again : c.domain? history' t with
  | none =>
    rw [again] at hx
    exact descended hx
  | some d =>
    rw [again] at hx
    have narrow := wf.domain?_narrows found effective again
    have low : ∀ r ∈ c.effectiveTargets history' t, c.Below r d := by
      rcases wf.domain?_contains again with top | contains
      · subst top
        intro r hr
        exact wf.below_of_below_within (effective r hr) (wf.domain?_declared found)
      · exact contains
    rcases wf.climbs_confined confined low hx with old | below
    · exact descended old
    · exact Or.inr (wf.below_of_below_within below narrow)

theorem enterFor_root (wf : c.WellFormed) (inward : c.Inward history')
    (top : root ∈ (c.transition t).targets) (hx : x ∈ (c.enterFor history' e t).states) :
    x ∈ e.states ∨ c.Within x root := by
  have confined := wf.addDescendants_confined inward c.nesting
  have descended : ∀ {x}, x ∈ ((c.transition t).targets.foldl
      (fun e s => c.addDescendants history' c.nesting s e) e).states →
      x ∈ e.states ∨ c.Within x root := by
    intro x hx
    rcases IsTree.descents_confined confined hx with old | ⟨r,hr,within | ⟨p,hp,_⟩⟩
    · exact Or.inl old
    · rw [wf.targets_root top] at hr
      exact Or.inr (List.mem_singleton.mp hr ▸ within)
    · rw [wf.targets_root top] at hr
      rw [List.mem_singleton.mp hr, wf.root_parent] at hp
      cases hp
  simp only [enterFor] at hx
  cases again : c.domain? history' t with
  | none =>
    rw [again] at hx
    exact descended hx
  | some d =>
    rw [again] at hx
    revert x
    refine List.foldlRecOn
      (motive := fun e' : EntrySet => ∀ {x}, x ∈ e'.states → x ∈ e.states ∨ c.Within x root) _ _
      descended ?_
    intro e' inside r hr x hx
    obtain ⟨s,hs,stands⟩ := mem_effectiveTargets.mp hr
    rw [wf.targets_root top] at hs
    have ordinary : c.isHistory root = false := by rw [isHistory, wf.root_kind]
    rw [List.mem_singleton.mp hs, standsFor, ordinary] at stands
    have same : r = root := by simpa using stands
    rw [same, addAncestors, ancestorsUpTo, wf.ancestors_root] at hx
    exact inside hx

theorem domain?_root (wf : c.WellFormed) (top : root ∈ (c.transition t).targets) :
    c.domain? history t = some root := by
  have ordinary : c.isHistory root = false := by rw [isHistory, wf.root_kind]
  have effective : root ∈ c.effectiveTargets history t := target_effective top ordinary
  cases found : c.domain? history t with
  | none =>
    rw [domain?_eq_none.mp found] at effective
    cases effective
  | some d =>
    rcases wf.domain?_contains found with rfl | contains
    · rfl
    · exact absurd (contains root effective) wf.not_root_below

theorem enterFor_contained (wf : c.WellFormed) (inward : c.Inward history')
    (contained : c.Contained history transitions) (ht : t ∈ transitions)
    (hx : x ∈ (c.enterFor history' e t).states) : x ∈ e.states ∨
      (x = root ∧ root ∈ (c.transition t).targets) ∨
        ∃ d, c.domain? history t = some d ∧ c.Below x d := by
  by_cases top : root ∈ (c.transition t).targets
  · rcases wf.enterFor_root inward top hx with old | rfl | below
    · exact Or.inl old
    · exact Or.inr (Or.inl ⟨rfl, top⟩)
    · exact Or.inr (Or.inr ⟨root, wf.domain?_root top, below⟩)
  · cases found : c.domain? history t with
    | none =>
      have none : (c.transition t).targets = [] := by
        refine List.eq_nil_iff_forall_not_mem.mpr fun s hs => ?_
        obtain ⟨d,some,_⟩ := contained.targets_below wf ht top hs
        rw [found] at some
        cases some
      have same : c.domain? history' t = .none := by
        simp [domain?, effectiveTargets, targetsWithin, none]
      simp only [enterFor, same, none, List.foldl_nil] at hx
      exact Or.inl hx
    | some d =>
      have inside : ∀ s ∈ (c.transition t).targets, c.Below s d := by
        intro s hs
        obtain ⟨b,some,below⟩ := contained.targets_below wf ht top hs
        rw [found] at some
        cases some
        exact below
      exact (wf.enterFor_confined inward found inside hx).imp id fun below =>
        Or.inr ⟨d, rfl, below⟩

/-- What transitions enter has not been active, if the history states that they name lie in their
    domains; but the root has, if it is named. -/
theorem entered_or_root (wf : c.WellFormed) (inward : c.Inward history)
    (contained : c.Contained history transitions) :
    ∀ x ∈ c.entered history configuration transitions,
      (x = root ∧ ∃ t ∈ transitions, root ∈ (c.transition t).targets) ∨
        ¬ c.Remains history configuration transitions x := by
  have inward' : c.Inward (c.recalled history configuration transitions) :=
    inward.recordAll wf.toIsTree _
  change ∀ x ∈ (transitions.foldl (c.enterFor (c.recalled history configuration transitions)) {}).states,
    _
  refine List.foldlRecOn (motive := fun e : EntrySet => ∀ x ∈ e.states,
    (x = root ∧ ∃ t ∈ transitions, root ∈ (c.transition t).targets) ∨
      ¬ c.Remains history configuration transitions x) _ _ (fun _ none => by cases none) ?_
  intro e anew t ht x hx
  rcases wf.enterFor_contained inward' contained ht hx with old | ⟨rfl,top⟩ | ⟨d,found,below⟩
  · exact anew x old
  · exact Or.inl ⟨rfl, t, ht, top⟩
  · -- All that was active in the domain has been left.
    exact Or.inr fun remains =>
      remains.2 (mem_exitSet_iff.mpr ⟨remains.1, t, ht, d, found, below⟩)

/-- What transitions enter has not been active, if the history states that they name lie in their
    domains and the root is not named again. -/
theorem entered_anew (wf : c.WellFormed) (inward : c.Inward history)
    (enclosed : c.Enclosed history configuration transitions) :
    ∀ x ∈ c.entered history configuration transitions,
      ¬ c.Remains history configuration transitions x := by
  intro x hx
  rcases wf.entered_or_root inward enclosed.contained x hx with ⟨rfl,t,ht,top⟩ | anew
  · exact fun remains => (enclosed t ht).2 top remains.1
  · exact anew

end WellFormed

section Mooring

variable (c : Chart) (history : HistoryTable) (configuration : List StateIndex)
  (transitions : List TransitionIndex)

/-- The domains found after leaving have not been left, and the history states that transitions name
    lie in the domains found before and lead somewhere. -/
def Moored : Prop :=
  ∀ t ∈ transitions,
    (∀ d ∈ c.domain? (c.recalled history configuration transitions) t,
      d = root ∨ c.Remains history configuration transitions d) ∧
    ∀ h ∈ (c.transition t).targets, c.isHistory h = true →
      (∃ d ∈ c.domain? history t, c.Below h d) ∧
        c.standsFor (c.recalled history configuration transitions) c.states.size h ≠ []

end Mooring

namespace IsTree

variable {descend : StateIndex → EntrySet → EntrySet}

theorem climbs_grow (tree : c.IsTree) (hooks : c.Hooks descend) (climbers : List StateIndex)
    (e : EntrySet) :
    e.states ⊆ (climbers.foldl (fun e r => c.addAncestors descend r top e) e).states := by
  have anywhere : Held (fun _ => True) e top := Or.inr (Or.inr trivial)
  exact (tree.climbs_hang hooks climbers e anywhere
    fun _ _ _ _ => Or.inr (Or.inr (Or.inl trivial))).1

theorem climbs_enter (tree : c.IsTree) (hooks : c.Hooks descend) {climbers : List StateIndex}
    (e : EntrySet) (hr : r ∈ climbers) (above : c.Below r a) (below : c.Below a top) :
    a ∈ (climbers.foldl (fun e r => c.addAncestors descend r top e) e).states := by
  obtain ⟨before,after,rfl⟩ := List.append_of_mem hr
  rw [List.foldl_append, List.foldl_cons]
  refine tree.climbs_grow hooks after _ ?_
  have path := (tree.path_iff (tree.below_trans above below)).mpr ⟨above, below⟩
  have anywhere : ∀ e, c.Hangs (fun _ => True) e := fun _ _ _ _ _ => Or.inr (Or.inr trivial)
  exact (tree.climb_hangs hooks _ (fun _ _ _ _ => Or.inr trivial) _ (anywhere _)).2.2 a path

theorem enterFor_grows (tree : c.IsTree) (history : HistoryTable) (e : EntrySet)
    (t : TransitionIndex) : e.states ⊆ (c.enterFor history e t).states := by
  have hooks := tree.addDescendants_hooks history c.nesting
  have anywhere : c.Hangs (fun _ => True) e := fun _ _ _ _ => Or.inr (Or.inr trivial)
  have entered := (descents_hang hooks (c.transition t).targets (fun _ _ _ _ => trivial) anywhere).1
  simp only [enterFor]
  split
  · exact List.Subset.trans entered (tree.climbs_grow hooks _ _)
  · exact entered

theorem entrySet_between (tree : c.IsTree) {transitions : List TransitionIndex}
    (ht : t ∈ transitions) (found : c.domain? history t = some d)
    (hr : r ∈ c.effectiveTargets history t) (above : c.Below r a) (below : c.Below a d) :
    a ∈ (c.entrySet history transitions).states := by
  change a ∈ (transitions.foldl (c.enterFor history) {}).states
  obtain ⟨before,after,rfl⟩ := List.append_of_mem ht
  rw [List.foldl_append, List.foldl_cons]
  have entered : ∀ e, a ∈ (c.enterFor history e t).states := by
    intro e
    simp only [enterFor, found]
    exact tree.climbs_enter (tree.addDescendants_hooks history _) _ hr above below
  exact List.foldlRecOn (motive := fun e : EntrySet => a ∈ e.states) _ _ (entered _)
    fun e inside u _ => tree.enterFor_grows history e u inside

end IsTree

theorem Moored.anchored {configuration : List StateIndex} {transitions : List TransitionIndex}
    (moored : c.Moored history configuration transitions) (tree : c.IsTree)
    (inward : c.Inward history) : c.Anchored history configuration transitions := by
  have inward' : c.Inward (c.recalled history configuration transitions) := inward.recordAll tree _
  intro k hk b hb ⟨t,ht,bears⟩
  obtain ⟨domains,histories⟩ := moored t ht
  rcases bears with found | ⟨h,hh,past,hp⟩
  · exact (domains b found).imp id Or.inl
  · obtain ⟨⟨D,left,inside⟩,leads⟩ := histories h hh past
    obtain ⟨r,stands⟩ := List.exists_mem_of_ne_nil _ leads
    have effective := mem_effectiveTargets.mpr ⟨h, hh, stands⟩
    have low : c.Below r b := tree.standsFor_below inward'
      (tree.targetsWithin_below inward' _) (tree.below_parent hp) stands
    cases found : c.domain? (c.recalled history configuration transitions) t with
    | none =>
      rw [domain?_eq_none.mp found] at effective
      cases effective
    | some d =>
      -- The parent of the history state and the domain both lie around what it stands for.
      have around : c.Below r d := by
        rcases tree.domain?_contains found with rfl | contains
        · exact tree.below_of_below_within low
            (tree.within_root (Nat.lt_trans (tree.below_lt low) (tree.below_in_range low)))
        · exact contains r effective
      rcases tree.nested_of_common (Or.inr low) (Or.inr around) with (rfl | outside) | (rfl | inner)
      · exact (domains b found).imp id Or.inl
      · exact Or.inr (Or.inr (tree.entrySet_between ht found effective low outside))
      · exact (domains d found).imp id Or.inl
      · -- A domain inside that parent would have been left.
        rcases domains d found with rfl | remains
        · exact absurd inner tree.not_root_below
        · have within := tree.within_parent_of_below_child hp inside
          have gone := mem_exitSet_iff.mpr
            ⟨remains.1, t, ht, D, left, tree.below_of_below_within inner within⟩
          exact absurd gone remains.2

/-- The way states are entered keeps them in order. -/
def Ascends (descend : StateIndex → EntrySet → EntrySet) : Prop :=
  ∀ s e, e.states.Pairwise (· < ·) → (descend s e).states.Pairwise (· < ·)

section Order

variable {descend : StateIndex → EntrySet → EntrySet}

theorem addMissingRegions_ascending (ascends : Ascends descend) (parallel : StateIndex)
    (ascending : e.states.Pairwise (· < ·)) :
    (c.addMissingRegions descend parallel e).states.Pairwise (· < ·) := by
  unfold addMissingRegions
  refine List.foldlRecOn (motive := fun e : EntrySet => e.states.Pairwise (· < ·)) _ _ ascending ?_
  intro e ascending child _
  simp only
  split
  · exact ascending
  · exact ascends child e ascending

theorem addAncestors_ascending (ascends : Ascends descend) (top : StateIndex)
    (ascending : e.states.Pairwise (· < ·)) :
    (c.addAncestors descend s top e).states.Pairwise (· < ·) := by
  unfold addAncestors
  refine List.foldlRecOn (motive := fun e : EntrySet => e.states.Pairwise (· < ·)) _ _ ascending ?_
  intro e ascending a _
  have added : (e.add a).states.Pairwise (· < ·) := pairwise_insertIndex ascending
  simp only
  split
  · exact addMissingRegions_ascending ascends a added
  · exact added

theorem descents_ascending (ascends : Ascends descend) (targets : List StateIndex)
    (ascending : e.states.Pairwise (· < ·)) :
    (targets.foldl (fun e r => descend r e) e).states.Pairwise (· < ·) :=
  List.foldlRecOn (motive := fun e : EntrySet => e.states.Pairwise (· < ·)) _ _ ascending
    fun e ascending r _ => ascends r e ascending

theorem climbs_ascending (ascends : Ascends descend) (climbers : List StateIndex)
    (ascending : e.states.Pairwise (· < ·)) :
    (climbers.foldl (fun e r => c.addAncestors descend r top e) e).states.Pairwise (· < ·) :=
  List.foldlRecOn (motive := fun e : EntrySet => e.states.Pairwise (· < ·)) _ _ ascending
    fun _ ascending _ _ => addAncestors_ascending ascends top ascending

theorem addTargets_ascending (ascends : Ascends descend) (targets : List StateIndex)
    (ascending : e.states.Pairwise (· < ·)) :
    (c.addTargets descend targets top e).states.Pairwise (· < ·) :=
  climbs_ascending ascends targets (descents_ascending ascends targets ascending)

theorem addDescendants_ascends (c : Chart) (history : HistoryTable) (depth : Nat) :
    Ascends (c.addDescendants history depth) := by
  induction depth with
  | zero => exact fun _ _ ascending => ascending
  | succ depth ih =>
    intro s e ascending
    rw [addDescendants]
    simp only
    split
    · cases history.lookup s with
      | some states => exact addTargets_ascending ih states ascending
      | none =>
        cases (c.state s).initial with
        | some t => exact addTargets_ascending (e := e.addContent _ t) ih _ ascending
        | none => exact ascending
    · have added : (e.add s).states.Pairwise (· < ·) := pairwise_insertIndex ascending
      split
      · cases (c.state s).initial with
        | some t => exact addTargets_ascending (e := (e.add s).addDefault s) ih _ added
        | none => exact added
      · split
        · exact addMissingRegions_ascending ih s added
        · exact added

/-- States are entered in document order, each of them once. -/
theorem entrySet_ascending (c : Chart) (history : HistoryTable)
    (transitions : List TransitionIndex) :
    (c.entrySet history transitions).states.Pairwise (· < ·) := by
  have ascends := c.addDescendants_ascends history c.nesting
  unfold entrySet
  refine List.foldlRecOn (motive := fun e : EntrySet => e.states.Pairwise (· < ·)) _ _
    List.Pairwise.nil ?_
  intro e ascending t _
  have entered := descents_ascending ascends (c.transition t).targets ascending
  simp only [enterFor]
  split
  · exact climbs_ascending ascends _ entered
  · exact entered

end Order

end Statechart.Chart

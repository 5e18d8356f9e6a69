import Statechart.Proofs.Chart.Taking

/- Whether the parents of the active states are active.

   What a microstep enters hangs together: the parent of an entered state is entered as well, or it
   is one that entering hangs on. Those are the domain of a transition, found again with the records
   that leaving has made, and the parents of the history states that the transition names. Nothing
   makes sure that they are active by then, so parents stay active exactly if they are. -/
namespace Statechart.Chart

variable {c : Chart} {history : HistoryTable} {e : EntrySet} {s p a r t x : Nat}

/-- The parent of every active state is active or the root. -/
def Closed (c : Chart) (configuration : List StateIndex) : Prop :=
  ∀ s ∈ configuration, ∀ p ∈ (c.state s).parent, p ∈ configuration ∨ p = root

instance (c : Chart) (configuration : List StateIndex) : Decidable (c.Closed configuration) :=
  inferInstanceAs (Decidable (∀ s ∈ configuration, ∀ p ∈ (c.state s).parent, _ ∨ _))

section Microstep

variable (c : Chart) (history : HistoryTable) (configuration : List StateIndex)
  (transitions : List TransitionIndex)

/-- The records once the transitions have left what they leave. -/
def recalled : HistoryTable :=
  c.recordAll configuration (c.exitSet history configuration transitions) history

/-- What the transitions enter, with the records that leaving has made. -/
def entered : List StateIndex :=
  (c.entrySet (c.recalled history configuration transitions) transitions).states

/-- A state stays active while the transitions are taken. -/
def Remains (x : StateIndex) : Prop :=
  x ∈ configuration ∧ x ∉ c.exitSet history configuration transitions

instance (x : StateIndex) : Decidable (c.Remains history configuration transitions x) :=
  inferInstanceAs (Decidable (_ ∧ _))

/-- What a transition enters hangs on its domain, and on the parents of the history states that it
    names. -/
def Bears (t : TransitionIndex) (b : StateIndex) : Prop :=
  c.domain? history t = some b ∨
    ∃ h ∈ (c.transition t).targets, c.isHistory h = true ∧ (c.state h).parent = some b

instance (t : TransitionIndex) (b : StateIndex) : Decidable (c.Bears history t b) :=
  inferInstanceAs (Decidable (_ ∨ _))

/-- Where something entered hangs on a state, that state is the root or active afterwards. -/
def Anchored : Prop :=
  ∀ k ∈ c.entered history configuration transitions, ∀ b ∈ (c.state k).parent,
    (∃ t ∈ transitions, c.Bears (c.recalled history configuration transitions) t b) →
      b = root ∨ c.Remains history configuration transitions b ∨
        b ∈ c.entered history configuration transitions

instance : Decidable (c.Anchored history configuration transitions) :=
  inferInstanceAs (Decidable (∀ k ∈ _, ∀ b ∈ (c.state k).parent, _ → _ ∨ _ ∨ _))

end Microstep

/-- What one target stands for, a history state what it recorded or its default leads to. -/
def standsFor (c : Chart) (history : HistoryTable) (depth : Nat) (s : StateIndex) :
    List StateIndex :=
  if c.isHistory s then
    match history.lookup s with
    | some recorded => recorded
    | none => ((c.state s).initial.map (c.targetsWithin history depth)).getD []
  else [s]

theorem mem_foldl_of_step {f : List StateIndex → StateIndex → List StateIndex}
    (part : StateIndex → List StateIndex) (step : ∀ out s, x ∈ f out s ↔ x ∈ out ∨ x ∈ part s)
    (l out : List StateIndex) : x ∈ l.foldl f out ↔ x ∈ out ∨ ∃ s ∈ l, x ∈ part s := by
  induction l generalizing out with
  | nil => simp
  | cons s rest ih =>
    rw [List.foldl_cons, ih, step]
    simp only [List.mem_cons, exists_eq_or_imp, or_assoc]

theorem mem_targetsWithin {depth : Nat} :
    x ∈ c.targetsWithin history (depth + 1) t ↔
      ∃ s ∈ (c.transition t).targets, x ∈ c.standsFor history depth s := by
  rw [targetsWithin]
  refine (mem_foldl_of_step (c.standsFor history depth) ?_ _ _).trans (by simp)
  intro out s
  by_cases past : c.isHistory s = true
  · simp only [past, Bool.not_true, Bool.false_eq_true, if_false, standsFor, if_true]
    cases history.lookup s with
    | some recorded => exact mem_foldl_insertIndex recorded out
    | none =>
      cases (c.state s).initial with
      | some d => exact mem_foldl_insertIndex _ out
      | none => simp
  · simp only [past, Bool.not_false, if_true, standsFor, Bool.false_eq_true, if_false,
      mem_insertIndex, List.mem_singleton]
    exact or_comm

theorem mem_effectiveTargets : x ∈ c.effectiveTargets history t ↔
    ∃ s ∈ (c.transition t).targets, x ∈ c.standsFor history c.states.size s :=
  mem_targetsWithin

theorem target_effective (target : s ∈ (c.transition t).targets) (plain : c.isHistory s = false) :
    s ∈ c.effectiveTargets history t := by
  rw [mem_effectiveTargets]
  exact ⟨s, target, by simp [standsFor, plain]⟩

theorem domain?_eq_none : c.domain? history t = none ↔ c.effectiveTargets history t = [] := by
  simp only [domain?]
  split
  · simp_all
  · split
    · simp_all
    · simp_all

/-- A parent that hangs somewhere: it is the root, entered itself, or one to hang on. -/
def Held (base : StateIndex → Prop) (e : EntrySet) (p : StateIndex) : Prop :=
  p = root ∨ p ∈ e.states ∨ base p

/-- The parent of everything entered is held. -/
def Hangs (c : Chart) (base : StateIndex → Prop) (e : EntrySet) : Prop :=
  ∀ x ∈ e.states, ∀ p, (c.state x).parent = some p → Held base e p

/-- The way states are entered adds states that hang together, if the parent of the state is
    held. -/
def Hooks (c : Chart) (descend : StateIndex → EntrySet → EntrySet) : Prop :=
  ∀ base s e, c.Hangs base e → (∀ p, (c.state s).parent = some p → Held base e p) →
    e.states ⊆ (descend s e).states ∧ c.Hangs base (descend s e)

variable {base : StateIndex → Prop} {e' : EntrySet} {top : Nat}
  {descend : StateIndex → EntrySet → EntrySet}

theorem Held.mono (held : Held base e p) (more : e.states ⊆ e'.states) : Held base e' p := by
  rcases held with top | inside | borne
  · exact Or.inl top
  · exact Or.inr (Or.inl (more inside))
  · exact Or.inr (Or.inr borne)

theorem subset_add (e : EntrySet) (s : StateIndex) : e.states ⊆ (e.add s).states :=
  fun _ inside => mem_insertIndex.mpr (Or.inr inside)

theorem Hangs.add (hangs : c.Hangs base e)
    (held : ∀ p, (c.state s).parent = some p → Held base e p) : c.Hangs base (e.add s) := by
  intro x hx p hp
  rcases mem_insertIndex.mp hx with rfl | old
  · exact (held p hp).mono (subset_add e x)
  · exact (hangs x old p hp).mono (subset_add e s)

theorem Hangs.mono {base' : StateIndex → Prop} (hangs : c.Hangs base e)
    (wider : ∀ p, base p → Held base' e p) : c.Hangs base' e := by
  intro x hx p hp
  rcases hangs x hx p hp with top | inside | borne
  · exact Or.inl top
  · exact Or.inr (Or.inl inside)
  · exact wider p borne

namespace IsTree

theorem regions_hang (tree : c.IsTree) (hooks : c.Hooks descend) (present : a ∈ e.states)
    (hangs : c.Hangs base e) :
    e.states ⊆ (c.addMissingRegions descend a e).states ∧
      c.Hangs base (c.addMissingRegions descend a e) := by
  unfold addMissingRegions
  refine List.foldlRecOn
    (motive := fun e' : EntrySet => e.states ⊆ e'.states ∧ c.Hangs base e') _ _
    ⟨List.Subset.refl _, hangs⟩ ?_
  intro e' ⟨more,hangs⟩ k hk
  have child : (c.state k).parent = some a := (tree.child_iff a k).mp (List.mem_filter.mp hk).1
  simp only
  split
  · exact ⟨more, hangs⟩
  · have held : ∀ p, (c.state k).parent = some p → Held base e' p := by
      intro p hp
      rw [child] at hp
      cases hp
      exact Or.inr (Or.inl (more present))
    obtain ⟨more',hangs⟩ := hooks base k e' hangs held
    exact ⟨List.Subset.trans more more', hangs⟩

/-- The ancestors that are entered above a state reach up to the root or to where they end. -/
theorem path_up (tree : c.IsTree) (s top : StateIndex) :
    ∀ a, a = s ∨ a ∈ (c.ancestorsUpTo s top).takeWhile (· ≠ root) →
      ∀ p, (c.state a).parent = some p →
        p = root ∨ p = top ∨ p ∈ (c.ancestorsUpTo s top).takeWhile (· ≠ root) := by
  induction s using Nat.strongRecOn with
  | ind s ih =>
    intro a ha p hp
    cases hs : (c.state s).parent with
    | none =>
      have nothing : c.ancestors s = [] := by
        rw [ancestors, hs]
        cases c.states.size <;> rfl
      rcases ha with rfl | ha
      · rw [hs] at hp
        cases hp
      · simp [ancestorsUpTo, nothing] at ha
    | some q =>
      have split : (c.ancestorsUpTo s top).takeWhile (· ≠ root) =
          if q = top ∨ q = root then []
          else q :: (c.ancestorsUpTo q top).takeWhile (· ≠ root) := by
        rw [ancestorsUpTo, tree.ancestors_eq hs, List.takeWhile_cons]
        by_cases ends : q = top
        · simp [ends]
        · by_cases first : q = root
          · have other : root ≠ top := fun same => ends (first.trans same)
            simp [first, other]
          · simp [ends, first, ancestorsUpTo]
      rw [split] at ha ⊢
      by_cases ends : q = top ∨ q = root
      · rw [if_pos ends] at ha
        rcases ha with rfl | ha
        · rw [hs] at hp
          cases hp
          rcases ends with here | here
          · exact Or.inr (Or.inl here)
          · exact Or.inl here
        · cases ha
      · rw [if_neg ends] at ha ⊢
        rcases ha with rfl | ha
        · rw [hs] at hp
          cases hp
          exact Or.inr (Or.inr List.mem_cons_self)
        · rcases ih q (tree.parent_lt hs) a (List.mem_cons.mp ha) p hp with first | here | above
          · exact Or.inl first
          · exact Or.inr (Or.inl here)
          · exact Or.inr (Or.inr (List.mem_cons_of_mem _ above))

/-- Ancestors that are entered one after another, the parent of each held or yet to come. -/
theorem climb_hangs (tree : c.IsTree) (hooks : c.Hooks descend) (steps : List StateIndex)
    (fits : ∀ a ∈ steps, ∀ p, (c.state a).parent = some p → p = root ∨ base p) (e : EntrySet)
    (hangs : c.Hangs base e) :
    let e' := steps.foldl
      (fun e a =>
        let e := e.add a
        if c.isParallel a then c.addMissingRegions descend a e else e) e
    e.states ⊆ e'.states ∧ c.Hangs base e' ∧ ∀ a ∈ steps, a ∈ e'.states := by
  induction steps generalizing e with
  | nil => exact ⟨List.Subset.refl _, hangs, by simp⟩
  | cons a rest ih =>
    have member : a ∈ (e.add a).states := mem_insertIndex.mpr (Or.inl rfl)
    have added : c.Hangs base (e.add a) := by
      refine hangs.add fun p hp => ?_
      rcases fits a List.mem_cons_self p hp with top | borne
      · exact Or.inl top
      · exact Or.inr (Or.inr borne)
    have first : (e.add a).states ⊆
          (if c.isParallel a then c.addMissingRegions descend a (e.add a) else e.add a).states ∧
        c.Hangs base
          (if c.isParallel a then c.addMissingRegions descend a (e.add a) else e.add a) := by
      split
      · exact tree.regions_hang hooks member added
      · exact ⟨List.Subset.refl _, added⟩
    obtain ⟨more,hangs,all⟩ := ih (fun b hb => fits b (List.mem_cons_of_mem _ hb)) _ first.2
    simp only [List.foldl_cons]
    refine ⟨List.Subset.trans (subset_add e a) (List.Subset.trans first.1 more), hangs, ?_⟩
    intro b hb
    rcases List.mem_cons.mp hb with rfl | hb
    · exact more (first.1 member)
    · exact all b hb

/-- Entering the ancestors of a state below `top` leaves nothing hanging on its parent. -/
theorem ancestors_hang (tree : c.IsTree) (hooks : c.Hooks descend) (onTop : Held base e top)
    (hangs : c.Hangs (fun p => base p ∨ (c.state s).parent = some p) e) :
    e.states ⊆ (c.addAncestors descend s top e).states ∧
      c.Hangs base (c.addAncestors descend s top e) := by
  have up := tree.path_up s top
  unfold addAncestors
  generalize (c.ancestorsUpTo s top).takeWhile (· ≠ root) = path at up
  -- While the path is entered from below, the parents further up are still to come.
  have wide : c.Hangs (fun p => Held base e p ∨ p ∈ path) e := by
    refine hangs.mono fun p borne => ?_
    rcases borne with borne | above
    · exact Or.inr (Or.inr (Or.inl (Or.inr (Or.inr borne))))
    · rcases up s (Or.inl rfl) p above with first | here | inner
      · exact Or.inl first
      · exact Or.inr (Or.inr (Or.inl (here ▸ onTop)))
      · exact Or.inr (Or.inr (Or.inr inner))
  obtain ⟨more,hangs,all⟩ := tree.climb_hangs hooks path (fun a ha p hp => by
    rcases up a (Or.inr ha) p hp with first | here | inner
    · exact Or.inl first
    · exact Or.inr (Or.inl (here ▸ onTop))
    · exact Or.inr (Or.inr inner)) e wide
  refine ⟨more, hangs.mono fun p borne => ?_⟩
  rcases borne with held | inner
  · exact held.mono more
  · exact Or.inr (Or.inl (all p inner))

theorem climbs_hang (tree : c.IsTree) (hooks : c.Hooks descend) (climbers : List StateIndex)
    (e : EntrySet) (onTop : Held base e top)
    (hangs : c.Hangs (fun p => base p ∨ ∃ r ∈ climbers, (c.state r).parent = some p) e) :
    let e' := climbers.foldl (fun e r => c.addAncestors descend r top e) e
    e.states ⊆ e'.states ∧ c.Hangs base e' := by
  induction climbers generalizing e with
  | nil =>
    refine ⟨List.Subset.refl _, hangs.mono fun p borne => ?_⟩
    simp only [List.not_mem_nil, false_and, exists_const, or_false] at borne
    exact Or.inr (Or.inr borne)
  | cons r rest ih =>
    have onTop' : Held (fun p => base p ∨ ∃ q ∈ rest, (c.state q).parent = some p) e top := by
      rcases onTop with first | inside | borne
      · exact Or.inl first
      · exact Or.inr (Or.inl inside)
      · exact Or.inr (Or.inr (Or.inl borne))
    obtain ⟨more,hangs⟩ := tree.ancestors_hang (s := r) hooks onTop' (hangs.mono fun p borne => by
      simp only [List.mem_cons, exists_eq_or_imp] at borne
      rcases borne with borne | own | later
      · exact Or.inr (Or.inr (Or.inl (Or.inl borne)))
      · exact Or.inr (Or.inr (Or.inr own))
      · exact Or.inr (Or.inr (Or.inl (Or.inr later))))
    obtain ⟨more',hangs⟩ := ih _ (onTop.mono more) hangs
    exact ⟨List.Subset.trans more more', hangs⟩

theorem descents_hang (hooks : c.Hooks descend) (targets : List StateIndex)
    (borne : ∀ r ∈ targets, ∀ p, (c.state r).parent = some p → base p) (hangs : c.Hangs base e) :
    let e' := targets.foldl (fun e r => descend r e) e
    e.states ⊆ e'.states ∧ c.Hangs base e' := by
  refine List.foldlRecOn
    (motive := fun e' : EntrySet => e.states ⊆ e'.states ∧ c.Hangs base e') _ _
    ⟨List.Subset.refl _, hangs⟩ ?_
  intro e' ⟨more,hangs⟩ r hr
  obtain ⟨more',hangs⟩ := hooks base r e' hangs fun p hp => Or.inr (Or.inr (borne r hr p hp))
  exact ⟨List.Subset.trans more more', hangs⟩

theorem targets_hang (tree : c.IsTree) (hooks : c.Hooks descend) (targets : List StateIndex)
    (onTop : Held base e top) (hangs : c.Hangs base e) :
    e.states ⊆ (c.addTargets descend targets top e).states ∧
      c.Hangs base (c.addTargets descend targets top e) := by
  have wide : c.Hangs (fun p => base p ∨ ∃ r ∈ targets, (c.state r).parent = some p) e :=
    hangs.mono fun p borne => Or.inr (Or.inr (Or.inl borne))
  obtain ⟨more,hangs⟩ := descents_hang hooks targets
    (fun r hr p hp => Or.inr ⟨r, hr, hp⟩) wide
  obtain ⟨more',hangs⟩ := tree.climbs_hang hooks targets _ (onTop.mono more) hangs
  exact ⟨List.Subset.trans more more', hangs⟩

theorem addDescendants_hooks (tree : c.IsTree) (history : HistoryTable) (depth : Nat) :
    c.Hooks (c.addDescendants history depth) := by
  induction depth with
  | zero => exact fun _ _ _ hangs _ => ⟨List.Subset.refl _, hangs⟩
  | succ depth ih =>
    intro base s e hangs held
    have onParent : Held base e ((c.state s).parent.getD root) := by
      cases hs : (c.state s).parent with
      | none => exact Or.inl rfl
      | some p => exact held p hs
    rw [addDescendants]
    simp only
    split
    · cases history.lookup s with
      | some recorded => exact tree.targets_hang ih recorded onParent hangs
      | none =>
        cases (c.state s).initial with
        | some d =>
          exact tree.targets_hang (e := e.addContent ((c.state s).parent.getD root) d) ih
            (c.transition d).targets onParent hangs
        | none => exact ⟨List.Subset.refl _, hangs⟩
    · have added := hangs.add held
      have member : s ∈ (e.add s).states := mem_insertIndex.mpr (Or.inl rfl)
      have more := subset_add e s
      split
      · cases (c.state s).initial with
        | some t =>
          obtain ⟨more',hangs⟩ := tree.targets_hang (e := (e.add s).addDefault s) ih
            (c.transition t).targets (Or.inr (Or.inl member)) added
          exact ⟨List.Subset.trans more more', hangs⟩
        | none => exact ⟨more, added⟩
      · split
        · obtain ⟨more',hangs⟩ := tree.regions_hang ih member added
          exact ⟨List.Subset.trans more more', hangs⟩
        · exact ⟨more, added⟩

theorem entrySet_hangs (tree : c.IsTree) (history : HistoryTable)
    (transitions : List TransitionIndex) :
    c.Hangs (fun b => ∃ t ∈ transitions, c.Bears history t b) (c.entrySet history transitions) := by
  have hooks := tree.addDescendants_hooks history c.nesting
  unfold entrySet
  refine List.foldlRecOn
    (motive := c.Hangs fun b => ∃ t ∈ transitions, c.Bears history t b) _ _
    (fun _ none => absurd none List.not_mem_nil) ?_
  intro e hangs t ht
  -- A target that is no history state is among those whose ancestors are entered up to the domain.
  have wide : c.Hangs (fun b => (∃ t ∈ transitions, c.Bears history t b) ∨
      ∃ r ∈ c.effectiveTargets history t, (c.state r).parent = some b) e :=
    hangs.mono fun b borne => Or.inr (Or.inr (Or.inl borne))
  obtain ⟨_,entered⟩ := descents_hang hooks (c.transition t).targets (fun r hr p hp => by
    by_cases past : c.isHistory r = true
    · exact Or.inl ⟨t, ht, Or.inr ⟨r, hr, past, hp⟩⟩
    · exact Or.inr ⟨r, target_effective hr (by simpa using past), hp⟩) wide
  simp only [enterFor]
  cases found : c.domain? history t with
  | some d =>
    refine (tree.climbs_hang hooks (c.effectiveTargets history t) _ ?_ entered).2
    exact Or.inr (Or.inr ⟨t, ht, Or.inl found⟩)
  | none =>
    refine entered.mono fun b borne => ?_
    rw [domain?_eq_none.mp found] at borne
    simp only [List.not_mem_nil, false_and, exists_const, or_false] at borne
    exact Or.inr (Or.inr borne)

end IsTree

section Taking

variable {configuration configuration' : List StateIndex} {transitions : List TransitionIndex}

theorem domain?_targeted {d : StateIndex} (found : c.domain? history t = some d) :
    (c.transition t).isTargetless = false := by
  have some : c.effectiveTargets history t ≠ [] := by
    intro none
    rw [domain?_eq_none.mpr none] at found
    cases found
  obtain ⟨x,hx⟩ := List.exists_mem_of_ne_nil _ some
  obtain ⟨s,hs,_⟩ := mem_effectiveTargets.mp hx
  simpa [TransitionNode.isTargetless] using List.ne_nil_of_mem hs

/-- The states left are the active ones inside a domain. -/
theorem mem_exitSet_iff : x ∈ c.exitSet history configuration transitions ↔ x ∈ configuration ∧
    ∃ t ∈ transitions, ∃ d, c.domain? history t = some d ∧ c.Below x d := by
  simp only [exitSet, List.mem_filter, List.any_eq_true]
  refine and_congr_right fun _ => exists_congr fun t => and_congr_right fun _ => ?_
  cases found : c.domain? history t with
  | none => simp [leaves, found]
  | some d => simp [leaves, found, domain?_targeted found]

namespace IsTree

/-- Leaving a state means leaving all that lies in it. -/
theorem remains_parent (tree : c.IsTree) (closed : c.Closed configuration)
    (remains : c.Remains history configuration transitions x) (hp : (c.state x).parent = some p) :
    p = root ∨ c.Remains history configuration transitions p := by
  rcases closed x remains.1 p hp with active | first
  · refine Or.inr ⟨active, fun left => remains.2 ?_⟩
    obtain ⟨_,t,ht,d,found,below⟩ := mem_exitSet_iff.mp left
    exact mem_exitSet_iff.mpr
      ⟨remains.1, t, ht, d, found, tree.below_trans (tree.below_parent hp) below⟩
  · exact Or.inl first

/-- From a configuration with active parents, taking transitions leads to one exactly if they are
    anchored. -/
theorem closed_iff_anchored (tree : c.IsTree) (closed : c.Closed configuration)
    (taken : ∀ x, x ∈ configuration' ↔ c.Remains history configuration transitions x ∨
      x ∈ c.entered history configuration transitions) :
    c.Closed configuration' ↔ c.Anchored history configuration transitions := by
  constructor
  · intro closed' k hk b hb _
    rcases closed' k ((taken k).mpr (Or.inr hk)) b hb with active | first
    · exact Or.inr ((taken b).mp active)
    · exact Or.inl first
  · intro anchored x hx p hp
    have active : p = root ∨ c.Remains history configuration transitions p ∨
        p ∈ c.entered history configuration transitions := by
      rcases (taken x).mp hx with remains | entered
      · exact (tree.remains_parent closed remains hp).imp id Or.inl
      · have held := tree.entrySet_hangs (c.recalled history configuration transitions) transitions
          x entered p hp
        rcases held with first | inside | borne
        · exact Or.inl first
        · exact Or.inr (Or.inr inside)
        · exact anchored x entered p hp borne
    exact active.symm.imp (taken p).mpr id

end IsTree

end Taking

end Statechart.Chart

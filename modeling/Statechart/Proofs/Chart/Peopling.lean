import Statechart.Proofs.Chart.Leading

/- Entering leaves nothing without an atomic state.

   While a state is being entered, only the states around it may still lack an atomic state inside.
   Entering it supplies one, because what is entered goes on down to atomic states and does not run
   out of depth. -/
namespace Statechart.Chart

variable {c : Chart} {history : HistoryTable} {e e' : EntrySet} {s p a d r t x y top : Nat}
  {descend : StateIndex → EntrySet → EntrySet} {targets : List StateIndex}

/-- A state is atomic or an atomic state lies inside it. -/
def HasLeaf (c : Chart) (states : List StateIndex) (x : StateIndex) : Prop :=
  ∃ a ∈ states, c.isAtomic a = true ∧ c.Within a x

instance (c : Chart) (states : List StateIndex) (x : StateIndex) :
    Decidable (c.HasLeaf states x) :=
  inferInstanceAs (Decidable (∃ a ∈ states, c.isAtomic a = true ∧ (a = x ∨ x ∈ c.ancestors a)))

/-- All states have an atomic state. -/
def Leafed (c : Chart) (states : List StateIndex) : Prop := ∀ x ∈ states, c.HasLeaf states x

instance (c : Chart) (states : List StateIndex) : Decidable (c.Leafed states) :=
  inferInstanceAs (Decidable (∀ x ∈ states, c.HasLeaf states x))

namespace HasLeaf

variable {states states' : List StateIndex}

theorem mono (leaf : c.HasLeaf states x) (more : states ⊆ states') : c.HasLeaf states' x := by
  obtain ⟨a,ha,atomic,within⟩ := leaf
  exact ⟨a, more ha, atomic, within⟩

theorem outwards (leaf : c.HasLeaf states x) (tree : c.IsTree) (within : c.Within x y) :
    c.HasLeaf states y := by
  obtain ⟨a,ha,atomic,inner⟩ := leaf
  exact ⟨a, ha, atomic, tree.within_trans inner within⟩

end HasLeaf

theorem Leafed.insertIndex {states : List StateIndex} (leafed : c.Leafed states)
    (own : c.HasLeaf states x) : c.Leafed (insertIndex x states) := by
  have more : states ⊆ Statechart.insertIndex x states :=
    fun y hy => mem_insertIndex.mpr (Or.inr hy)
  intro y hy
  rcases mem_insertIndex.mp hy with rfl | old
  · exact own.mono more
  · exact (leafed y old).mono more

/-- What lacks an atomic state lies around all states that are still to be entered. -/
def Lacking (c : Chart) (e : EntrySet) (targets : List StateIndex) : Prop :=
  ∀ x ∈ e.states, c.HasLeaf e.states x ∨ targets ≠ [] ∧ ∀ r ∈ targets, c.Below r x

theorem lacking_nil : c.Lacking e [] ↔ c.Leafed e.states := by
  simp [Lacking, Leafed]

theorem Leafed.lacking (leafed : c.Leafed e.states) (targets : List StateIndex) :
    c.Lacking e targets := fun x hx => Or.inl (leafed x hx)

/-- A state has been entered: nothing lacks an atomic state any more, what lies around the state has
    one, and what the state leads to is there. -/
structure Supplied (c : Chart) (history : HistoryTable) (s : StateIndex) (e : EntrySet) : Prop where
  leafed : c.Leafed e.states
  around : ∀ y, c.Below s y → c.HasLeaf e.states y
  led : ∀ r, c.LeadsTo history s r → r ∈ e.states

/-- The way states are entered supplies a state. -/
def Supplies (c : Chart) (history : HistoryTable) (descend : StateIndex → EntrySet → EntrySet)
    (s : StateIndex) : Prop :=
  ∀ e, c.Lacking e [s] → e.states ⊆ (descend s e).states ∧ c.Supplied history s (descend s e)

theorem Supplied.mono (supplied : c.Supplied history s e) (more : e.states ⊆ e'.states)
    (leafed : c.Leafed e'.states) : c.Supplied history s e' where
  leafed := leafed
  around y below := (supplied.around y below).mono more
  led r leads := more (supplied.led r leads)

theorem Lacking.head (lacking : c.Lacking e (r :: targets)) : c.Lacking e [r] := by
  intro x hx
  rcases lacking x hx with leaf | ⟨_,around⟩
  · exact Or.inl leaf
  · exact Or.inr ⟨by simp, by simpa using around r List.mem_cons_self⟩

theorem descents_supply (supplies : ∀ r ∈ targets, c.Supplies history descend r)
    (lacking : c.Lacking e targets) :
    let e' := targets.foldl (fun e r => descend r e) e
    e.states ⊆ e'.states ∧ c.Leafed e'.states ∧ ∀ r ∈ targets, c.Supplied history r e' := by
  induction targets generalizing e with
  | nil => exact ⟨List.Subset.refl _, lacking_nil.mp lacking, by simp⟩
  | cons r rest ih =>
    obtain ⟨more,supplied⟩ := supplies r List.mem_cons_self e lacking.head
    obtain ⟨more',leafed,all⟩ := ih (fun q hq => supplies q (List.mem_cons_of_mem _ hq))
      (supplied.leafed.lacking rest)
    simp only [List.foldl_cons]
    refine ⟨List.Subset.trans more more', leafed, fun q hq => ?_⟩
    rcases List.mem_cons.mp hq with rfl | hq
    · exact supplied.mono more' leafed
    · exact all q hq

/-- Regions that are entered or have been. Where one has been, nothing around it lacks an atomic
    state. -/
theorem IsTree.kids_supply (tree : c.IsTree) {kids : List StateIndex}
    (supplies : ∀ k ∈ kids, c.Supplies history descend k) (plain : ∀ k ∈ kids, c.isHistory k = false)
    (lacking : c.Lacking e kids) :
    let e' := kids.foldl
      (fun e child =>
        let covered := e.states.any fun s => s == child || c.isDescendant s child
        if covered then e else descend child e) e
    e.states ⊆ e'.states ∧ c.Leafed e'.states ∧ ∀ k ∈ kids, c.HasLeaf e'.states k := by
  induction kids generalizing e with
  | nil => exact ⟨List.Subset.refl _, lacking_nil.mp lacking, by simp⟩
  | cons k rest ih =>
    have first : ∃ e₁ : EntrySet,
        (if (e.states.any fun s => s == k || c.isDescendant s k) = true then e
          else descend k e) = e₁ ∧
        e.states ⊆ e₁.states ∧ c.Leafed e₁.states ∧ c.HasLeaf e₁.states k := by
      refine ⟨_, rfl, ?_⟩
      split
      · rename_i covered
        obtain ⟨q,hq,within⟩ := List.any_eq_true.mp covered
        have within : c.Within q k := by simpa [Within] using within
        have own : c.HasLeaf e.states k := by
          rcases lacking q hq with leaf | ⟨_,around⟩
          · exact leaf.outwards tree within
          · exact absurd (tree.below_of_within_below within (around k List.mem_cons_self))
              tree.not_below_self
        refine ⟨List.Subset.refl _, fun x hx => ?_, own⟩
        rcases lacking x hx with leaf | ⟨_,around⟩
        · exact leaf
        · exact own.outwards tree (Or.inr (around k List.mem_cons_self))
      · obtain ⟨more,supplied⟩ := supplies k List.mem_cons_self e lacking.head
        exact ⟨more, supplied.leafed,
          supplied.leafed k (supplied.led k (.ordinary (plain k List.mem_cons_self)))⟩
    obtain ⟨e₁,entered,more,leafed,own⟩ := first
    obtain ⟨more',leafed',all⟩ := ih (fun q hq => supplies q (List.mem_cons_of_mem _ hq))
      (fun q hq => plain q (List.mem_cons_of_mem _ hq)) (leafed.lacking rest)
    simp only [List.foldl_cons, entered]
    refine ⟨List.Subset.trans more more', leafed', fun q hq => ?_⟩
    rcases List.mem_cons.mp hq with rfl | hq
    · exact own.mono more'
    · exact all q hq

theorem IsTree.climb_supplies (tree : c.IsTree)
    (regions : ∀ a ∈ (c.ancestorsUpTo r top).takeWhile (· ≠ root), ∀ k ∈ c.childStates a,
      c.Supplies history descend k)
    (leafed : c.Leafed e.states) (around : ∀ y, c.Below r y → c.HasLeaf e.states y) :
    e.states ⊆ (c.addAncestors descend r top e).states ∧
      c.Leafed (c.addAncestors descend r top e).states := by
  unfold addAncestors
  refine List.foldlRecOn
    (motive := fun e' : EntrySet => e.states ⊆ e'.states ∧ c.Leafed e'.states) _ _
    ⟨List.Subset.refl _, leafed⟩ ?_
  intro e' ⟨more,leafed⟩ a ha
  have above : c.Below r a :=
    (List.takeWhile_sublist _).subset ((List.takeWhile_sublist _).subset ha)
  have added : c.Leafed (e'.add a).states := leafed.insertIndex ((around a above).mono more)
  have more' := List.Subset.trans more (subset_add e' a)
  simp only
  split
  · obtain ⟨further,leafed',_⟩ := tree.kids_supply (regions a ha)
      (fun k hk => childStates_plain hk) (added.lacking _)
    exact ⟨List.Subset.trans more' further, leafed'⟩
  · exact ⟨more', added⟩

theorem IsTree.climbs_supply (tree : c.IsTree) (climbers : List StateIndex) (top : StateIndex)
    (regions : ∀ r ∈ climbers, ∀ a ∈ (c.ancestorsUpTo r top).takeWhile (· ≠ root),
      ∀ k ∈ c.childStates a, c.Supplies history descend k)
    (leafed : c.Leafed e.states)
    (around : ∀ r ∈ climbers, ∀ y, c.Below r y → c.HasLeaf e.states y) :
    let e' := climbers.foldl (fun e r => c.addAncestors descend r top e) e
    e.states ⊆ e'.states ∧ c.Leafed e'.states := by
  refine List.foldlRecOn
    (motive := fun e' : EntrySet => e.states ⊆ e'.states ∧ c.Leafed e'.states) _ _
    ⟨List.Subset.refl _, leafed⟩ ?_
  intro e' ⟨more,leafed⟩ r hr
  obtain ⟨further,leafed'⟩ := tree.climb_supplies (regions r hr) leafed
    fun y below => (around r hr y below).mono more
  exact ⟨List.Subset.trans more further, leafed'⟩

theorem IsTree.targets_supply (tree : c.IsTree) (named : targets ≠ [])
    (low : ∀ r ∈ targets, c.Below r top) (supplies : ∀ r ∈ targets, c.Supplies history descend r)
    (regions : ∀ k, c.Below k top → c.isHistory k = false → c.Supplies history descend k)
    (lacking : ∀ x ∈ e.states, c.HasLeaf e.states x ∨ c.Within top x) :
    let e' := c.addTargets descend targets top e
    e.states ⊆ e'.states ∧ c.Leafed e'.states ∧ ∀ r ∈ targets, c.Supplied history r e' := by
  have around : c.Lacking e targets := by
    intro x hx
    rcases lacking x hx with leaf | within
    · exact Or.inl leaf
    · exact Or.inr ⟨named, fun r hr => tree.below_of_below_within (low r hr) within⟩
  obtain ⟨more,leafed,all⟩ := descents_supply supplies around
  obtain ⟨more',leafed'⟩ := tree.climbs_supply targets top
    (fun r hr a ha k hk => by
      have between := ((tree.path_iff (low r hr)).mp ha).2
      exact regions k (tree.below_trans (tree.below_parent (tree.childStates_parent hk)) between)
        (childStates_plain hk))
    leafed (fun r hr => (all r hr).around)
  exact ⟨List.Subset.trans more more', leafed', fun r hr => (all r hr).mono more' leafed'⟩

theorem IsTree.supplied_of_added (tree : c.IsTree) (ordinary : c.isHistory s = false)
    (member : s ∈ e.states) (leafed : c.Leafed e.states) : c.Supplied history s e where
  leafed := leafed
  around _ below := (leafed s member).outwards tree (Or.inr below)
  led _ leads := leads.of_ordinary ordinary ▸ member

theorem lacking_add (lacking : c.Lacking e [s]) :
    ∀ x ∈ (e.add s).states, c.HasLeaf (e.add s).states x ∨ c.Within s x := by
  intro x hx
  rcases mem_insertIndex.mp hx with rfl | old
  · exact Or.inr (Or.inl rfl)
  · rcases lacking x old with leaf | ⟨_,around⟩
    · exact Or.inl (leaf.mono (subset_add e s))
    · exact Or.inr (Or.inr (around s List.mem_cons_self))

namespace WellFormed

/-- An ordinary state is entered with an atomic state. -/
theorem supplies_ordinary (wf : c.WellFormed) (peopled : c.Peopled) {depth : Nat}
    (below : ∀ r, c.Calls s r → c.Supplies history (c.addDescendants history depth) r)
    (ordinary : c.isHistory s = false) :
    c.Supplies history (c.addDescendants history (depth + 1)) s := by
  intro e lacking
  have member : s ∈ (e.add s).states := mem_insertIndex.mpr (Or.inl rfl)
  have more : e.states ⊆ (e.add s).states := subset_add e s
  have lacking := lacking_add lacking
  rw [addDescendants]
  simp only [ordinary, Bool.false_eq_true, if_false]
  split
  · rename_i compound
    have kind := compound
    simp only [isCompound, Bool.and_eq_true, decide_eq_true_eq, Bool.not_eq_true',
      List.isEmpty_eq_false_iff] at kind
    have children : (c.state s).children ≠ [] := fun none => kind.2 (by simp [childStates, none])
    obtain ⟨t,enters,_,_,named,low⟩ := wf.initial s kind.1 children
    rw [enters]
    obtain ⟨further,leafed,_⟩ := wf.targets_supply (e := (e.add s).addDefault s) named low
      (fun r hr => below r (.inside ordinary (low r hr)))
      (fun k inner _ => below k (.inside ordinary inner)) lacking
    exact ⟨List.Subset.trans more further, wf.supplied_of_added ordinary (further member) leafed⟩
  · rename_i single
    split
    · rename_i parallel
      have regions := peopled.regions s parallel
      have inside : ∀ k ∈ c.childStates s, c.Below k s := fun k hk =>
        wf.below_parent (wf.childStates_parent hk)
      obtain ⟨further,leafed,_⟩ := wf.kids_supply (e := e.add s)
        (fun k hk => below k (.inside ordinary (inside k hk))) (fun k hk => childStates_plain hk)
        (fun x hx => (lacking x hx).imp id fun within =>
          ⟨regions, fun k hk => wf.below_of_below_within (inside k hk) within⟩)
      exact ⟨List.Subset.trans more further, wf.supplied_of_added ordinary (further member) leafed⟩
    · rename_i other
      have atomic : c.isAtomic s = true := by
        revert ordinary single other
        unfold isHistory isCompound isParallel isAtomic
        cases (c.state s).kind <;> simp
      have own : c.HasLeaf (e.add s).states s := ⟨s, member, atomic, Or.inl rfl⟩
      refine ⟨more, wf.supplied_of_added ordinary member fun x hx => ?_⟩
      exact (lacking x hx).elim id fun within => own.outwards wf.toIsTree within

/-- A history state is entered with what it stands for. -/
theorem supplies_past (wf : c.WellFormed) (inward : c.Inward history)
    (remembers : c.Remembers history) (peopled : c.Peopled) {depth : Nat}
    (below : ∀ r, c.Calls s r → c.Supplies history (c.addDescendants history depth) r)
    (past : c.isHistory s = true) :
    c.Supplies history (c.addDescendants history (depth + 1)) s := by
  intro e lacking
  obtain ⟨p,hp⟩ := wf.history_parent past
  have outside : ∀ x ∈ e.states, c.HasLeaf e.states x ∨ c.Within p x := fun x hx =>
    (lacking x hx).imp id fun around =>
      wf.within_parent_of_below_child hp (around.2 s List.mem_cons_self)
  have regions : ∀ k, c.Below k p → c.isHistory k = false →
      c.Supplies history (c.addDescendants history depth) k :=
    fun k inner ordinary => below k (.beside past hp inner ordinary)
  rw [addDescendants]
  simp only [past, if_true, hp, Option.getD_some]
  cases found : history.lookup s with
  | some states =>
    obtain ⟨some,ordinary⟩ := remembers.lookup found
    have low : ∀ r ∈ states, c.Below r p := fun r hr => inward.lookup found hr hp
    obtain ⟨more,leafed,all⟩ := wf.targets_supply (e := e) some low
      (fun r hr => regions r (low r hr) (ordinary r hr)) regions outside
    obtain ⟨r,hr⟩ := List.exists_mem_of_ne_nil _ some
    refine ⟨more, leafed, fun y around => ?_, fun q leads => ?_⟩
    · exact (all r hr).around y
        (wf.below_of_below_within (low r hr) (wf.within_parent_of_below_child hp around))
    · cases leads with
      | ordinary ordinary =>
        rw [past] at ordinary
        cases ordinary
      | recorded _ found' member =>
        obtain rfl : states = _ := Option.some.inj (found.symm.trans found')
        exact (all q member).led q (.ordinary (ordinary q member))
      | byDefault _ none =>
        rw [found] at none
        cases none
  | none =>
    obtain ⟨t,enters,named⟩ := (peopled.founded s).default past
    have low : ∀ r ∈ (c.transition t).targets, c.Below r p :=
      fun r hr => inward.byDefault s t past enters r hr p hp
    obtain ⟨more,leafed,all⟩ := wf.targets_supply (e := e.addContent p t) named low
      (fun r hr => below r (.named ⟨past, t, enters, hr⟩)) regions outside
    simp only [enters]
    obtain ⟨r,hr⟩ := List.exists_mem_of_ne_nil _ named
    refine ⟨more, leafed, fun y around => ?_, fun q leads => ?_⟩
    · exact (all r hr).around y
        (wf.below_of_below_within (low r hr) (wf.within_parent_of_below_child hp around))
    · cases leads with
      | ordinary ordinary =>
        rw [past] at ordinary
        cases ordinary
      | recorded _ some =>
        rw [found] at some
        cases some
      | byDefault _ _ enters' target leads =>
        rw [enters] at enters'
        cases enters'
        exact (all _ target).led q leads

/-- Entering does not run out of depth before atomic states have been entered. -/
theorem addDescendants_supplies (wf : c.WellFormed) (inward : c.Inward history)
    (remembers : c.Remembers history) (peopled : c.Peopled) {depth : Nat}
    (inside : s < c.states.size) (enough : c.room s ≤ depth) :
    c.Supplies history (c.addDescendants history depth) s := by
  induction depth generalizing s with
  | zero => exact absurd (wf.room_pos inside) (by omega)
  | succ depth ih =>
    have below : ∀ r, c.Calls s r → c.Supplies history (c.addDescendants history depth) r := by
      intro r calls
      have less := wf.room_lt_of_calls inward peopled.uncircular inside calls
      exact ih (wf.calls_in_range calls) (by omega)
    by_cases past : c.isHistory s = true
    · exact wf.supplies_past inward remembers peopled below past
    · exact wf.supplies_ordinary peopled below (by simpa using past)

theorem enterFor_supplies (wf : c.WellFormed) (inward : c.Inward history)
    (remembers : c.Remembers history) (peopled : c.Peopled) (t : TransitionIndex)
    (leafed : c.Leafed e.states) :
    let e' := c.enterFor history e t
    e.states ⊆ e'.states ∧ c.Leafed e'.states ∧
      ∀ q ∈ (c.transition t).targets, ∀ r, c.LeadsTo history q r → r ∈ e'.states := by
  have enough : ∀ s, s < c.states.size →
      c.Supplies history (c.addDescendants history c.nesting) s := fun s inside =>
    wf.addDescendants_supplies inward remembers peopled inside
      (Nat.le_trans (c.room_le s) (Nat.le_of_lt c.size_lt_nesting))
  obtain ⟨more,leafed,all⟩ := descents_supply
    (fun q hq => enough q (wf.targets_declared t q hq)) (leafed.lacking (c.transition t).targets)
  simp only [enterFor]
  split
  · rename_i d _
    obtain ⟨further,leafed'⟩ := wf.climbs_supply (c.effectiveTargets history t) d
      (fun r _ a _ k hk => enough k (c.parent_in_range (wf.childStates_parent hk))) leafed
      (fun r hr y below => by
        obtain ⟨q,hq,leads⟩ := leadsTo_of_targetsWithin hr
        exact (leafed r ((all q hq).led r leads)).outwards wf.toIsTree (Or.inr below))
    exact ⟨List.Subset.trans more further, leafed',
      fun q hq r leads => further ((all q hq).led r leads)⟩
  · exact ⟨more, leafed, fun q hq r leads => (all q hq).led r leads⟩

theorem entrySet_supplies (wf : c.WellFormed) (inward : c.Inward history)
    (remembers : c.Remembers history) (peopled : c.Peopled) (transitions : List TransitionIndex) :
    c.Leafed (c.entrySet history transitions).states ∧
      ∀ t ∈ transitions, ∀ q ∈ (c.transition t).targets, ∀ r, c.LeadsTo history q r →
        r ∈ (c.entrySet history transitions).states := by
  have walk : ∀ (l : List TransitionIndex) (e : EntrySet), c.Leafed e.states →
      let e' := l.foldl (c.enterFor history) e
      e.states ⊆ e'.states ∧ c.Leafed e'.states ∧
        ∀ t ∈ l, ∀ q ∈ (c.transition t).targets, ∀ r, c.LeadsTo history q r → r ∈ e'.states := by
    intro l
    induction l with
    | nil => exact fun e leafed => ⟨List.Subset.refl _, leafed, by simp⟩
    | cons t rest ih =>
      intro e leafed
      obtain ⟨more,leafed,own⟩ := wf.enterFor_supplies inward remembers peopled t leafed
      obtain ⟨further,leafed,all⟩ := ih _ leafed
      simp only [List.foldl_cons]
      refine ⟨List.Subset.trans more further, leafed, fun u hu q hq r leads => ?_⟩
      rcases List.mem_cons.mp hu with rfl | hu
      · exact further (own q hq r leads)
      · exact all u hu q hq r leads
  exact (walk transitions {} (fun x none => by cases none)).2

end WellFormed

end Statechart.Chart

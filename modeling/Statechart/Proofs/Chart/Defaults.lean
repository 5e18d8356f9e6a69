import Statechart.Proofs.Chart.Entries
import Statechart.Proofs.Chart.Remembering

/- Of which defaults entering takes a note.

   Where entering comes across a history state without a record, it notes the default transition of
   that state for its parent. The note replaces an earlier one for the same parent. So what is noted
   in the end comes from a history state that entering has come across, and whenever entering comes
   across one, something is noted for its parent. -/
namespace Statechart.Chart

variable {c : Chart} {history : HistoryTable} {transitions : List TransitionIndex}
  {e e' e'' : EntrySet} {s p a d h r t top : Nat} {descend : StateIndex → EntrySet → EntrySet}
  {targets : List StateIndex}

/-- The states that entering comes across where it is told to: by the transitions that are taken, by
    the initial transitions of states that are entered by default, and by the defaults of history
    states without a record. -/
inductive Sought (c : Chart) (history : HistoryTable) (transitions : List TransitionIndex)
    (byDefault : List StateIndex) : StateIndex → Prop where
  | target {t : TransitionIndex} {s : StateIndex} (taken : t ∈ transitions)
      (named : s ∈ (c.transition t).targets) : Sought c history transitions byDefault s
  | initial {a : StateIndex} {t : TransitionIndex} {s : StateIndex} (entered : a ∈ byDefault)
      (enters : (c.state a).initial = some t) (named : s ∈ (c.transition t).targets) :
      Sought c history transitions byDefault s
  | default {h : StateIndex} {d : TransitionIndex} {s : StateIndex}
      (sought : Sought c history transitions byDefault h) (past : c.isHistory h = true)
      (unrecorded : history.lookup h = none) (enters : (c.state h).initial = some d)
      (named : s ∈ (c.transition d).targets) : Sought c history transitions byDefault s

/-- Entering comes across a history state without a record. -/
structure FallsBack (c : Chart) (history : HistoryTable) (transitions : List TransitionIndex)
    (byDefault : List StateIndex) (h : StateIndex) : Prop where
  sought : c.Sought history transitions byDefault h
  past : c.isHistory h = true
  unrecorded : history.lookup h = none

theorem Sought.mono {l l' : List StateIndex} (sought : c.Sought history transitions l s)
    (more : l ⊆ l') : c.Sought history transitions l' s := by
  induction sought with
  | target taken named => exact .target taken named
  | initial entered enters named => exact .initial (more entered) enters named
  | default _ past unrecorded enters named ih => exact .default ih past unrecorded enters named

/-- Entering comes across nothing outside a list that is closed under what names further states. -/
theorem Sought.mem {byDefault l : List StateIndex} (sought : c.Sought history transitions byDefault s)
    (closed : (∀ t ∈ transitions, ∀ r ∈ (c.transition t).targets, r ∈ l) ∧
      (∀ a ∈ byDefault, ∀ t ∈ (c.state a).initial, ∀ r ∈ (c.transition t).targets, r ∈ l) ∧
      ∀ h ∈ l, ∀ d ∈ (c.state h).initial, ∀ r ∈ (c.transition d).targets, r ∈ l) : s ∈ l := by
  induction sought with
  | target taken named => exact closed.1 _ taken _ named
  | initial entered enters named => exact closed.2.1 _ entered _ enters _ named
  | default _ _ _ enters named ih => exact closed.2.2 _ ih _ enters _ named

theorem FallsBack.mono {l l' : List StateIndex} (back : c.FallsBack history transitions l h)
    (more : l ⊆ l') : c.FallsBack history transitions l' h :=
  ⟨back.sought.mono more, back.past, back.unrecorded⟩

/-- A state that entering has come across: if it is a history state without a record, a default has
    been noted for its parent, and entering has come across all that its own default names. -/
inductive Answered (c : Chart) (history : HistoryTable) (e : EntrySet) : StateIndex → Prop where
  | ordinary {s : StateIndex} (ordinary : c.isHistory s = false) : Answered c history e s
  | recorded {s : StateIndex} {states : List StateIndex}
      (found : history.lookup s = some states) : Answered c history e s
  | bare {s : StateIndex} (none : (c.state s).initial = none) : Answered c history e s
  | noted {s p : StateIndex} {d : TransitionIndex} (hp : (c.state s).parent = some p)
      (enters : (c.state s).initial = some d) (noted : e.historyContent.lookup p ≠ none)
      (all : ∀ r ∈ (c.transition d).targets, Answered c history e r) : Answered c history e s

/-- Entering has come across all that the initial transition of a state names. -/
def Opened (c : Chart) (history : HistoryTable) (e : EntrySet) (a : StateIndex) : Prop :=
  ∀ t, (c.state a).initial = some t → ∀ r ∈ (c.transition t).targets, c.Answered history e r

/-- What is noted is the default of a child that entering has come across without a record. -/
def Accounted (c : Chart) (history : HistoryTable) (transitions : List TransitionIndex)
    (e : EntrySet) : Prop :=
  ∀ note ∈ e.historyContent, ∃ h, c.FallsBack history transitions e.byDefault h ∧
    (c.state h).parent = some note.1 ∧ (c.state h).initial = some note.2

/-- How entering goes on: what has been noted for a parent is not forgotten, and all that is entered by
    default is dealt with. -/
structure Advances (c : Chart) (history : HistoryTable) (transitions : List TransitionIndex)
    (e e' : EntrySet) : Prop where
  byDefault : e.byDefault ⊆ e'.byDefault
  noted : ∀ p, e.historyContent.lookup p ≠ none → e'.historyContent.lookup p ≠ none
  opened : ∀ a ∈ e'.byDefault, a ∈ e.byDefault ∨ c.Opened history e' a
  accounted : c.Accounted history transitions e → c.Accounted history transitions e'

theorem Answered.mono (answered : c.Answered history e s)
    (kept : ∀ p, e.historyContent.lookup p ≠ none → e'.historyContent.lookup p ≠ none) :
    c.Answered history e' s := by
  induction answered with
  | ordinary ordinary => exact .ordinary ordinary
  | recorded found => exact .recorded found
  | bare none => exact .bare none
  | noted hp enters noted _ ih => exact .noted hp enters (kept _ noted) ih

theorem Answered.default (answered : c.Answered history e s) (past : c.isHistory s = true)
    (unrecorded : history.lookup s = none) (enters : (c.state s).initial = some d) :
    (∃ p, (c.state s).parent = some p ∧ e.historyContent.lookup p ≠ none) ∧
      ∀ r ∈ (c.transition d).targets, c.Answered history e r := by
  cases answered with
  | ordinary ordinary =>
    rw [past] at ordinary
    cases ordinary
  | recorded found =>
    rw [unrecorded] at found
    cases found
  | bare none =>
    rw [enters] at none
    cases none
  | noted hp enters' noted all =>
    rw [enters] at enters'
    cases enters'
    exact ⟨⟨_, hp, noted⟩, all⟩

namespace Advances

theorem refl (e : EntrySet) : c.Advances history transitions e e :=
  ⟨List.Subset.refl _, fun _ => id, fun _ => Or.inl, id⟩

theorem trans (first : c.Advances history transitions e e')
    (second : c.Advances history transitions e' e'') : c.Advances history transitions e e'' where
  byDefault := List.Subset.trans first.byDefault second.byDefault
  noted p := second.noted p ∘ first.noted p
  opened a ha := by
    rcases second.opened a ha with before | opened
    · refine (first.opened a before).imp id fun opened t enters r hr => ?_
      exact (opened t enters r hr).mono second.noted
    · exact Or.inr opened
  accounted := second.accounted ∘ first.accounted

theorem add (e : EntrySet) (s : StateIndex) : c.Advances history transitions e (e.add s) :=
  ⟨List.Subset.refl _, fun _ => id, fun _ => Or.inl, id⟩

theorem lookup_addContent (e : EntrySet) (p a : StateIndex) (d : TransitionIndex) :
    (e.addContent p d).historyContent.lookup a =
      if a = p then some d else e.historyContent.lookup a := by
  rw [EntrySet.addContent, List.lookup_cons]
  by_cases same : a = p
  · simp [same]
  · rw [beq_false_of_ne same, if_neg same]
    exact (lookup_filter e.historyContent p a).trans (if_neg same)

theorem addContent (back : c.FallsBack history transitions e.byDefault h)
    (hp : (c.state h).parent = some p) (enters : (c.state h).initial = some d) :
    c.Advances history transitions e (e.addContent p d) where
  byDefault := List.Subset.refl _
  noted a noted := by
    rw [lookup_addContent]
    split
    · simp
    · exact noted
  opened _ := Or.inl
  accounted accounted note hnote := by
    rcases List.mem_cons.mp hnote with rfl | old
    · exact ⟨h, back, hp, enters⟩
    · exact accounted note (List.mem_filter.mp old).1

/-- Entering a state by default, and then all that its initial transition names. -/
theorem addDefault (further : c.Advances history transitions (e.addDefault s) e')
    (opened : c.Opened history e' s) : c.Advances history transitions e e' where
  byDefault a ha := further.byDefault (mem_insertIndex.mpr (Or.inr ha))
  noted := further.noted
  opened a ha := by
    rcases further.opened a ha with before | opened'
    · rcases mem_insertIndex.mp before with rfl | old
      · exact Or.inr opened
      · exact Or.inl old
    · exact Or.inr opened'
  accounted accounted := by
    refine further.accounted fun note hnote => ?_
    obtain ⟨h,back,hp,enters⟩ := accounted note hnote
    exact ⟨h, back.mono fun _ old => mem_insertIndex.mpr (Or.inr old), hp, enters⟩

end Advances

/-- The way states are entered deals with a state. A history state has to be one that entering is told
    to come across. -/
def Heeds (c : Chart) (history : HistoryTable) (transitions : List TransitionIndex)
    (descend : StateIndex → EntrySet → EntrySet) (s : StateIndex) : Prop :=
  ∀ e, (c.isHistory s = true → c.Sought history transitions e.byDefault s) →
    c.Advances history transitions e (descend s e) ∧ c.Answered history (descend s e) s

theorem descents_heed (heeds : ∀ r ∈ targets, c.Heeds history transitions descend r)
    (sought : ∀ r ∈ targets, c.isHistory r = true → c.Sought history transitions e.byDefault r) :
    let e' := targets.foldl (fun e r => descend r e) e
    c.Advances history transitions e e' ∧ ∀ r ∈ targets, c.Answered history e' r := by
  induction targets generalizing e with
  | nil => exact ⟨.refl e, by simp⟩
  | cons r rest ih =>
    obtain ⟨first,own⟩ := heeds r List.mem_cons_self e (sought r List.mem_cons_self)
    obtain ⟨later,all⟩ := ih (fun q hq => heeds q (List.mem_cons_of_mem _ hq))
      fun q hq past => (sought q (List.mem_cons_of_mem _ hq) past).mono first.byDefault
    simp only [List.foldl_cons]
    refine ⟨first.trans later, fun q hq => ?_⟩
    rcases List.mem_cons.mp hq with rfl | hq
    · exact own.mono later.noted
    · exact all q hq

/-- Regions are no history states, so entering need not have been told to come across them. -/
theorem regions_heed (heeds : ∀ k ∈ c.childStates a, c.Heeds history transitions descend k)
    (e : EntrySet) : c.Advances history transitions e (c.addMissingRegions descend a e) := by
  unfold addMissingRegions
  refine List.foldlRecOn (motive := c.Advances history transitions e) _ _ (.refl e) ?_
  intro e' before k hk
  simp only
  split
  · exact before
  · refine before.trans (heeds k hk e' fun past => ?_).1
    rw [childStates_plain hk] at past
    cases past

theorem climbs_heed (climbers : List StateIndex) (top : StateIndex)
    (heeds : ∀ r ∈ climbers, ∀ a ∈ (c.ancestorsUpTo r top).takeWhile (· ≠ root),
      ∀ k ∈ c.childStates a, c.Heeds history transitions descend k) (e : EntrySet) :
    c.Advances history transitions e
      (climbers.foldl (fun e r => c.addAncestors descend r top e) e) := by
  refine List.foldlRecOn (motive := c.Advances history transitions e) _ _ (.refl e) ?_
  intro e₁ before r hr
  refine before.trans ?_
  unfold addAncestors
  refine List.foldlRecOn (motive := c.Advances history transitions e₁) _ _ (.refl e₁) ?_
  intro e₂ before a ha
  have added := before.trans (.add e₂ a)
  simp only
  split
  · exact added.trans (regions_heed (heeds r hr a ha) _)
  · exact added

/-- Entering some states below another one deals with them. -/
theorem IsTree.targets_heed (tree : c.IsTree) (low : ∀ r ∈ targets, c.Below r top)
    (heeds : ∀ r ∈ targets, c.Heeds history transitions descend r)
    (regions : ∀ k, c.Below k top → c.isHistory k = false → c.Heeds history transitions descend k)
    (sought : ∀ r ∈ targets, c.isHistory r = true → c.Sought history transitions e.byDefault r) :
    let e' := c.addTargets descend targets top e
    c.Advances history transitions e e' ∧ ∀ r ∈ targets, c.Answered history e' r := by
  obtain ⟨first,all⟩ := descents_heed heeds sought
  have later : c.Advances history transitions (targets.foldl (fun e r => descend r e) e)
      (c.addTargets descend targets top e) := by
    refine climbs_heed targets top (fun r hr a ha k hk => ?_) _
    have between := ((tree.path_iff (low r hr)).mp ha).2
    exact regions k (tree.below_trans (tree.below_parent (tree.childStates_parent hk)) between)
      (childStates_plain hk)
  exact ⟨first.trans later, fun r hr => (all r hr).mono later.noted⟩

namespace WellFormed

theorem heeds_ordinary (wf : c.WellFormed) {depth : Nat}
    (below : ∀ r, c.Calls s r →
      c.Heeds history transitions (c.addDescendants history depth) r)
    (ordinary : c.isHistory s = false) :
    c.Heeds history transitions (c.addDescendants history (depth + 1)) s := by
  refine fun e _ => ⟨?_, .ordinary ordinary⟩
  rw [addDescendants]
  simp only [ordinary, Bool.false_eq_true, if_false]
  refine .trans (.add e s) ?_
  split
  · rename_i compound
    cases enters : (c.state s).initial with
    | none =>
      refine .addDefault (.refl _) fun t found => ?_
      rw [enters] at found
      cases found
    | some t =>
      have low := wf.initial_below compound enters
      have member : s ∈ ((e.add s).addDefault s).byDefault := mem_insertIndex.mpr (Or.inl rfl)
      obtain ⟨further,all⟩ := wf.targets_heed (e := (e.add s).addDefault s) low
        (fun r hr => below r (.inside ordinary (low r hr)))
        (fun k inner _ => below k (.inside ordinary inner))
        fun r hr _ => .initial member enters hr
      refine further.addDefault fun u found => ?_
      rw [enters] at found
      cases found
      exact all
  · split
    · exact regions_heed
        (fun k hk => below k (.inside ordinary (wf.below_parent (wf.childStates_parent hk)))) _
    · exact .refl _

theorem heeds_past (wf : c.WellFormed) (inward : c.Inward history)
    (records : ∀ entry ∈ history, ∀ r ∈ entry.2, c.isHistory r = false) {depth : Nat}
    (below : ∀ r, c.Calls s r →
      c.Heeds history transitions (c.addDescendants history depth) r)
    (past : c.isHistory s = true) :
    c.Heeds history transitions (c.addDescendants history (depth + 1)) s := by
  intro e sought
  have sought := sought past
  obtain ⟨p,hp⟩ := wf.history_parent past
  have regions : ∀ k, c.Below k p → c.isHistory k = false →
      c.Heeds history transitions (c.addDescendants history depth) k :=
    fun k inner ordinary => below k (.beside past hp inner ordinary)
  rw [addDescendants]
  simp only [past, if_true, hp, Option.getD_some]
  cases found : history.lookup s with
  | some states =>
    have low : ∀ r ∈ states, c.Below r p := fun r hr => inward.lookup found hr hp
    have ordinary : ∀ r ∈ states, c.isHistory r = false := by
      obtain ⟨before,after,rfl,_⟩ := List.lookup_eq_some_iff.mp found
      exact records (s, states) (by simp)
    obtain ⟨further,-⟩ := wf.targets_heed (e := e) low
      (fun r hr => regions r (low r hr) (ordinary r hr)) regions
      fun r hr past => absurd (past.symm.trans (ordinary r hr)) (by simp)
    exact ⟨further, .recorded found⟩
  | none =>
    cases enters : (c.state s).initial with
    | none => exact ⟨.refl e, .bare enters⟩
    | some d =>
      have low : ∀ r ∈ (c.transition d).targets, c.Below r p :=
        fun r hr => inward.byDefault s d past enters r hr p hp
      obtain ⟨further,all⟩ := wf.targets_heed (e := e.addContent p d) low
        (fun r hr => below r (.named ⟨past, d, enters, hr⟩)) regions
        fun r hr _ => .default sought past found enters hr
      refine ⟨.trans (.addContent ⟨sought, past, found⟩ hp enters) further,
        .noted hp enters (further.noted p ?_) all⟩
      rw [Advances.lookup_addContent, if_pos rfl]
      simp

/-- Entering does not run out of depth before it has dealt with a state. -/
theorem addDescendants_heeds (wf : c.WellFormed) (inward : c.Inward history)
    (records : ∀ entry ∈ history, ∀ r ∈ entry.2, c.isHistory r = false)
    (uncircular : c.Uncircular) {depth : Nat} (inside : s < c.states.size)
    (enough : c.room s ≤ depth) :
    c.Heeds history transitions (c.addDescendants history depth) s := by
  induction depth generalizing s with
  | zero => exact absurd (wf.room_pos inside) (by omega)
  | succ depth ih =>
    have below : ∀ r, c.Calls s r →
        c.Heeds history transitions (c.addDescendants history depth) r := by
      intro r calls
      have less := wf.room_lt_of_calls inward uncircular inside calls
      exact ih (wf.calls_in_range calls) (by omega)
    by_cases past : c.isHistory s = true
    · exact wf.heeds_past inward records below past
    · exact wf.heeds_ordinary below (by simpa using past)

theorem enterFor_heeds (wf : c.WellFormed) (inward : c.Inward history)
    (records : ∀ entry ∈ history, ∀ r ∈ entry.2, c.isHistory r = false)
    (uncircular : c.Uncircular) (taken : t ∈ transitions) (e : EntrySet) :
    c.Advances history transitions e (c.enterFor history e t) ∧
      ∀ q ∈ (c.transition t).targets, c.Answered history (c.enterFor history e t) q := by
  have enough : ∀ s, s < c.states.size →
      c.Heeds history transitions (c.addDescendants history c.nesting) s :=
    fun s inside => wf.addDescendants_heeds inward records uncircular inside
      (Nat.le_trans (c.room_le s) (Nat.le_of_lt c.size_lt_nesting))
  obtain ⟨first,all⟩ := descents_heed (e := e)
    (fun q hq => enough q (wf.targets_declared t q hq)) fun q hq _ => .target taken hq
  simp only [enterFor]
  split
  · rename_i d _
    have later := climbs_heed (c.effectiveTargets history t) d
      (fun r _ a _ k hk => enough k (c.parent_in_range (wf.childStates_parent hk)))
      ((c.transition t).targets.foldl
        (fun e s => c.addDescendants history c.nesting s e) e)
    exact ⟨first.trans later, fun q hq => (all q hq).mono later.noted⟩
  · exact ⟨first, all⟩

theorem transitions_heed (wf : c.WellFormed) (inward : c.Inward history)
    (records : ∀ entry ∈ history, ∀ r ∈ entry.2, c.isHistory r = false)
    (uncircular : c.Uncircular) {l : List TransitionIndex} (taken : l ⊆ transitions)
    (e : EntrySet) :
    c.Advances history transitions e (l.foldl (c.enterFor history) e) ∧
      ∀ t ∈ l, ∀ q ∈ (c.transition t).targets,
        c.Answered history (l.foldl (c.enterFor history) e) q := by
  induction l generalizing e with
  | nil => exact ⟨.refl e, by simp⟩
  | cons t rest ih =>
    obtain ⟨first,own⟩ := wf.enterFor_heeds inward records uncircular (taken List.mem_cons_self) e
    obtain ⟨later,all⟩ := ih (List.Subset.trans (List.subset_cons_self t rest) taken)
      (c.enterFor history e t)
    rw [List.foldl_cons]
    refine ⟨first.trans later, fun u hu q hq => ?_⟩
    rcases List.mem_cons.mp hu with rfl | hu
    · exact (own q hq).mono later.noted
    · exact all u hu q hq

/-- All that is noted comes from history states that entering has come across, and all of those have
    been dealt with. -/
theorem entrySet_heeds (wf : c.WellFormed) (inward : c.Inward history)
    (records : ∀ entry ∈ history, ∀ r ∈ entry.2, c.isHistory r = false)
    (uncircular : c.Uncircular) (transitions : List TransitionIndex) :
    let e := c.entrySet history transitions
    c.Accounted history transitions e ∧
      ∀ s, c.Sought history transitions e.byDefault s → c.Answered history e s := by
  obtain ⟨advances,targets⟩ :=
    wf.transitions_heed inward records uncircular (List.Subset.refl transitions) {}
  refine ⟨advances.accounted fun _ none => (by cases none), fun s sought => ?_⟩
  induction sought with
  | target taken named => exact targets _ taken _ named
  | initial entered enters named =>
    rcases advances.opened _ entered with none | opened
    · cases none
    · exact opened _ enters _ named
  | default sought past unrecorded enters named ih =>
    exact (ih.default past unrecorded enters).2 _ named

/-- Whenever entering comes across a history state without a record, a default is noted for its parent,
    and it is that of a history state of this kind. -/
theorem entrySet_noted (wf : c.WellFormed) (inward : c.Inward history)
    (records : ∀ entry ∈ history, ∀ r ∈ entry.2, c.isHistory r = false)
    (uncircular : c.Uncircular)
    (back : c.FallsBack history transitions (c.entrySet history transitions).byDefault h)
    (hp : (c.state h).parent = some p) (enters : (c.state h).initial = some d) :
    ∃ d', (c.entrySet history transitions).historyContent.lookup p = some d' := by
  have answered := (wf.entrySet_heeds inward records uncircular transitions).2 h back.sought
  obtain ⟨⟨p',hp',noted⟩,-⟩ := answered.default back.past back.unrecorded enters
  rw [hp] at hp'
  cases hp'
  exact Option.ne_none_iff_exists'.mp noted

theorem entrySet_accounted (wf : c.WellFormed) (inward : c.Inward history)
    (records : ∀ entry ∈ history, ∀ r ∈ entry.2, c.isHistory r = false)
    (uncircular : c.Uncircular)
    (noted : (c.entrySet history transitions).historyContent.lookup p = some d) :
    ∃ h, c.FallsBack history transitions (c.entrySet history transitions).byDefault h ∧
      (c.state h).parent = some p ∧ (c.state h).initial = some d := by
  obtain ⟨before,after,split,_⟩ := List.lookup_eq_some_iff.mp noted
  exact (wf.entrySet_heeds inward records uncircular transitions).1 (p, d) (by rw [split]; simp)

end WellFormed

end Statechart.Chart

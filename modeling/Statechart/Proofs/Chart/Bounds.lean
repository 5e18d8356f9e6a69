import Statechart.Proofs.Chart.Descent
import Statechart.Proofs.Chart.Entry

/- Whatever a microstep enters or records is a state of the chart, also where history states say
   what is entered, and no history state is entered itself. Sets stay in ascending order. -/
namespace Statechart

theorem pairwise_insertIndex {s : Nat} {l : List Nat} (ascending : l.Pairwise (· < ·)) :
    (insertIndex s l).Pairwise (· < ·) := by
  induction l with
  | nil => exact List.pairwise_singleton _ _
  | cons t rest ih =>
    obtain ⟨before,ordered⟩ := List.pairwise_cons.mp ascending
    simp only [insertIndex]
    split
    · rename_i first
      refine List.pairwise_cons.mpr ⟨?_, ascending⟩
      intro u hu
      rcases List.mem_cons.mp hu with rfl | later
      · exact first
      · exact Nat.lt_trans first (before u later)
    · split
      · exact ascending
      · rename_i order other
        refine List.pairwise_cons.mpr ⟨?_, ih ordered⟩
        intro u hu
        rcases Chart.mem_insertIndex.mp hu with rfl | old
        · exact Nat.lt_of_le_of_ne (Nat.not_lt.mp order) (Ne.symm other)
        · exact before u old

theorem lookup_filter {κ ν : Type} [BEq κ] [LawfulBEq κ] [DecidableEq κ] (entries : List (κ × ν))
    (key asked : κ) :
    (entries.filter (·.1 ≠ key)).lookup asked = if asked = key then none else entries.lookup asked := by
  induction entries with
  | nil => simp
  | cons entry rest ih =>
    obtain ⟨k,value⟩ := entry
    by_cases gone : k = key
    · subst gone
      rw [List.filter_cons_of_neg (by simp), ih]
      split
      · rfl
      · rename_i other
        rw [List.lookup_cons, beq_false_of_ne other]
    · rw [List.filter_cons_of_pos (by simpa using gone), List.lookup_cons, List.lookup_cons, ih]
      by_cases here : asked = k
      · subst here
        simp [gone]
      · simp [beq_false_of_ne here]

namespace Chart

variable {c : Chart} {history : HistoryTable} {e : EntrySet} {s : Nat}

/-- States of the chart only. -/
def Inside (c : Chart) (states : List StateIndex) : Prop := ∀ s ∈ states, s < c.states.size

/-- History states have recorded states of the chart. -/
def Recorded (c : Chart) (history : HistoryTable) : Prop :=
  ∀ r ∈ history, r.1 < c.states.size ∧ c.Inside r.2

theorem Inside.insertIndex {l : List StateIndex} (inside : c.Inside l) (own : s < c.states.size) :
    c.Inside (insertIndex s l) := by
  intro x hx
  rcases mem_insertIndex.mp hx with rfl | old
  · exact own
  · exact inside x old

theorem Recorded.lookup (recorded : c.Recorded history) {states : List StateIndex}
    (found : history.lookup s = some states) : c.Inside states := by
  obtain ⟨before,after,rfl,_⟩ := List.lookup_eq_some_iff.mp found
  exact (recorded (s, states) (by simp)).2

theorem IsTree.child_in_range (tree : c.IsTree) {p : Nat} (child : s ∈ (c.state p).children) :
    s < c.states.size := c.parent_in_range ((tree.child_iff p s).mp child)

/-- The states around others and the regions are of a kind, and so is what is recorded and named, unless
    it is a history state. -/
structure Admits (c : Chart) (history : HistoryTable) (ok : StateIndex → Prop) : Prop where
  above : ∀ s a, c.Below s a → ok a
  child : ∀ a, ∀ k ∈ c.childStates a, ok k
  recorded : ∀ s states, history.lookup s = some states → ∀ r ∈ states, ok r ∨ c.isHistory r = true
  target : ∀ t, ∀ r ∈ (c.transition t).targets, ok r ∨ c.isHistory r = true

/-- The way states are entered adds states of a kind only. -/
def Adds (c : Chart) (ok : StateIndex → Prop) (descend : StateIndex → EntrySet → EntrySet) : Prop :=
  ∀ s e, ok s ∨ c.isHistory s = true → (∀ x ∈ e.states, ok x) → ∀ x ∈ (descend s e).states, ok x

section Kinds

variable {descend : StateIndex → EntrySet → EntrySet} {ok : StateIndex → Prop}

theorem add_kind (all : ∀ x ∈ e.states, ok x) (own : ok s) : ∀ x ∈ (e.add s).states, ok x := by
  intro x hx
  rcases mem_insertIndex.mp hx with rfl | old
  · exact own
  · exact all x old

theorem Admits.regions_kind (admits : c.Admits history ok) (adds : c.Adds ok descend)
    (parallel : StateIndex) (all : ∀ x ∈ e.states, ok x) :
    ∀ x ∈ (c.addMissingRegions descend parallel e).states, ok x := by
  unfold addMissingRegions
  refine List.foldlRecOn (motive := fun e : EntrySet => ∀ x ∈ e.states, ok x) _ _ all ?_
  intro e all child hchild
  simp only
  split
  · exact all
  · exact adds child e (Or.inl (admits.child parallel child hchild)) all

theorem Admits.ancestors_kind (admits : c.Admits history ok) (adds : c.Adds ok descend)
    (top : StateIndex) (all : ∀ x ∈ e.states, ok x) :
    ∀ x ∈ (c.addAncestors descend s top e).states, ok x := by
  unfold addAncestors
  refine List.foldlRecOn (motive := fun e : EntrySet => ∀ x ∈ e.states, ok x) _ _ all ?_
  intro e all a ha
  have above : c.Below s a :=
    (List.takeWhile_sublist _).subset ((List.takeWhile_sublist _).subset ha)
  have added := add_kind all (admits.above s a above)
  simp only
  split
  · exact admits.regions_kind adds a added
  · exact added

theorem Admits.targets_kind (admits : c.Admits history ok) (adds : c.Adds ok descend)
    {targets : List StateIndex} (own : ∀ r ∈ targets, ok r ∨ c.isHistory r = true)
    (top : StateIndex) (all : ∀ x ∈ e.states, ok x) :
    ∀ x ∈ (c.addTargets descend targets top e).states, ok x := by
  unfold addTargets
  refine List.foldlRecOn (motive := fun e : EntrySet => ∀ x ∈ e.states, ok x) _ _ ?_ ?_
  · exact List.foldlRecOn (motive := fun e : EntrySet => ∀ x ∈ e.states, ok x) _ _ all
      fun e all r hr => adds r e (own r hr) all
  · exact fun e all r _ => admits.ancestors_kind adds top all

theorem Admits.addDescendants_adds (admits : c.Admits history ok) (depth : Nat) :
    c.Adds ok (c.addDescendants history depth) := by
  induction depth with
  | zero => exact fun _ _ _ all => all
  | succ depth ih =>
    intro s e own all
    rw [addDescendants]
    simp only
    split
    · cases found : history.lookup s with
      | some states => exact admits.targets_kind ih (admits.recorded s states found) _ all
      | none =>
        cases (c.state s).initial with
        | some d => exact admits.targets_kind ih (admits.target d) _ all
        | none => exact all
    · rename_i ordinary
      have added := add_kind all (own.resolve_right ordinary)
      split
      · cases (c.state s).initial with
        | some t => exact admits.targets_kind ih (admits.target t) _ added
        | none => exact added
      · split
        · exact admits.regions_kind ih s added
        · exact added

theorem Admits.entrySet_kind (admits : c.Admits history ok) (transitions : List TransitionIndex) :
    ∀ x ∈ (c.entrySet history transitions).states, ok x := by
  have adds := admits.addDescendants_adds c.nesting
  unfold entrySet
  refine List.foldlRecOn (motive := fun e : EntrySet => ∀ x ∈ e.states, ok x) _ _
    (fun _ none => absurd none List.not_mem_nil) ?_
  intro e all t _
  have entered : ∀ x ∈ ((c.transition t).targets.foldl
      (fun e s => c.addDescendants history c.nesting s e) e).states, ok x :=
    List.foldlRecOn (motive := fun e : EntrySet => ∀ x ∈ e.states, ok x) _ _ all
      fun e all s hs => adds s e (admits.target t s hs) all
  simp only [enterFor]
  split
  · exact List.foldlRecOn (motive := fun e : EntrySet => ∀ x ∈ e.states, ok x) _ _ entered
      fun e all s _ => admits.ancestors_kind adds _ all
  · exact entered

end Kinds

/-- Whatever is entered is a state of the chart. -/
theorem entrySet_inside (wf : c.WellFormed) (recorded : c.Recorded history)
    (transitions : List TransitionIndex) : c.Inside (c.entrySet history transitions).states := by
  change ∀ s ∈ (c.entrySet history transitions).states, s < c.states.size
  refine Admits.entrySet_kind ⟨?_, ?_, ?_, ?_⟩ transitions
  · exact fun s a above => Nat.lt_trans (wf.below_lt above) (wf.below_in_range above)
  · exact fun a k hk => wf.child_in_range (List.mem_filter.mp hk).1
  · exact fun s states found r hr => Or.inl (recorded.lookup found r hr)
  · exact fun t r hr => Or.inl (wf.targets_declared t r hr)

theorem WellFormed.ordinary_of_below (wf : c.WellFormed) {x y : StateIndex} (below : c.Below x y) :
    c.isHistory y = false := by
  obtain ⟨k,hk,_⟩ := wf.child_toward below
  cases past : c.isHistory y with
  | false => rfl
  | true =>
    have child := (wf.child_iff y k).mpr hk
    rw [wf.leaf_history y past] at child
    cases child

theorem WellFormed.region_toward (wf : c.WellFormed) {x a : StateIndex} (below : c.Below x a)
    (ordinary : c.isHistory x = false) : ∃ k ∈ c.childStates a, c.Within x k := by
  obtain ⟨k,hk,within⟩ := wf.child_toward below
  have plain : c.isHistory k = false := by
    rcases within with rfl | inner
    · exact ordinary
    · exact wf.ordinary_of_below inner
  exact ⟨k, List.mem_filter.mpr ⟨(wf.child_iff a k).mpr hk, by simp [plain]⟩, within⟩

theorem WellFormed.not_atomic_of_below (wf : c.WellFormed) {x a : StateIndex} (below : c.Below x a)
    (ordinary : c.isHistory x = false) : c.isAtomic a = false := by
  obtain ⟨k,hk,_⟩ := wf.region_toward below ordinary
  unfold isAtomic
  cases kind : (c.state a).kind with
  | final =>
    rw [childStates, wf.leaf_final a (by simp [isFinal, kind])] at hk
    cases hk
  | state => simpa using List.ne_nil_of_mem hk
  | _ => rfl

theorem childStates_plain {a k : StateIndex} (hk : k ∈ c.childStates a) : c.isHistory k = false := by
  simpa using (List.mem_filter.mp hk).2

theorem WellFormed.entrySet_ordinary (wf : c.WellFormed) (history : HistoryTable)
    (transitions : List TransitionIndex) :
    ∀ x ∈ (c.entrySet history transitions).states, c.isHistory x = false := by
  have either : ∀ r, c.isHistory r = false ∨ c.isHistory r = true := fun r =>
    (Bool.eq_false_or_eq_true _).symm
  refine Admits.entrySet_kind ⟨?_, ?_, ?_, ?_⟩ transitions
  · exact fun s a above => wf.ordinary_of_below above
  · exact fun a k hk => childStates_plain hk
  · exact fun s states found r hr => either r
  · exact fun t r hr => either r

/-- Records that are made anew are of states of the chart, one for each history state. -/
structure Records (c : Chart) (history : HistoryTable) : Prop where
  recorded : c.Recorded history
  distinct : (history.map (·.1)).Nodup

theorem Records.record (records : c.Records history) {states : List StateIndex}
    (own : s < c.states.size) (inside : c.Inside states) :
    c.Records (record history s states) where
  recorded := by
    intro r hr
    rcases List.mem_cons.mp hr with rfl | old
    · exact ⟨own, inside⟩
    · exact records.recorded r (List.mem_filter.mp old).1
  distinct := by
    refine List.nodup_cons.mpr ⟨?_, records.distinct.sublist (List.filter_sublist.map _)⟩
    intro again
    obtain ⟨r,hr,same⟩ := List.mem_map.mp again
    have other := (List.mem_filter.mp hr).2
    simp only [ne_eq, decide_not, Bool.not_eq_true', decide_eq_false_iff_not] at other
    exact other same

theorem active_of_recordFor {configuration : List StateIndex} {h r : StateIndex}
    (recorded : r ∈ c.recordFor configuration s h) : r ∈ configuration := by
  unfold recordFor at recorded
  split at recorded
  · exact (List.mem_filter.mp recorded).1
  · exact (List.mem_filter.mp recorded).1

/-- What holds of all records holds after leaving if it holds of those that are made then. -/
theorem recordAll_forall {P : StateIndex × List StateIndex → Prop}
    {configuration exits : List StateIndex} (old : ∀ entry ∈ history, P entry)
    (made : ∀ s ∈ exits, ∀ h ∈ c.historyChildren s, P (h, c.recordFor configuration s h)) :
    ∀ entry ∈ c.recordAll configuration exits history, P entry := by
  unfold Chart.recordAll
  refine List.foldlRecOn (motive := fun k : HistoryTable => ∀ entry ∈ k, P entry) _ _ old ?_
  intro k old s hs
  refine List.foldlRecOn (motive := fun k : HistoryTable => ∀ entry ∈ k, P entry) _ _ old ?_
  intro k old h hh entry hentry
  rcases List.mem_cons.mp hentry with rfl | kept
  · exact made s hs h hh
  · exact old entry (List.mem_filter.mp kept).1

theorem Records.recordAll (tree : c.IsTree) (records : c.Records history)
    {configuration : List StateIndex} (inside : c.Inside configuration) (exits : List StateIndex) :
    c.Records (c.recordAll configuration exits history) := by
  unfold Chart.recordAll
  refine List.foldlRecOn (motive := c.Records) _ _ records ?_
  intro history records s _
  refine List.foldlRecOn (motive := c.Records) _ _ records ?_
  intro history records h hh
  exact records.record (tree.child_in_range (List.mem_filter.mp hh).1) fun r hr =>
    inside r (active_of_recordFor hr)

end Chart

end Statechart

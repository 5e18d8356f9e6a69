import Statechart.Proofs.Chart.Scope

/- Entering a state is a matter of what lies inside it. It adds nothing outside, and what it adds
   inside depends only on what had been entered there before. So states that do not lie in one another
   are entered as if each were entered on its own. -/
namespace Statechart.Chart

variable {c : Chart} {history : HistoryTable} {e e' : EntrySet} {D a k p r s t top x : Nat}
  {descend : StateIndex → EntrySet → EntrySet}

/-- The same has been entered inside a state. -/
def Agree (c : Chart) (D : StateIndex) (e e' : EntrySet) : Prop :=
  ∀ x, c.Within x D → (x ∈ e.states ↔ x ∈ e'.states)

/-- What is entered inside a state depends only on what has been entered there. -/
def Local (c : Chart) (D : StateIndex) (part : EntrySet → EntrySet) : Prop :=
  ∀ e e', c.Agree D e e' → c.Agree D (part e) (part e')

theorem Agree.add (agree : c.Agree D e e') (s : StateIndex) : c.Agree D (e.add s) (e'.add s) := by
  intro x within
  rw [EntrySet.add, EntrySet.add, mem_insertIndex, mem_insertIndex, agree x within]

theorem local_foldl {l : List StateIndex} {part : EntrySet → StateIndex → EntrySet}
    (each : ∀ s ∈ l, c.Local D fun e => part e s) : c.Local D fun e => l.foldl part e := by
  induction l with
  | nil => exact fun _ _ agree => agree
  | cons s rest ih =>
    intro e e' agree
    exact ih (fun q hq => each q (List.mem_cons_of_mem _ hq)) _ _
      (each s List.mem_cons_self e e' agree)

theorem Agree.covered (agree : c.Agree D e e') (tree : c.IsTree) (inside : c.Within k D) :
    (e.states.any fun s => s == k || c.isDescendant s k) =
      e'.states.any fun s => s == k || c.isDescendant s k := by
  rw [Bool.eq_iff_iff, List.any_eq_true, List.any_eq_true]
  have same : ∀ s, (s == k || c.isDescendant s k) = true → (s ∈ e.states ↔ s ∈ e'.states) := by
    intro s around
    exact agree s (tree.within_trans (by simpa [Within] using around) inside)
  constructor
  · rintro ⟨s,hs,around⟩
    exact ⟨s, (same s around).mp hs, around⟩
  · rintro ⟨s,hs,around⟩
    exact ⟨s, (same s around).mpr hs, around⟩

namespace IsTree

theorem regions_local (tree : c.IsTree) (inside : c.Within a D)
    (each : ∀ k, c.Below k D → c.isHistory k = false → c.Local D (descend k)) :
    c.Local D (c.addMissingRegions descend a) := by
  unfold addMissingRegions
  refine local_foldl fun k hk e e' agree => ?_
  have below := tree.below_of_below_within (tree.below_parent (tree.childStates_parent hk)) inside
  simp only [agree.covered tree (Or.inr below)]
  split
  · exact agree
  · exact each k below (childStates_plain hk) e e' agree

theorem ancestors_local (tree : c.IsTree) (low : c.Below r top) (inside : c.Within top D)
    (each : ∀ k, c.Below k D → c.isHistory k = false → c.Local D (descend k)) :
    c.Local D (c.addAncestors descend r top) := by
  unfold addAncestors
  refine local_foldl fun a ha e e' agree => ?_
  have below := tree.below_of_below_within ((tree.path_iff low).mp ha).2 inside
  simp only
  split
  · exact tree.regions_local (Or.inr below) each _ _ (agree.add a)
  · exact agree.add a

theorem targets_local (tree : c.IsTree) {targets : List StateIndex}
    (low : ∀ r ∈ targets, c.Below r top) (inside : c.Within top D)
    (named : ∀ r ∈ targets, c.Local D (descend r))
    (each : ∀ k, c.Below k D → c.isHistory k = false → c.Local D (descend k)) :
    c.Local D (c.addTargets descend targets top) := by
  intro e e' agree
  unfold addTargets
  refine local_foldl (fun r hr => tree.ancestors_local (low r hr) inside each) _ _ ?_
  exact local_foldl named _ _ agree

end IsTree

namespace WellFormed

/-- What entering a state enters inside the state depends only on what has been entered there. -/
theorem addDescendants_local (wf : c.WellFormed) (inward : c.Inward history) (depth : Nat) :
    ∀ s D, c.Below s D ∨ (s = D ∧ c.isHistory s = false) →
      c.Local D (c.addDescendants history depth s) := by
  induction depth with
  | zero => exact fun _ _ _ _ _ agree => agree
  | succ depth ih =>
    intro s D inside
    have each : ∀ k, c.Below k D → c.isHistory k = false →
        c.Local D (c.addDescendants history depth k) := fun k below _ => ih k D (Or.inl below)
    intro e e' agree
    rw [addDescendants, addDescendants]
    simp only
    split
    · rename_i past
      have below := inside.resolve_right fun top => by
        rw [top.2] at past
        cases past
      obtain ⟨p,hp,up⟩ := wf.below_iff.mp below
      rw [hp, Option.getD_some]
      cases found : history.lookup s with
      | some states =>
        have low : ∀ r ∈ states, c.Below r p := fun r hr => inward.lookup found hr hp
        exact wf.targets_local low up
          (fun r hr => ih r D (Or.inl (wf.below_of_below_within (low r hr) up))) each e e' agree
      | none =>
        cases enters : (c.state s).initial with
        | some t =>
          have low : ∀ r ∈ (c.transition t).targets, c.Below r p := fun r hr =>
            inward.byDefault s t past enters r hr p hp
          exact wf.targets_local low up
            (fun r hr => ih r D (Or.inl (wf.below_of_below_within (low r hr) up))) each
            (e.addContent p t) (e'.addContent p t) agree
        | none => exact agree
    · have up : c.Within s D := inside.elim Or.inr fun top => Or.inl top.1
      have added := agree.add s
      split
      · rename_i compound
        cases enters : (c.state s).initial with
        | some t =>
          have low := wf.initial_below compound enters
          exact wf.targets_local low up
            (fun r hr => ih r D (Or.inl (wf.below_of_below_within (low r hr) up))) each
            ((e.add s).addDefault s) ((e'.add s).addDefault s) added
        | none => exact added
      · split
        · exact wf.regions_local up each _ _ added
        · exact added

/-- Entering an ordinary state adds nothing outside it. -/
theorem addDescendants_within (wf : c.WellFormed) (inward : c.Inward history) (depth : Nat)
    (ordinary : c.isHistory s = false) (hx : x ∈ (c.addDescendants history depth s e).states) :
    x ∈ e.states ∨ c.Within x s := by
  cases depth with
  | zero => exact Or.inl hx
  | succ depth =>
    have confined := wf.addDescendants_confined inward depth
    have added : x ∈ (e.add s).states → x ∈ e.states ∨ c.Within x s := by
      intro hx
      rcases mem_insertIndex.mp hx with rfl | old
      · exact Or.inr (Or.inl rfl)
      · exact Or.inl old
    rw [addDescendants] at hx
    simp only [ordinary, Bool.false_eq_true, if_false] at hx
    split at hx
    · rename_i compound
      cases enters : (c.state s).initial with
      | some t =>
        rw [enters] at hx
        rcases wf.targets_confined confined (wf.initial_below compound enters) hx with old | below
        · exact added old
        · exact Or.inr (Or.inr below)
      | none =>
        rw [enters] at hx
        exact added hx
    · split at hx
      · rcases wf.regions_confined confined hx with old | below
        · exact added old
        · exact Or.inr (Or.inr below)
      · exact added hx

theorem addDescendants_grows (wf : c.WellFormed) (history : HistoryTable) (depth : Nat)
    (s : StateIndex) (e : EntrySet) :
    e.states ⊆ (c.addDescendants history depth s e).states :=
  (wf.addDescendants_hooks history depth (fun _ => True) s e
    (fun _ _ _ _ => Or.inr (Or.inr trivial)) fun _ _ => Or.inr (Or.inr trivial)).1

theorem addDescendants_self (wf : c.WellFormed) (history : HistoryTable) (depth : Nat)
    (ordinary : c.isHistory s = false) (e : EntrySet) :
    s ∈ (c.addDescendants history (depth + 1) s e).states := by
  have hooks := wf.addDescendants_hooks history depth
  have member : s ∈ (e.add s).states := mem_insertIndex.mpr (Or.inl rfl)
  have anywhere : ∀ e, c.Hangs (fun _ => True) e := fun _ _ _ _ _ => Or.inr (Or.inr trivial)
  rw [addDescendants]
  simp only [ordinary, Bool.false_eq_true, if_false]
  split
  · cases (c.state s).initial with
    | some t =>
      exact (wf.targets_hang (e := (e.add s).addDefault s) hooks _
        (Or.inr (Or.inr trivial)) (anywhere _)).1 member
    | none => exact member
  · split
    · exact (wf.regions_hang hooks member (anywhere _)).1 member
    · exact member

/-- An atomic state brings nothing with it. -/
theorem addDescendants_atomic (history : HistoryTable) (depth : Nat) (atomic : c.isAtomic s = true)
    (e : EntrySet) : c.addDescendants history (depth + 1) s e = e.add s := by
  rw [addDescendants]
  unfold isAtomic at atomic
  unfold isHistory isCompound isParallel
  cases kind : (c.state s).kind <;> simp_all

end WellFormed

/-- What a state enters when it is entered on its own within another, with nothing else entered
    before. -/
def enteredAlone (c : Chart) (history : HistoryTable) (s : StateIndex) : List StateIndex :=
  (c.addDescendants history (c.nesting - 1) s {}).states

namespace WellFormed

/-- Calls may nest at least twice. -/
theorem nesting_deep (wf : c.WellFormed) : ∃ n, c.nesting - 1 = n + 1 := by
  have some := wf.nonempty
  have deep := c.size_lt_nesting
  exact ⟨c.nesting - 2, by omega⟩

theorem enteredAlone_within (wf : c.WellFormed) (inward : c.Inward history)
    (ordinary : c.isHistory s = false) (hx : x ∈ c.enteredAlone history s) : c.Within x s :=
  (wf.addDescendants_within inward _ ordinary hx).resolve_left List.not_mem_nil

theorem self_enteredAlone (wf : c.WellFormed) (history : HistoryTable)
    (ordinary : c.isHistory s = false) : s ∈ c.enteredAlone history s := by
  obtain ⟨n,deep⟩ := wf.nesting_deep
  rw [enteredAlone, deep]
  exact wf.addDescendants_self history n ordinary {}

theorem mem_addDescendants (wf : c.WellFormed) (inward : c.Inward history)
    (ordinary : c.isHistory s = false) (fresh : ∀ x ∈ e.states, ¬ c.Within x s) :
    x ∈ (c.addDescendants history (c.nesting - 1) s e).states ↔
      x ∈ e.states ∨ x ∈ c.enteredAlone history s := by
  have agree : c.Agree s e {} := fun x within =>
    iff_of_false (fun hx => fresh x hx within) List.not_mem_nil
  have same := wf.addDescendants_local inward (c.nesting - 1) s s (Or.inr ⟨rfl, ordinary⟩) e {} agree
  constructor
  · intro hx
    rcases wf.addDescendants_within inward _ ordinary hx with old | within
    · exact Or.inl old
    · exact Or.inr ((same x within).mp hx)
  · rintro (old | alone)
    · exact wf.addDescendants_grows history _ s e old
    · exact (same x (wf.enteredAlone_within inward ordinary alone)).mpr alone

theorem mem_siblings (wf : c.WellFormed) (inward : c.Inward history) (kids : List StateIndex)
    (children : ∀ k ∈ kids, (c.state k).parent = some p ∧ c.isHistory k = false)
    (once : kids.Nodup) (fresh : ∀ x ∈ e.states, ¬ c.Below x p) :
    x ∈ (kids.foldl (fun e k => c.addDescendants history (c.nesting - 1) k e) e).states ↔
      x ∈ e.states ∨ ∃ k ∈ kids, x ∈ c.enteredAlone history k := by
  have apart : ∀ k ∈ kids, ∀ x ∈ e.states, ¬ c.Within x k := fun k hk x hx within =>
    fresh x hx (wf.below_of_within_below within (wf.below_parent (children k hk).1))
  clear fresh
  induction kids generalizing e with
  | nil => simp
  | cons k rest ih =>
    obtain ⟨hk,ordinary⟩ := children k List.mem_cons_self
    have first : ∀ x, x ∈ (c.addDescendants history (c.nesting - 1) k e).states ↔
        x ∈ e.states ∨ x ∈ c.enteredAlone history k := fun x =>
      wf.mem_addDescendants inward ordinary (apart k List.mem_cons_self)
    obtain ⟨absent,once⟩ := List.nodup_cons.mp once
    -- What the first child has entered lies in no other child.
    have apart' : ∀ q ∈ rest, ∀ x ∈ (c.addDescendants history (c.nesting - 1) k e).states,
        ¬ c.Within x q := by
      intro q hq x hx within
      rcases (first x).mp hx with old | alone
      · exact apart q (List.mem_cons_of_mem _ hq) x old within
      · have hq' := (children q (List.mem_cons_of_mem _ hq)).1
        have same := wf.sibling_unique hk hq' (wf.enteredAlone_within inward ordinary alone) within
        exact absent (same ▸ hq)
    rw [List.foldl_cons]
    refine (ih (fun q hq => children q (List.mem_cons_of_mem _ hq)) once apart').trans ?_
    rw [first]
    simp only [List.mem_cons, exists_eq_or_imp, or_assoc]

end WellFormed

end Statechart.Chart

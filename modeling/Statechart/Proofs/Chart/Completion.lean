import Mathlib.Data.List.Nodup
import Statechart.Proofs.Chart.Scope

/- When a parallel state is done, and when it is told to be.

   States are entered one after another, and what is active grows meanwhile. So all regions of a
   parallel state come to be in final states at one of the states entered, a final one inside of the
   region that is the last. It is told from there that the state around is done, and the one around
   that; so a parallel state is told to be done exactly if that region is compound. -/
namespace Statechart.Chart

variable {c : Chart} {active active' : List StateIndex} {s p r f k d : Nat}

/-- All regions of a parallel state are in final states. -/
def regionsFinal (c : Chart) (active : List StateIndex) (p : StateIndex) : Bool :=
  (c.childStates p).all (c.isInFinalState active c.states.size)

/-- The states that are told to be done when a final state has been entered. -/
def doneBy (c : Chart) (active : List StateIndex) (f : StateIndex) : List StateIndex :=
  let parent := (c.state f).parent.getD root
  if parent = root then []
  else parent :: (c.state parent).parent.toList.filter fun g =>
    c.isParallel g && c.regionsFinal active g

section Microstep

variable (c : Chart) (history : HistoryTable) (configuration : List StateIndex)
  (transitions : List TransitionIndex)

/-- What is active once the transitions have been taken as far as a state. -/
def activeUpTo (s : StateIndex) : List StateIndex :=
  configuration.filter (fun x => !(c.exitSet history configuration transitions).contains x) ++
    (c.entered history configuration transitions).filter (· ≤ s)

/-- The states that are told to be done when the transitions are taken, as often as they are. -/
def told : List StateIndex :=
  ((c.entered history configuration transitions).filter c.isFinal).flatMap fun f =>
    c.doneBy (c.activeUpTo history configuration transitions f) f

variable {c history configuration transitions} {x : Nat}

theorem mem_activeUpTo : x ∈ c.activeUpTo history configuration transitions s ↔
    c.Remains history configuration transitions x ∨
      (x ∈ c.entered history configuration transitions ∧ x ≤ s) := by
  simp [activeUpTo, Remains]

end Microstep

theorem isInFinalState_mono (more : active ⊆ active') :
    c.isInFinalState active d s = true → c.isInFinalState active' d s = true := by
  induction d generalizing s with
  | zero => exact nofun
  | succ d ih =>
    simp only [isInFinalState]
    split
    · simp only [List.any_eq_true, Bool.and_eq_true, List.contains_iff_mem]
      rintro ⟨k,child,final,here⟩
      exact ⟨k, child, final, more here⟩
    · split
      · simp only [List.all_eq_true]
        exact fun all k child => ih (all k child)
      · exact id

theorem regionsFinal_mono (more : active ⊆ active') (final : c.regionsFinal active p = true) :
    c.regionsFinal active' p = true := by
  rw [regionsFinal, List.all_eq_true] at final ⊢
  exact fun k child => isInFinalState_mono more (final k child)

theorem regionsFinal_congr (same : ∀ x, x ∈ active ↔ x ∈ active') (p : StateIndex) :
    c.regionsFinal active p = c.regionsFinal active' p :=
  Bool.eq_iff_iff.mpr ⟨regionsFinal_mono fun x => (same x).mp,
    regionsFinal_mono fun x => (same x).mpr⟩

theorem doneBy_congr (same : ∀ x, x ∈ active ↔ x ∈ active') (f : StateIndex) :
    c.doneBy active f = c.doneBy active' f := by
  simp only [doneBy, regionsFinal_congr same]

theorem isInFinalState_of_final (final : c.isFinal s = true) :
    c.isInFinalState active d s = false := by
  have kind : (c.state s).kind = .final := by simpa [isFinal] using final
  cases d with
  | zero => rfl
  | succ d => simp [isInFinalState, isCompound, isParallel, kind]

theorem isInFinalState_child (final : c.isFinal f = true) (child : f ∈ c.childStates r)
    (finished : c.isInFinalState active d r = true) :
    c.isCompound r = true ∧ ∃ k ∈ c.childStates r, k ∈ active := by
  cases d with
  | zero => cases finished
  | succ d =>
    simp only [isInFinalState] at finished
    split at finished
    · rename_i compound
      simp only [List.any_eq_true, Bool.and_eq_true, List.contains_iff_mem] at finished
      obtain ⟨k,own,_,here⟩ := finished
      exact ⟨compound, k, own, here⟩
    · split at finished
      · have all := List.all_eq_true.mp finished f child
        rw [isInFinalState_of_final final] at all
        cases all
      · cases finished

namespace IsTree

theorem final_child (tree : c.IsTree) (final : c.isFinal f = true)
    (child : (c.state f).parent = some s) : f ∈ c.childStates s := by
  have kind : (c.state f).kind = .final := by simpa [isFinal] using final
  exact List.mem_filter.mpr ⟨(tree.child_iff s f).mpr child, by simp [isHistory, kind]⟩

theorem finishing (tree : c.IsTree) (before : c.isInFinalState active d s = false)
    (after : c.isInFinalState (active ++ [f]) d s = true) :
    c.isFinal f = true ∧ c.Below f s ∧ (c.isCompound s = true → (c.state f).parent = some s) := by
  induction d generalizing s with
  | zero => cases after
  | succ d ih =>
    simp only [isInFinalState] at before after
    split at after
    · rename_i compound
      rw [if_pos compound] at before
      simp only [List.any_eq_true, Bool.and_eq_true, List.contains_iff_mem, List.mem_append,
        List.mem_singleton] at after
      obtain ⟨k,child,final,old | rfl⟩ := after
      · have never := List.any_eq_false.mp before k child
        simp [final, old] at never
      · have parent := tree.childStates_parent child
        exact ⟨final, tree.below_parent parent, fun _ => parent⟩
    · rename_i other
      rw [if_neg other] at before
      split at after
      · rename_i parallel
        rw [if_pos parallel] at before
        obtain ⟨k,child,unfinished⟩ := List.all_eq_false.mp before
        have finished := List.all_eq_true.mp after k child
        obtain ⟨final,below,_⟩ := ih (by simpa using unfinished) finished
        exact ⟨final, tree.below_trans below (tree.below_parent (tree.childStates_parent child)),
          fun compound => absurd compound other⟩
      · cases after

theorem regions_finishing (tree : c.IsTree) (before : c.regionsFinal active p = false)
    (after : c.regionsFinal (active ++ [f]) p = true) : c.isFinal f = true ∧
      ∃ r ∈ c.childStates p, c.Below f r ∧ (c.isCompound r = true → (c.state f).parent = some r) := by
  obtain ⟨r,child,unfinished⟩ := List.all_eq_false.mp before
  have finished := List.all_eq_true.mp after r child
  obtain ⟨final,below,own⟩ := tree.finishing (by simpa using unfinished) finished
  exact ⟨final, r, child, below, own⟩

theorem doneBy_nodup (tree : c.IsTree) (active : List StateIndex) (f : StateIndex) :
    (c.doneBy active f).Nodup := by
  simp only [doneBy]
  split
  · exact List.nodup_nil
  · cases higher : (c.state ((c.state f).parent.getD root)).parent with
    | none => simp
    | some g =>
      have other := tree.parent_lt higher
      refine List.nodup_cons.mpr ⟨fun again => ?_, (by simp : [g].Nodup).filter _⟩
      have same : _ = g := List.mem_singleton.mp (List.mem_filter.mp again).1
      rw [same] at other
      exact Nat.lt_irrefl g other

end IsTree

theorem mem_doneBy : p ∈ c.doneBy active f ↔ ∃ r, (c.state f).parent = some r ∧
    r ≠ root ∧ (p = r ∨ ((c.state r).parent = some p ∧ c.isParallel p = true ∧
      c.regionsFinal active p = true)) := by
  cases up : (c.state f).parent with
  | none => simp [doneBy, up]
  | some r =>
    by_cases top : r = root
    · simp [doneBy, up, top]
    · simp [doneBy, up, top]

/-- What holds in the end and not at first, and is not lost on the way, comes to hold at one point. -/
theorem exists_turning (holds : List Nat → Prop) {base l : List Nat} (before : ¬ holds base)
    (after : holds (base ++ l)) :
    ∃ first last rest, l = first ++ last :: rest ∧ ¬ holds (base ++ first) ∧
      holds (base ++ first ++ [last]) := by
  induction l generalizing base with
  | nil => exact absurd (by simpa using after) before
  | cons x rest ih =>
    by_cases here : holds (base ++ [x])
    · exact ⟨[], x, rest, rfl, by simpa using before, by simpa using here⟩
    · obtain ⟨first,last,later,rfl,unfinished,finished⟩ := ih here (by simpa using after)
      exact ⟨x :: first, last, later, rfl, by simpa using unfinished, by simpa using finished⟩

section Taking

variable {history : HistoryTable} {configuration configuration' : List StateIndex}
  {transitions : List TransitionIndex}

/-- The last of the states entered that the regions of a parallel state wait for. -/
structure Finishes (c : Chart) (history : HistoryTable) (configuration : List StateIndex)
    (transitions : List TransitionIndex) (p last region : StateIndex) : Prop where
  entered : last ∈ c.entered history configuration transitions
  final : c.isFinal last = true
  isRegion : region ∈ c.childStates p
  inside : c.Below last region
  child : c.isCompound region = true → (c.state last).parent = some region
  turning : ∀ s ∈ c.entered history configuration transitions,
    c.regionsFinal (c.activeUpTo history configuration transitions s) p = true ↔ last ≤ s

theorem Finishes.finished {last region : StateIndex}
    (finishes : c.Finishes history configuration transitions p last region) :
    c.regionsFinal (c.activeUpTo history configuration transitions last) p = true :=
  (finishes.turning last finishes.entered).mpr (Nat.le_refl _)

namespace IsTree

theorem exists_finishes (tree : c.IsTree) (unfinished : c.regionsFinal configuration p = false)
    (finished : c.regionsFinal configuration' p = true)
    (taken : ∀ x, x ∈ configuration' ↔ c.Remains history configuration transitions x ∨
      x ∈ c.entered history configuration transitions) :
    ∃ last region, c.Finishes history configuration transitions p last region := by
  have remaining : ¬ c.regionsFinal
      (configuration.filter fun x => !(c.exitSet history configuration transitions).contains x) p =
        true := fun final => by
    rw [regionsFinal_mono (List.filter_subset_self _) final] at unfinished
    cases unfinished
  have all : c.regionsFinal ((configuration.filter fun x =>
      !(c.exitSet history configuration transitions).contains x) ++
        c.entered history configuration transitions) p = true := by
    rw [← finished]
    refine regionsFinal_congr (fun x => ?_) p
    rw [taken x, List.mem_append, Remains]
    simp
  obtain ⟨first,last,rest,order,before,after⟩ :=
    exists_turning (fun active => c.regionsFinal active p = true) remaining all
  have ascending := c.entrySet_ascending (c.recalled history configuration transitions) transitions
  change (c.entered history configuration transitions).Pairwise _ at ascending
  rw [order] at ascending
  obtain ⟨_,later,less⟩ := List.pairwise_append.mp ascending
  have upTo : ∀ x, x ∈ c.entered history configuration transitions ∧ x ≤ last ↔
      x ∈ first ∨ x = last := by
    intro x
    rw [order, List.mem_append, List.mem_cons]
    constructor
    · rintro ⟨old | here | new,le⟩
      · exact Or.inl old
      · exact Or.inr here
      · exact absurd ((List.pairwise_cons.mp later).1 x new) (Nat.not_lt.mpr le)
    · rintro (old | rfl)
      · exact ⟨Or.inl old, Nat.le_of_lt (less x old last List.mem_cons_self)⟩
      · exact ⟨Or.inr (Or.inl rfl), Nat.le_refl _⟩
  obtain ⟨final,region,child,below,own⟩ := tree.regions_finishing (by simpa using before) after
  refine ⟨last, region, by simp [order], final, child, below, own, fun s hs => ⟨fun now => ?_, ?_⟩⟩
  · by_contra early
    refine before (regionsFinal_mono (fun x hx => ?_) now)
    rcases List.mem_append.mp hx with old | new
    · exact List.mem_append_left _ old
    · obtain ⟨own,le⟩ := List.mem_filter.mp new
      have low : x < last := Nat.lt_of_le_of_lt (by simpa using le) (Nat.not_le.mp early)
      rcases (upTo x).mp ⟨own, Nat.le_of_lt low⟩ with there | rfl
      · exact List.mem_append_right _ there
      · exact absurd low (Nat.lt_irrefl x)
  · intro le
    refine regionsFinal_mono (fun x hx => ?_) after
    rw [List.append_assoc] at hx
    rcases List.mem_append.mp hx with old | new
    · exact List.mem_append_left _ old
    · obtain ⟨own,early⟩ := (upTo x).mpr (by simpa using new)
      exact List.mem_append_right _ (List.mem_filter.mpr ⟨own, by simpa using Nat.le_trans early le⟩)

end IsTree

namespace WellFormed

variable {last region : Nat}

/-- A final state that has been entered since the regions are final would be a second active child
    of its region. -/
theorem no_later_child (wf : c.WellFormed) (inward : c.Inward history)
    (contained : c.Contained history transitions) (legal : c.Legal configuration')
    (taken : ∀ x, x ∈ configuration' ↔ c.Remains history configuration transitions x ∨
      x ∈ c.entered history configuration transitions)
    (finishes : c.Finishes history configuration transitions p last region)
    (entered : f ∈ c.entered history configuration transitions) (final : c.isFinal f = true)
    (child : (c.state f).parent = some r) (isRegion : r ∈ c.childStates p) : f ≤ last := by
  by_contra later
  have finished := List.all_eq_true.mp finishes.finished r isRegion
  have member := wf.final_child final child
  obtain ⟨compound,k,sibling,active⟩ := isInFinalState_child final member finished
  obtain ⟨one,_,_,only⟩ : c.OneActiveChild configuration' r := by
    rcases legal.parent f ((taken f).mpr (Or.inr entered)) r child with inside | top
    · exact legal.compound r inside compound
    · exact top ▸ legal.top
  have early := mem_activeUpTo.mp active
  obtain rfl : f = k := by
    rw [only f member ((taken f).mpr (Or.inr entered)),
      only k sibling ((taken k).mpr (early.imp id And.left))]
  rcases early with remains | ⟨_,before⟩
  · rcases wf.entered_or_root inward contained f entered with ⟨rfl,_⟩ | anew
    · rw [wf.root_parent] at child
      cases child
    · exact anew remains
  · exact later before

/-- Only the last state tells that the parallel state is done, from within a compound region: for
    earlier ones not all regions are final, and later ones are in none. -/
theorem teller (wf : c.WellFormed) (inward : c.Inward history)
    (contained : c.Contained history transitions) (legal : c.Legal configuration')
    (taken : ∀ x, x ∈ configuration' ↔ c.Remains history configuration transitions x ∨
      x ∈ c.entered history configuration transitions)
    (finishes : c.Finishes history configuration transitions p last region)
    (entered : f ∈ c.entered history configuration transitions) (final : c.isFinal f = true)
    (tells : p ∈ c.doneBy (c.activeUpTo history configuration transitions f) f) :
    f = last ∧ c.isCompound region = true := by
  obtain ⟨r,child,_,rfl | ⟨above,_,now⟩⟩ := mem_doneBy.mp tells
  · -- A final state is not in a final state itself, so it is no region.
    have never := List.all_eq_true.mp finishes.finished f (wf.final_child final child)
    rw [isInFinalState_of_final final] at never
    cases never
  · have some := List.ne_nil_of_mem ((wf.child_iff r f).mpr child)
    have isRegion : r ∈ c.childStates p := by
      have ordinary : c.isHistory r = false :=
        Bool.eq_false_iff.mpr fun past => some (wf.leaf_history r past)
      exact List.mem_filter.mpr ⟨(wf.child_iff p r).mpr above, by simp [ordinary]⟩
    have early := wf.no_later_child inward contained legal taken finishes entered final child isRegion
    obtain rfl : f = last := Nat.le_antisymm early ((finishes.turning f entered).mp now)
    refine ⟨rfl, ?_⟩
    obtain rfl : r = region := wf.sibling_unique above (wf.childStates_parent finishes.isRegion)
      (Or.inr (wf.below_parent child)) (Or.inr finishes.inside)
    exact (isInFinalState_child final (wf.final_child final child)
      (List.all_eq_true.mp finishes.finished r isRegion)).1

/-- The parallel state is told to be done once if the region that is the last is compound, and not
    at all if it is parallel itself. -/
theorem told_count (wf : c.WellFormed) (inward : c.Inward history)
    (contained : c.Contained history transitions) (legal : c.Legal configuration')
    (taken : ∀ x, x ∈ configuration' ↔ c.Remains history configuration transitions x ∨
      x ∈ c.entered history configuration transitions)
    (parallel : c.isParallel p = true)
    (finishes : c.Finishes history configuration transitions p last region) :
    (c.told history configuration transitions).count p =
      if c.isCompound region = true then 1 else 0 := by
  have teller := fun f => wf.teller (f := f) inward contained legal taken finishes
  obtain ⟨first,rest,order⟩ := List.append_of_mem finishes.entered
  have once : (c.entered history configuration transitions).Nodup :=
    (c.entrySet_ascending _ transitions).imp Nat.ne_of_lt
  rw [order, List.nodup_append] at once
  have silent : ∀ l : List StateIndex, (∀ f ∈ l, f ∈ c.entered history configuration transitions ∧
      f ≠ last) → ((l.filter c.isFinal).flatMap fun f =>
        c.doneBy (c.activeUpTo history configuration transitions f) f).count p = 0 := by
    intro l others
    refine List.count_eq_zero.mpr fun tells => ?_
    obtain ⟨f,hf,tells⟩ := List.mem_flatMap.mp tells
    obtain ⟨member,final⟩ := List.mem_filter.mp hf
    exact (others f member).2 (teller f (others f member).1 final tells).1
  have own : (c.doneBy (c.activeUpTo history configuration transitions last) last).count p =
      if c.isCompound region = true then 1 else 0 := by
    split
    · rename_i compound
      have above := wf.childStates_parent finishes.isRegion
      have inner : region ≠ root := by
        rintro rfl
        rw [wf.root_parent] at above
        cases above
      exact List.count_eq_one_of_mem (wf.doneBy_nodup _ _) (mem_doneBy.mpr
        ⟨region, finishes.child compound, inner, Or.inr ⟨above, parallel, finishes.finished⟩⟩)
    · rename_i other
      exact List.count_eq_zero.mpr fun tells =>
        other (teller last finishes.entered finishes.final tells).2
  rw [told, order, List.filter_append, List.filter_cons_of_pos finishes.final, List.flatMap_append,
    List.flatMap_cons, List.count_append, List.count_append, own, silent first, silent rest]
  · omega
  · intro f hf
    refine ⟨by simp [order, hf], fun same => ?_⟩
    exact (List.nodup_cons.mp once.2.1).1 (same ▸ hf)
  · exact fun f hf => ⟨by simp [order, hf], once.2.2 f hf last List.mem_cons_self⟩

end WellFormed

end Taking

end Statechart.Chart

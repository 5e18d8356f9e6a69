import Statechart.Chart.Basic

/- The states of a chart as a tree: what lies inside what.

   A state's parent stands before it, so every walk upwards ends at the root, and the ancestors of
   one state lie inside one another. Two states that have a common part are therefore nested. -/
namespace Statechart.Chart

/-- Parents stand before their children, and the lists of children agree with the parents. -/
structure IsTree (c : Chart) : Prop where
  nonempty : 0 < c.states.size
  root_parent : (c.state root).parent = none
  parent_before : ∀ s : Nat, s < c.states.size → s ≠ root →
    ∃ p : Nat, (c.state s).parent = some p ∧ p < s
  child_iff : ∀ p s : Nat, s ∈ (c.state p).children ↔ (c.state s).parent = some p

/-- `s` lies properly inside `a`. -/
def Below (c : Chart) (s a : StateIndex) : Prop := a ∈ c.ancestors s

/-- `s` is `a` or lies inside it. -/
def Within (c : Chart) (s a : StateIndex) : Prop := s = a ∨ c.Below s a

@[simp] theorem isDescendant_iff (c : Chart) (s a : StateIndex) :
    c.isDescendant s a = true ↔ c.Below s a := by
  simp [isDescendant, Below]

theorem state_out_of_range (c : Chart) {s : Nat} (outside : c.states.size ≤ s) :
    c.state s = default := by
  simp [state, Array.getD_eq_getD_getElem?, Array.getElem?_eq_none outside]

theorem transition_out_of_range (c : Chart) {t : Nat} (outside : c.transitions.size ≤ t) :
    c.transition t = default := by
  simp [transition, Array.getD_eq_getD_getElem?, Array.getElem?_eq_none outside]

theorem transition_mem (c : Chart) {t : Nat} (inside : t < c.transitions.size) :
    c.transition t ∈ c.transitions.toList := by
  simp [transition, Array.getD_eq_getD_getElem?, inside]

theorem exists_transition (c : Chart) {n : TransitionNode} (h : n ∈ c.transitions.toList) :
    ∃ t, c.transition t = n := by
  obtain ⟨t,inside,eq⟩ := List.getElem_of_mem h
  refine ⟨t, ?_⟩
  simpa [transition, Array.getD_eq_getD_getElem?, show t < c.transitions.size by simpa using inside]
    using eq

theorem parent_in_range (c : Chart) {s p : Nat} (h : (c.state s).parent = some p) :
    s < c.states.size := by
  by_cases inside : s < c.states.size
  · exact inside
  · rw [c.state_out_of_range (by omega)] at h
    cases h

namespace IsTree

variable {c : Chart} {s p a b x y k : Nat}

theorem parent_lt (tree : c.IsTree) (h : (c.state s).parent = some p) : p < s := by
  have inside := c.parent_in_range h
  have proper : s ≠ root := by
    intro eq
    rw [eq, tree.root_parent] at h
    cases h
  obtain ⟨q,hq,before⟩ := tree.parent_before s inside proper
  rw [h] at hq
  cases hq
  exact before

theorem childStates_parent (tree : c.IsTree) (child : k ∈ c.childStates s) :
    (c.state k).parent = some s :=
  (tree.child_iff s k).mp (List.mem_filter.mp child).1

theorem ancestorsFrom_enough (tree : c.IsTree) :
    ∀ p n m : Nat, p < n → p < m → c.ancestorsFrom n (some p) = c.ancestorsFrom m (some p) := by
  intro p
  induction p using Nat.strongRecOn with
  | ind p ih =>
    intro n m hn hm
    obtain ⟨n,rfl⟩ : ∃ n', n = n' + 1 := ⟨n - 1, by omega⟩
    obtain ⟨m,rfl⟩ : ∃ m', m = m' + 1 := ⟨m - 1, by omega⟩
    simp only [ancestorsFrom, List.cons.injEq, true_and]
    cases hp : (c.state p).parent with
    | none => cases n <;> cases m <;> rfl
    | some q =>
      have before := tree.parent_lt hp
      exact ih q before n m (by omega) (by omega)

theorem ancestors_eq (tree : c.IsTree) (h : (c.state s).parent = some p) :
    c.ancestors s = p :: c.ancestors p := by
  have inside := c.parent_in_range h
  have before := tree.parent_lt h
  obtain ⟨n,hn⟩ : ∃ n, c.states.size = n + 1 := ⟨c.states.size - 1, by omega⟩
  simp only [ancestors, h, hn, ancestorsFrom, List.cons.injEq, true_and]
  cases hp : (c.state p).parent with
  | none => cases n <;> rfl
  | some q =>
    have earlier := tree.parent_lt hp
    exact tree.ancestorsFrom_enough q n (n + 1) (by omega) (by omega)

theorem ancestors_root (tree : c.IsTree) : c.ancestors root = [] := by
  rw [ancestors, tree.root_parent]
  cases c.states.size <;> rfl

theorem below_iff (tree : c.IsTree) :
    c.Below s a ↔ ∃ p, (c.state s).parent = some p ∧ c.Within p a := by
  cases hp : (c.state s).parent with
  | none =>
    have none : c.ancestors s = [] := by
      rw [ancestors, hp]
      cases c.states.size <;> rfl
    simp [Below, none]
  | some p =>
    simp only [Below, tree.ancestors_eq hp, List.mem_cons, Option.some.injEq, exists_eq_left',
      Within]
    constructor
    · rintro (rfl | h)
      · exact Or.inl rfl
      · exact Or.inr h
    · rintro (rfl | h)
      · exact Or.inl rfl
      · exact Or.inr h

theorem below_parent (tree : c.IsTree) (h : (c.state s).parent = some p) : c.Below s p :=
  tree.below_iff.mpr ⟨p, h, Or.inl rfl⟩

theorem below_lt (tree : c.IsTree) (h : c.Below s a) : a < s := by
  induction s using Nat.strongRecOn with
  | ind s ih =>
    obtain ⟨p,hp,inside⟩ := tree.below_iff.mp h
    have before := tree.parent_lt hp
    rcases inside with rfl | inside
    · exact before
    · exact Nat.lt_trans (ih p before inside) before

theorem below_in_range (tree : c.IsTree) (h : c.Below s a) : s < c.states.size := by
  obtain ⟨p,hp,_⟩ := tree.below_iff.mp h
  exact c.parent_in_range hp

theorem not_below_self (tree : c.IsTree) : ¬ c.Below s s := fun h =>
  Nat.lt_irrefl s (tree.below_lt h)

theorem not_root_below (tree : c.IsTree) : ¬ c.Below root a := fun h =>
  Nat.not_lt_zero a (tree.below_lt h)

theorem below_trans (tree : c.IsTree) (first : c.Below s a) (second : c.Below a b) :
    c.Below s b := by
  induction s using Nat.strongRecOn with
  | ind s ih =>
    obtain ⟨p,hp,inside⟩ := tree.below_iff.mp first
    refine tree.below_iff.mpr ⟨p, hp, Or.inr ?_⟩
    rcases inside with rfl | inside
    · exact second
    · exact ih p (tree.parent_lt hp) inside

theorem within_trans (tree : c.IsTree) (first : c.Within s a) (second : c.Within a b) :
    c.Within s b := by
  rcases first with rfl | first
  · exact second
  · rcases second with rfl | second
    · exact Or.inr first
    · exact Or.inr (tree.below_trans first second)

theorem below_of_below_within (tree : c.IsTree) (first : c.Below s a) (second : c.Within a b) :
    c.Below s b := by
  rcases second with rfl | second
  · exact first
  · exact tree.below_trans first second

theorem below_of_within_below (tree : c.IsTree) (first : c.Within s a) (second : c.Below a b) :
    c.Below s b := by
  rcases first with rfl | first
  · exact second
  · exact tree.below_trans first second

theorem within_le (tree : c.IsTree) (h : c.Within s a) : a ≤ s := by
  rcases h with rfl | h
  · exact Nat.le_refl _
  · exact Nat.le_of_lt (tree.below_lt h)

theorem within_root (tree : c.IsTree) (inside : s < c.states.size) : c.Within s root := by
  induction s using Nat.strongRecOn with
  | ind s ih =>
    by_cases top : s = root
    · exact Or.inl top
    · obtain ⟨p,hp,before⟩ := tree.parent_before s inside top
      exact Or.inr (tree.below_iff.mpr ⟨p, hp, ih p before (by omega)⟩)

theorem nested_of_common (tree : c.IsTree) (first : c.Within s a) (second : c.Within s b) :
    c.Within a b ∨ c.Within b a := by
  induction s using Nat.strongRecOn with
  | ind s ih =>
    rcases first with rfl | first
    · exact Or.inl second
    · rcases second with rfl | second
      · exact Or.inr (Or.inr first)
      · obtain ⟨p,hp,pa⟩ := tree.below_iff.mp first
        obtain ⟨q,hq,pb⟩ := tree.below_iff.mp second
        rw [hp] at hq
        cases hq
        exact ih p (tree.parent_lt hp) pa pb

/-- The child of `a` that a state inside `a` belongs to. -/
theorem child_toward (tree : c.IsTree) (h : c.Below s a) :
    ∃ k, (c.state k).parent = some a ∧ c.Within s k := by
  induction s using Nat.strongRecOn with
  | ind s ih =>
    obtain ⟨p,hp,inside⟩ := tree.below_iff.mp h
    rcases inside with rfl | inside
    · exact ⟨s, hp, Or.inl rfl⟩
    · obtain ⟨k,hk,pk⟩ := ih p (tree.parent_lt hp) inside
      exact ⟨k, hk, Or.inr (tree.below_iff.mpr ⟨p, hp, pk⟩)⟩

theorem within_parent_of_below_child (tree : c.IsTree) (h : (c.state k).parent = some p)
    (inside : c.Below k a) : c.Within p a := by
  obtain ⟨q,hq,pa⟩ := tree.below_iff.mp inside
  rw [h] at hq
  cases hq
  exact pa

theorem siblings_not_below (tree : c.IsTree) (hx : (c.state x).parent = some p)
    (hy : (c.state y).parent = some p) : ¬ c.Below x y := by
  intro inside
  have up := tree.within_le (tree.within_parent_of_below_child hx inside)
  have down := tree.parent_lt hy
  omega

theorem sibling_unique (tree : c.IsTree) (hx : (c.state x).parent = some p)
    (hy : (c.state y).parent = some p) (first : c.Within s x) (second : c.Within s y) : x = y := by
  rcases tree.nested_of_common first second with (eq | inside) | (eq | inside)
  · exact eq
  · exact absurd inside (tree.siblings_not_below hx hy)
  · exact eq.symm
  · exact absurd inside (tree.siblings_not_below hy hx)

/-- States of which neither contains the other part at some state. -/
theorem parting (tree : c.IsTree) (hx : c.Within x root) (hy : c.Within y root)
    (apart : ¬ c.Within x y) (apart' : ¬ c.Within y x) :
    ∃ p a b, (c.state a).parent = some p ∧ (c.state b).parent = some p ∧ a ≠ b ∧
      c.Within x a ∧ c.Within y b := by
  induction x using Nat.strongRecOn with
  | ind x ih =>
    have proper : c.Below x root := by
      rcases hx with rfl | hx
      · exact absurd hy apart'
      · exact hx
    obtain ⟨q,hq,up⟩ := tree.below_iff.mp proper
    by_cases common : c.Within y q
    · have inside : c.Below y q := by
        rcases common with rfl | common
        · exact absurd (Or.inr (tree.below_parent hq)) apart
        · exact common
      obtain ⟨k,hk,yk⟩ := tree.child_toward inside
      refine ⟨q, x, k, hq, hk, ?_, Or.inl rfl, yk⟩
      intro eq
      exact apart' (eq ▸ yk)
    · have outside : ¬ c.Within q y := fun h =>
        apart (Or.inr (tree.below_of_below_within (tree.below_parent hq) h))
      obtain ⟨p,a,b,ha,hb,ne,qa,yb⟩ := ih q (tree.parent_lt hq) up outside common
      exact ⟨p, a, b, ha, hb, ne,
        Or.inr (tree.below_of_below_within (tree.below_parent hq) qa), yb⟩

end IsTree

end Statechart.Chart

import Statechart.Proofs.Chart.Tree

/- Configurations: which sets of states can be active together.

   The root counts as active here. Then a configuration is a set that holds the parents of its
   states, in which compound states have an active child and parallel states all of theirs, and in
   which any two states are nested or lie in different regions of a parallel state. The last
   condition is what makes the active child of a compound state unique, and it is stable under
   entering more states, one at a time. -/
namespace Statechart.Chart

/-- What every compiled chart has: a tree of states in which final and history states are leaves,
    a root with children, and transitions that lead from their states to separate targets.
    A compound state has a transition that enters it. -/
structure WellFormed (c : Chart) : Prop extends IsTree c where
  root_kind : (c.state root).kind = .state
  root_children : (c.state root).children ≠ []
  leaf_final : ∀ s : Nat, c.isFinal s = true → (c.state s).children = []
  leaf_history : ∀ s : Nat, c.isHistory s = true → (c.state s).children = []
  own_source : ∀ s t : Nat, t ∈ (c.state s).transitions → (c.transition t).source = s
  initial : ∀ s : Nat, (c.state s).kind = .state → (c.state s).children ≠ [] →
    ∃ t : Nat, (c.state s).initial = some t ∧ (c.transition t).source = s ∧
      (c.transition t).kind = .internal ∧ (c.transition t).targets ≠ [] ∧
      ∀ r ∈ (c.transition t).targets, c.Below r s
  targets_declared : ∀ t : Nat, ∀ r ∈ (c.transition t).targets, r < c.states.size
  targets_separate : ∀ t : Nat, ∀ a ∈ (c.transition t).targets, ∀ b ∈ (c.transition t).targets,
    a ≠ b → ¬ c.Below a b
  targets_once : ∀ t : Nat, (c.transition t).targets.Nodup

/-- The innermost state that two states lie in. -/
def leastCommonAncestor? (c : Chart) (a b : StateIndex) : Option StateIndex :=
  (c.ancestors a).find? fun p => c.isDescendant b p

/-- A chart without history states whose transitions lead to several targets only in different
    regions of a parallel state. -/
structure Plain (c : Chart) : Prop where
  no_history : ∀ s : Nat, c.isHistory s = false
  parted : ∀ t : Nat, ∀ a ∈ (c.transition t).targets, ∀ b ∈ (c.transition t).targets, a ≠ b →
    ∃ p, c.leastCommonAncestor? a b = some p ∧ c.isParallel p = true

/-- Whether two states lie in different regions of the innermost state around both. -/
def partedBy (c : Chart) (a b : StateIndex) : Bool := (c.leastCommonAncestor? a b).any c.isParallel

theorem partedBy_iff (c : Chart) (a b : StateIndex) :
    c.partedBy a b = true ↔ ∃ p, c.leastCommonAncestor? a b = some p ∧ c.isParallel p = true := by
  simp [partedBy, Option.any_eq_true]

theorem plain_iff (c : Chart) :
    c.Plain ↔ (∀ s ∈ c.indices, c.isHistory s = false) ∧ ∀ n ∈ c.transitions.toList,
      ∀ a ∈ n.targets, ∀ b ∈ n.targets, a ≠ b → c.partedBy a b = true := by
  constructor
  · intro plain
    refine ⟨fun s _ => plain.no_history s, ?_⟩
    intro n hn a ha b hb ne
    obtain ⟨t,rfl⟩ := c.exists_transition hn
    exact (c.partedBy_iff a b).mpr (plain.parted t a ha b hb ne)
  · rintro ⟨states,parted⟩
    constructor
    · intro s
      by_cases inside : s < c.states.size
      · exact states s (List.mem_range.mpr inside)
      · rw [isHistory, c.state_out_of_range (by omega)]
        rfl
    · intro t a ha b hb ne
      by_cases inside : t < c.transitions.size
      · exact (c.partedBy_iff a b).mp (parted _ (c.transition_mem inside) a ha b hb ne)
      · rw [c.transition_out_of_range (by omega)] at ha
        cases ha

instance (c : Chart) : Decidable c.Plain := decidable_of_iff' _ (plain_iff c)

def OneActiveChild (c : Chart) (configuration : List StateIndex) (s : StateIndex) : Prop :=
  ∃ k ∈ c.childStates s, k ∈ configuration ∧ ∀ j ∈ c.childStates s, j ∈ configuration → j = k

/-- A legal configuration. -/
structure Legal (c : Chart) (configuration : List StateIndex) : Prop where
  declared : ∀ s ∈ configuration, s < c.states.size
  top : c.OneActiveChild configuration root
  parent : ∀ s ∈ configuration, ∀ p ∈ (c.state s).parent, p ∈ configuration ∨ p = root
  parallel : ∀ s ∈ configuration, c.isParallel s = true →
    ∀ k ∈ c.childStates s, k ∈ configuration
  compound : ∀ s ∈ configuration, c.isCompound s = true → c.OneActiveChild configuration s

instance (c : Chart) (configuration : List StateIndex) (s : StateIndex) :
    Decidable (c.OneActiveChild configuration s) :=
  inferInstanceAs (Decidable (∃ k ∈ c.childStates s, k ∈ configuration ∧ _))

instance (c : Chart) (configuration : List StateIndex) : Decidable (c.Legal configuration) :=
  decidable_of_iff ((∀ s ∈ configuration, s < c.states.size) ∧ c.OneActiveChild configuration root ∧
      (∀ s ∈ configuration, ∀ p ∈ (c.state s).parent, p ∈ configuration ∨ p = root) ∧
      (∀ s ∈ configuration, c.isParallel s = true → ∀ k ∈ c.childStates s, k ∈ configuration) ∧
      ∀ s ∈ configuration, c.isCompound s = true → c.OneActiveChild configuration s)
    ⟨fun ⟨declared,top,parent,parallel,compound⟩ => ⟨declared, top, parent, parallel, compound⟩,
      fun ⟨declared,top,parent,parallel,compound⟩ => ⟨declared, top, parent, parallel, compound⟩⟩

/-- Two states lie in different regions of a parallel state. -/
def Apart (c : Chart) (x y : StateIndex) : Prop :=
  ∃ p a b, c.isParallel p = true ∧ (c.state a).parent = some p ∧ (c.state b).parent = some p ∧
    a ≠ b ∧ c.Within x a ∧ c.Within y b

/-- Two states can be active together. -/
def Compatible (c : Chart) (x y : StateIndex) : Prop :=
  c.Within x y ∨ c.Within y x ∨ c.Apart x y

def Orthogonal (c : Chart) (active : StateIndex → Prop) : Prop :=
  ∀ x y, active x → active y → c.Compatible x y

/-- A legal configuration as a set that holds the root. -/
structure Consistent (c : Chart) (active : StateIndex → Prop) : Prop where
  declared : ∀ s, active s → c.Within s root
  root : active root
  parent : ∀ s p, active s → (c.state s).parent = some p → active p
  orthogonal : c.Orthogonal active
  parallel : ∀ s k, active s → c.isParallel s = true → (c.state k).parent = some s → active k
  compound : ∀ s, active s → c.isCompound s = true → ∃ k, (c.state k).parent = some s ∧ active k

def activeOrRoot (configuration : List StateIndex) (s : StateIndex) : Prop :=
  s = root ∨ s ∈ configuration

variable {c : Chart} {s p a b x y k z : Nat}

theorem Apart.symm (h : c.Apart x y) : c.Apart y x := by
  obtain ⟨p,a,b,par,ha,hb,ne,xa,yb⟩ := h
  exact ⟨p, b, a, par, hb, ha, Ne.symm ne, yb, xa⟩

theorem Compatible.symm (h : c.Compatible x y) : c.Compatible y x := by
  rcases h with h | h | h
  · exact Or.inr (Or.inl h)
  · exact Or.inl h
  · exact Or.inr (Or.inr h.symm)

theorem Compatible.apart (h : c.Compatible a b) (ab : ¬ c.Within a b) (ba : ¬ c.Within b a) :
    c.Apart a b := by
  rcases h with h | h | h
  · exact absurd h ab
  · exact absurd h ba
  · exact h

theorem Compatible.refl (c : Chart) (x : Nat) : c.Compatible x x := Or.inl (Or.inl rfl)

namespace IsTree

theorem apart_inside (tree : c.IsTree) (h : c.Apart a b) (xa : c.Within x a) (yb : c.Within y b) :
    c.Apart x y := by
  obtain ⟨p,k,l,par,hk,hl,ne,ak,bl⟩ := h
  exact ⟨p, k, l, par, hk, hl, ne, tree.within_trans xa ak, tree.within_trans yb bl⟩

theorem not_within_of_apart (tree : c.IsTree) (h : c.Apart x y) : ¬ c.Within x y := by
  intro inside
  obtain ⟨p,a,b,_,ha,hb,ne,xa,yb⟩ := h
  exact ne (tree.sibling_unique ha hb xa (tree.within_trans inside yb))

theorem compatible_outwards (tree : c.IsTree) (h : c.Compatible x y) (up : c.Within x a) :
    c.Compatible a y := by
  rcases h with h | h | h
  · rcases tree.nested_of_common up h with nest | nest
    · exact Or.inl nest
    · exact Or.inr (Or.inl nest)
  · exact Or.inr (Or.inl (tree.within_trans h up))
  · obtain ⟨p,k,l,par,hk,hl,ne,xk,yl⟩ := h
    rcases tree.nested_of_common up xk with (rfl | inside) | (rfl | inside)
    · exact Or.inr (Or.inr ⟨p, _, l, par, hk, hl, ne, Or.inl rfl, yl⟩)
    · exact Or.inr (Or.inr ⟨p, k, l, par, hk, hl, ne, Or.inr inside, yl⟩)
    · exact Or.inr (Or.inr ⟨p, _, l, par, hk, hl, ne, Or.inl rfl, yl⟩)
    · have higher := tree.within_parent_of_below_child hk inside
      have below := tree.below_of_within_below yl (tree.below_parent hl)
      exact Or.inr (Or.inl (Or.inr (tree.below_of_below_within below higher)))

theorem compatible_inwards (tree : c.IsTree) (h : c.Compatible a y) (outside : ¬ c.Below y a)
    (inside : c.Within x a) : c.Compatible x y := by
  rcases h with h | (rfl | h) | h
  · exact Or.inl (tree.within_trans inside h)
  · exact Or.inl inside
  · exact absurd h outside
  · exact Or.inr (Or.inr (tree.apart_inside h inside (Or.inl rfl)))

theorem compatible_region (tree : c.IsTree) (par : c.isParallel a = true)
    (hk : (c.state k).parent = some a) (h : c.Compatible a y) (outside : ¬ c.Within y k)
    (inside : c.Within x k) : c.Compatible x y := by
  have down := tree.below_of_within_below inside (tree.below_parent hk)
  by_cases deep : c.Below y a
  · obtain ⟨l,hl,yl⟩ := tree.child_toward deep
    refine Or.inr (Or.inr ⟨a, k, l, par, hk, hl, ?_, inside, yl⟩)
    intro eq
    exact outside (eq ▸ yl)
  · exact tree.compatible_inwards h deep (Or.inr down)

theorem parallel_of_compatible_siblings (tree : c.IsTree) (hx : (c.state x).parent = some s)
    (hy : (c.state y).parent = some s) (ne : x ≠ y) (h : c.Compatible x y) :
    c.isParallel s = true := by
  have apart := h.apart
    (fun inside => ne (tree.sibling_unique hx hy (Or.inl rfl) inside))
    (fun inside => ne (tree.sibling_unique hx hy inside (Or.inl rfl)))
  obtain ⟨p,a,b,par,ha,hb,differ,xa,yb⟩ := apart
  rcases xa with rfl | xa
  · rw [hx] at ha
    cases ha
    exact par
  · -- What contains a sibling properly contains the common parent, and so the other sibling.
    have higher := tree.within_parent_of_below_child hx xa
    have inside : c.Within y a := Or.inr (tree.below_of_below_within (tree.below_parent hy) higher)
    exact absurd (tree.sibling_unique ha hb inside yb) differ

theorem closed_within (tree : c.IsTree) {active : StateIndex → Prop}
    (upward : ∀ s p, active s → (c.state s).parent = some p → active p) (hs : active s)
    (inside : c.Within s a) : active a := by
  induction s using Nat.strongRecOn with
  | ind s ih =>
    rcases inside with rfl | inside
    · exact hs
    · obtain ⟨p,hp,pa⟩ := tree.below_iff.mp inside
      exact ih p (tree.parent_lt hp) (upward s p hs hp) pa

/-- The innermost ancestor with a property, as the search along the ancestors finds it. -/
theorem find_ancestor (tree : c.IsTree) {q : Nat → Bool} (found : (c.ancestors s).find? q = some p) :
    c.Below s p ∧ q p = true ∧ ∀ x, c.Below s x → q x = true → c.Within p x := by
  induction s using Nat.strongRecOn with
  | ind s ih =>
    cases hs : (c.state s).parent with
    | none =>
      have below := List.mem_of_find?_eq_some found
      obtain ⟨u,hu,_⟩ := tree.below_iff.mp below
      rw [hs] at hu
      cases hu
    | some u =>
      rw [tree.ancestors_eq hs, List.find?_cons] at found
      by_cases hit : q u = true
      · simp only [hit, Option.some.injEq] at found
        subst found
        refine ⟨tree.below_parent hs, hit, ?_⟩
        intro x inside _
        exact tree.within_parent_of_below_child hs inside
      · simp only [hit] at found
        obtain ⟨below,good,least⟩ := ih u (tree.parent_lt hs) found
        refine ⟨tree.below_trans (tree.below_parent hs) below, good, ?_⟩
        intro x inside hx
        rcases tree.within_parent_of_below_child hs inside with rfl | inside
        · exact absurd hx hit
        · exact least x inside hx

end IsTree

namespace WellFormed

theorem childStates_iff (wf : c.WellFormed) (plain : ∀ s : Nat, c.isHistory s = false) :
    k ∈ c.childStates s ↔ (c.state k).parent = some s := by
  simp [childStates, plain, wf.child_iff]

theorem not_compound_of_parallel (_ : c.WellFormed) (par : c.isParallel s = true) :
    c.isCompound s = false := by
  simp only [isParallel, decide_eq_true_eq] at par
  simp [isCompound, par]

theorem compound_iff (wf : c.WellFormed) (plain : ∀ s : Nat, c.isHistory s = false) :
    c.isCompound s = true ↔ (c.state s).kind = .state ∧ ∃ k, (c.state k).parent = some s := by
  have nonempty : c.childStates s ≠ [] ↔ ∃ k, (c.state k).parent = some s := by
    rw [List.ne_nil_iff_exists_cons]
    constructor
    · rintro ⟨k,rest,eq⟩
      exact ⟨k, (wf.childStates_iff plain).mp (by rw [eq]; exact List.mem_cons_self)⟩
    · rintro ⟨k,hk⟩
      exact List.exists_cons_of_ne_nil (List.ne_nil_of_mem ((wf.childStates_iff plain).mpr hk))
  simp only [isCompound, Bool.and_eq_true, decide_eq_true_eq, Bool.not_eq_true',
    List.isEmpty_eq_false_iff, nonempty]

theorem root_compound (wf : c.WellFormed) (plain : ∀ s : Nat, c.isHistory s = false) :
    c.isCompound root = true := by
  obtain ⟨k,rest,eq⟩ := List.exists_cons_of_ne_nil wf.root_children
  have child : (c.state k).parent = some root :=
    (wf.child_iff root k).mp (by rw [eq]; exact List.mem_cons_self)
  exact (wf.compound_iff plain).mpr ⟨wf.root_kind, k, child⟩

theorem parent_kind (wf : c.WellFormed) (plain : ∀ s : Nat, c.isHistory s = false)
    (hk : (c.state k).parent = some s) : c.isCompound s = true ∨ c.isParallel s = true := by
  have child := (wf.child_iff s k).mpr hk
  have nonempty : (c.state s).children ≠ [] := List.ne_nil_of_mem child
  cases kind : (c.state s).kind with
  | state => exact Or.inl ((wf.compound_iff plain).mpr ⟨kind, k, hk⟩)
  | parallel => exact Or.inr (by simp [isParallel, kind])
  | final => exact absurd (wf.leaf_final s (by simp [isFinal, kind])) nonempty
  | history h => exact absurd (wf.leaf_history s (by simp [isHistory, kind])) nonempty

theorem targets_apart (wf : c.WellFormed) (plain : c.Plain) {t : Nat}
    (ha : a ∈ (c.transition t).targets) (hb : b ∈ (c.transition t).targets) (ne : a ≠ b) :
    c.Apart a b := by
  obtain ⟨p,found,par⟩ := plain.parted t a ha b hb ne
  obtain ⟨ap,bp,least⟩ := wf.find_ancestor found
  obtain ⟨k,hk,ak⟩ := wf.child_toward ap
  obtain ⟨l,hl,bl⟩ := wf.child_toward ((isDescendant_iff c b p).mp bp)
  refine ⟨p, k, l, par, hk, hl, ?_, ak, bl⟩
  intro eq
  subst eq
  -- A common child would be a common ancestor further inside, unless a target contains the other.
  have ab := wf.targets_separate t a ha b hb ne
  have ba := wf.targets_separate t b hb a ha (Ne.symm ne)
  rcases ak with rfl | ak
  · rcases bl with rfl | bl
    · exact ne rfl
    · exact ba bl
  · rcases bl with rfl | bl
    · exact ab ak
    · have inner := wf.within_le (least k ak ((isDescendant_iff c b k).mpr bl))
      have outer := wf.parent_lt hk
      omega

/-- The root contains every other target, so it is the only one. -/
theorem targets_root (wf : c.WellFormed) {t : Nat} (top : root ∈ (c.transition t).targets) :
    (c.transition t).targets = [root] := by
  have only : ∀ r ∈ (c.transition t).targets, r = root := by
    intro r hr
    by_cases eq : r = root
    · exact eq
    · rcases wf.within_root (wf.targets_declared t r hr) with eq' | below
      · exact eq'
      · exact absurd below (wf.targets_separate t r hr root top eq)
  have many := List.eq_replicate_of_mem only
  have once := wf.targets_once t
  rw [many, List.nodup_replicate] at once
  have some := List.length_pos_of_mem top
  rw [many, Nat.le_antisymm once some]
  rfl

theorem consistent_of_legal (wf : c.WellFormed) (plain : c.Plain)
    {configuration : List StateIndex} (legal : c.Legal configuration) :
    c.Consistent (activeOrRoot configuration) := by
  have declared : ∀ s, activeOrRoot configuration s → c.Within s root := by
    rintro s (rfl | h)
    · exact Or.inl rfl
    · exact wf.within_root (legal.declared s h)
  have upward : ∀ s p, activeOrRoot configuration s → (c.state s).parent = some p →
      activeOrRoot configuration p := by
    rintro s p (rfl | h) hp
    · rw [wf.root_parent] at hp
      cases hp
    · exact (legal.parent s h p (by rw [hp]; rfl)).symm
  have one : ∀ s, activeOrRoot configuration s → c.isCompound s = true →
      c.OneActiveChild configuration s := by
    rintro s (rfl | h) compound
    · exact legal.top
    · exact legal.compound s h compound
  have child_active : ∀ s k, activeOrRoot configuration k → (c.state k).parent = some s →
      k ∈ configuration := by
    rintro s k (rfl | h) hk
    · rw [wf.root_parent] at hk
      cases hk
    · exact h
  refine ⟨declared, Or.inl rfl, upward, ?_, ?_, ?_⟩
  · intro x y hx hy
    by_cases xy : c.Within x y
    · exact Or.inl xy
    · by_cases yx : c.Within y x
      · exact Or.inr (Or.inl yx)
      · obtain ⟨p,a,b,ha,hb,ne,xa,yb⟩ := wf.parting (declared x hx) (declared y hy) xy yx
        rcases wf.parent_kind plain.no_history ha with compound | par
        · have active_a := wf.closed_within upward hx xa
          have active_b := wf.closed_within upward hy yb
          obtain ⟨k,_,_,only⟩ := one p (upward a p active_a ha) compound
          have eq_a := only a ((wf.childStates_iff plain.no_history).mpr ha)
            (child_active p a active_a ha)
          have eq_b := only b ((wf.childStates_iff plain.no_history).mpr hb)
            (child_active p b active_b hb)
          exact absurd (eq_a.trans eq_b.symm) ne
        · exact Or.inr (Or.inr ⟨p, a, b, par, ha, hb, ne, xa, yb⟩)
  · rintro s k (rfl | h) par hk
    · rw [isParallel, wf.root_kind] at par
      cases par
    · exact Or.inr (legal.parallel s h par k ((wf.childStates_iff plain.no_history).mpr hk))
  · intro s hs compound
    obtain ⟨k,child,active,_⟩ := one s hs compound
    exact ⟨k, (wf.childStates_iff plain.no_history).mp child, Or.inr active⟩

theorem legal_of_consistent (wf : c.WellFormed) (plain : c.Plain)
    {configuration : List StateIndex} (consistent : c.Consistent (activeOrRoot configuration))
    (declared : ∀ s ∈ configuration, s < c.states.size) : c.Legal configuration := by
  have child_active : ∀ s k, activeOrRoot configuration k → (c.state k).parent = some s →
      k ∈ configuration := by
    rintro s k (rfl | h) hk
    · rw [wf.root_parent] at hk
      cases hk
    · exact h
  have one : ∀ s, activeOrRoot configuration s → c.isCompound s = true →
      c.OneActiveChild configuration s := by
    intro s hs compound
    obtain ⟨k,hk,active⟩ := consistent.compound s hs compound
    refine ⟨k, (wf.childStates_iff plain.no_history).mpr hk, child_active s k active hk, ?_⟩
    intro j child hj
    have child := (wf.childStates_iff plain.no_history).mp child
    by_cases eq : j = k
    · exact eq
    · have par := wf.parallel_of_compatible_siblings child hk eq
        (consistent.orthogonal j k (Or.inr hj) active)
      rw [wf.not_compound_of_parallel par] at compound
      cases compound
  refine ⟨declared, one root consistent.root (wf.root_compound plain.no_history), ?_, ?_, ?_⟩
  · intro s hs p hp
    exact (consistent.parent s p (Or.inr hs) hp).symm
  · intro s hs par k child
    have hk := (wf.childStates_iff plain.no_history).mp child
    exact child_active s k (consistent.parallel s k (Or.inr hs) par hk) hk
  · intro s hs compound
    exact one s (Or.inr hs) compound

end WellFormed

end Statechart.Chart

import Statechart.Proofs.Chart.Configuration
import Statechart.Proofs.Chart.Descent

/- What is entered.

   The states to enter are collected target by target. At every point the set is orthogonal, and
   what has been added is covered: a compound state has something inside it, a parallel state
   something in each region. The parents of the targets come last, so in between a state may be
   loose, its parent still missing. -/
namespace Statechart.Chart

variable {c : Chart} {s p a b x y k r t top depth : Nat}

theorem mem_insertIndex {s x : Nat} {l : List Nat} : x ∈ insertIndex s l ↔ x = s ∨ x ∈ l := by
  induction l with
  | nil => simp [insertIndex]
  | cons u rest ih =>
    simp only [insertIndex]
    split
    · simp
    · split
      · rename_i eq
        subst eq
        simp
      · simp only [List.mem_cons, ih]
        constructor
        · rintro (h | h | h)
          · exact Or.inr (Or.inl h)
          · exact Or.inl h
          · exact Or.inr (Or.inr h)
        · rintro (h | h | h)
          · exact Or.inr (Or.inl h)
          · exact Or.inl h
          · exact Or.inr (Or.inr h)

/-- What has to be active with a state is there, at least in part. -/
def Covered (c : Chart) (e : List StateIndex) (x : StateIndex) : Prop :=
  (c.isCompound x = true → ∃ y ∈ e, c.Below y x) ∧
    (c.isParallel x = true → ∀ k, (c.state k).parent = some x → ∃ y ∈ e, c.Within y k)

/-- A set of states has grown: what is new lies in the scope and is covered, and its parent is
    there unless it is loose. -/
structure Extends (c : Chart) (scope loose : StateIndex → Prop) (e e' : List StateIndex) :
    Prop where
  keeps : ∀ x ∈ e, x ∈ e'
  orthogonal : c.Orthogonal (· ∈ e')
  fresh : ∀ x ∈ e', x ∈ e ∨ (scope x ∧ c.Covered e' x ∧
    (loose x ∨ ∃ p, (c.state x).parent = some p ∧ p ∈ e'))

theorem Covered.mono {e e' : List StateIndex} (h : c.Covered e x) (keeps : ∀ x ∈ e, x ∈ e') :
    c.Covered e' x := by
  constructor
  · intro compound
    obtain ⟨y,hy,inside⟩ := h.1 compound
    exact ⟨y, keeps y hy, inside⟩
  · intro par k hk
    obtain ⟨y,hy,inside⟩ := h.2 par k hk
    exact ⟨y, keeps y hy, inside⟩

namespace Extends

variable {scope loose scope' loose' : StateIndex → Prop} {e e' e'' : List StateIndex}

theorem refl (orth : c.Orthogonal (· ∈ e)) : c.Extends scope loose e e :=
  ⟨fun _ h => h, orth, fun _ h => Or.inl h⟩

theorem trans (first : c.Extends scope loose e e') (second : c.Extends scope loose e' e'') :
    c.Extends scope loose e e'' := by
  refine ⟨fun x h => second.keeps x (first.keeps x h), second.orthogonal, ?_⟩
  intro x hx
  rcases second.fresh x hx with old | new
  · rcases first.fresh x old with old | ⟨inside,covered,linked⟩
    · exact Or.inl old
    · refine Or.inr ⟨inside, covered.mono second.keeps, ?_⟩
      rcases linked with h | ⟨p,hp,mem⟩
      · exact Or.inl h
      · exact Or.inr ⟨p, hp, second.keeps p mem⟩
  · exact Or.inr new

theorem weaken (h : c.Extends scope loose e e') (wider : ∀ x, scope x → scope' x)
    (looser : ∀ x, scope x → loose x → loose' x ∨ ∃ p, (c.state x).parent = some p ∧ p ∈ e') :
    c.Extends scope' loose' e e' := by
  refine ⟨h.keeps, h.orthogonal, ?_⟩
  intro x hx
  rcases h.fresh x hx with old | ⟨inside,covered,linked⟩
  · exact Or.inl old
  · refine Or.inr ⟨wider x inside, covered, ?_⟩
    rcases linked with free | tied
    · exact looser x inside free
    · exact Or.inr tied

theorem of_add {e : EntrySet} (ext : c.Extends (c.Below · s) loose (e.add s).states e')
    (covered : c.Covered e' s)
    (linked : ∀ x, c.Below x s → loose x → ∃ p, (c.state x).parent = some p ∧ p ∈ e') :
    c.Extends (c.Within · s) (· = s) e.states e' ∧ s ∈ e' := by
  refine ⟨⟨fun x hx => ext.keeps x (mem_insertIndex.mpr (Or.inr hx)), ext.orthogonal, ?_⟩,
    ext.keeps s (mem_insertIndex.mpr (Or.inl rfl))⟩
  intro x hx
  rcases ext.fresh x hx with old | ⟨down,around,link⟩
  · rcases mem_insertIndex.mp old with rfl | old
    · exact Or.inr ⟨Or.inl rfl, covered, Or.inl rfl⟩
    · exact Or.inl old
  · refine Or.inr ⟨Or.inr down, around, Or.inr ?_⟩
    rcases link with free | tied
    · exact linked x down free
    · exact tied

end Extends

/-- A function enters a state when nothing in it has been entered: it adds the state and what
    entering the state brings with it. -/
def Enters (c : Chart) (descend : StateIndex → EntrySet → EntrySet) (s : StateIndex) : Prop :=
  ∀ e : EntrySet, c.Orthogonal (· ∈ e.states) →
    (∀ x ∈ e.states, c.Compatible s x ∧ ¬ c.Within x s) →
      c.Extends (c.Within · s) (· = s) e.states (descend s e).states ∧
        s ∈ (descend s e).states

namespace IsTree

theorem orthogonal_insert (_ : c.IsTree) {e : EntrySet} (orth : c.Orthogonal (· ∈ e.states))
    (fits : ∀ x ∈ e.states, c.Compatible s x) : c.Orthogonal (· ∈ (e.add s).states) := by
  intro x y inX inY
  rcases mem_insertIndex.mp inX with rfl | hx
  · rcases mem_insertIndex.mp inY with rfl | hy
    · exact Compatible.refl c _
    · exact fits y hy
  · rcases mem_insertIndex.mp inY with rfl | hy
    · exact (fits x hx).symm
    · exact orth x y hx hy

theorem regions_extend (tree : c.IsTree) {descend : StateIndex → EntrySet → EntrySet}
    (par : c.isParallel a = true) (regions : List StateIndex)
    (own : ∀ k ∈ regions, (c.state k).parent = some a ∧ c.Enters descend k) (e : EntrySet)
    (orth : c.Orthogonal (· ∈ e.states)) (present : a ∈ e.states) :
    let e' := regions.foldl
      (fun e child =>
        if e.states.any fun s => s == child || c.isDescendant s child then e
        else descend child e) e
    c.Extends (c.Below · a) (fun _ => False) e.states e'.states ∧
      ∀ k ∈ regions, ∃ y ∈ e'.states, c.Within y k := by
  induction regions generalizing e with
  | nil => exact ⟨Extends.refl orth, by simp⟩
  | cons k rest ih =>
    obtain ⟨hk,enters⟩ := own k List.mem_cons_self
    have later := fun k hk => own k (List.mem_cons_of_mem _ hk)
    simp only [List.foldl_cons]
    split
    · rename_i covered
      obtain ⟨ext,all⟩ := ih later e orth present
      refine ⟨ext, ?_⟩
      intro l hl
      rcases List.mem_cons.mp hl with rfl | hl
      · obtain ⟨y,hy,inside⟩ := List.any_eq_true.mp covered
        simp only [Bool.or_eq_true, beq_iff_eq, isDescendant_iff] at inside
        exact ⟨y, ext.keeps y hy, inside⟩
      · exact all l hl
    · rename_i missing
      have outside : ∀ x ∈ e.states, ¬ c.Within x k := by
        intro x hx inside
        apply missing
        refine List.any_eq_true.mpr ⟨x, hx, ?_⟩
        simp only [Bool.or_eq_true, beq_iff_eq, isDescendant_iff]
        exact inside
      obtain ⟨grown,entered⟩ := enters e orth (fun x hx =>
        ⟨tree.compatible_region par hk (orth a x present hx) (outside x hx) (Or.inl rfl),
          outside x hx⟩)
      have first : c.Extends (c.Below · a) (fun _ => False) e.states (descend k e).states :=
        grown.weaken (fun x inside => tree.below_of_within_below inside (tree.below_parent hk))
          (by
            rintro x _ rfl
            exact Or.inr ⟨a, hk, grown.keeps a present⟩)
      obtain ⟨ext,all⟩ := ih later (descend k e) grown.orthogonal (grown.keeps a present)
      refine ⟨first.trans ext, ?_⟩
      intro l hl
      rcases List.mem_cons.mp hl with rfl | hl
      · exact ⟨l, ext.keeps l entered, Or.inl rfl⟩
      · exact all l hl

/-- The path of states that are entered above a target. -/
theorem path_iff (tree : c.IsTree) (inside : c.Below r top) :
    x ∈ (c.ancestorsUpTo r top).takeWhile (· ≠ root) ↔ c.Below r x ∧ c.Below x top := by
  induction r using Nat.strongRecOn generalizing x with
  | ind r ih =>
    obtain ⟨p,hp,up⟩ := tree.below_iff.mp inside
    rw [ancestorsUpTo, tree.ancestors_eq hp]
    rcases up with rfl | up
    · simp only [ne_eq, decide_not, decide_true, Bool.not_true,
        Bool.false_eq_true, not_false_eq_true, List.takeWhile_cons_of_neg, List.takeWhile_nil,
        List.not_mem_nil, false_iff, not_and]
      intro above below
      have low := tree.within_le (tree.within_parent_of_below_child hp above)
      have high := tree.below_lt below
      omega
    · have proper : p ≠ top := by
        rintro rfl
        exact tree.not_below_self up
      have inner : p ≠ root := by
        rintro rfl
        exact tree.not_root_below up
      have step := ih p (tree.parent_lt hp) up (x := x)
      rw [ancestorsUpTo] at step
      rw [List.takeWhile_cons_of_pos (by simpa using proper),
        List.takeWhile_cons_of_pos (by simpa using inner), List.mem_cons, step]
      constructor
      · rintro (rfl | ⟨above,below⟩)
        · exact ⟨tree.below_parent hp, up⟩
        · exact ⟨tree.below_trans (tree.below_parent hp) above, below⟩
      · rintro ⟨above,below⟩
        rcases tree.within_parent_of_below_child hp above with eq | above
        · exact Or.inl eq.symm
        · exact Or.inr ⟨above, below⟩

theorem ancestor_extends (tree : c.IsTree) {descend : StateIndex → EntrySet → EntrySet}
    (noHistory : ∀ s : Nat, c.isHistory s = false)
    (enters : ∀ k, c.Below k top → c.Enters descend k) (above : c.Below r a)
    (below : c.Below a top) (e : EntrySet) (orth : c.Orthogonal (· ∈ e.states))
    (present : r ∈ e.states) :
    let added := e.add a
    let e' := if c.isParallel a then c.addMissingRegions descend a added else added
    c.Extends (c.Below · top) (c.Below r ·) e.states e'.states ∧ a ∈ e'.states := by
  have fits : ∀ x ∈ e.states, c.Compatible a x := fun x hx =>
    tree.compatible_outwards (orth r x present hx) (Or.inr above)
  have orth' := tree.orthogonal_insert orth fits
  have member : a ∈ (e.add a).states := mem_insertIndex.mpr (Or.inl rfl)
  have kept : ∀ x ∈ e.states, x ∈ (e.add a).states := fun x hx => mem_insertIndex.mpr (Or.inr hx)
  simp only
  split
  · rename_i par
    have own : ∀ k ∈ c.childStates a, (c.state k).parent = some a ∧ c.Enters descend k := by
      intro k hk
      have child : (c.state k).parent = some a :=
        (tree.child_iff a k).mp (List.mem_filter.mp hk).1
      exact ⟨child, enters k (tree.below_trans (tree.below_parent child) below)⟩
    obtain ⟨ext,all⟩ := tree.regions_extend par (c.childStates a) own (e.add a) orth' member
    refine ⟨⟨fun x hx => ext.keeps x (kept x hx), ext.orthogonal, ?_⟩, ext.keeps a member⟩
    intro x hx
    rcases ext.fresh x hx with old | ⟨inside,covered,linked⟩
    · rcases mem_insertIndex.mp old with rfl | old
      · refine Or.inr ⟨below, ⟨fun _ => ⟨r, ext.keeps r (kept r present), above⟩, ?_⟩, Or.inl above⟩
        intro _ k hk
        exact all k (List.mem_filter.mpr ⟨(tree.child_iff x k).mpr hk, by simp [noHistory k]⟩)
      · exact Or.inl old
    · rcases linked with never | linked
      · exact never.elim
      · exact Or.inr ⟨tree.below_trans inside below, covered, Or.inr linked⟩
  · rename_i single
    refine ⟨⟨kept, orth', ?_⟩, member⟩
    intro x hx
    rcases mem_insertIndex.mp hx with rfl | old
    · refine Or.inr ⟨below, ⟨fun _ => ⟨r, kept r present, above⟩, ?_⟩, Or.inl above⟩
      intro par
      exact absurd par single
    · exact Or.inl old

theorem ancestors_extend (tree : c.IsTree) {descend : StateIndex → EntrySet → EntrySet}
    (noHistory : ∀ s : Nat, c.isHistory s = false)
    (enters : ∀ k, c.Below k top → c.Enters descend k) (inside : c.Below r top) (e : EntrySet)
    (orth : c.Orthogonal (· ∈ e.states)) (present : r ∈ e.states) :
    c.Extends (c.Below · top) (c.Below r ·) e.states (c.addAncestors descend r top e).states ∧
      ∀ a, c.Below r a → c.Below a top → a ∈ (c.addAncestors descend r top e).states := by
  have path : ∀ a, a ∈ (c.ancestorsUpTo r top).takeWhile (· ≠ root) ↔
      c.Below r a ∧ c.Below a top := fun a => tree.path_iff inside
  rw [addAncestors]
  generalize (c.ancestorsUpTo r top).takeWhile (· ≠ root) = steps at path
  have walk : ∀ (steps : List StateIndex) (e : EntrySet),
      (∀ a ∈ steps, c.Below r a ∧ c.Below a top) → c.Orthogonal (· ∈ e.states) → r ∈ e.states →
      let e' := steps.foldl
        (fun e a =>
          let e := e.add a
          if c.isParallel a then c.addMissingRegions descend a e else e) e
      c.Extends (c.Below · top) (c.Below r ·) e.states e'.states ∧ ∀ a ∈ steps, a ∈ e'.states := by
    intro steps
    induction steps with
    | nil =>
      intro e _ orth _
      exact ⟨Extends.refl orth, by simp⟩
    | cons a rest ih =>
      intro e between orth present
      obtain ⟨above,below⟩ := between a List.mem_cons_self
      obtain ⟨first,entered⟩ :=
        tree.ancestor_extends noHistory enters above below e orth present
      obtain ⟨ext,all⟩ := ih _ (fun b hb => between b (List.mem_cons_of_mem _ hb))
        first.orthogonal (first.keeps r present)
      simp only [List.foldl_cons]
      refine ⟨first.trans ext, ?_⟩
      intro b hb
      rcases List.mem_cons.mp hb with rfl | hb
      · exact ext.keeps b entered
      · exact all b hb
  obtain ⟨ext,all⟩ := walk steps e (fun a ha => (path a).mp ha) orth present
  exact ⟨ext, fun a above below => all a ((path a).mpr ⟨above, below⟩)⟩

theorem descents_extend (tree : c.IsTree) {descend : StateIndex → EntrySet → EntrySet}
    (targets : List StateIndex) (apart : targets.Pairwise c.Apart)
    (enters : ∀ r ∈ targets, c.Enters descend r) (e : EntrySet)
    (orth : c.Orthogonal (· ∈ e.states))
    (free : ∀ r ∈ targets, ∀ x ∈ e.states, c.Compatible r x ∧ ¬ c.Within x r) :
    let e' := targets.foldl (fun e r => descend r e) e
    c.Extends (fun x => ∃ r ∈ targets, c.Within x r) (· ∈ targets) e.states e'.states ∧
      ∀ r ∈ targets, r ∈ e'.states := by
  induction targets generalizing e with
  | nil => exact ⟨Extends.refl orth, by simp⟩
  | cons r rest ih =>
    obtain ⟨aside,apart⟩ := List.pairwise_cons.mp apart
    obtain ⟨grown,entered⟩ := enters r List.mem_cons_self e orth (free r List.mem_cons_self)
    have still : ∀ q ∈ rest, ∀ x ∈ (descend r e).states, c.Compatible q x ∧ ¬ c.Within x q := by
      intro q hq x hx
      rcases grown.fresh x hx with old | ⟨inside,_,_⟩
      · exact free q (List.mem_cons_of_mem _ hq) x old
      · have separate := tree.apart_inside (aside q hq) inside (Or.inl rfl)
        exact ⟨Or.inr (Or.inr separate.symm), tree.not_within_of_apart separate⟩
    obtain ⟨ext,all⟩ := ih apart (fun q hq => enters q (List.mem_cons_of_mem _ hq)) (descend r e)
      grown.orthogonal still
    have first : c.Extends (fun x => ∃ q ∈ r :: rest, c.Within x q) (· ∈ r :: rest) e.states
        (descend r e).states :=
      grown.weaken (fun x inside => ⟨r, List.mem_cons_self, inside⟩)
        (fun x _ eq => Or.inl (List.mem_cons.mpr (Or.inl eq)))
    refine ⟨first.trans (ext.weaken ?_ ?_), ?_⟩
    · rintro x ⟨q,hq,inside⟩
      exact ⟨q, List.mem_cons_of_mem _ hq, inside⟩
    · exact fun x _ mem => Or.inl (List.mem_cons_of_mem _ mem)
    intro q hq
    rcases List.mem_cons.mp hq with rfl | hq
    · exact ext.keeps q entered
    · exact all q hq

theorem climbs_extend (tree : c.IsTree) {descend : StateIndex → EntrySet → EntrySet}
    (noHistory : ∀ s : Nat, c.isHistory s = false)
    (enters : ∀ k, c.Below k top → c.Enters descend k) (targets : List StateIndex)
    (inside : ∀ r ∈ targets, c.Below r top) (e : EntrySet) (orth : c.Orthogonal (· ∈ e.states))
    (present : ∀ r ∈ targets, r ∈ e.states) :
    let e' := targets.foldl (fun e r => c.addAncestors descend r top e) e
    c.Extends (c.Below · top) (fun x => ∃ r ∈ targets, c.Below r x) e.states e'.states ∧
      ∀ r ∈ targets, ∀ a, c.Below r a → c.Below a top → a ∈ e'.states := by
  induction targets generalizing e with
  | nil => exact ⟨Extends.refl orth, by simp⟩
  | cons r rest ih =>
    obtain ⟨grown,path⟩ := tree.ancestors_extend noHistory enters (inside r List.mem_cons_self) e
      orth (present r List.mem_cons_self)
    obtain ⟨ext,all⟩ := ih (fun q hq => inside q (List.mem_cons_of_mem _ hq)) _ grown.orthogonal
      (fun q hq => grown.keeps q (present q (List.mem_cons_of_mem _ hq)))
    refine ⟨(grown.weaken (fun x h => h) ?_).trans (ext.weaken (fun x h => h) ?_), ?_⟩
    · exact fun x _ above => Or.inl ⟨r, List.mem_cons_self, above⟩
    · rintro x _ ⟨q,hq,above⟩
      exact Or.inl ⟨q, List.mem_cons_of_mem _ hq, above⟩
    intro q hq a above below
    rcases List.mem_cons.mp hq with rfl | hq
    · exact ext.keeps a (path a above below)
    · exact all q hq a above below

theorem targets_extend (tree : c.IsTree) {descend : StateIndex → EntrySet → EntrySet}
    (noHistory : ∀ s : Nat, c.isHistory s = false)
    (enters : ∀ k, c.Below k top → c.Enters descend k) (targets climbers : List StateIndex)
    (same : ∀ r, r ∈ climbers ↔ r ∈ targets) (apart : targets.Pairwise c.Apart)
    (inside : ∀ r ∈ targets, c.Below r top) (e : EntrySet) (orth : c.Orthogonal (· ∈ e.states))
    (free : ∀ r ∈ targets, ∀ x ∈ e.states, c.Compatible r x ∧ ¬ c.Within x r) :
    let e' := climbers.foldl (fun e r => c.addAncestors descend r top e)
      (targets.foldl (fun e r => descend r e) e)
    c.Extends (c.Below · top) (fun x => (c.state x).parent = some top) e.states e'.states ∧
      ∀ r ∈ targets, r ∈ e'.states := by
  obtain ⟨down,entered⟩ := tree.descents_extend targets apart
    (fun r hr => enters r (inside r hr)) e orth free
  obtain ⟨up,path⟩ := tree.climbs_extend noHistory enters climbers
    (fun r hr => inside r ((same r).mp hr)) _ down.orthogonal
    (fun r hr => entered r ((same r).mp hr))
  have both : c.Extends (c.Below · top) (fun x => ∃ r ∈ targets, c.Within r x) e.states
      (climbers.foldl (fun e r => c.addAncestors descend r top e)
        (targets.foldl (fun e r => descend r e) e)).states := by
    refine (down.weaken ?_ ?_).trans (up.weaken (fun x h => h) ?_)
    · rintro x ⟨r,hr,within⟩
      exact tree.below_of_within_below within (inside r hr)
    · exact fun x _ mem => Or.inl ⟨x, mem, Or.inl rfl⟩
    · rintro x _ ⟨r,hr,above⟩
      exact Or.inl ⟨r, (same r).mp hr, Or.inr above⟩
  refine ⟨both.weaken (fun x h => h) ?_, fun r hr => up.keeps r (entered r hr)⟩
  rintro x below ⟨r,hr,within⟩
  obtain ⟨p,hp,higher⟩ := tree.below_iff.mp below
  rcases higher with rfl | higher
  · exact Or.inl hp
  · have high := tree.below_of_within_below within (tree.below_parent hp)
    exact Or.inr ⟨p, hp, path r ((same r).mpr hr) p high higher⟩

end IsTree

namespace WellFormed

theorem targets_pairwise_apart (wf : c.WellFormed) (plain : c.Plain) (t : Nat) :
    (c.transition t).targets.Pairwise c.Apart := by
  have once := wf.targets_once t
  refine List.Pairwise.imp_of_mem ?_ once
  intro a b ha hb ne
  exact wf.targets_apart plain ha hb ne

theorem targets_free (wf : c.WellFormed) {e : EntrySet} {targets : List StateIndex}
    (below : ∀ r ∈ targets, c.Below r s)
    (free : ∀ x ∈ e.states, c.Compatible s x ∧ ¬ c.Within x s) :
    ∀ r ∈ targets, ∀ x ∈ (e.add s).states, c.Compatible r x ∧ ¬ c.Within x r := by
  intro r hr x hx
  have down := below r hr
  rcases mem_insertIndex.mp hx with rfl | old
  · refine ⟨Or.inl (Or.inr down), ?_⟩
    intro within
    exact wf.not_below_self (wf.below_of_below_within down within)
  · obtain ⟨fits,outside⟩ := free x old
    refine ⟨wf.compatible_inwards fits (fun h => outside (Or.inr h)) (Or.inr down), ?_⟩
    intro within
    exact outside (Or.inr (wf.below_of_within_below within down))

theorem addDescendants_enters (wf : c.WellFormed) (plain : c.Plain) (history : HistoryTable)
    (depth : Nat) (inside : s < c.states.size) (enough : c.states.size ≤ s + depth) :
    c.Enters (c.addDescendants history depth) s := by
  -- Every call inside is about a state further down, so the number of states bounds the depth.
  induction depth generalizing s with
  | zero => omega
  | succ depth ih =>
    intro e orth free
    have enters : ∀ k, c.Below k s → c.Enters (c.addDescendants history depth) k := by
      intro k below
      have after := wf.below_lt below
      exact ih (wf.below_in_range below) (by omega)
    have orth' := wf.orthogonal_insert orth (fun x hx => (free x hx).1)
    have member : s ∈ (e.add s).states := mem_insertIndex.mpr (Or.inl rfl)
    simp only [addDescendants, plain.no_history, Bool.false_eq_true, if_false]
    by_cases compound : c.isCompound s = true
    · obtain ⟨kind,k,hk⟩ := (wf.compound_iff plain.no_history).mp compound
      obtain ⟨t,start,_,_,some,below⟩ :=
        wf.initial s kind (List.ne_nil_of_mem ((wf.child_iff s k).mpr hk))
      obtain ⟨ext,entered⟩ := wf.targets_extend plain.no_history enters (c.transition t).targets
        (c.transition t).targets (fun _ => Iff.rfl) (wf.targets_pairwise_apart plain t) below
        ((e.add s).addDefault s) orth' (wf.targets_free below free)
      simp only [compound, if_true, start, addTargets]
      refine Extends.of_add ext ⟨fun _ => ?_, fun par => ?_⟩ fun x _ top => ⟨s, top, ext.keeps s member⟩
      · obtain ⟨r,rest,eq⟩ := List.exists_cons_of_ne_nil some
        have hr : r ∈ (c.transition t).targets := by rw [eq]; exact List.mem_cons_self
        exact ⟨r, entered r hr, below r hr⟩
      · rw [wf.not_compound_of_parallel par] at compound
        cases compound
    · simp only [compound, Bool.false_eq_true, if_false]
      by_cases par : c.isParallel s = true
      · have own : ∀ k ∈ c.childStates s, (c.state k).parent = some s ∧
            c.Enters (c.addDescendants history depth) k := by
          intro k hk
          have child := (wf.childStates_iff plain.no_history).mp hk
          exact ⟨child, enters k (wf.below_parent child)⟩
        obtain ⟨ext,all⟩ := wf.regions_extend par (c.childStates s) own (e.add s) orth' member
        simp only [par, if_true, addMissingRegions]
        refine Extends.of_add ext ⟨fun h => absurd h compound, fun _ k hk => ?_⟩ fun _ _ never => never.elim
        exact all k ((wf.childStates_iff plain.no_history).mpr hk)
      · simp only [par, Bool.false_eq_true, if_false]
        have alone : c.Extends (c.Below · s) (fun _ => False) (e.add s).states (e.add s).states :=
          Extends.refl orth'
        refine Extends.of_add alone ?_ fun _ _ never => never.elim
        exact ⟨fun h => absurd h compound, fun h => absurd h par⟩

end WellFormed

end Statechart.Chart

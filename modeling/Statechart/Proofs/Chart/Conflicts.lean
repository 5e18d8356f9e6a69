import Statechart.Proofs.Chart.Preorder
import Statechart.Proofs.Chart.Scope
import Statechart.Proofs.Chart.Taking

/- Settling conflicts. Transitions are taken up in document order, and one from inside the source of
   others displaces them. What gave way to a displaced transition need not be taken up again: if it
   comes from inside as well the newcomer clashes with it too, and if it stands between the two it
   comes from inside. So whatever is dropped is dropped because of a transition that is kept. -/
namespace Statechart.Chart

variable {c : Chart} {history : HistoryTable} {configuration : List StateIndex}
  {exits : TransitionIndex → List StateIndex} {d s x y t u v : Nat}

/-- Two transitions leave a state in common. -/
def Clash (exits : TransitionIndex → List StateIndex) (t u : TransitionIndex) : Prop :=
  ∃ x ∈ exits t, x ∈ exits u

/-- `u` comes from inside the source of `t`, or it stands first and `t` does not come from inside its
    source. -/
def Prevails (c : Chart) (u t : TransitionIndex) : Prop :=
  c.Below (c.transition u).source (c.transition t).source ∨
    ((c.transition u).document < (c.transition t).document ∧
      ¬ c.Below (c.transition t).source (c.transition u).source)

/-- Transitions whose sources decide their conflicts: nested ones clash, and what stands between a
    transition and one from inside of its source comes from inside too. -/
structure Nests (c : Chart) (exits : TransitionIndex → List StateIndex)
    (enabled : List TransitionIndex) : Prop where
  clash : ∀ t ∈ enabled, ∀ u ∈ enabled, c.Below (c.transition u).source (c.transition t).source →
    exits t ≠ [] → exits u ≠ [] → Clash exits t u
  between : ∀ t ∈ enabled, ∀ u ∈ enabled, ∀ v ∈ enabled,
    (c.transition t).document < (c.transition u).document →
    (c.transition u).document < (c.transition v).document →
    c.Below (c.transition v).source (c.transition t).source →
    c.Below (c.transition u).source (c.transition t).source

/-- What is kept of the transitions so far, and why the others are not. -/
structure Settled (c : Chart) (exits : TransitionIndex → List StateIndex)
    (seen kept : List TransitionIndex) : Prop where
  sublist : kept.Sublist seen
  dropped : ∀ t ∈ seen, t ∉ kept → ∃ u ∈ kept, Clash exits t u ∧ c.Prevails u t

theorem clash_symm (clash : Clash exits t u) : Clash exits u t := by
  obtain ⟨x,left,right⟩ := clash
  exact ⟨x, right, left⟩

theorem exits_ne_nil (clash : Clash exits t u) : exits t ≠ [] := by
  obtain ⟨x,left,-⟩ := clash
  exact List.ne_nil_of_mem left

/-- Either a kept transition stands in the way, or all that clash with the new one give way. -/
theorem settle_cases (c : Chart) (exits : TransitionIndex → List StateIndex)
    (kept : List TransitionIndex) (t : TransitionIndex) :
    (c.settle exits kept t = kept ∧ ∃ u ∈ kept, Clash exits t u ∧
        ¬ c.Below (c.transition t).source (c.transition u).source) ∨
      ((∀ u ∈ kept, Clash exits t u → c.Below (c.transition t).source (c.transition u).source) ∧
        ∃ rest, c.settle exits kept t = rest ++ [t] ∧ rest.Sublist kept ∧
          ∀ u ∈ kept, u ∈ rest ∨ Clash exits t u) := by
  have conflicts : ∀ u, u ∈ kept.filter (fun u => (exits t).any (exits u).contains) ↔
      u ∈ kept ∧ Clash exits t u := by
    intro u
    simp [Clash]
  unfold settle
  simp only
  split
  · rename_i all
    rw [List.all_eq_true] at all
    refine Or.inr ⟨fun u hu clash => ?_, _, rfl, List.filter_sublist, fun u hu => ?_⟩
    · exact (isDescendant_iff c _ _).mp (all u ((conflicts u).mpr ⟨hu, clash⟩))
    · by_cases clash : Clash exits t u
      · exact Or.inr clash
      · refine Or.inl (List.mem_filter.mpr ⟨hu, ?_⟩)
        rw [Bool.not_eq_true', List.contains_eq_mem, decide_eq_false_iff_not]
        exact fun h => clash ((conflicts u).mp h).2
  · rename_i stays
    rw [List.all_eq_true, not_forall₂] at stays
    obtain ⟨u,hu,holds⟩ := stays
    obtain ⟨hu,clash⟩ := (conflicts u).mp hu
    exact Or.inl ⟨rfl, u, hu, clash, fun below => holds ((isDescendant_iff c _ _).mpr below)⟩

/-- Whatever was dropped for a transition that is displaced now is dropped for the one that displaces
    it. -/
theorem Nests.inherits {enabled : List TransitionIndex} (nests : c.Nests exits enabled)
    (ht : t ∈ enabled) (hu : u ∈ enabled) (hv : v ∈ enabled)
    (earlier : (c.transition t).document < (c.transition v).document) (lost : Clash exits t u)
    (prevails : c.Prevails u t) (clash : Clash exits v u)
    (inside : c.Below (c.transition v).source (c.transition u).source) (tree : c.IsTree) :
    Clash exits t v ∧ c.Prevails v t := by
  rcases prevails with deeper | ⟨first,outside⟩
  · have below := tree.below_trans inside deeper
    exact ⟨nests.clash t ht v hv below (exits_ne_nil lost) (exits_ne_nil clash), Or.inl below⟩
  · exact absurd (nests.between u hu t ht v hv first earlier inside) outside

theorem Settled.step {enabled seen kept : List TransitionIndex} (tree : c.IsTree)
    (nests : c.Nests exits enabled) (known : ∀ u ∈ seen, u ∈ enabled) (offered : t ∈ enabled)
    (last : ∀ u ∈ seen, (c.transition u).document < (c.transition t).document)
    (settled : c.Settled exits seen kept) :
    c.Settled exits (seen ++ [t]) (c.settle exits kept t) := by
  rcases settle_cases c exits kept t with ⟨same,u,hu,clash,outside⟩ | ⟨displaces,rest,eq,sub,left⟩
  · rw [same]
    refine ⟨settled.sublist.trans (List.sublist_append_left _ _), fun v hv gone => ?_⟩
    rcases List.mem_append.mp hv with hv | hv
    · exact settled.dropped v hv gone
    · rw [List.mem_singleton.mp hv]
      exact ⟨u, hu, clash, Or.inr ⟨last u (settled.sublist.subset hu), outside⟩⟩
  · rw [eq]
    refine ⟨(sub.trans settled.sublist).append (List.Sublist.refl _), fun v hv gone => ?_⟩
    have arrived : t ∈ rest ++ [t] := by simp
    rw [List.mem_append, not_or, List.mem_singleton] at gone
    have hv : v ∈ seen := (List.mem_append.mp hv).resolve_right fun h =>
      gone.2 (List.mem_singleton.mp h)
    by_cases kept_v : v ∈ kept
    · have clash := (left v kept_v).resolve_left gone.1
      exact ⟨t, arrived, clash_symm clash, Or.inl (displaces v kept_v clash)⟩
    · obtain ⟨u,hu,lost,prevails⟩ := settled.dropped v hv kept_v
      rcases left u hu with stays | clash
      · exact ⟨u, List.mem_append_left _ stays, lost, prevails⟩
      · have known_u := known u (settled.sublist.subset hu)
        obtain ⟨clash',prevails'⟩ :=
          nests.inherits (known v hv) known_u offered (last v hv) lost prevails
          clash (displaces u hu clash) tree
        exact ⟨t, arrived, clash', prevails'⟩

theorem settled_foldl {enabled : List TransitionIndex} (tree : c.IsTree)
    (nests : c.Nests exits enabled) (rest seen kept : List TransitionIndex)
    (known : ∀ u ∈ seen ++ rest, u ∈ enabled)
    (ordered : (seen ++ rest).Pairwise fun t u =>
      (c.transition t).document < (c.transition u).document)
    (settled : c.Settled exits seen kept) :
    c.Settled exits (seen ++ rest) (rest.foldl (c.settle exits) kept) := by
  induction rest generalizing seen kept with
  | nil => rwa [List.append_nil]
  | cons t rest ih =>
    have split : seen ++ t :: rest = (seen ++ [t]) ++ rest := by simp
    rw [split] at known ordered ⊢
    have before := (List.pairwise_append.mp (List.pairwise_append.mp ordered).1).2.2
    refine ih (seen ++ [t]) _ known ordered (settled.step tree nests ?_ ?_ ?_)
    · exact fun u hu => known u (by simp [hu])
    · exact known t (by simp)
    · exact fun u hu => before u hu t (List.mem_singleton_self t)

/-- Transitions that active atomic states have selected, one from each source. -/
structure Enabled (c : Chart) (configuration : List StateIndex) (enabled : List TransitionIndex) :
    Prop where
  nodup : enabled.Nodup
  once : ∀ t ∈ enabled, ∀ u ∈ enabled, (c.transition t).source = (c.transition u).source → t = u
  listed : ∀ t ∈ enabled, t ∈ (c.state (c.transition t).source).transitions
  active : ∀ t ∈ enabled, ∃ y ∈ configuration, c.isAtomic y = true ∧
    c.Within y (c.transition t).source

theorem not_compound_of_atomic (atomic : c.isAtomic s = true) : c.isCompound s = false := by
  unfold isAtomic at atomic
  unfold isCompound
  cases kind : (c.state s).kind <;> simp_all

theorem IsTree.below_domain (tree : c.IsTree) (found : c.domain? history t = some d)
    (inside : c.Below x (c.transition t).source) : c.Below x d := by
  rcases tree.domain?_cases found with ⟨-,rfl⟩ | ⟨-,rfl | around,-⟩
  · exact inside
  · have declared := tree.within_root (tree.below_in_range inside)
    refine declared.resolve_left ?_
    rintro rfl
    exact tree.not_root_below inside
  · exact tree.below_trans inside around.source

/-- An atomic state in the source of a transition lies below its domain, unless it is the root. -/
theorem IsTree.atomic_below_domain (tree : c.IsTree) (found : c.domain? history t = some d)
    (atomic : c.isAtomic y = true) (inside : c.Within y (c.transition t).source)
    (proper : c.Below y root) : c.Below y d := by
  rcases inside with rfl | below
  · rcases tree.domain?_cases found with ⟨internal,-⟩ | ⟨-,rfl | around,-⟩
    · have compound := internal.2.1
      rw [not_compound_of_atomic atomic] at compound
      cases compound
    · exact proper
    · exact around.source
  · exact tree.below_domain found below

theorem exitSet_domain {t : TransitionIndex} (leaves : c.exitSet history configuration [t] ≠ []) :
    ∃ d, c.domain? history t = some d := by
  obtain ⟨x,hx⟩ := List.exists_mem_of_ne_nil _ leaves
  obtain ⟨-,u,hu,d,found,-⟩ := mem_exitSet_iff.mp hx
  rw [List.mem_singleton.mp hu] at found
  exact ⟨d, found⟩

theorem Enabled.nests {enabled : List TransitionIndex} (offers : c.Enabled configuration enabled)
    (tree : c.IsTree) (order : c.Preordered) :
    c.Nests (fun t => c.exitSet history configuration [t]) enabled where
  clash t _ u hu inside leaves leaves' := by
    -- The atomic state that selected the inner transition is left by both.
    obtain ⟨y,active,atomic,within⟩ := offers.active u hu
    obtain ⟨d,found⟩ := exitSet_domain leaves
    obtain ⟨d',found'⟩ := exitSet_domain leaves'
    have below := tree.below_of_within_below within inside
    have proper : c.Below y root := tree.below_of_below_within below
      (tree.within_root (Nat.lt_trans (tree.below_lt below) (tree.below_in_range below)))
    refine ⟨y, mem_exitSet_iff.mpr ?_, mem_exitSet_iff.mpr ?_⟩
    · exact ⟨active, t, List.mem_singleton_self t, d, found, tree.below_domain found below⟩
    · exact ⟨active, u, List.mem_singleton_self u, d', found',
        tree.atomic_below_domain found' atomic within proper⟩
  between t ht u hu v hv first second inside := by
    have within := order.source_within tree (offers.listed t ht) (offers.listed u hu)
      (offers.listed v hv) first second (Or.inr inside)
    refine within.resolve_left fun same => ?_
    rw [offers.once u hu t ht same] at first
    exact Nat.lt_irrefl _ first

/-- Different transitions stand at different positions. -/
theorem Enabled.document_inj {enabled : List TransitionIndex}
    (offers : c.Enabled configuration enabled) (order : c.Preordered) (ht : t ∈ enabled)
    (hu : u ∈ enabled) (same : (c.transition t).document = (c.transition u).document) : t = u := by
  refine offers.once t ht u hu ?_
  have apart : ∀ t ∈ enabled, ∀ u ∈ enabled,
      (c.transition t).document = (c.transition u).document →
      ¬ (c.transition t).source < (c.transition u).source := by
    intro t ht u hu same before
    have listed := offers.listed u hu
    have first := order.before _ t _ (offers.listed t ht) before (Preordered.listed_in_range c listed)
    have second := order.after _ u listed
    rw [same] at first
    exact Nat.lt_asymm first second
  exact Nat.le_antisymm (Nat.not_lt.mp (apart u hu t ht same.symm)) (Nat.not_lt.mp (apart t ht u hu same))

theorem Enabled.ordered {enabled : List TransitionIndex}
    (offers : c.Enabled configuration enabled) (order : c.Preordered) :
    (c.inDocumentOrder enabled).Pairwise fun t u =>
      (c.transition t).document < (c.transition u).document := by
  have perm : (c.inDocumentOrder enabled).Perm enabled := List.mergeSort_perm _ _
  have sorted : (c.inDocumentOrder enabled).Pairwise fun t u =>
      decide ((c.transition t).document ≤ (c.transition u).document) = true :=
    List.pairwise_mergeSort (fun _ _ _ => by simpa using Nat.le_trans)
      (fun _ _ => by simpa using Nat.le_total _ _) _
  have different : (c.inDocumentOrder enabled).Pairwise (· ≠ ·) := perm.nodup_iff.mpr offers.nodup
  refine (sorted.and different).imp_of_mem fun {t u} ht hu both => ?_
  refine Nat.lt_of_le_of_ne (by simpa using both.1) fun same => both.2 ?_
  exact offers.document_inj order (perm.mem_iff.mp ht) (perm.mem_iff.mp hu) same

theorem removeConflicts_ordered {enabled : List TransitionIndex}
    (ordered : enabled.Pairwise fun t u => (c.transition t).document ≤ (c.transition u).document) :
    c.removeConflicts history configuration enabled =
      enabled.foldl (c.settle fun t => c.exitSet history configuration [t]) [] := by
  have same : c.inDocumentOrder enabled = enabled :=
    List.mergeSort_of_pairwise (ordered.imp fun before => by simpa using before)
  rw [removeConflicts, same]

/-- Of the transitions that active states have selected those are kept that prevail: what is dropped
    clashes with a kept one that prevails over it. -/
theorem Enabled.settled {enabled : List TransitionIndex} (offers : c.Enabled configuration enabled)
    (tree : c.IsTree) (order : c.Preordered) (history : HistoryTable) :
    c.Settled (fun t => c.exitSet history configuration [t]) (c.inDocumentOrder enabled)
      (c.removeConflicts history configuration enabled) := by
  have nests : c.Nests (fun t => c.exitSet history configuration [t]) enabled :=
    offers.nests tree order
  have settled := settled_foldl tree nests
    (c.inDocumentOrder enabled) [] [] (fun u hu => List.mem_mergeSort.mp hu) (offers.ordered order)
    ⟨List.Sublist.refl _, fun t ht => by cases ht⟩
  exact settled

end Statechart.Chart

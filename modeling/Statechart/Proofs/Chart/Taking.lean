import Statechart.Proofs.Chart.Entry

/- Taking transitions of a plain chart.

   The transitions that are taken together have domains in different regions. Within each domain
   all that was active is left, and what is entered there is consistent below it; outside the
   domains nothing changes. So a configuration stays consistent. -/
namespace Statechart.Chart

variable {c : Chart} {s p a b d x y k r t u : Nat} {history : HistoryTable}

theorem mem_foldl_insertIndex (l : List Nat) (out : List Nat) :
    x ∈ l.foldl (fun out s => insertIndex s out) out ↔ x ∈ out ∨ x ∈ l := by
  induction l generalizing out with
  | nil => simp
  | cons u rest ih =>
    rw [List.foldl_cons, ih, mem_insertIndex, List.mem_cons]
    constructor
    · rintro ((h | h) | h)
      · exact Or.inr (Or.inl h)
      · exact Or.inl h
      · exact Or.inr (Or.inr h)
    · rintro (h | h | h)
      · exact Or.inl (Or.inr h)
      · exact Or.inl (Or.inl h)
      · exact Or.inr h

namespace Plain

theorem effectiveTargets_eq (plain : c.Plain) (history : HistoryTable) (t : Nat) :
    c.effectiveTargets history t =
      (c.transition t).targets.foldl (fun out s => insertIndex s out) [] := by
  simp [effectiveTargets, targetsWithin, plain.no_history]

theorem effectiveTargets_iff (plain : c.Plain) :
    x ∈ c.effectiveTargets history t ↔ x ∈ (c.transition t).targets := by
  rw [plain.effectiveTargets_eq, mem_foldl_insertIndex]
  simp

theorem effectiveTargets_empty (plain : c.Plain) :
    (c.effectiveTargets history t).isEmpty = (c.transition t).targets.isEmpty := by
  rw [Bool.eq_iff_iff, List.isEmpty_iff, List.isEmpty_iff, List.eq_nil_iff_forall_not_mem,
    List.eq_nil_iff_forall_not_mem]
  simp only [plain.effectiveTargets_iff]

theorem domain_history (plain : c.Plain) (history history' : HistoryTable) (t : Nat) :
    c.domain? history t = c.domain? history' t := by
  simp only [domain?, plain.effectiveTargets_eq]

end Plain

namespace WellFormed

/-- The domain of a transition is a compound state that holds its source and its targets. Only the
    root can be its own target there. -/
theorem domain_spec (wf : c.WellFormed) (plain : c.Plain)
    (declared : (c.transition t).source < c.states.size)
    (found : c.domain? history t = some d) :
    c.isCompound d = true ∧ c.Within (c.transition t).source d ∧
      ∀ r ∈ (c.transition t).targets, c.Below r d ∨ (r = root ∧ d = root) := by
  simp only [domain?] at found
  split at found
  · cases found
  · split at found
    · rename_i staying
      cases found
      simp only [Bool.and_eq_true, List.all_eq_true, isDescendant_iff] at staying
      refine ⟨staying.1.2, Or.inl rfl, ?_⟩
      intro r hr
      exact Or.inl (staying.2 r (plain.effectiveTargets_iff.mpr hr))
    · cases found
      rw [commonAncestor]
      cases search : (c.ancestors (c.transition t).source).find? fun a =>
          (a == root || c.isCompound a) &&
            (c.effectiveTargets history t).all fun s => c.isDescendant s a with
      | none =>
        refine ⟨wf.root_compound plain.no_history, wf.within_root declared, ?_⟩
        intro r hr
        rcases wf.within_root (wf.targets_declared t r hr) with eq | below
        · exact Or.inr ⟨eq, rfl⟩
        · exact Or.inl below
      | some a =>
        obtain ⟨above,good,_⟩ := wf.find_ancestor search
        simp only [Bool.and_eq_true, Bool.or_eq_true, beq_iff_eq, List.all_eq_true,
          isDescendant_iff] at good
        refine ⟨?_, Or.inr above, ?_⟩
        · rcases good.1 with rfl | compound
          · exact wf.root_compound plain.no_history
          · exact compound
        · intro r hr
          exact Or.inl (good.2 r (plain.effectiveTargets_iff.mpr hr))

theorem targets_of_domain (_ : c.WellFormed) (plain : c.Plain)
    (found : c.domain? history t = some d) : (c.transition t).targets ≠ [] := by
  intro none
  have empty : (c.effectiveTargets history t).isEmpty = true := by
    rw [plain.effectiveTargets_empty, none]
    rfl
  simp [domain?, empty] at found

theorem targets_nil_of_no_domain (_ : c.WellFormed) (plain : c.Plain)
    (none : c.domain? history t = none) : (c.transition t).targets = [] := by
  simp only [domain?] at none
  split at none
  · rename_i empty
    rw [plain.effectiveTargets_empty, List.isEmpty_iff] at empty
    exact empty
  · split at none
    · cases none
    · cases none

theorem domain_initial (_ : c.WellFormed) (plain : c.Plain) (compound : c.isCompound s = true)
    (source : (c.transition t).source = s) (kind : (c.transition t).kind = .internal)
    (targeted : (c.transition t).targets ≠ [])
    (below : ∀ r ∈ (c.transition t).targets, c.Below r s) : c.domain? history t = some s := by
  have nonempty : (c.effectiveTargets history t).isEmpty = false := by
    rw [plain.effectiveTargets_empty]
    simpa using targeted
  have inside : ((c.effectiveTargets history t).all fun r => c.isDescendant r s) = true := by
    rw [List.all_eq_true]
    intro r hr
    exact (isDescendant_iff c r s).mpr (below r (plain.effectiveTargets_iff.mp hr))
  simp [domain?, nonempty, source, kind, compound, inside]

end WellFormed

def DisjointExits (exits : TransitionIndex → List StateIndex) (t u : TransitionIndex) : Prop :=
  ∀ x ∈ exits t, x ∉ exits u

theorem settle_subset {exits : TransitionIndex → List StateIndex} {kept : List TransitionIndex}
    (h : u ∈ c.settle exits kept t) : u ∈ kept ∨ u = t := by
  simp only [settle] at h
  split at h
  · rcases List.mem_append.mp h with h | h
    · exact Or.inl (List.mem_filter.mp h).1
    · exact Or.inr (List.mem_singleton.mp h)
  · exact Or.inl h

theorem settle_disjoint {exits : TransitionIndex → List StateIndex} {kept : List TransitionIndex}
    (disjoint : kept.Pairwise (DisjointExits exits)) :
    (c.settle exits kept t).Pairwise (DisjointExits exits) := by
  simp only [settle]
  split
  · refine List.pairwise_append.mpr ⟨disjoint.filter _, List.pairwise_singleton _ _, ?_⟩
    intro u hu v hv
    obtain ⟨keeping,clear⟩ := List.mem_filter.mp hu
    rw [List.mem_singleton.mp hv]
    intro x left right
    simp only [Bool.not_eq_true', List.contains_eq_mem, List.mem_filter, keeping, true_and,
      decide_eq_false_iff_not, List.any_eq_true, decide_eq_true_eq, not_exists, not_and] at clear
    exact clear x right left
  · exact disjoint

theorem removeConflicts_disjoint (c : Chart) (history : HistoryTable)
    (configuration : List StateIndex) (enabled : List TransitionIndex) :
    (c.removeConflicts history configuration enabled).Pairwise
      (DisjointExits fun t => c.exitSet history configuration [t]) := by
  have walk : ∀ (l kept : List TransitionIndex),
      kept.Pairwise (DisjointExits fun t => c.exitSet history configuration [t]) →
      (l.foldl (c.settle fun t => c.exitSet history configuration [t]) kept).Pairwise
        (DisjointExits fun t => c.exitSet history configuration [t]) := by
    intro l
    induction l with
    | nil => exact fun _ h => h
    | cons t rest ih => exact fun kept h => ih _ (settle_disjoint h)
  exact walk _ [] List.Pairwise.nil

theorem removeConflicts_subset {configuration : List StateIndex} {enabled : List TransitionIndex}
    (h : t ∈ c.removeConflicts history configuration enabled) : t ∈ enabled := by
  have walk : ∀ (l kept : List TransitionIndex),
      t ∈ l.foldl (c.settle fun t => c.exitSet history configuration [t]) kept →
        t ∈ kept ∨ t ∈ l := by
    intro l
    induction l with
    | nil => exact fun _ h => Or.inl h
    | cons u rest ih =>
      intro kept h
      rcases ih _ h with h | h
      · rcases settle_subset h with h | h
        · exact Or.inl h
        · exact Or.inr (List.mem_cons.mpr (Or.inl h))
      · exact Or.inr (List.mem_cons_of_mem _ h)
  rcases walk _ [] h with h | h
  · cases h
  · exact List.mem_mergeSort.mp h

/-- A state that is entered for a transition: it lies in the domain, or is the root as the target
    of a transition. -/
def EnteredFor (c : Chart) (history : HistoryTable) (t : TransitionIndex) (x : StateIndex) : Prop :=
  ∃ d, c.domain? history t = some d ∧ (c.Below x d ∨ (x = root ∧ d = root))

/-- The domains of two transitions, if they have any, lie in different regions. -/
def DomainsApart (c : Chart) (history : HistoryTable) (t u : TransitionIndex) : Prop :=
  ∀ d d', c.domain? history t = some d → c.domain? history u = some d' → c.Apart d d'

/-- The states that stay active when transitions are taken. -/
def Stays (c : Chart) (history : HistoryTable) (transitions : List TransitionIndex)
    (active : StateIndex → Prop) (x : StateIndex) : Prop :=
  active x ∧ ∀ t ∈ transitions, ∀ d, c.domain? history t = some d → ¬ c.Below x d

/-- A set of active states in which only the domains of some transitions may lack a child. -/
structure Ready (c : Chart) (history : HistoryTable) (transitions : List TransitionIndex)
    (active : StateIndex → Prop) : Prop where
  declared : ∀ s, active s → c.Within s root
  root : active root
  parent : ∀ s p, active s → (c.state s).parent = some p → active p
  orthogonal : c.Orthogonal active
  parallel : ∀ s k, active s → c.isParallel s = true → (c.state k).parent = some s → active k
  compound : ∀ s, active s → c.isCompound s = true →
    (∃ t ∈ transitions, c.domain? history t = some s) ∨
      ∃ k, (c.state k).parent = some s ∧ active k
  sources : ∀ t ∈ transitions, (c.transition t).source < c.states.size
  domains : ∀ t ∈ transitions, ∀ d, c.domain? history t = some d → active d
  apart : transitions.Pairwise (c.DomainsApart history)

/-- What is entered for transitions lies in their domains, has all that belongs to it, and leaves no
    domain empty. -/
structure Fills (c : Chart) (history : HistoryTable) (transitions : List TransitionIndex)
    (entered : List StateIndex) : Prop where
  scope : ∀ x ∈ entered, ∃ t ∈ transitions, c.EnteredFor history t x
  covered : ∀ x ∈ entered, c.Covered entered x
  linked : ∀ x ∈ entered, (x = Chart.root ∨ ∃ t ∈ transitions, ∃ d, c.domain? history t = some d ∧
    (c.state x).parent = some d) ∨ ∃ p, (c.state x).parent = some p ∧ p ∈ entered
  orthogonal : c.Orthogonal (· ∈ entered)
  filled : ∀ t ∈ transitions, ∀ d, c.domain? history t = some d → ∃ y ∈ entered, c.Below y d

namespace WellFormed

theorem enterFor_no_domain (wf : c.WellFormed) (plain : c.Plain)
    (found : c.domain? history t = none) (e : EntrySet) : c.enterFor history e t = e := by
  simp only [enterFor, found, wf.targets_nil_of_no_domain plain found, List.foldl_nil]

/-- Entering the targets of one transition, in a region where nothing has been entered. -/
theorem transition_extends (wf : c.WellFormed) (plain : c.Plain)
    (declared : (c.transition t).source < c.states.size)
    (found : c.domain? history t = some d) (e : EntrySet) (orth : c.Orthogonal (· ∈ e.states))
    (aside : ∀ x ∈ e.states, c.Apart d x) :
    let e' := c.enterFor history e t
    c.Extends (c.EnteredFor history t) (fun x => x = root ∨ (c.state x).parent = some d)
        e.states e'.states ∧ ∃ y ∈ e'.states, c.Below y d := by
  simp only [enterFor, found]
  obtain ⟨compound,_,inside⟩ := wf.domain_spec plain declared found
  have enters : ∀ k, k < c.states.size →
      c.Enters (c.addDescendants history c.nesting) k := fun k hk =>
    wf.addDescendants_enters plain history _ hk (Nat.le_add_left_of_le (Nat.le_of_lt c.size_lt_nesting))
  have within : ∀ r ∈ (c.transition t).targets, c.Within r d := by
    intro r hr
    rcases inside r hr with below | ⟨eq,eq'⟩
    · exact Or.inr below
    · exact Or.inl (eq.trans eq'.symm)
  have free : ∀ r ∈ (c.transition t).targets, ∀ x ∈ e.states,
      c.Compatible r x ∧ ¬ c.Within x r := by
    intro r hr x hx
    have apart := wf.apart_inside (aside x hx) (within r hr) (Or.inl rfl)
    exact ⟨Or.inr (Or.inr apart), wf.not_within_of_apart apart.symm⟩
  by_cases top : root ∈ (c.transition t).targets
  · have single := wf.targets_root top
    have eq : d = root := by
      rcases inside root top with below | ⟨_,eq⟩
      · exact absurd below wf.not_root_below
      · exact eq
    subst eq
    obtain ⟨ext,entered⟩ := enters root wf.nonempty e orth (free root top)
    have climbing : ∀ e : EntrySet, c.addAncestors
        (c.addDescendants history c.nesting) root root e = e := by
      intro e
      simp [addAncestors, ancestorsUpTo, wf.ancestors_root]
    simp only [plain.effectiveTargets_eq, single, List.foldl_cons, List.foldl_nil, insertIndex,
      climbing]
    refine ⟨ext.weaken ?_ ?_, ?_⟩
    · rintro x (eq | below)
      · exact ⟨root, found, Or.inr ⟨eq, rfl⟩⟩
      · exact ⟨root, found, Or.inl below⟩
    · exact fun x _ eq => Or.inl (Or.inl eq)
    · rcases ext.fresh root entered with old | ⟨_,covered,_⟩
      · exact absurd (Or.inl rfl) (free root top root old).2
      · exact covered.1 compound
  · have below : ∀ r ∈ (c.transition t).targets, c.Below r d := by
      intro r hr
      rcases inside r hr with below | ⟨eq,_⟩
      · exact below
      · exact absurd (eq ▸ hr) top
    obtain ⟨ext,entered⟩ := wf.targets_extend plain.no_history
      (fun k hk => enters k (wf.below_in_range hk)) (c.transition t).targets
      (c.effectiveTargets history t) (fun r => plain.effectiveTargets_iff)
      (wf.targets_pairwise_apart plain t) below e orth free
    refine ⟨ext.weaken (fun x h => ⟨d, found, Or.inl h⟩) (fun x _ h => Or.inl (Or.inr h)), ?_⟩
    obtain ⟨r,rest,eq⟩ := List.exists_cons_of_ne_nil (wf.targets_of_domain plain found)
    have hr : r ∈ (c.transition t).targets := by rw [eq]; exact List.mem_cons_self
    exact ⟨r, entered r hr, below r hr⟩

theorem enterFor_foldl_extends (wf : c.WellFormed) (plain : c.Plain)
    (transitions : List TransitionIndex) (e : EntrySet)
    (declared : ∀ t ∈ transitions, (c.transition t).source < c.states.size)
    (apart : transitions.Pairwise (c.DomainsApart history)) (orth : c.Orthogonal (· ∈ e.states))
    (aside : ∀ t ∈ transitions, ∀ d, c.domain? history t = some d → ∀ x ∈ e.states, c.Apart d x) :
    let e' := transitions.foldl (c.enterFor history) e
    c.Extends (fun x => ∃ t ∈ transitions, c.EnteredFor history t x)
        (fun x => x = root ∨ ∃ t ∈ transitions, ∃ d, c.domain? history t = some d ∧
          (c.state x).parent = some d) e.states e'.states ∧
      ∀ t ∈ transitions, ∀ d, c.domain? history t = some d → ∃ y ∈ e'.states, c.Below y d := by
  induction transitions generalizing e with
  | nil => exact ⟨Extends.refl orth, by simp⟩
  | cons t rest ih =>
    obtain ⟨here,apart⟩ := List.pairwise_cons.mp apart
    have declared' := fun u hu => declared u (List.mem_cons_of_mem t hu)
    have aside' := fun u hu => aside u (List.mem_cons_of_mem t hu)
    simp only [List.foldl_cons]
    cases found : c.domain? history t with
    | none =>
      rw [wf.enterFor_no_domain plain found]
      obtain ⟨ext,all⟩ := ih e declared' apart orth aside'
      refine ⟨ext.weaken ?_ ?_, ?_⟩
      · rintro x ⟨u,hu,entered⟩
        exact ⟨u, List.mem_cons_of_mem t hu, entered⟩
      · rintro x _ (eq | ⟨u,hu,free⟩)
        · exact Or.inl (Or.inl eq)
        · exact Or.inl (Or.inr ⟨u, List.mem_cons_of_mem t hu, free⟩)
      · intro u hu d hd
        rcases List.mem_cons.mp hu with rfl | hu
        · rw [found] at hd
          cases hd
        · exact all u hu d hd
    | some d =>
      obtain ⟨grown,filled⟩ := wf.transition_extends plain (declared t List.mem_cons_self) found e
        orth (aside t List.mem_cons_self d found)
      have still : ∀ u ∈ rest, ∀ d', c.domain? history u = some d' →
          ∀ x ∈ (c.enterFor history e t).states, c.Apart d' x := by
        intro u hu d' hd' x hx
        rcases grown.fresh x hx with old | ⟨⟨q,hq,inside⟩,_,_⟩
        · exact aside' u hu d' hd' x old
        · rw [found] at hq
          cases hq
          have within : c.Within x d := by
            rcases inside with below | ⟨eq,eq'⟩
            · exact Or.inr below
            · exact Or.inl (eq.trans eq'.symm)
          exact (wf.apart_inside (here u hu d d' found hd') within (Or.inl rfl)).symm
      obtain ⟨ext,all⟩ := ih _ declared' apart grown.orthogonal still
      refine ⟨(grown.weaken ?_ ?_).trans (ext.weaken ?_ ?_), ?_⟩
      · exact fun x h => ⟨t, List.mem_cons_self, h⟩
      · exact fun x _ h => Or.inl (h.imp id fun free => ⟨t, List.mem_cons_self, d, found, free⟩)
      · rintro x ⟨u,hu,h⟩
        exact ⟨u, List.mem_cons_of_mem t hu, h⟩
      · rintro x _ (top | ⟨u,hu,free⟩)
        · exact Or.inl (Or.inl top)
        · exact Or.inl (Or.inr ⟨u, List.mem_cons_of_mem t hu, free⟩)
      intro u hu q hq
      rcases List.mem_cons.mp hu with rfl | hu
      · rw [found] at hq
        cases hq
        obtain ⟨y,hy,below⟩ := filled
        exact ⟨y, ext.keeps y hy, below⟩
      · exact all u hu q hq

theorem entrySet_extends (wf : c.WellFormed) (plain : c.Plain) (transitions : List TransitionIndex)
    (declared : ∀ t ∈ transitions, (c.transition t).source < c.states.size)
    (apart : transitions.Pairwise (c.DomainsApart history)) :
    let e := c.entrySet history transitions
    c.Extends (fun x => ∃ t ∈ transitions, c.EnteredFor history t x)
        (fun x => x = root ∨ ∃ t ∈ transitions, ∃ d, c.domain? history t = some d ∧
          (c.state x).parent = some d) [] e.states ∧
      ∀ t ∈ transitions, ∀ d, c.domain? history t = some d → ∃ y ∈ e.states, c.Below y d :=
  wf.enterFor_foldl_extends plain transitions {} declared apart (fun _ _ => nofun)
    fun _ _ _ _ _ => nofun

theorem domains_not_below (wf : c.WellFormed) {transitions : List TransitionIndex}
    (apart : transitions.Pairwise (c.DomainsApart history)) (ht : t ∈ transitions)
    (hu : u ∈ transitions) (found : c.domain? history t = some a)
    (found' : c.domain? history u = some b) : ¬ c.Below a b := by
  intro below
  have all : ∀ t ∈ transitions, ∀ u ∈ transitions, t = u ∨ c.DomainsApart history t u := by
    intro t ht u hu
    refine List.Pairwise.forall_of_forall_of_flip (R := fun t u => t = u ∨ c.DomainsApart history t u)
      (fun _ _ => Or.inl rfl) (apart.imp Or.inr) (apart.imp ?_) ht hu
    intro t u separate
    exact Or.inr fun d d' hd hd' => (separate d' d hd' hd).symm
  rcases all t ht u hu with rfl | separate
  · rw [found] at found'
    cases found'
    exact wf.not_below_self below
  · exact wf.not_within_of_apart (separate a b found found') (Or.inr below)

theorem entrySet_fills (wf : c.WellFormed) (plain : c.Plain) {transitions : List TransitionIndex}
    {active : StateIndex → Prop} (ready : c.Ready history transitions active) :
    c.Fills history transitions (c.entrySet history transitions).states := by
  obtain ⟨ext,filled⟩ := wf.entrySet_extends plain transitions ready.sources ready.apart
  have new : ∀ x ∈ (c.entrySet history transitions).states, _ := fun x hx =>
    (ext.fresh x hx).resolve_left (List.not_mem_nil)
  exact ⟨fun x hx => (new x hx).1, fun x hx => (new x hx).2.1, fun x hx => (new x hx).2.2,
    ext.orthogonal, filled⟩

section Taking

variable {transitions : List TransitionIndex} {active : StateIndex → Prop}
  {entered : List StateIndex}

theorem domain_stays (wf : c.WellFormed) (ready : c.Ready history transitions active)
    (ht : t ∈ transitions) (hd : c.domain? history t = some d) :
    c.Stays history transitions active d :=
  ⟨ready.domains t ht d hd, fun _ hu _ hd' => wf.domains_not_below ready.apart ht hu hd hd'⟩

theorem parent_of_entered (wf : c.WellFormed) (ready : c.Ready history transitions active)
    (fills : c.Fills history transitions entered) (hx : x ∈ entered)
    (hp : (c.state x).parent = some p) : c.Stays history transitions active p ∨ p ∈ entered := by
  rcases fills.linked x hx with (eq | ⟨t,ht,d,hd,free⟩) | ⟨q,hq,mem⟩
  · rw [eq, wf.root_parent] at hp
    cases hp
  · rw [hp] at free
    cases free
    exact Or.inl (wf.domain_stays ready ht hd)
  · rw [hp] at hq
    cases hq
    exact Or.inr mem

theorem taken_within (wf : c.WellFormed) (ready : c.Ready history transitions active)
    (fills : c.Fills history transitions entered)
    (hy : c.Stays history transitions active y ∨ y ∈ entered) (within : c.Within y k) :
    c.Stays history transitions active k ∨ k ∈ entered := by
  -- Upwards along the parents, whose indices are smaller.
  induction y using Nat.strongRecOn with
  | ind y ih =>
    rcases within with rfl | below
    · exact hy
    · obtain ⟨p,hp,higher⟩ := wf.below_iff.mp below
      refine ih p (wf.parent_lt hp) ?_ higher
      rcases hy with ⟨was,clear⟩ | mem
      · refine Or.inl ⟨ready.parent y p was hp, ?_⟩
        intro t ht d hd inside
        exact clear t ht d hd (wf.below_trans (wf.below_parent hp) inside)
      · exact wf.parent_of_entered ready fills mem hp

theorem entered_compatible (wf : c.WellFormed) (ready : c.Ready history transitions active)
    (fills : c.Fills history transitions entered) (stays : c.Stays history transitions active x)
    (hy : y ∈ entered) : c.Compatible y x := by
  obtain ⟨t,ht,d,hd,inside⟩ := fills.scope y hy
  have within : c.Within y d := by
    rcases inside with below | ⟨eq,eq'⟩
    · exact Or.inr below
    · exact Or.inl (eq.trans eq'.symm)
  exact wf.compatible_inwards (ready.orthogonal d x (ready.domains t ht d hd) stays.1)
    (stays.2 t ht d hd) within

theorem stays_parallel (wf : c.WellFormed) (plain : c.Plain)
    (ready : c.Ready history transitions active) (stays : c.Stays history transitions active x)
    (par : c.isParallel x = true) (hk : (c.state k).parent = some x) :
    c.Stays history transitions active k := by
  refine ⟨ready.parallel x k stays.1 par hk, ?_⟩
  intro t ht d hd below
  rcases wf.within_parent_of_below_child hk below with rfl | below
  · obtain ⟨compound,_,_⟩ := wf.domain_spec plain (ready.sources t ht) hd
    rw [wf.not_compound_of_parallel par] at compound
    cases compound
  · exact stays.2 t ht d hd below

/-- A compound state that stays keeps its active child, unless it is a domain. -/
theorem stays_compound (wf : c.WellFormed) (ready : c.Ready history transitions active)
    (stays : c.Stays history transitions active x) (compound : c.isCompound x = true) :
    (∃ t ∈ transitions, c.domain? history t = some x) ∨
      ∃ k, (c.state k).parent = some x ∧ c.Stays history transitions active k := by
  rcases ready.compound x stays.1 compound with domain | ⟨k,hk,child⟩
  · exact Or.inl domain
  · by_cases left : ∃ t ∈ transitions, ∃ d, c.domain? history t = some d ∧ c.Below k d
    · obtain ⟨t,ht,d,hd,below⟩ := left
      rcases wf.within_parent_of_below_child hk below with rfl | below
      · exact Or.inl ⟨t, ht, hd⟩
      · exact absurd below (stays.2 t ht d hd)
    · refine Or.inr ⟨k, hk, child, ?_⟩
      intro t ht d hd below
      exact left ⟨t, ht, d, hd, below⟩

/-- Taking transitions leads from one consistent set of active states to the next. -/
theorem taking_consistent (wf : c.WellFormed) (plain : c.Plain)
    (ready : c.Ready history transitions active) :
    c.Consistent fun x => c.Stays history transitions active x ∨
      x ∈ (c.entrySet history transitions).states := by
  have fills := wf.entrySet_fills plain ready
  generalize (c.entrySet history transitions).states = entered at fills
  -- A state has a child that stays or is entered if anything entered lies in it.
  have child : ∀ x, (∃ y ∈ entered, c.Below y x) → ∃ k, (c.state k).parent = some x ∧
      (c.Stays history transitions active k ∨ k ∈ entered) := by
    rintro x ⟨y,hy,below⟩
    obtain ⟨k,hk,within⟩ := wf.child_toward below
    exact ⟨k, hk, wf.taken_within ready fills (Or.inr hy) within⟩
  refine ⟨?_, ?_, ?_, ?_, ?_, ?_⟩
  · rintro x (⟨was,_⟩ | mem)
    · exact ready.declared x was
    · obtain ⟨t,_,d,_,below | ⟨eq,_⟩⟩ := fills.scope x mem
      · exact wf.within_root (wf.below_in_range below)
      · exact Or.inl eq
  · exact Or.inl ⟨ready.root, fun _ _ _ _ => wf.not_root_below⟩
  · exact fun x p hx hp => wf.taken_within ready fills hx (Or.inr (wf.below_parent hp))
  · rintro x y (hx | hx) (hy | hy)
    · exact ready.orthogonal x y hx.1 hy.1
    · exact (wf.entered_compatible ready fills hx hy).symm
    · exact wf.entered_compatible ready fills hy hx
    · exact fills.orthogonal x y hx hy
  · rintro x k (stays | mem) par hk
    · exact Or.inl (wf.stays_parallel plain ready stays par hk)
    · obtain ⟨y,hy,within⟩ := (fills.covered x mem).2 par k hk
      exact wf.taken_within ready fills (Or.inr hy) within
  · rintro x (stays | mem) compound
    · rcases wf.stays_compound ready stays compound with ⟨t,ht,hd⟩ | ⟨k,hk,still⟩
      · exact child x (fills.filled t ht x hd)
      · exact ⟨k, hk, Or.inl still⟩
    · exact child x ((fills.covered x mem).1 compound)

end Taking

end WellFormed

end Statechart.Chart

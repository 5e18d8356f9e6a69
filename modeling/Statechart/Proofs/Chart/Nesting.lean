import Statechart.Proofs.Chart.Leading
import Statechart.Proofs.Chart.Locality

/- How deep defaults are followed, and how deep the calls nest that enter states.

   Either chains of states that stand for one another come to an end, and then before they are longer
   than there are states; or nothing comes of following them at any depth. Entering also goes on
   sideways, into regions where nothing has been entered. It does so with a state that has not been
   entered, and so not more often on one path than there are states. This is what the depths of the
   chart are made for: where they are used up, more would not help. -/
namespace Statechart.Chart

section Chains

variable {next : Nat → List Nat} {n r s : Nat}

/-- No chain goes on for ever from here. -/
def Halts (next : Nat → List Nat) (s : Nat) : Prop := Acc (fun r s => r ∈ next s) s

theorem Halts.later (halts : Halts next s) (hr : r ∈ next s) : Halts next r := Acc.inv halts hr

theorem Halts.not_around (halts : Halts next s) :
    ¬ Relation.TransGen (fun s r => r ∈ next s) s s := by
  induction halts with
  | intro s _ ih =>
    intro around
    obtain ⟨r,hr,back⟩ := Relation.TransGen.head'_iff.mp around
    exact ih r hr (.tail' back hr)

theorem onward_of_endless (endless : ¬ Halts next s) : ∃ r ∈ next s, ¬ Halts next r := by
  by_contra none
  push Not at none
  exact endless ⟨s, none⟩

open Classical in
/-- How many states below a bound can be reached. -/
noncomputable def height (next : Nat → List Nat) (n s : Nat) : Nat :=
  ((Finset.range n).filter (Relation.ReflTransGen (fun s r => r ∈ next s) s)).card

theorem height_le : height next n s ≤ n := by
  classical
  simpa [height] using Finset.card_filter_le (Finset.range n) _

theorem height_pos (inside : s < n) : 0 < height next n s := by
  classical
  exact Finset.card_pos.mpr ⟨s, Finset.mem_filter.mpr ⟨Finset.mem_range.mpr inside, .refl⟩⟩

/-- The bound is only needed of states that a chain goes on from. -/
theorem Halts.height_lt (halts : Halts next s) (inside : s < n) (hr : r ∈ next s) :
    height next n r < height next n s := by
  classical
  refine Finset.card_lt_card ((Finset.ssubset_iff_of_subset ?_).mpr ⟨s, ?_, ?_⟩)
  · intro x hx
    obtain ⟨small,leads⟩ := Finset.mem_filter.mp hx
    exact Finset.mem_filter.mpr ⟨small, .head hr leads⟩
  · exact Finset.mem_filter.mpr ⟨Finset.mem_range.mpr inside, .refl⟩
  · intro again
    exact halts.not_around (.head' hr (Finset.mem_filter.mp again).2)

end Chains

section Folds

variable {α β : Type} {f g : β → α → Option β} {l : List α} {b b' : β} {I : β → Prop}

theorem foldlM_none {a : α} (within : a ∈ l) (fails : ∀ b, f b a = none) :
    l.foldlM f b = none := by
  induction l generalizing b with
  | nil => cases within
  | cons a' rest ih =>
    rw [List.foldlM_cons]
    rcases List.mem_cons.mp within with rfl | within
    · rw [fails]
      rfl
    · cases f b a' with
      | none => rfl
      | some b' => exact ih within

theorem foldlM_isSome {p : α → Bool} (each : ∀ a b, (f b a).isSome = p a) :
    (l.foldlM f b).isSome = l.all p := by
  induction l generalizing b with
  | nil => rfl
  | cons a rest ih =>
    rw [List.foldlM_cons, List.all_cons, ← each a b]
    cases f b a with
    | none => rfl
    | some b' => exact ih

theorem foldlM_kept (first : I b) (kept : ∀ a b b', I b → f b a = some b' → I b')
    (run : l.foldlM f b = some b') : I b' := by
  induction l generalizing b with
  | nil =>
    cases run
    exact first
  | cons a rest ih =>
    rw [List.foldlM_cons] at run
    obtain ⟨b₁,step,run⟩ := Option.bind_eq_some_iff.mp run
    exact ih (kept a b b₁ first step) run

theorem foldlM_alike (first : I b) (kept : ∀ a b b', I b → f b a = some b' → I b')
    (alike : ∀ a ∈ l, ∀ b, I b → f b a = g b a) : l.foldlM f b = l.foldlM g b := by
  induction l generalizing b with
  | nil => rfl
  | cons a rest ih =>
    rw [List.foldlM_cons, List.foldlM_cons, ← alike a List.mem_cons_self b first]
    cases step : f b a with
    | none => rfl
    | some b₁ =>
      exact ih (kept a b b₁ first step) fun d hd => alike d (List.mem_cons_of_mem _ hd)

end Folds

variable {c : Chart} {history : HistoryTable} {s p r t top depth depth' : Nat}

/-- The targets of a transition, or nothing when more than `depth` defaults are to be followed. -/
def targetsWithin? (c : Chart) (history : HistoryTable) :
    Nat → TransitionIndex → Option (List StateIndex)
  | 0, _ => none
  | depth + 1, t =>
    (c.transition t).targets.foldlM
      (fun out s =>
        if !c.isHistory s then some (insertIndex s out)
        else
          match history.lookup s with
          | some recorded => some (recorded.foldl (fun out r => insertIndex r out) out)
          | none =>
            match (c.state s).initial with
            | some d => (c.targetsWithin? history depth d).map
                (·.foldl (fun out r => insertIndex r out) out)
            | none => some out)
      []

theorem endsWithin_eq : c.endsWithin history depth t = (c.targetsWithin? history depth t).isSome := by
  induction depth generalizing t with
  | zero => rfl
  | succ depth ih =>
    rw [endsWithin, targetsWithin?]
    symm
    apply foldlM_isSome
    intro s out
    by_cases past : c.isHistory s = true
    · simp only [past, Bool.not_true, Bool.false_eq_true, if_false, Bool.false_or]
      cases history.lookup s with
      | some recorded => rfl
      | none =>
        cases (c.state s).initial with
        | none => rfl
        | some d => simp [ih]
    · simp [past]

/-- The states that the default of a history state without a record names. -/
def deferred (c : Chart) (history : HistoryTable) (s : StateIndex) : List StateIndex :=
  if c.isHistory s && (history.lookup s).isNone then
    ((c.state s).initial.map fun d => (c.transition d).targets).getD []
  else []

theorem mem_deferred : r ∈ c.deferred history s ↔ c.isHistory s = true ∧ history.lookup s = none ∧
    ∃ d, (c.state s).initial = some d ∧ r ∈ (c.transition d).targets := by
  unfold deferred
  split
  · rename_i unrecorded
    simp only [Bool.and_eq_true, Option.isNone_iff_eq_none] at unrecorded
    cases (c.state s).initial with
    | none => simp
    | some d => simp [unrecorded]
  · rename_i other
    simp only [Bool.and_eq_true, Option.isNone_iff_eq_none, not_and] at other
    constructor
    · exact fun none => absurd none List.not_mem_nil
    · exact fun ⟨past,unrecorded,_⟩ => absurd unrecorded (other past)

theorem history_declared (past : c.isHistory s = true) : s < c.states.size := by
  by_contra outside
  rw [isHistory, c.state_out_of_range (by omega)] at past
  cases past

/-- Behind a target that defers for ever nothing is found. -/
theorem targetsWithin?_endless (target : s ∈ (c.transition t).targets)
    (endless : ¬ Halts (c.deferred history) s) : c.targetsWithin? history depth t = none := by
  induction depth generalizing s t with
  | zero => rfl
  | succ depth ih =>
    obtain ⟨r,hr,endless⟩ := onward_of_endless endless
    obtain ⟨past,unrecorded,d,enters,named⟩ := mem_deferred.mp hr
    rw [targetsWithin?]
    apply foldlM_none target
    intro out
    simp only [past, Bool.not_true, Bool.false_eq_true, if_false, unrecorded, enters,
      ih named endless, Option.map_none]

theorem endsWithin_of_halts (deep : 0 < depth)
    (halts : ∀ s ∈ (c.transition t).targets, Halts (c.deferred history) s)
    (enough : ∀ s ∈ (c.transition t).targets,
      height (c.deferred history) c.states.size s < depth) :
    c.endsWithin history depth t = true := by
  induction depth generalizing t with
  | zero => omega
  | succ depth ih =>
    rw [endsWithin, List.all_eq_true]
    intro s target
    simp only [Bool.or_eq_true, Bool.not_eq_true', Option.all_eq_true]
    by_cases past : c.isHistory s = true
    · cases unrecorded : history.lookup s with
      | some states => exact Or.inl (Or.inr rfl)
      | none =>
        refine Or.inr fun d enters => ?_
        have inside := history_declared past
        have held : 0 < height (c.deferred history) c.states.size s := height_pos inside
        have bound := enough s target
        have onward : ∀ r ∈ (c.transition d).targets, r ∈ c.deferred history s := fun r named =>
          mem_deferred.mpr ⟨past, unrecorded, d, enters, named⟩
        refine ih (by omega) (fun r named => (halts s target).later (onward r named)) ?_
        intro r named
        have less := (halts s target).height_lt inside (onward r named)
        omega
    · exact Or.inl (Or.inl (by simpa using past))

/-- With some depth the targets of a transition are found. -/
def Resolves (c : Chart) (history : HistoryTable) (t : TransitionIndex) : Prop :=
  ∃ depth targets, c.targetsWithin? history depth t = some targets

/-- Targets are found at the depth of the chart if they are found at all. -/
theorem isFollowed_iff : c.isFollowed history t = true ↔ c.Resolves history t := by
  constructor
  · intro followed
    rw [isFollowed, endsWithin_eq] at followed
    exact ⟨_, Option.isSome_iff_exists.mp followed⟩
  · rintro ⟨depth,targets,found⟩
    refine endsWithin_of_halts (Nat.succ_pos _) ?_ fun _ _ => Nat.lt_succ_of_le height_le
    intro s target
    by_contra endless
    rw [targetsWithin?_endless target endless] at found
    cases found

/-- What entering a history state goes on with first: what it recorded, else what its default
    names. -/
def standIns (c : Chart) (history : HistoryTable) (h : StateIndex) : List StateIndex :=
  (history.lookup h).getD (((c.state h).initial.map fun d => (c.transition d).targets).getD [])

/-- What entering a state goes on with first. -/
def onward (c : Chart) (history : HistoryTable) (s : StateIndex) : List StateIndex :=
  if c.isHistory s then c.standIns history s
  else if c.isCompound s then ((c.state s).initial.map fun t => (c.transition t).targets).getD []
  else []

/-- Where states stand for one another without end, nothing comes of entering them. -/
theorem never_ends (caught : StateIndex → Prop)
    (again : ∀ s, caught s → ∃ r ∈ c.onward history s, caught r) {s : Nat} (within : caught s)
    (depth : Nat) (e : EntrySet) : c.addDescendants? history depth s e = none := by
  induction depth generalizing s e with
  | zero => rfl
  | succ depth ih =>
    obtain ⟨r,hr,next⟩ := again s within
    have stuck : ∀ targets top e, r ∈ targets →
        c.addTargets? (c.addDescendants? history depth) targets top e = none := by
      intro targets top e target
      have none : targets.foldlM (fun e r => c.addDescendants? history depth r e) e = none :=
        foldlM_none target (ih next)
      rw [addTargets?, none]
      rfl
    rw [addDescendants?]
    unfold onward standIns at hr
    by_cases past : c.isHistory s = true
    · simp only [past, if_true] at hr ⊢
      cases found : history.lookup s with
      | some recorded =>
        rw [found] at hr
        exact stuck recorded _ _ hr
      | none =>
        cases enters : (c.state s).initial with
        | none => simp [found, enters] at hr
        | some d =>
          rw [found, enters] at hr
          exact stuck _ _ _ hr
    · by_cases compound : c.isCompound s = true
      · simp only [past, compound, Bool.false_eq_true, if_false, if_true] at hr ⊢
        cases enters : (c.state s).initial with
        | none => simp [enters] at hr
        | some t =>
          rw [enters] at hr
          exact stuck _ _ _ hr
      · simp [past, compound] at hr

theorem onward_declared (hr : r ∈ c.onward history s) : s < c.states.size := by
  by_contra outside
  have default := c.state_out_of_range (Nat.le_of_not_lt outside)
  have ordinary : c.isHistory s = false := by rw [isHistory, default]; rfl
  have childless : c.childStates s = [] := by rw [childStates, default]; rfl
  simp [onward, ordinary, isCompound, childless] at hr

section Attempts

variable {attempt attempt' : StateIndex → EntrySet → Option EntrySet} {base targets : List StateIndex}
  {e e' : EntrySet}

section Grow

variable (grows : ∀ s e e', attempt s e = some e' → e.states ⊆ e'.states)

include grows

theorem region_wider {k : StateIndex} (wider : base ⊆ e.states)
    (step : (if e.states.any fun s => s == k || c.isDescendant s k then some e else attempt k e) =
      some e') : base ⊆ e'.states := by
  split at step
  · cases step
    exact wider
  · exact List.Subset.trans wider (grows k e e' step)

theorem ancestor_wider {a : StateIndex} (wider : base ⊆ e.states)
    (step : (if c.isParallel a then c.addMissingRegions? attempt a (e.add a) else some (e.add a)) =
      some e') : base ⊆ e'.states := by
  have added := List.Subset.trans wider (subset_add e a)
  split at step
  · exact foldlM_kept (I := fun e : EntrySet => base ⊆ e.states) added
      (fun k e e' => region_wider grows) step
  · cases step
    exact added

variable (regions : ∀ a, ∀ k ∈ c.childStates a, ∀ e, base ⊆ e.states → k ∉ e.states →
  attempt k e = attempt' k e)

include regions

theorem regions_alike (wider : base ⊆ e.states) :
    c.addMissingRegions? attempt p e = c.addMissingRegions? attempt' p e := by
  refine foldlM_alike (I := fun e : EntrySet => base ⊆ e.states) wider
    (fun k e e' => region_wider grows) ?_
  intro k hk e wider
  simp only
  split
  · rfl
  · rename_i free
    refine regions p k hk e wider fun entered => free ?_
    exact List.any_eq_true.mpr ⟨k, entered, by simp⟩

theorem ancestors_alike (wider : base ⊆ e.states) :
    c.addAncestors? attempt s top e = c.addAncestors? attempt' s top e := by
  refine foldlM_alike (I := fun e : EntrySet => base ⊆ e.states) wider
    (fun a e e' => ancestor_wider grows) ?_
  intro a _ e wider
  simp only
  split
  · exact regions_alike grows regions (List.Subset.trans wider (subset_add e a))
  · rfl

theorem targets_alike (wider : base ⊆ e.states)
    (named : ∀ r ∈ targets, ∀ e, base ⊆ e.states → attempt r e = attempt' r e) :
    c.addTargets? attempt targets top e = c.addTargets? attempt' targets top e := by
  have kept : ∀ r e e', base ⊆ e.states → attempt r e = some e' → base ⊆ e'.states :=
    fun r e e' wider step => List.Subset.trans wider (grows r e e' step)
  have descents : targets.foldlM (fun e r => attempt r e) e =
      targets.foldlM (fun e r => attempt' r e) e :=
    foldlM_alike (I := fun e : EntrySet => base ⊆ e.states) wider kept named
  rw [addTargets?, addTargets?, ← descents]
  cases entered : targets.foldlM (fun e r => attempt r e) e with
  | none => rfl
  | some e₁ =>
    have wider₁ : base ⊆ e₁.states :=
      foldlM_kept (I := fun e : EntrySet => base ⊆ e.states) wider kept entered
    refine foldlM_alike (I := fun e : EntrySet => base ⊆ e.states) wider₁ ?_ ?_
    · exact fun r e e' wider step => foldlM_kept (I := fun e : EntrySet => base ⊆ e.states) wider
        (fun a e e' => ancestor_wider grows) step
    · exact fun r _ e wider => ancestors_alike grows regions wider

end Grow

end Attempts

/-- How many states have not been entered. -/
def gap (c : Chart) (e : EntrySet) : Nat :=
  ((Finset.range c.states.size).filter (· ∉ e.states)).card

theorem gap_le (c : Chart) (e : EntrySet) : c.gap e ≤ c.states.size := by
  simpa [gap] using Finset.card_filter_le (Finset.range c.states.size) (· ∉ e.states)

theorem gap_mono {e e' : EntrySet} (more : e.states ⊆ e'.states) : c.gap e' ≤ c.gap e := by
  refine Finset.card_le_card fun x hx => ?_
  obtain ⟨inside,absent⟩ := Finset.mem_filter.mp hx
  exact Finset.mem_filter.mpr ⟨inside, fun entered => absent (more entered)⟩

theorem gap_add_lt {e : EntrySet} (inside : s < c.states.size) (absent : s ∉ e.states) :
    c.gap (e.add s) < c.gap e := by
  refine Finset.card_lt_card ((Finset.ssubset_iff_of_subset ?_).mpr ⟨s, ?_, ?_⟩)
  · intro x hx
    obtain ⟨inside,free⟩ := Finset.mem_filter.mp hx
    exact Finset.mem_filter.mpr ⟨inside, fun entered => free (subset_add e s entered)⟩
  · exact Finset.mem_filter.mpr ⟨Finset.mem_range.mpr inside, absent⟩
  · exact fun again => (Finset.mem_filter.mp again).2 (mem_insertIndex.mpr (Or.inl rfl))

/-- What has been entered when the calls for other states begin. -/
def started (c : Chart) (s : StateIndex) (e : EntrySet) : EntrySet :=
  if c.isHistory s then e else e.add s

/-- How deep the calls nest that enter a state. Each state that is entered sideways takes as long a
    chain along as there can be. -/
noncomputable def demand (c : Chart) (history : HistoryTable) (s : StateIndex) (e : EntrySet) : Nat :=
  c.gap (c.started s e) * (c.states.size + 1) + height (c.onward history) c.states.size s

theorem demand_lt_nesting (c : Chart) (history : HistoryTable) (s : StateIndex) (e : EntrySet) :
    c.demand history s e < c.nesting := by
  have outside := Nat.mul_le_mul_right (c.states.size + 1) (c.gap_le (c.started s e))
  have along : height (c.onward history) c.states.size s ≤ _ := height_le
  unfold demand nesting
  rw [Nat.succ_mul]
  omega

theorem demand_named {e e₁ : EntrySet} (halts : Halts (c.onward history) s)
    (hr : r ∈ c.onward history s) (wider : (c.started s e).states ⊆ e₁.states) :
    c.demand history r e₁ < c.demand history s e := by
  have later : (c.started s e).states ⊆ (c.started r e₁).states := by
    refine List.Subset.trans wider ?_
    unfold started
    split
    · exact List.Subset.refl _
    · exact subset_add e₁ r
  have outside := Nat.mul_le_mul_right (c.states.size + 1) (gap_mono (c := c) later)
  have along := halts.height_lt (onward_declared hr) hr
  unfold demand
  omega

namespace WellFormed

theorem demand_region (wf : c.WellFormed) {e e₁ : EntrySet} {a k : StateIndex}
    (hk : k ∈ c.childStates a) (wider : (c.started s e).states ⊆ e₁.states)
    (absent : k ∉ e₁.states) : c.demand history k e₁ < c.demand history s e := by
  have added : c.started k e₁ = e₁.add k := by rw [started, childStates_plain hk]; rfl
  have fewer : c.gap (c.started k e₁) + 1 ≤ c.gap (c.started s e) := by
    rw [added]
    exact Nat.lt_of_lt_of_le (gap_add_lt (wf.child_in_range (List.mem_filter.mp hk).1) absent)
      (gap_mono wider)
  have outside := Nat.mul_le_mul_right (c.states.size + 1) fewer
  have along : height (c.onward history) c.states.size k ≤ _ := height_le
  unfold demand
  rw [Nat.succ_mul] at outside
  omega

/-- Beyond what is asked for, depth makes no difference. -/
theorem descends_alike (wf : c.WellFormed) {e : EntrySet} (enough : c.demand history s e < depth)
    (enough' : c.demand history s e < depth') :
    c.addDescendants? history depth s e = c.addDescendants? history depth' s e := by
  induction depth generalizing s e depth' with
  | zero => omega
  | succ depth ih =>
    obtain ⟨depth',rfl⟩ : ∃ n, depth' = n + 1 := ⟨depth' - 1, by omega⟩
    by_cases halts : Halts (c.onward history) s
    · have grows : ∀ s e e', c.addDescendants? history depth s e = some e' →
          e.states ⊆ e'.states := by
        intro s e e' run
        rw [← descendants_of_attempt run]
        exact wf.addDescendants_grows history depth s e
      have named : ∀ targets : List StateIndex, (∀ r ∈ targets, r ∈ c.onward history s) →
          ∀ r ∈ targets, ∀ e₁ : EntrySet, (c.started s e).states ⊆ e₁.states →
            c.addDescendants? history depth r e₁ = c.addDescendants? history depth' r e₁ := by
        intro targets onward r hr e₁ wider
        have less := demand_named halts (onward r hr) wider
        exact ih (by omega) (by omega)
      have regions : ∀ a, ∀ k ∈ c.childStates a, ∀ e₁ : EntrySet,
          (c.started s e).states ⊆ e₁.states → k ∉ e₁.states →
            c.addDescendants? history depth k e₁ = c.addDescendants? history depth' k e₁ := by
        intro a k hk e₁ wider absent
        have less : c.demand history k e₁ < c.demand history s e :=
          wf.demand_region hk wider absent
        exact ih (by omega) (by omega)
      rw [addDescendants?, addDescendants?]
      by_cases past : c.isHistory s = true
      · have wider : (c.started s e).states ⊆ e.states := by
          rw [started, if_pos past]
          exact List.Subset.refl _
        simp only [past, if_true]
        cases found : history.lookup s with
        | some recorded =>
          refine targets_alike grows regions wider (named recorded fun r hr => ?_)
          simpa [onward, past, standIns, found] using hr
        | none =>
          cases enters : (c.state s).initial with
          | none => rfl
          | some d =>
            refine targets_alike grows regions wider (named _ fun r hr => ?_)
            simpa [onward, past, standIns, found, enters] using hr
      · have wider : (c.started s e).states ⊆ (e.add s).states := by
          rw [started, if_neg past]
          exact List.Subset.refl _
        simp only [past, Bool.false_eq_true, if_false]
        split
        · rename_i compound
          cases enters : (c.state s).initial with
          | none => rfl
          | some t =>
            refine targets_alike grows regions wider (named _ fun r hr => ?_)
            simpa [onward, past, compound, enters] using hr
        · split
          · exact regions_alike grows regions wider
          · rfl
    · have endless : ∀ depth e, c.addDescendants? history depth s e = none :=
        never_ends (fun s => ¬ Halts (c.onward history) s) (fun s => onward_of_endless) halts
      rw [endless, endless]

/-- The depth of the chart is as good as any greater one, whatever has been recorded. -/
theorem nesting_suffices (wf : c.WellFormed) (deep : c.nesting ≤ depth) (s : StateIndex)
    (e : EntrySet) : c.addDescendants? history depth s e = c.addDescendants? history c.nesting s e := by
  have least := demand_lt_nesting c history s e
  exact wf.descends_alike (by omega) least

end WellFormed

end Statechart.Chart

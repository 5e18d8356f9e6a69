import Statechart.Proofs.Chart.Nesting

/- That entering comes to an end.

   Following defaults and entering states give up at the end of a depth. They never do at one above
   the number of states, if defaults are not circular and every record is of ordinary states inside
   the parent: each call is about a state with less room. -/
namespace Statechart.Chart

variable {c : Chart} {history : HistoryTable} {s p r t top : Nat} {depth depth' : Nat}

/-- What is known of the states that history states stand for: they are ordinary, and inside the
    parent. -/
def Sheltered (c : Chart) (history : HistoryTable) : Prop :=
  ∀ h states, history.lookup h = some states → c.isHistory h = true →
    ∀ r ∈ states, c.isHistory r = false ∧ ∃ p, (c.state h).parent = some p ∧ c.Below r p

theorem sheltered_of_check (checked : (history.all fun entry => entry.2.all fun r =>
    !c.isHistory r && (c.state entry.1).parent.any (c.isDescendant r)) = true) :
    c.Sheltered history := by
  intro h states found _ r hr
  obtain ⟨before,after,rfl,_⟩ := List.lookup_eq_some_iff.mp found
  rw [List.all_eq_true] at checked
  have own := List.all_eq_true.mp (checked (h, states) (by simp)) r hr
  simp only [Bool.and_eq_true, Bool.not_eq_true', Option.any_eq_true, isDescendant_iff] at own
  exact own

/-- An attempt that does not give up on a state, and does what is to be done. -/
def Succeeds (attempt : StateIndex → EntrySet → Option EntrySet)
    (descend : StateIndex → EntrySet → EntrySet) (s : StateIndex) : Prop :=
  ∀ e, attempt s e = some (descend s e)

theorem foldlM_some {α β : Type} {f : β → α → Option β} {g : β → α → β} {l : List α} {b : β}
    (same : ∀ a ∈ l, ∀ b, f b a = some (g b a)) : l.foldlM f b = some (l.foldl g b) := by
  induction l generalizing b with
  | nil => rfl
  | cons a rest ih =>
    rw [List.foldlM_cons, same a List.mem_cons_self]
    exact ih fun a' ha => same a' (List.mem_cons_of_mem a ha)

section Attempts

variable {attempt : StateIndex → EntrySet → Option EntrySet}
  {descend : StateIndex → EntrySet → EntrySet} {a : Nat} {targets : List StateIndex} {e : EntrySet}

theorem regions_succeed (below : ∀ k ∈ c.childStates a, Succeeds attempt descend k) :
    c.addMissingRegions? attempt a e = some (c.addMissingRegions descend a e) := by
  apply foldlM_some
  intro k hk e
  simp only
  split
  · rfl
  · exact below k hk e

theorem ancestors_succeed
    (below : ∀ a ∈ (c.ancestorsUpTo r top).takeWhile (· ≠ root), ∀ k ∈ c.childStates a,
      Succeeds attempt descend k) :
    c.addAncestors? attempt r top e = some (c.addAncestors descend r top e) := by
  apply foldlM_some
  intro a ha e
  simp only
  split
  · exact regions_succeed (below a ha)
  · rfl

theorem IsTree.targets_succeed (tree : c.IsTree) (low : ∀ r ∈ targets, c.Below r top)
    (targeted : ∀ r ∈ targets, Succeeds attempt descend r)
    (regions : ∀ k, c.Below k top → c.isHistory k = false → Succeeds attempt descend k) :
    c.addTargets? attempt targets top e = some (c.addTargets descend targets top e) := by
  have entered : targets.foldlM (fun e r => attempt r e) e
      = some (targets.foldl (fun e r => descend r e) e) :=
    foldlM_some fun r hr e => targeted r hr e
  rw [addTargets?, entered]
  apply foldlM_some
  intro r hr e
  apply ancestors_succeed
  intro a ha k hk
  have between := ((tree.path_iff (low r hr)).mp ha).2
  have child := tree.below_parent (tree.childStates_parent hk)
  exact regions k (tree.below_trans child between) (childStates_plain hk)

end Attempts

namespace WellFormed

theorem calling_in_range (wf : c.WellFormed) (calls : c.Calls s r) : s < c.states.size := by
  cases calls with
  | inside _ below => exact Nat.lt_trans (wf.below_lt below) (wf.below_in_range below)
  | beside _ hp _ _ => exact c.parent_in_range hp
  | named names =>
    obtain ⟨p,hp⟩ := wf.history_parent names.1
    exact c.parent_in_range hp

theorem succeeds_ordinary (wf : c.WellFormed) (ordinary : c.isHistory s = false)
    (below : ∀ r, c.Calls s r →
      Succeeds (c.addDescendants? history depth) (c.addDescendants history depth') r) :
    Succeeds (c.addDescendants? history (depth + 1)) (c.addDescendants history (depth' + 1)) s := by
  intro e
  rw [addDescendants?, addDescendants]
  simp only [ordinary, Bool.false_eq_true, if_false]
  split
  · rename_i compound
    cases enters : (c.state s).initial with
    | none => rfl
    | some t =>
      have low := wf.initial_below compound enters
      apply wf.targets_succeed low
      · intro r hr
        exact below r (.inside ordinary (low r hr))
      · intro k inner _
        exact below k (.inside ordinary inner)
  · split
    · apply regions_succeed
      intro k hk
      exact below k (.inside ordinary (wf.below_parent (wf.childStates_parent hk)))
    · rfl

theorem succeeds_past (wf : c.WellFormed) (inward : c.Inward []) (sheltered : c.Sheltered history)
    (past : c.isHistory s = true)
    (below : ∀ r, c.Calls s r →
      Succeeds (c.addDescendants? history depth) (c.addDescendants history depth') r) :
    Succeeds (c.addDescendants? history (depth + 1)) (c.addDescendants history (depth' + 1)) s := by
  intro e
  obtain ⟨p,hp⟩ := wf.history_parent past
  have regions : ∀ k, c.Below k p → c.isHistory k = false →
      Succeeds (c.addDescendants? history depth) (c.addDescendants history depth') k := by
    intro k inner ordinary
    exact below k (.beside past hp inner ordinary)
  rw [addDescendants?, addDescendants]
  simp only [past, if_true, hp, Option.getD_some]
  cases found : history.lookup s with
  | some states =>
    have inner : ∀ r ∈ states, c.isHistory r = false ∧ c.Below r p := by
      intro r hr
      obtain ⟨ordinary,q,hq,low⟩ := sheltered s states found past r hr
      rw [hp] at hq
      cases hq
      exact ⟨ordinary, low⟩
    apply wf.targets_succeed
    · intro r hr
      exact (inner r hr).2
    · intro r hr
      exact regions r (inner r hr).2 (inner r hr).1
    · exact regions
  | none =>
    cases enters : (c.state s).initial with
    | none => rfl
    | some d =>
      apply wf.targets_succeed
      · intro r hr
        exact inward.byDefault s d past enters r hr p hp
      · intro r hr
        exact below r (.named ⟨past, d, enters, hr⟩)
      · exact regions

/-- Entering a state does not use up a depth above its room. -/
theorem succeeds (wf : c.WellFormed) (inward : c.Inward []) (uncircular : c.Uncircular)
    (sheltered : c.Sheltered history) (enough : c.room s < depth) (enough' : c.room s < depth') :
    Succeeds (c.addDescendants? history depth) (c.addDescendants history depth') s := by
  induction depth generalizing s depth' with
  | zero => omega
  | succ depth ih =>
    obtain ⟨depth',rfl⟩ : ∃ n, depth' = n + 1 := ⟨depth' - 1, by omega⟩
    have below : ∀ r, c.Calls s r →
        Succeeds (c.addDescendants? history depth) (c.addDescendants history depth') r := by
      intro r calls
      have less := wf.room_lt_of_calls inward uncircular (wf.calling_in_range calls) calls
      exact ih (by omega) (by omega)
    cases past : c.isHistory s with
    | false => exact wf.succeeds_ordinary past below
    | true => exact wf.succeeds_past inward sheltered past below

/-- Following defaults does not use up a depth above the room of all targets. -/
theorem targets_found (wf : c.WellFormed) (inward : c.Inward []) (uncircular : c.Uncircular)
    (deep : 0 < depth) (deep' : 0 < depth')
    (enough : ∀ r ∈ (c.transition t).targets, c.room r < depth ∧ c.room r < depth') :
    c.targetsWithin? history depth t = some (c.targetsWithin history depth' t) := by
  induction depth generalizing t depth' with
  | zero => omega
  | succ depth ih =>
    obtain ⟨depth',rfl⟩ : ∃ n, depth' = n + 1 := ⟨depth' - 1, by omega⟩
    rw [targetsWithin?, targetsWithin]
    apply foldlM_some
    intro s target out
    split
    · rfl
    · rename_i past
      have past : c.isHistory s = true := by simpa using past
      have inside := wf.targets_declared t s target
      have held := wf.room_pos inside
      have bound := enough s target
      cases history.lookup s with
      | some recorded => rfl
      | none =>
        cases enters : (c.state s).initial with
        | none => rfl
        | some d =>
          have less : ∀ q ∈ (c.transition d).targets, c.room q < c.room s := by
            intro q named
            exact wf.room_lt_of_calls inward uncircular inside (.named ⟨past, d, enters, named⟩)
          have further : c.targetsWithin? history depth d = some (c.targetsWithin history depth' d) := by
            apply ih (by omega) (by omega)
            intro q named
            have room := less q named
            omega
          simp only [further, Option.map_some]

/-- With any depth above the number of states nothing is given up. -/
theorem succeeds_deep (wf : c.WellFormed) (inward : c.Inward []) (uncircular : c.Uncircular)
    (sheltered : c.Sheltered history) (deep : c.states.size < depth) (s : StateIndex) :
    Succeeds (c.addDescendants? history depth)
      (c.addDescendants history (c.states.size + 1)) s := by
  have bound := c.room_le s
  exact wf.succeeds inward uncircular sheltered (by omega) (by omega)

theorem targets_found_deep (wf : c.WellFormed) (inward : c.Inward []) (uncircular : c.Uncircular)
    (deep : c.states.size < depth) (t : TransitionIndex) :
    c.targetsWithin? history depth t = some (c.effectiveTargets history t) := by
  apply wf.targets_found inward uncircular (by omega) (by omega)
  intro r _
  have bound := c.room_le r
  omega

theorem resolves (wf : c.WellFormed) (inward : c.Inward []) (uncircular : c.Uncircular)
    (history : HistoryTable) (t : TransitionIndex) : c.Resolves history t :=
  ⟨_, _, wf.targets_found_deep inward uncircular (Nat.lt_succ_self _) t⟩

/-- What transitions mean entering is found. -/
theorem entrySet_found (wf : c.WellFormed) (inward : c.Inward []) (uncircular : c.Uncircular)
    (sheltered : c.Sheltered history) (transitions : List TransitionIndex) :
    ∃ e, c.entrySet? history transitions = some e := by
  have deep := c.size_lt_nesting
  have all := wf.succeeds_deep inward uncircular sheltered deep
  have entering : ∀ t e, (c.enterFor? history e t).isSome = true := by
    intro t e
    rw [enterFor?, foldlM_some fun s _ e => all s e]
    cases c.domain? history t with
    | none => rfl
    | some d =>
      have above : ∀ s e, (c.addAncestors? (c.addDescendants? history c.nesting) s d e).isSome =
          true := by
        intro s e
        rw [ancestors_succeed fun _ _ k _ => all k]
        rfl
      exact (foldlM_isSome (p := fun _ => true) above).trans (by simp)
  have found : (c.entrySet? history transitions).isSome = true :=
    (foldlM_isSome (p := fun _ => true) entering).trans (by simp)
  exact Option.isSome_iff_exists.mp found

end WellFormed

/-- Without records, entering a history state to whose default it comes back never ends. -/
theorem circular_never_ends (names : c.Names s r) (back : Relation.ReflTransGen c.Names r s)
    (depth : Nat) (e : EntrySet) : c.addDescendants? [] depth s e = none := by
  have further : ∀ h, Relation.ReflTransGen c.Names h s → ∃ q, c.Names h q ∧
      Relation.ReflTransGen c.Names q s := by
    intro h leads
    rcases Relation.ReflTransGen.cases_head leads with rfl | ⟨q,first,rest⟩
    · exact ⟨r, names, back⟩
    · exact ⟨q, first, rest⟩
  apply never_ends fun h => Relation.ReflTransGen c.Names h s
  · intro h leads
    obtain ⟨q,⟨past,t,enters,named⟩,rest⟩ := further h leads
    refine ⟨q, ?_, rest⟩
    simpa [onward, past, standIns, enters] using named
  · exact .refl

/-- Entering ends in every accepted chart without circular defaults, whatever has been recorded inside
    of the parents of history states: with any depth above the number of states, nothing is given
    up, from no state and with nothing entered before. All such depths have the same results, and the
    one with which machines enter states is among them; whatever else has been recorded, none beyond
    it has other results. -/
theorem entering_ends {library : ActionLibrary} {source : Source.ChartDef}
    (accepted : compile library source = .ok c) (uncircular : c.Uncircular) :
    (∀ depth, c.states.size < depth → ∀ history, c.Sheltered history →
      let attempt := c.addDescendants? history depth
      let descend := c.addDescendants history (c.states.size + 1)
      (∀ t, c.targetsWithin? history depth t = some (c.effectiveTargets history t))
      ∧ (∀ s e, attempt s e = some (descend s e))
      ∧ (∀ s top e, c.addAncestors? attempt s top e = some (c.addAncestors descend s top e))
      ∧ ∀ s e, c.addMissingRegions? attempt s e = some (c.addMissingRegions descend s e))
    ∧ c.states.size < c.nesting
    ∧ ∀ depth, c.nesting ≤ depth → ∀ history s e,
      c.addDescendants? history depth s e = c.addDescendants? history c.nesting s e := by
  have wf := compile_wellFormed accepted
  have inward := compile_inward accepted
  constructor
  · intro depth deep history sheltered
    have all := wf.succeeds_deep inward uncircular sheltered deep
    constructor
    · exact wf.targets_found_deep inward uncircular deep
    constructor
    · exact all
    constructor
    · intro s top e
      exact ancestors_succeed fun _ _ k _ => all k
    · intro s e
      exact regions_succeed fun k _ => all k
  constructor
  · exact c.size_lt_nesting
  · exact fun depth deep history => wf.nesting_suffices deep

end Statechart.Chart

namespace Statechart.ChainedDefaults

open Source

def past (name target : String) : StateDef :=
  .mk (.simple name .history [⟨none, none, some [target], .external, []⟩]) []

/-- A history state whose default leads to another one. -/
def source : ChartDef where
  name := none
  initial := none
  data := []
  extra := none
  states :=
    [.mk (.simple "q" .state [⟨some ["go"], none, some ["g"], .external, []⟩]) [],
      .mk (.simple "p" .state [])
        [past "g" "h", past "h" "b", .mk (.simple "a" .state []) [], .mk (.simple "b" .state []) []]]

def chart : Chart := Chart.compiled [] source

/-- With a record and without one, all is found at a depth of nine, and more depth changes nothing. -/
theorem chain_ends :
    chart.targetsWithin? [] 9 0 = some [6] ∧ chart.targetsWithin? [(4, [5])] 9 0 = some [5]
    ∧ (chart.addDescendants? [] 9 3 {}).map (·.states) = some [6]
    ∧ (chart.addDescendants? [(4, [5])] 1000 3 {}).map (·.states) = some [5] := by
  have accepted : Chart.compile [] source = .ok chart :=
    Chart.compile_eq_compiled (by decide +kernel)
  have peopled : chart.Peopled := Chart.peopled_of_check (by decide +kernel)
  have size : chart.states.size = 7 := by decide +kernel
  have ends := (Chart.entering_ends accepted peopled.uncircular).1
  obtain ⟨found,entered,_⟩ := ends 9 (by omega) [] (Chart.sheltered_of_check (by decide +kernel))
  obtain ⟨found',_⟩ := ends 9 (by omega) [(4, [5])] (Chart.sheltered_of_check (by decide +kernel))
  obtain ⟨_,entered',_⟩ :=
    ends 1000 (by omega) [(4, [5])] (Chart.sheltered_of_check (by decide +kernel))
  rw [found, found', entered, entered', size]
  decide +kernel

end Statechart.ChainedDefaults

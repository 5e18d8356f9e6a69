import Mathlib.Data.Finset.Card
import Mathlib.Logic.Relation
import Mathlib.Order.RelClasses
import Statechart.Proofs.Chart.Scope

/- Where history states lead.

   A history state stands for what it recorded or, without a record, for what its default names. If
   defaults are not circular and name something, it leads to some state. The way states are entered
   then never comes back to a state, so it does not run out of depth. -/
namespace Statechart.Chart

variable {c : Chart} {history : HistoryTable} {s p q r x y z D : Nat}

/-- Something stands behind a state: it is no history state, or something stands behind all that its
    default names. -/
inductive Founded (c : Chart) : StateIndex → Prop where
  | ordinary {s : StateIndex} (ordinary : c.isHistory s = false) : Founded c s
  | past {s : StateIndex} {t : TransitionIndex} (enters : (c.state s).initial = some t)
      (named : (c.transition t).targets ≠ [])
      (founded : ∀ r ∈ (c.transition t).targets, Founded c r) : Founded c s

/-- A chart in which all that can be entered has an atomic state: parallel states have regions, and
    history states lead somewhere by default. -/
structure Peopled (c : Chart) : Prop where
  regions : ∀ s : Nat, c.isParallel s = true → c.childStates s ≠ []
  founded : ∀ s : Nat, c.Founded s

/-- Whether something stands behind a state, as far as some defaults are followed. -/
def isFounded (c : Chart) : Nat → StateIndex → Bool
  | 0, s => !c.isHistory s
  | depth + 1, s => !c.isHistory s ||
      (c.state s).initial.any fun t => !(c.transition t).targets.isEmpty &&
        (c.transition t).targets.all (c.isFounded depth)

theorem founded_of_isFounded {depth : Nat} (checked : c.isFounded depth s = true) : c.Founded s := by
  induction depth generalizing s with
  | zero => exact .ordinary (by simpa [isFounded] using checked)
  | succ depth ih =>
    simp only [isFounded, Bool.or_eq_true, Option.any_eq_true, Bool.and_eq_true,
      Bool.not_eq_true', List.isEmpty_eq_false_iff, List.all_eq_true] at checked
    rcases checked with ordinary | ⟨t,enters,named,all⟩
    · exact .ordinary ordinary
    · exact .past enters named fun r hr => ih (all r hr)

theorem peopled_of_check (checked : (c.indices.all fun s =>
    (!c.isParallel s || !(c.childStates s).isEmpty) && c.isFounded c.states.size s) = true) :
    c.Peopled := by
  rw [List.all_eq_true] at checked
  constructor
  · intro s parallel
    by_cases inside : s < c.states.size
    · have own := checked s (List.mem_range.mpr inside)
      simpa [parallel] using (Bool.and_eq_true_iff.mp own).1
    · rw [isParallel, c.state_out_of_range (by omega)] at parallel
      cases parallel
  · intro s
    by_cases inside : s < c.states.size
    · exact founded_of_isFounded (Bool.and_eq_true_iff.mp (checked s (List.mem_range.mpr inside))).2
    · refine .ordinary ?_
      rw [isHistory, c.state_out_of_range (by omega)]
      rfl

/-- What a target stands for in the end. -/
inductive LeadsTo (c : Chart) (history : HistoryTable) : StateIndex → StateIndex → Prop where
  | ordinary {s : StateIndex} (ordinary : c.isHistory s = false) : LeadsTo c history s s
  | recorded {s r : StateIndex} {states : List StateIndex} (past : c.isHistory s = true)
      (found : history.lookup s = some states) (member : r ∈ states) : LeadsTo c history s r
  | byDefault {s q r : StateIndex} {t : TransitionIndex} (past : c.isHistory s = true)
      (none : history.lookup s = none) (enters : (c.state s).initial = some t)
      (named : q ∈ (c.transition t).targets) (leads : LeadsTo c history q r) :
      LeadsTo c history s r

theorem leadsTo_of_targetsWithin {depth : Nat} {t : TransitionIndex}
    (hr : r ∈ c.targetsWithin history depth t) :
    ∃ q ∈ (c.transition t).targets, c.LeadsTo history q r := by
  induction depth generalizing t with
  | zero => cases hr
  | succ depth ih =>
    obtain ⟨q,target,stands⟩ := mem_targetsWithin.mp hr
    refine ⟨q, target, ?_⟩
    unfold standsFor at stands
    split at stands
    · rename_i past
      cases found : history.lookup q with
      | some states =>
        rw [found] at stands
        exact .recorded past found stands
      | none =>
        rw [found] at stands
        cases enters : (c.state q).initial with
        | none => simp [enters] at stands
        | some d =>
          rw [enters] at stands
          obtain ⟨q',named,leads⟩ := ih stands
          exact .byDefault past found enters named leads
    · rename_i ordinary
      obtain rfl := List.mem_singleton.mp stands
      exact .ordinary (by simpa using ordinary)

namespace LeadsTo

/-- A state leads to states where it lies. -/
theorem lands (leads : c.LeadsTo history s r) (tree : c.IsTree) (inward : c.Inward history)
    (inside : c.Below s D) : c.Below r D := by
  induction leads generalizing D with
  | ordinary => exact inside
  | recorded past found member =>
    obtain ⟨p,hp,up⟩ := tree.below_iff.mp inside
    exact tree.below_of_below_within (inward.lookup found member hp) up
  | byDefault past none enters named leads ih =>
    obtain ⟨p,hp,up⟩ := tree.below_iff.mp inside
    exact tree.below_of_below_within (ih (inward.byDefault _ _ past enters _ named p hp)) up

theorem of_ordinary (leads : c.LeadsTo history s r) (ordinary : c.isHistory s = false) : r = s := by
  cases leads with
  | ordinary => rfl
  | recorded past => rw [ordinary] at past; cases past
  | byDefault past => rw [ordinary] at past; cases past

theorem declared (leads : c.LeadsTo history s r) (wf : c.WellFormed) (inward : c.Inward history)
    (inside : s < c.states.size) : r < c.states.size := by
  rcases wf.within_root inside with rfl | below
  · rw [leads.of_ordinary (by rw [isHistory, wf.root_kind])]
    exact inside
  · exact wf.below_in_range (leads.lands wf.toIsTree inward below)

end LeadsTo

/-- Records are of some states, and of no history states. -/
def Remembers (c : Chart) (history : HistoryTable) : Prop :=
  ∀ entry ∈ history, entry.2 ≠ [] ∧ ∀ r ∈ entry.2, c.isHistory r = false

theorem Remembers.lookup (remembers : c.Remembers history) {states : List StateIndex}
    (found : history.lookup s = some states) :
    states ≠ [] ∧ ∀ r ∈ states, c.isHistory r = false := by
  obtain ⟨before,after,rfl,_⟩ := List.lookup_eq_some_iff.mp found
  exact remembers (s, states) (by simp)

theorem LeadsTo.ends (leads : c.LeadsTo history s r) (remembers : c.Remembers history) :
    c.isHistory r = false := by
  induction leads with
  | ordinary ordinary => exact ordinary
  | recorded _ found member => exact (remembers.lookup found).2 _ member
  | byDefault _ _ _ _ _ ih => exact ih

/-- Whatever is behind a state, it leads somewhere. -/
theorem Founded.leads (founded : c.Founded s) (remembers : c.Remembers history) :
    ∃ r, c.LeadsTo history s r := by
  induction founded with
  | ordinary ordinary => exact ⟨_, .ordinary ordinary⟩
  | @past s t enters named founded ih =>
    by_cases past : c.isHistory s = true
    · cases found : history.lookup s with
      | some states =>
        obtain ⟨r,hr⟩ := List.exists_mem_of_ne_nil _ (remembers.lookup found).1
        exact ⟨r, .recorded past found hr⟩
      | none =>
        obtain ⟨q,hq⟩ := List.exists_mem_of_ne_nil _ named
        obtain ⟨r,leads⟩ := ih q hq
        exact ⟨r, .byDefault past found enters hq leads⟩
    · exact ⟨s, .ordinary (by simpa using past)⟩

theorem Founded.default (founded : c.Founded s) (past : c.isHistory s = true) :
    ∃ t, (c.state s).initial = some t ∧ (c.transition t).targets ≠ [] := by
  cases founded with
  | ordinary ordinary =>
    rw [past] at ordinary
    cases ordinary
  | past enters named _ => exact ⟨_, enters, named⟩

/-- The default of a history state names another state. -/
def Names (c : Chart) (s r : StateIndex) : Prop :=
  c.isHistory s = true ∧ ∃ t, (c.state s).initial = some t ∧ r ∈ (c.transition t).targets

theorem Founded.acc (founded : c.Founded s) : Acc (fun r s => c.Names s r) s := by
  induction founded with
  | ordinary ordinary =>
    refine ⟨_, fun r names => ?_⟩
    rcases names with ⟨past,_⟩
    exact absurd (past.symm.trans ordinary) (by simp)
  | past enters _ _ ih =>
    refine ⟨_, fun r names => ?_⟩
    obtain ⟨_,t,found,hr⟩ := names
    rw [enters] at found
    cases found
    exact ih r hr

/-- Defaults are not circular: no history state is reached again along what its default names. -/
def Uncircular (c : Chart) : Prop :=
  ∀ s r, c.Names s r → ¬ Relation.ReflTransGen c.Names r s

theorem Peopled.uncircular (peopled : c.Peopled) : c.Uncircular := by
  intro s r names back
  have founded : WellFounded fun r s => c.Names s r := ⟨fun s => (peopled.founded s).acc⟩
  have round : Relation.TransGen c.Names s s := .head' names back
  have reversed : Relation.TransGen (fun r s => c.Names s r) s s :=
    Relation.transGen_swap.mp round
  exact founded.transGen.asymmetric s s reversed reversed

/-- What entering a state may bring with it. For a history state this is what lies in its parent,
    but of the history states there only those that defaults lead to. -/
def Ahead (c : Chart) (s y : StateIndex) : Prop :=
  if c.isHistory s = true then ∃ p, (c.state s).parent = some p ∧ c.Below y p ∧
    ((c.state y).parent = some p → c.isHistory y = true → Relation.ReflTransGen c.Names s y)
  else c.Within y s

/-- Which states the entering of a state goes on with. -/
inductive Calls (c : Chart) (s r : StateIndex) : Prop where
  | inside (ordinary : c.isHistory s = false) (below : c.Below r s)
  | beside {p : StateIndex} (past : c.isHistory s = true) (hp : (c.state s).parent = some p)
      (below : c.Below r p) (ordinary : c.isHistory r = false)
  | named (names : c.Names s r)

namespace WellFormed

theorem not_below_of_within (wf : c.WellFormed) (within : c.Within x y) : ¬ c.Below y x :=
  fun below => wf.not_below_self (wf.below_of_within_below within below)

theorem ahead_self (wf : c.WellFormed) (s : StateIndex) : c.Ahead s s := by
  unfold Ahead
  split
  · rename_i past
    obtain ⟨p,hp⟩ := wf.history_parent past
    exact ⟨p, hp, wf.below_parent hp, fun _ _ => .refl⟩
  · exact Or.inl rfl

/-- What lies ahead of a state inside of another lies in that one. -/
theorem ahead_below (wf : c.WellFormed) (ahead : c.Ahead s y) (inside : c.Below s D) :
    c.Below y D := by
  unfold Ahead at ahead
  split at ahead
  · obtain ⟨p,hp,below,_⟩ := ahead
    exact wf.below_of_below_within below (wf.within_parent_of_below_child hp inside)
  · exact wf.below_of_within_below ahead inside

theorem calls_in_range (wf : c.WellFormed) (calls : c.Calls s r) : r < c.states.size := by
  cases calls with
  | inside _ below => exact wf.below_in_range below
  | beside _ _ below => exact wf.below_in_range below
  | named names =>
    obtain ⟨_,t,_,target⟩ := names
    exact wf.targets_declared t r target

theorem ahead_beside (wf : c.WellFormed) (past : c.isHistory s = true)
    (hp : (c.state s).parent = some p) (below : c.Below r p) (ordinary : c.isHistory r = false) :
    (∀ z, c.Ahead r z → c.Ahead s z) ∧ ¬ c.Ahead r s := by
  have outside : ∀ z, (c.state z).parent = some p → c.isHistory z = true → ¬ c.Within z r := by
    rintro z hz history (rfl | inside)
    · rw [ordinary] at history
      cases history
    · exact wf.not_below_self
        (wf.below_of_within_below (wf.within_parent_of_below_child hz inside) below)
  simp only [Ahead, past, ordinary, Bool.false_eq_true, if_false, if_true]
  refine ⟨fun z within => ⟨p, hp, wf.below_of_within_below within below, fun hz history => ?_⟩,
    outside s hp past⟩
  exact absurd within (outside z hz history)

/-- Entering never comes back to a state. -/
theorem ahead_of_calls (wf : c.WellFormed) (inward : c.Inward history) (uncircular : c.Uncircular)
    (calls : c.Calls s r) : (∀ z, c.Ahead r z → c.Ahead s z) ∧ ¬ c.Ahead r s := by
  cases calls with
  | inside ordinary below =>
    constructor
    · intro z ahead
      simp only [Ahead, ordinary, Bool.false_eq_true, if_false]
      exact Or.inr (wf.ahead_below ahead below)
    · exact fun ahead => wf.not_below_self (wf.ahead_below ahead below)
  | beside past hp below ordinary => exact wf.ahead_beside past hp below ordinary
  | named names =>
    obtain ⟨past,t,enters,target⟩ := names
    obtain ⟨p,hp⟩ := wf.history_parent past
    have below := inward.byDefault s t past enters r target p hp
    by_cases past' : c.isHistory r = true
    · obtain ⟨p',hp'⟩ := wf.history_parent past'
      have up := wf.within_parent_of_below_child hp' below
      simp only [Ahead, if_pos past, if_pos past']
      constructor
      · rintro z ⟨p₁,hp₁,low,reaches⟩
        obtain rfl : p' = p₁ := by simpa [hp'] using hp₁
        refine ⟨p, hp, wf.below_of_below_within low up, fun hz history => ?_⟩
        rcases up with rfl | deeper
        · exact .head ⟨past, t, enters, target⟩ (reaches hz history)
        · exact absurd deeper (wf.not_below_of_within (wf.within_parent_of_below_child hz low))
      · rintro ⟨p₁,hp₁,low,reaches⟩
        obtain rfl : p' = p₁ := by simpa [hp'] using hp₁
        rcases up with rfl | deeper
        · exact uncircular s r ⟨past, t, enters, target⟩ (reaches hp past)
        · exact absurd deeper (wf.not_below_of_within (wf.within_parent_of_below_child hp low))
    · exact wf.ahead_beside past hp below (by simpa using past')

end WellFormed

open Classical in
/-- How many states entering a state may bring with it. -/
noncomputable def room (c : Chart) (s : StateIndex) : Nat :=
  ((Finset.range c.states.size).filter (c.Ahead s)).card

theorem room_le (c : Chart) (s : StateIndex) : c.room s ≤ c.states.size := by
  classical
  simpa [room] using Finset.card_filter_le (Finset.range c.states.size) (c.Ahead s)

namespace WellFormed

theorem room_pos (wf : c.WellFormed) (inside : s < c.states.size) : 0 < c.room s := by
  classical
  exact Finset.card_pos.mpr
    ⟨s, Finset.mem_filter.mpr ⟨Finset.mem_range.mpr inside, wf.ahead_self s⟩⟩

/-- Entering goes on with states that have less room, so that it ends. -/
theorem room_lt_of_calls (wf : c.WellFormed) (inward : c.Inward history)
    (uncircular : c.Uncircular) (inside : s < c.states.size) (calls : c.Calls s r) :
    c.room r < c.room s := by
  classical
  obtain ⟨further,never⟩ := wf.ahead_of_calls inward uncircular calls
  refine Finset.card_lt_card (Finset.ssubset_iff_of_subset ?_ |>.mpr ⟨s, ?_, ?_⟩)
  · intro z hz
    obtain ⟨declared,ahead⟩ := Finset.mem_filter.mp hz
    exact Finset.mem_filter.mpr ⟨declared, further z ahead⟩
  · exact Finset.mem_filter.mpr ⟨Finset.mem_range.mpr inside, wf.ahead_self s⟩
  · exact fun again => never (Finset.mem_filter.mp again).2

end WellFormed

end Statechart.Chart

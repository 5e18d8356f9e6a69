import Statechart.Proofs.Chart.Adding
import Statechart.Proofs.Except

/- Every chart that is accepted is well formed: its states are the tree that was added, its
   transitions lead to states it declares, and the checks have found no defect. -/
namespace Statechart

namespace Compile

variable {α : Type}

/-- The chart as it stands before targets are known. -/
def Draft.chart (d : Draft) (name : Option String) (checksum : String) : Chart :=
  { name, states := d.states, transitions := d.transitions, checksum }

theorem find_declared {c : Chart} {id : String} {s : Nat} (found : c.find? id = some s) :
    s < c.states.size :=
  List.mem_range.mp (List.mem_of_find?_eq_some found)

theorem resolveTarget_declared {c : Chart} {name : String} {s : Nat}
    (run : resolveTarget c name = .ok s) : s < c.states.size := by
  obtain ⟨id,_,run⟩ := Except.bind_eq_ok run
  split at run
  · rename_i found
    cases run
    exact find_declared found
  · cases run

/-- Targets are given to transitions, and nothing else changes. -/
structure Targeted (c c' : Chart) : Prop where
  states : c'.states = c.states
  size : c'.transitions.size = c.transitions.size
  source : ∀ t : Nat, (c'.transition t).source = (c.transition t).source
  kind : ∀ t : Nat, (c'.transition t).kind = (c.transition t).kind
  condition : ∀ t : Nat, (c'.transition t).condition = (c.transition t).condition
  actions : ∀ t : Nat, (c'.transition t).actions = (c.transition t).actions
  document : ∀ t : Nat, (c'.transition t).document = (c.transition t).document
  declared : (∀ t : Nat, ∀ r ∈ (c.transition t).targets, r < c.states.size) →
    ∀ t : Nat, ∀ r ∈ (c'.transition t).targets, r < c'.states.size

theorem Targeted.trans {c c' c'' : Chart} (first : Targeted c c') (second : Targeted c' c'') :
    Targeted c c'' where
  states := second.states.trans first.states
  size := second.size.trans first.size
  source t := (second.source t).trans (first.source t)
  kind t := (second.kind t).trans (first.kind t)
  condition t := (second.condition t).trans (first.condition t)
  actions t := (second.actions t).trans (first.actions t)
  document t := (second.document t).trans (first.document t)
  declared h := second.declared (first.declared h)

def withTargets (c : Chart) (t : TransitionIndex) (targets : List StateIndex) : Chart :=
  { c with transitions := c.transitions.modify t fun n => { n with targets } }

theorem targeted_withTargets {c : Chart} {t : Nat} {targets : List Nat}
    (declared : ∀ r ∈ targets, r < c.states.size) : Targeted c (withTargets c t targets) := by
  have transition : ∀ u : Nat, (withTargets c t targets).transition u = c.transition u ∨
      (withTargets c t targets).transition u = { c.transition u with targets } := by
    intro u
    simp only [Chart.transition, withTargets, Array.getD_eq_getD_getElem?, Array.getElem?_modify]
    split
    · cases c.transitions[u]? with
      | none => exact Or.inl rfl
      | some node => exact Or.inr rfl
    · exact Or.inl rfl
  have field {β : Type} (part : TransitionNode → β)
      (kept : ∀ n targets, part { n with targets } = part n) (u : Nat) :
      part ((withTargets c t targets).transition u) = part (c.transition u) := by
    rcases transition u with same | given
    · rw [same]
    · rw [given, kept]
  refine ⟨rfl, Array.size_modify .., field (·.source) fun _ _ => rfl, field (·.kind) fun _ _ => rfl,
    field (·.condition) fun _ _ => rfl, field (·.actions) fun _ _ => rfl,
    field (·.document) fun _ _ => rfl, ?_⟩
  · intro before u r hr
    rcases transition u with same | given
    · rw [same] at hr
      exact before u r hr
    · rw [given] at hr
      exact declared r hr

theorem targeted_foldl (l : List (TransitionIndex × List StateIndex)) (c : Chart)
    (declared : ∀ p ∈ l, ∀ r ∈ p.2, r < c.states.size) :
    Targeted c (l.foldl (fun c p => withTargets c p.1 p.2) c) := by
  induction l generalizing c with
  | nil =>
    exact ⟨rfl, rfl, fun _ => rfl, fun _ => rfl, fun _ => rfl, fun _ => rfl, fun _ => rfl, id⟩
  | cons p rest ih =>
    have first : Targeted c (withTargets c p.1 p.2) :=
      targeted_withTargets (declared p List.mem_cons_self)
    exact first.trans (ih _ fun q hq => declared q (List.mem_cons_of_mem _ hq))

theorem resolve_targeted {c c' : Chart} {pending : List (TransitionIndex × List String)}
    (run : resolve c pending = .ok c') : Targeted c c' := by
  unfold resolve at run
  split at run
  · cases run
  · obtain ⟨resolved,found,run⟩ := Except.bind_eq_ok run
    cases run
    refine targeted_foldl resolved c (Except.mapM_ok (fun entry p step => ?_) found)
    obtain ⟨names,targets,given⟩ := Except.bind_eq_ok step
    cases given
    exact Except.mapM_ok (fun _ _ => resolveTarget_declared) targets

theorem firstDefect_none {items : List α} {check : α → Option Defect}
    (sound : firstDefect items check = none) : ∀ a ∈ items, check a = none :=
  List.findSome?_eq_none_iff.mp sound

theorem nodup_of_no_repetition {l : List StateIndex} (h : hasRepetition l = false) : l.Nodup := by
  induction l with
  | nil => exact List.nodup_nil
  | cons s rest ih =>
    simp only [hasRepetition, Bool.or_eq_false_iff, List.contains_eq_mem,
      decide_eq_false_iff_not] at h
    exact List.nodup_cons.mpr ⟨h.1, ih h.2⟩

end Compile

namespace Chart

open Compile

theorem chartDefect_none {c : Chart} (sound : chartDefect? c = none) :
    (∀ s : Nat, s < c.states.size → initialDefect? c s = none) ∧
      ∀ n ∈ c.transitions.toList, targetsDefect? c n = none := by
  unfold chartDefect? at sound
  split at sound
  · cases sound
  · rename_i initials
    exact ⟨fun s hs => firstDefect_none initials s (List.mem_range.mpr hs), firstDefect_none sound⟩

theorem targets_sound {c : Chart} (sound : chartDefect? c = none) (t : Nat) :
    (c.transition t).targets.Nodup ∧ ∀ a ∈ (c.transition t).targets,
      ∀ b ∈ (c.transition t).targets, a ≠ b → ¬ c.Below a b := by
  by_cases inside : t < c.transitions.size
  · have clear := (chartDefect_none sound).2 _ (c.transition_mem inside)
    unfold targetsDefect? at clear
    split at clear
    · cases clear
    · rename_i once
      refine ⟨nodup_of_no_repetition (by simpa using once), ?_⟩
      intro a ha b hb ne below
      have apart := firstDefect_none (firstDefect_none clear a ha) b hb
      rw [if_pos] at apart
      · cases apart
      · simp only [Bool.and_eq_true, decide_eq_true_eq]
        exact ⟨ne, (isDescendant_iff c a b).mpr below⟩
  · rw [c.transition_out_of_range (by omega)]
    exact ⟨List.nodup_nil, fun a ha => by cases ha⟩

theorem initial_sound {c : Chart} (sound : chartDefect? c = none) {s t : Nat}
    (inside : s < c.states.size) (plain : c.isHistory s = false)
    (enters : (c.state s).initial = some t) :
    (c.transition t).targets ≠ [] ∧ ∀ r ∈ (c.transition t).targets, c.Below r s := by
  have clear := (chartDefect_none sound).1 s inside
  unfold initialDefect? at clear
  simp only [enters, plain, Bool.false_eq_true, if_false] at clear
  split at clear
  · cases clear
  · rename_i some
    refine ⟨by simpa using some, ?_⟩
    intro r hr
    have below := firstDefect_none clear r hr
    split at below
    · cases below
    · rename_i inner
      simpa using inner

theorem compile_parts {library : ActionLibrary} {source : Source.ChartDef} {c : Chart}
    (accepted : compile library source = .ok c) :
    source.states ≠ [] ∧ ∃ (top : Nat) (d : Draft),
      (addState library none source.rootState).run {} = .ok (top, d) ∧
      Targeted (d.chart source.name source.checksum) c ∧ chartDefect? c = none := by
  unfold compile at accepted
  split at accepted
  · cases accepted
  · rename_i inhabited
    refine ⟨by simpa using inhabited, ?_⟩
    obtain ⟨⟨top,d⟩,built,accepted⟩ := Except.bind_eq_ok accepted
    obtain ⟨chart,resolved,accepted⟩ := Except.bind_eq_ok accepted
    split at accepted
    · cases accepted
    · rename_i sound
      cases accepted
      exact ⟨top, d, built, resolve_targeted resolved, sound⟩

/-- The states of a chart whose draft is one tree. -/
theorem isTree_of_forest {c : Chart} {d : Draft} (same : c.states = d.states)
    (inhabited : 0 < d.states.size) (forest : d.Forest none [0] 0 d.states.size) : c.IsTree := by
  have states : ∀ s : Nat, c.state s = d.state s := fun s =>
    congrArg (fun a : Array StateNode => a.getD s default) same
  have size : c.states.size = d.states.size := congrArg Array.size same
  refine ⟨by omega, ?_, ?_, ?_⟩
  · rw [states]
    exact forest.tops_parent 0 (List.mem_singleton_self 0)
  · intro s hs proper
    obtain ⟨p,hp,_,before⟩ := forest.inner_parent s (Nat.zero_le s) (by omega)
      (fun h => proper (List.mem_singleton.mp h))
    exact ⟨p, by rw [states]; exact hp, before⟩
  · intro p s
    rw [states, states]
    by_cases inside : p < d.states.size
    · rw [forest.children p s (Nat.zero_le p) inside]
      constructor
      · exact fun h => h.2.2
      · intro hp
        have hs := c.parent_in_range (s := s) (by rw [states]; exact hp)
        exact ⟨Nat.zero_le s, by omega, hp⟩
    · rw [d.state_out_of_range (by omega)]
      constructor
      · intro h
        cases h
      · intro hp
        have hs := c.parent_in_range (s := s) (by rw [states]; exact hp)
        rcases forest.parent_cases (Nat.zero_le s) (by omega) hp with out | bounds
        · cases out
        · omega

/-- Every accepted chart is well formed. -/
theorem compile_wellFormed {library : ActionLibrary} {source : Source.ChartDef} {c : Chart}
    (accepted : compile library source = .ok c) : c.WellFormed := by
  obtain ⟨inhabited,top,d,built,targeted,sound⟩ := compile_parts accepted
  have empty : ({} : Draft).states.size = 0 := rfl
  obtain ⟨_,length,grows,larger,kind,forest⟩ :=
    addState_tree library none _ source.states {} d top (fun p eq => by cases eq) built
  rw [empty] at length larger kind forest
  have states : ∀ s : Nat, c.state s = d.state s := fun s =>
    congrArg (fun a : Array StateNode => a.getD s default) targeted.states
  have size : c.states.size = d.states.size := congrArg Array.size targeted.states
  have source_eq : ∀ t : Nat, (c.transition t).source = (d.transition t).source := targeted.source
  have kind_eq : ∀ t : Nat, (c.transition t).kind = (d.transition t).kind := targeted.kind
  -- Outside the chart there are only states with nothing to them, which fit as well.
  have fits : ∀ s : Nat, d.Fits s := by
    intro s
    by_cases inside : s < d.states.size
    · exact forest.fits s (Nat.zero_le s) inside
    · exact .of_default (d.state_out_of_range (by omega))
  have history : ∀ s : Nat, c.isHistory s = isHistoryKind (d.state s).kind := by
    intro s
    rw [isHistory, states]
    rfl
  refine
    { isTree_of_forest targeted.states larger forest with
      root_kind := ?_, root_children := ?_, leaf_final := ?_, leaf_history := ?_, own_source := ?_
      initial := ?_, targets_declared := ?_, targets_separate := ?_, targets_once := ?_ }
  · rw [states]
    exact kind
  · rw [states]
    intro none
    have none : (d.state 0).children = [] := none
    rw [none] at length
    exact inhabited (List.length_eq_zero_iff.mp length.symm)
  · intro s final
    rw [isFinal, states, decide_eq_true_eq] at final
    rw [states]
    exact (fits s).leaf (Or.inl final)
  · intro s past
    rw [history] at past
    rw [states]
    exact (fits s).leaf (Or.inr past)
  · intro s t ht
    rw [states] at ht
    rw [source_eq]
    exact ((fits s).own t ht).2
  · intro s plain inner
    have inside : s < c.states.size := by
      by_cases inside : s < c.states.size
      · exact inside
      · rw [c.state_out_of_range (by omega)] at inner
        exact absurd rfl inner
    rw [states] at plain inner
    obtain ⟨t,enters,_,source,internal⟩ := (fits s).initial plain inner
    have ordinary : c.isHistory s = false := by rw [history, plain]; rfl
    rw [← states] at enters
    exact ⟨t, enters, (source_eq t).trans source, (kind_eq t).trans internal,
      initial_sound sound inside ordinary enters⟩
  · refine targeted.declared ?_
    intro t r hr
    have untargeted : d.Untargeted := grows.untargeted fun _ => rfl
    have none : (d.transition t).targets = [] := untargeted t
    change r ∈ (d.transition t).targets at hr
    rw [none] at hr
    cases hr
  · exact fun t => (targets_sound sound t).2
  · exact fun t => (targets_sound sound t).1

def compiled (library : ActionLibrary) (source : Source.ChartDef) : Chart :=
  (compile library source).toOption.getD default

theorem compile_eq_compiled {library : ActionLibrary} {source : Source.ChartDef}
    (ok : (compile library source).isOk = true) :
    compile library source = .ok (compiled library source) := by
  unfold compiled
  cases found : compile library source with
  | error fault =>
    rw [found] at ok
    cases ok
  | ok c => rfl

end Chart

def Source.StateInfo.simple (id : String) (type : StateType) (transitions : List TransitionDef) :
    StateInfo :=
  { id := some id, type, history := none, initial := none, transitions, onEntry := [], onExit := []
    invokes := [], data := [], doneData := none }

end Statechart

import Statechart.Proofs.Chart.Compiled

/- Transitions by which states are entered.

   The initial transition of a compound state and the default of a history state have been added for
   that state, which is their source. So no two states share one, and none is among the transitions
   that events are matched against. -/
namespace Statechart

namespace Compile

open Source

variable {α : Type}

/-- States are entered by transitions of their own. -/
def Draft.OwnEntries (d : Draft) : Prop :=
  ∀ s t : Nat, (d.state s).initial = some t → t < d.transitions.size ∧ (d.transition t).source = s

/-- The states that have been added since are entered by transitions of their own. -/
def Draft.Owns (d d' : Draft) : Prop := d.OwnEntries → d'.OwnEntries

instance : Lasting Draft.Owns where
  refl _ := id
  trans first second := fun own => second (first own)

namespace Draft

variable {d d' : Draft}

theorem OwnEntries.grow (own : d.OwnEntries) (states : ∀ s : Nat, d'.state s = d.state s)
    (size : d.transitions.size ≤ d'.transitions.size)
    (kept : ∀ t : Nat, t < d.transitions.size → d'.transition t = d.transition t) :
    d'.OwnEntries := by
  intro s t enters
  rw [states] at enters
  obtain ⟨inside,source⟩ := own s t enters
  exact ⟨Nat.lt_of_lt_of_le inside size, by rw [kept t inside]; exact source⟩

theorem owns_of_same (same : d.Same d') : d.Owns d' := fun own =>
  own.grow (fun s => by rw [state, state, same.states])
    (Nat.le_of_eq (congrArg Array.size same.transitions.symm))
    fun t _ => by rw [transition, transition, same.transitions]

theorem owns_push {node : TransitionNode} (states : d'.states = d.states)
    (pushed : d'.transitions = d.transitions.push node) : d.Owns d' := fun own =>
  own.grow (fun s => by rw [state, state, states]) (by rw [pushed, Array.size_push]; omega)
    fun t inside => by
      simp [transition, pushed, Array.getD_eq_getD_getElem?, Array.getElem?_push,
        Nat.ne_of_lt inside]

theorem owns_modify {f : StateNode → StateNode} {s : Nat}
    (states : d'.states = d.states.modify s f) (transitions : d'.transitions = d.transitions)
    (entered : ∀ n t, (f n).initial = some t →
      n.initial = some t ∨ (t < d.transitions.size ∧ (d.transition t).source = s)) :
    d.Owns d' := by
  intro own i t enters
  have own' : t < d.transitions.size ∧ (d.transition t).source = i := by
    by_cases inside : s < d.states.size
    · rw [state_modify states inside] at enters
      split at enters
      · rename_i same
        subst same
        exact (entered _ t enters).elim (own i t) id
      · exact own i t enters
    · have same : d'.state i = d.state i := by
        simp only [state, states, Array.getD_eq_getD_getElem?, Array.getElem?_modify]
        split
        · rename_i here
          subst here
          rw [Array.getElem?_eq_none (Nat.not_lt.mp inside)]
          rfl
        · rfl
      rw [same] at enters
      exact own i t enters
  rwa [transition, transitions]

end Draft

/-- A part of compiling after which states are entered by transitions of their own. -/
abbrev Owning (x : CompileM α) : Prop := Keeps Draft.Owns x

theorem Keeps.owning {x : CompileM α} (quiet : Quiet x) : Owning x :=
  fun d a d' run => Draft.owns_of_same (quiet d a d' run)

theorem modifyState_owning (s : StateIndex) {f : StateNode → StateNode}
    (same : ∀ n, (f n).initial = n.initial) : Owning (modifyState s f) := by
  intro d u d' run
  obtain ⟨states,transitions⟩ := modifyState_ok run
  exact Draft.owns_modify states transitions fun n t enters => Or.inl (same n ▸ enters)

/-- A state that is entered by a transition that has been added for it. -/
theorem modifyState_entered {s i : Nat} {d d' : Draft} {u : Unit} (inside : i < d.transitions.size)
    (source : (d.transition i).source = s)
    (run : (modifyState s fun n => { n with initial := some i }).run d = .ok (u, d')) :
    d.Owns d' := by
  obtain ⟨states,transitions⟩ := modifyState_ok run
  refine Draft.owns_modify states transitions fun n t enters => Or.inr ?_
  cases enters
  exact ⟨inside, source⟩

theorem pushState_owning {node : StateNode} (unentered : node.initial = none) :
    Owning (pushState node) := by
  intro d u d' run own s t enters
  obtain ⟨states,transitions⟩ := pushState_ok run
  have old := own s t
  rw [Draft.transition, transitions]
  refine old ?_
  simp only [Draft.state, states, Array.getD_eq_getD_getElem?, Array.getElem?_push] at enters ⊢
  split at enters
  · rw [Option.getD_some, unentered] at enters
    cases enters
  · exact enters

theorem addTransitions_owning (library : ActionLibrary) (s : StateIndex) (id : String)
    (kind : StateKind) (ts : List TransitionDef) :
    Owning (addTransitions library s id kind ts) := by
  induction ts with
  | nil => exact .pure _
  | cons t rest ih =>
    intro d u d' run
    rw [addTransitions] at run
    obtain ⟨i,d₁,added,run⟩ := bind_eq_ok run
    obtain ⟨rfl,states,node,pushed,source,-⟩ := addTransition_ok added
    have first : d.Owns d₁ := Draft.owns_push states pushed
    by_cases past : isHistoryKind kind = true
    · simp only [past, if_true] at run
      obtain ⟨_,_,got,run⟩ := bind_eq_ok run
      cases got
      split at run
      · obtain ⟨_,_,rejected,_⟩ := bind_eq_ok run
        cases rejected
      · obtain ⟨_,d₂,entered,run⟩ := bind_eq_ok run
        have inside : d.transitions.size < d₁.transitions.size := by
          rw [pushed, Array.size_push]
          omega
        have second : d₁.Owns d₂ :=
          modifyState_entered inside (by rw [Draft.transition_pushed pushed]; exact source) entered
        exact Lasting.trans first (Lasting.trans second (ih d₂ u d' run))
    · simp only [past] at run
      obtain ⟨_,d₂,listed,run⟩ := bind_eq_ok run
      have second : d₁.Owns d₂ := (modifyState_owning s fun _ => by rfl) _ _ _ listed
      exact Lasting.trans first (Lasting.trans second (ih d₂ u d' run))

theorem addEntry_owning (s : StateIndex) (id : String) (info : StateInfo) (hasChildren : Bool)
    (kids : List StateIndex) : Owning (addEntry s id info hasChildren kids) := by
  unfold addEntry
  split
  · refine .bind (Keeps.owning (initialTargets_keeps _ _ _)) fun _ => ?_
    refine .bind (Keeps.owning freshDocument_quiet) fun document => ?_
    intro d u d' run
    obtain ⟨i,d₁,added,run⟩ := bind_eq_ok run
    obtain ⟨_,d₂,noted,run⟩ := bind_eq_ok run
    obtain ⟨rfl,states,pushed⟩ := pushTransition_ok added
    have quiet := addPending_quiet _ _ _ _ _ noted
    have pushed' := quiet.transitions.trans pushed
    have first : d.Owns d₂ := Draft.owns_push (quiet.states.trans states) pushed'
    refine Lasting.trans first (modifyState_entered ?_ ?_ run)
    · rw [pushed', Array.size_push]
      omega
    · rw [Draft.transition_pushed pushed']
  · exact .pure _

theorem addAlone_owning (library : ActionLibrary) (parent : Option StateIndex)
    (info : StateInfo) (hasChildren : Bool) :
    Owning (addAlone library parent info hasChildren) := by
  unfold addAlone
  refine .bind .get fun d => .bind (Keeps.owning freshDocument_quiet) fun _ => ?_
  refine .bind (Keeps.owning (stateId_quiet _)) fun id => ?_
  cases structureDefect? id info hasChildren with
  | some defect => exact .reject _
  | none =>
    refine .bind (.lift _) fun _ => .bind (.lift _) fun _ => ?_
    refine .bind (.mapM (fun _ => .bind (.lift _) fun _ => .pure _) _) fun _ => ?_
    refine .bind (.lift _) fun _ => .bind (pushState_owning rfl) fun _ => ?_
    refine .bind (addTransitions_owning library _ _ _ _) fun _ => ?_
    refine .bind (.mapM (fun i => Keeps.owning (invoke_quiet library i)) _) fun _ => ?_
    exact .bind (modifyState_owning _ fun _ => rfl) fun _ => .pure _

theorem addState_owning (library : ActionLibrary) (parent : Option StateIndex)
    (info : StateInfo) (inner : List StateDef) :
    Owning (addState library parent (.mk info inner)) :=
  addState_keeps (addAlone_owning library) (fun _ _ => modifyState_owning _ fun _ => rfl)
    addEntry_owning parent info inner

end Compile

namespace Chart

open Compile

variable {library : ActionLibrary} {source : Source.ChartDef} {c : Chart} {s t : Nat}

theorem compile_entries (accepted : compile library source = .ok c)
    (enters : (c.state s).initial = some t) : (c.transition t).source = s := by
  obtain ⟨-,top,d,built,targeted,-⟩ := compile_parts accepted
  have empty : ({} : Draft).OwnEntries := by
    intro i u enters
    rw [Draft.state_out_of_range _ (Nat.zero_le i)] at enters
    cases enters
  have own : d.OwnEntries := addState_owning library none _ source.states {} top d built empty
  have same : c.state s = d.state s :=
    congrArg (fun a : Array StateNode => a.getD s default) targeted.states
  rw [same] at enters
  exact (targeted.source t).trans (own s t enters).2

end Chart

end Statechart

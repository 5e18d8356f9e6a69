import Statechart.Proofs.Chart.Numbering
import Statechart.Proofs.Machine.Custody

/- The host's actions in a chart. A compiled chart has none but those that the host's library makes,
   so none at all if the library is empty. An action is neat if it writes to the data model only,
   and only what it has just built: then it keeps to the realm of any machine that runs it. -/
namespace Statechart

open Heap (Closes Owns Confines Respects)

theorem Action.customsOfArms_append {p : CustomAction → Prop}
    {arms more : List (Option Expr × List Action)} (first : customsOfArms p arms)
    (later : customsOfArms p more) : customsOfArms p (arms ++ more) := by
  induction arms with
  | nil => exact later
  | cons arm rest ih => exact ⟨first.1, ih first.2⟩

namespace Compile

open Source

variable {α β : Type} {p : CustomAction → Prop} {Q : α → Prop} {S : β → Prop}

/-- Whatever the library makes is as asked. -/
def ActionsAre (p : CustomAction → Prop) (library : ActionLibrary) : Prop :=
  ∀ name factory, library.lookup name = some factory →
    ∀ args action, factory args = .ok action → p action

mutual

theorem action_customs {library : ActionLibrary} (asked : ActionsAre p library) :
    ∀ (d : ActionDef) {a : Action}, action library d = .ok a → a.Customs p
  | .raise event, a, run => by
    rw [action] at run
    obtain ⟨_,_,run⟩ := Except.bind_eq_ok run
    cases run
    trivial
  | .send s, a, run => by
    rw [action] at run
    obtain ⟨_,_,run⟩ := Except.bind_eq_ok run
    cases run
    trivial
  | .cancel id expr, a, run => by
    rw [action] at run
    simp only at run
    split at run
    · cases run
    · obtain ⟨_,_,run⟩ := Except.bind_eq_ok run
      cases run
      trivial
  | .log label expr, a, run => by
    rw [action] at run
    obtain ⟨_,_,run⟩ := Except.bind_eq_ok run
    cases run
    trivial
  | .assign location init, a, run => by
    rw [action] at run
    obtain ⟨_,_,run⟩ := Except.bind_eq_ok run
    obtain ⟨_,_,run⟩ := Except.bind_eq_ok run
    cases run
    trivial
  | .branch cond body elseIfs otherwise, a, run => by
    rw [action] at run
    obtain ⟨guard,_,run⟩ := Except.bind_eq_ok run
    obtain ⟨first,own,run⟩ := Except.bind_eq_ok run
    obtain ⟨middle,between,run⟩ := Except.bind_eq_ok run
    have both : Action.customsOfArms p ((some guard, first) :: middle) :=
      ⟨actions_customs asked body own, arms_customs asked elseIfs between⟩
    cases otherwise with
    | none =>
      cases run
      exact Action.customsOfArms_append both trivial
    | some body =>
      obtain ⟨last,final,run⟩ := Except.bind_eq_ok run
      cases run
      exact Action.customsOfArms_append both ⟨actions_customs asked body final, trivial⟩
  | .forEach array item index body, a, run => by
    rw [action] at run
    obtain ⟨_,_,run⟩ := Except.bind_eq_ok run
    obtain ⟨_,_,run⟩ := Except.bind_eq_ok run
    obtain ⟨_,_,run⟩ := Except.bind_eq_ok run
    obtain ⟨_,own,run⟩ := Except.bind_eq_ok run
    cases run
    exact actions_customs asked body own
  | .custom name args, a, run => by
    rw [action] at run
    split at run
    · rename_i factory known
      obtain ⟨made,own,run⟩ := Except.bind_eq_ok run
      cases run
      exact asked name factory known args made own
    · cases run

theorem actions_customs {library : ActionLibrary} (asked : ActionsAre p library) :
    ∀ (ds : List ActionDef) {as : List Action}, actions library ds = .ok as →
      Action.customsOfAll p as
  | [], as, run => by
    cases run
    trivial
  | d :: rest, as, run => by
    rw [actions] at run
    obtain ⟨a,first,run⟩ := Except.bind_eq_ok run
    obtain ⟨others,later,run⟩ := Except.bind_eq_ok run
    cases run
    exact ⟨action_customs asked d first, actions_customs asked rest later⟩

theorem arms_customs {library : ActionLibrary} (asked : ActionsAre p library) :
    ∀ (ds : List (String × List ActionDef)) {as : List (Option Expr × List Action)},
      arms library ds = .ok as → Action.customsOfArms p as
  | [], as, run => by
    cases run
    trivial
  | (cond, body) :: rest, as, run => by
    rw [arms] at run
    obtain ⟨_,_,run⟩ := Except.bind_eq_ok run
    obtain ⟨a,first,run⟩ := Except.bind_eq_ok run
    obtain ⟨others,later,run⟩ := Except.bind_eq_ok run
    cases run
    exact ⟨actions_customs asked body first, arms_customs asked rest later⟩

end

/-- What is asked of the host's actions, wherever a state has one. -/
structure NodeCustoms (p : CustomAction → Prop) (n : StateNode) : Prop where
  onEntry : Action.customsOfAll p n.onEntry
  onExit : Action.customsOfAll p n.onExit
  finalize : ∀ i ∈ n.invokes, Action.customsOfAll p i.finalize

namespace Draft

/-- What is asked of the host's actions, wherever a draft has one. -/
structure Customs (p : CustomAction → Prop) (d : Draft) : Prop where
  states : ∀ s, NodeCustoms p (d.state s)
  transitions : ∀ t, Action.customsOfAll p (d.transition t).actions

variable {d d' : Draft}

theorem Customs.place (customs : d.Customs p)
    (states : ∀ s, d'.state s = d.state s ∨ NodeCustoms p (d'.state s))
    (transitions : d'.transitions = d.transitions) : d'.Customs p where
  states s := by
    rcases states s with same | new
    · rw [same]
      exact customs.states s
    · exact new
  transitions t := by
    rw [Draft.transition, transitions]
    exact customs.transitions t

theorem Customs.of_same (customs : d.Customs p) (states : d'.states = d.states)
    (transitions : d'.transitions = d.transitions) : d'.Customs p :=
  customs.place (fun s => Or.inl (by rw [Draft.state, Draft.state, states])) transitions

end Draft

/-- A part of compiling that leaves a draft as asked, and comes to something as asked too. -/
def Observes (p : CustomAction → Prop) (x : CompileM α) (Q : α → Prop) : Prop :=
  ∀ d a d', x.run d = .ok (a, d') → d.Customs p → d'.Customs p ∧ Q a

/-- A part of compiling that leaves a draft as asked. -/
abbrev Observing (p : CustomAction → Prop) (x : CompileM α) : Prop := Observes p x fun _ => True

namespace Observes

theorem pure {a : α} (holds : Q a) : Observes p (Pure.pure a) Q := by
  intro d b d' run customs
  cases run
  exact ⟨customs, holds⟩

theorem bind {x : CompileM α} {f : α → CompileM β} (first : Observes p x Q)
    (rest : ∀ a, Q a → Observes p (f a) S) : Observes p (x >>= f) S := by
  intro d b d' run customs
  obtain ⟨a,e,run₁,run₂⟩ := bind_eq_ok run
  obtain ⟨between,holds⟩ := first d a e run₁ customs
  exact rest a holds e b d' run₂ between

theorem lift {x : Except Fault α} (holds : ∀ a, x = .ok a → Q a) :
    Observes p (liftM x : CompileM α) Q := by
  intro d a d' run customs
  cases x with
  | error fault => cases run
  | ok b =>
    cases run
    exact ⟨customs, holds _ rfl⟩

theorem mapM {f : β → CompileM α} (each : ∀ b, Observes p (f b) Q) (l : List β) :
    Observes p (l.mapM f) fun as => ∀ a ∈ as, Q a := by
  induction l with
  | nil =>
    rw [List.mapM_nil]
    exact pure (by simp)
  | cons b rest ih =>
    rw [List.mapM_cons]
    refine bind (each b) fun a first => bind ih fun as others => pure fun c within => ?_
    rcases List.mem_cons.mp within with rfl | later
    · exact first
    · exact others c later

theorem of_quiet {x : CompileM α} (quiet : Quiet x) : Observing p x := by
  intro d a d' run customs
  have same := quiet d a d' run
  exact ⟨customs.of_same same.1 same.2, trivial⟩

theorem plain (x : Except Fault α) : Observing p (liftM x : CompileM α) :=
  .lift fun _ _ => trivial

theorem reject (defect : Defect) : Observes p (Compile.reject defect : CompileM α) Q := by
  intro d a d' run
  cases run

end Observes

theorem modifyState_observing (s : StateIndex) {f : StateNode → StateNode}
    (keeps : ∀ n, NodeCustoms p n → NodeCustoms p (f n)) : Observing p (modifyState s f) := by
  intro d a d' run customs
  obtain ⟨states,transitions⟩ := modifyState_ok run
  refine ⟨customs.place (fun i => ?_) transitions, trivial⟩
  have own := customs.states i
  simp only [Draft.state, states, Array.getD_eq_getD_getElem?, Array.getElem?_modify] at own ⊢
  split
  · cases there : d.states[i]? with
    | none => exact Or.inl rfl
    | some n =>
      rw [there] at own
      exact Or.inr (keeps n own)
  · exact Or.inl rfl

theorem pushState_observing {node : StateNode} (asked : NodeCustoms p node) :
    Observing p (pushState node) := by
  intro d a d' run customs
  obtain ⟨states,transitions⟩ := pushState_ok run
  refine ⟨customs.place (fun i => ?_) transitions, trivial⟩
  simp only [Draft.state, states, Array.getD_eq_getD_getElem?, Array.getElem?_push]
  split
  · exact Or.inr asked
  · exact Or.inl rfl

theorem pushTransition_observing {node : TransitionNode}
    (asked : Action.customsOfAll p node.actions) : Observing p (pushTransition node) := by
  intro d a d' run customs
  obtain ⟨_,states,transitions⟩ := pushTransition_ok run
  refine ⟨⟨fun s => ?_, fun t => ?_⟩, trivial⟩
  · rw [Draft.state, states]
    exact customs.states s
  · have own := customs.transitions t
    simp only [Draft.transition, transitions, Array.getD_eq_getD_getElem?,
      Array.getElem?_push] at own ⊢
    split
    · exact asked
    · exact own

section Library

variable {library : ActionLibrary} (asked : ActionsAre p library)
include asked

theorem addTransition_observing (source : StateIndex) (t : TransitionDef) :
    Observing p (addTransition library source t) := by
  unfold addTransition
  refine .bind (.of_quiet freshDocument_quiet) fun _ _ => ?_
  refine .bind (.of_quiet (.mapM (fun _ => .lift _) _)) fun _ _ => ?_
  refine .bind (.plain _) fun _ _ => ?_
  refine .bind (.lift fun _ made => actions_customs asked _ made) fun body customs => ?_
  refine .bind (pushTransition_observing customs) fun i _ => ?_
  simp only
  split
  · exact .bind (.of_quiet (addPending_quiet _ _)) fun _ _ => .pure trivial
  · exact .pure trivial

theorem addTransitions_observing (s : StateIndex) (id : String) (kind : StateKind)
    (ts : List TransitionDef) : Observing p (addTransitions library s id kind ts) := by
  have listed (f : StateNode → StateNode) (onEntry : ∀ n, (f n).onEntry = n.onEntry)
      (onExit : ∀ n, (f n).onExit = n.onExit) (invokes : ∀ n, (f n).invokes = n.invokes) :
      Observing p (modifyState s f) := modifyState_observing s fun n asked =>
    ⟨onEntry n ▸ asked.onEntry, onExit n ▸ asked.onExit, invokes n ▸ asked.finalize⟩
  induction ts with
  | nil => exact .pure trivial
  | cons t rest ih =>
    rw [addTransitions]
    refine .bind (addTransition_observing asked s t) fun i _ => ?_
    simp only
    split
    · refine .bind (.of_quiet .get) fun d _ => ?_
      split
      · exact .bind (Q := fun _ => True) (.reject _) fun _ _ =>
          .bind (listed _ (fun _ => rfl) (fun _ => rfl) fun _ => rfl) fun _ _ => ih
      · exact .bind (listed _ (fun _ => rfl) (fun _ => rfl) fun _ => rfl) fun _ _ => ih
    · exact .bind (listed _ (fun _ => rfl) (fun _ => rfl) fun _ => rfl) fun _ _ => ih

theorem invoke_observes (i : InvokeDef) :
    Observes p (invoke library i) fun node => Action.customsOfAll p node.finalize := by
  have parts : Observes p (invokeNode library i)
      fun node => Action.customsOfAll p node.finalize := by
    refine .bind (.of_quiet freshDocument_quiet) fun _ _ => ?_
    refine .bind (.plain _) fun _ _ => .bind (.plain _) fun _ _ => ?_
    refine .bind (.of_quiet (.mapM (fun _ => .lift _) _)) fun _ _ => ?_
    refine .bind (.plain _) fun _ _ => ?_
    refine .bind (.lift fun _ made => actions_customs asked _ made) fun _ customs => ?_
    exact .pure customs
  exact fun d node d' run => parts d node d' (invokeNode_of_invoke run)

theorem addAlone_observing (parent : Option StateIndex) (info : StateInfo) (hasChildren : Bool) :
    Observing p (addAlone library parent info hasChildren) := by
  unfold addAlone
  refine .bind (.of_quiet .get) fun d _ => ?_
  refine .bind (.of_quiet freshDocument_quiet) fun _ _ => ?_
  refine .bind (.of_quiet (stateId_quiet _)) fun id _ => ?_
  split
  · exact .reject _
  · refine .bind (.lift fun _ made => actions_customs asked _ made) fun onEntry entering => ?_
    refine .bind (.lift fun _ made => actions_customs asked _ made) fun onExit leaving => ?_
    refine .bind (.of_quiet (.mapM (fun _ => .bind (.lift _) fun _ => .pure _) _)) fun _ _ => ?_
    refine .bind (.plain _) fun _ _ => ?_
    refine .bind (pushState_observing ⟨entering, leaving, fun _ none => by cases none⟩) fun _ _ => ?_
    refine .bind (addTransitions_observing asked _ _ _ _) fun _ _ => ?_
    refine .bind (.mapM (fun i => invoke_observes asked i) _) fun invokes customs => ?_
    refine .bind (modifyState_observing _ fun n own => ⟨own.onEntry, own.onExit, customs⟩) ?_
    exact fun _ _ => .pure trivial

end Library

theorem addEntry_observing (s : StateIndex) (id : String) (info : StateInfo) (hasChildren : Bool)
    (kids : List StateIndex) : Observing p (addEntry s id info hasChildren kids) := by
  unfold addEntry
  split
  · refine .bind (.of_quiet (initialTargets_keeps _ _ _)) fun _ _ => ?_
    refine .bind (.of_quiet freshDocument_quiet) fun _ _ => ?_
    refine .bind (pushTransition_observing trivial) fun _ _ => ?_
    refine .bind (.of_quiet (addPending_quiet _ _)) fun _ _ => ?_
    exact modifyState_observing _ fun n own => ⟨own.onEntry, own.onExit, own.finalize⟩
  · exact .pure trivial

mutual

theorem addState_observing {library : ActionLibrary} (asked : ActionsAre p library) :
    ∀ (parent : Option StateIndex) (info : StateInfo) (inner : List StateDef),
      Observing p (addState library parent (.mk info inner))
  | parent, info, inner => by
    rw [addState_eq]
    refine .bind (addAlone_observing asked _ _ _) fun own _ => ?_
    refine .bind (addStates_observing asked own.1 inner) fun kids _ => ?_
    refine .bind (modifyState_observing _ fun n own => ⟨own.onEntry, own.onExit, own.finalize⟩) ?_
    refine fun _ _ => .bind (addEntry_observing _ _ _ _ _) fun _ _ => ?_
    simp only
    split
    · exact .bind (Q := fun _ => True) (.reject _) fun _ _ => .pure trivial
    · exact .pure trivial

theorem addStates_observing {library : ActionLibrary} (asked : ActionsAre p library) :
    ∀ (parent : StateIndex) (ds : List StateDef), Observing p (addStates library parent ds)
  | _, [] => by
    rw [addStates]
    exact .pure trivial
  | parent, .mk info inner :: rest => by
    rw [addStates]
    refine .bind (addState_observing asked (some parent) info inner) fun s _ => ?_
    exact .bind (addStates_observing asked parent rest) fun _ _ => .pure trivial

end

end Compile

open Compile

/-- A chart has none but actions that the host's library makes. -/
theorem Chart.compile_customs {p : CustomAction → Prop} {library : ActionLibrary}
    {source : Source.ChartDef} {c : Chart} (asked : ActionsAre p library)
    (compiled : Chart.compile library source = .ok c) : c.Customs p := by
  obtain ⟨_,top,d,built,targeted,_⟩ := compile_parts compiled
  have empty : Draft.Customs p {} := by
    refine ⟨fun s => ⟨?_, ?_, fun i none => ?_⟩, fun t => ?_⟩
    · exact trivial
    · exact trivial
    · cases none
    · exact trivial
  have customs := (addState_observing asked none _ _ _ _ _ built empty).1
  have state (s : Nat) : c.state s = d.state s :=
    congrArg (fun a : Array StateNode => a.getD s default) targeted.states
  refine ⟨fun s => ?_, fun s => ?_, fun t => ?_, fun s => ?_⟩
  · rw [state]
    exact (customs.states s).onEntry
  · rw [state]
    exact (customs.states s).onExit
  · rw [targeted.actions]
    exact customs.transitions t
  · rw [state]
    exact (customs.states s).finalize

section Neatness

variable {D : Realm} {P : Ref → String → Prop} {h k : Heap} {data : Ref} {made : List Value}

/-- A heap has come of another by building values and by writing them along paths of a data
    model. -/
inductive Heap.Furnishes (data : Ref) (h : Heap) : Heap → List Value → Prop where
  | start : Furnishes data h h []
  | build {k : Heap} {made : List Value} (before : Furnishes data h k made) (t : Tree) :
      Furnishes data h (k.build t).1 ((k.build t).2 :: made)
  | write {k k' : Heap} {made : List Value} {path : List String} {v : Value}
      (before : Furnishes data h k made) (own : v ∈ made) (run : k.setPath data path v = .ok k') :
      Furnishes data h k' made

theorem Heap.Furnishes.confines (closes : h.Closes D) (start : Owns D h (.object data))
    (furnishes : h.Furnishes data k made) :
    Confines D h k ∧ Respects P h k ∧ ∀ v ∈ made, Owns D k v := by
  induction furnishes with
  | start => exact ⟨.refl closes, .refl P h, fun _ none => by cases none⟩
  | @build k made _ t ih =>
    obtain ⟨confines,respects,owns⟩ := ih
    obtain ⟨grown,owned⟩ := confines.closes.build t
    refine ⟨confines.trans grown, respects.trans (.extend P (Heap.extends_build k t)), ?_⟩
    intro v held
    rcases List.mem_cons.mp held with rfl | old
    · exact owned
    · exact (owns v old).mono grown.matures
  | @write k k' made path v _ own run ih =>
    obtain ⟨confines,respects,owns⟩ := ih
    have written := confines.closes.setPath (start.mono confines.matures) (owns v own) run
    exact ⟨confines.trans written, respects.trans (Heap.setPath_respects P run),
      fun w held => (owns w held).mono written.matures⟩

/-- Whatever comes of the action, it has built values and written those to the data model. -/
def CustomAction.Neat (action : CustomAction) : Prop :=
  ∀ h data, match action h data with
  | .done h' | .failed h' _ => ∃ made, h.Furnishes data h' made
  | .crashed => True

theorem CustomAction.Neat.behaves {action : CustomAction} (neat : action.Neat) :
    action.Behaves D P := by
  intro h data closes start
  have result := neat h data
  cases run : action h data with
  | done h' =>
    rw [run] at result
    obtain ⟨made,furnishes⟩ := result
    obtain ⟨confines,respects,-⟩ := furnishes.confines closes start (P := P)
    exact ⟨confines, respects⟩
  | failed h' f =>
    rw [run] at result
    obtain ⟨made,furnishes⟩ := result
    obtain ⟨confines,respects,-⟩ := furnishes.confines closes start (P := P)
    exact ⟨confines, respects⟩
  | crashed => trivial

/-- All of the host's actions in the chart are neat. -/
abbrev Chart.Neat (c : Chart) : Prop := c.Customs CustomAction.Neat

theorem Chart.Neat.behaves {c : Chart} (neat : c.Neat) : c.Behaves D P :=
  Chart.Customs.mono (fun _ own => own.behaves) neat

end Neatness

end Statechart

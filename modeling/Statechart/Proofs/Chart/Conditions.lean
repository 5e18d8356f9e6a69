import Statechart.Proofs.Chart.Compiled
import Statechart.Proofs.Expr.Paths

/- Conditions of compiled charts. Each has been read from a text, so what it reads has a name. -/
namespace Statechart

namespace Compile

open Source

variable {α : Type}

/-- Every condition in the draft has been read from a text. -/
def Draft.Phrased (d : Draft) : Prop := ∀ t : Nat, Compile.Phrased (d.transition t)

/-- The conditions that have been added since have been read from texts. -/
def Draft.Phrases (d d' : Draft) : Prop := d.Phrased → d'.Phrased

instance : Lasting Draft.Phrases where
  refl _ := id
  trans first second := fun phrased => second (first phrased)

namespace Draft

variable {d d' : Draft}

theorem phrases_of_same (transitions : d'.transitions = d.transitions) : d.Phrases d' := by
  intro phrased t
  rw [transition, transitions]
  exact phrased t

theorem phrases_push {node : TransitionNode} (pushed : d'.transitions = d.transitions.push node)
    (read : Compile.Phrased node) : d.Phrases d' := by
  intro phrased t
  have old := phrased t
  simp only [transition, pushed, Array.getD_eq_getD_getElem?, Array.getElem?_push] at old ⊢
  split
  · exact read
  · exact old

end Draft

/-- A part of compiling that adds only conditions it has read from texts. -/
abbrev Phrasing (x : CompileM α) : Prop := Keeps Draft.Phrases x

theorem Keeps.phrasing {x : CompileM α} (quiet : Quiet x) : Phrasing x :=
  fun d a d' run => Draft.phrases_of_same (quiet d a d' run).2

theorem modifyState_phrasing (s : StateIndex) (f : StateNode → StateNode) :
    Phrasing (modifyState s f) :=
  fun _ _ _ run => Draft.phrases_of_same (modifyState_ok run).2

theorem pushState_phrasing (node : StateNode) : Phrasing (pushState node) :=
  fun _ _ _ run => Draft.phrases_of_same (pushState_ok run).2

theorem addTransition_phrasing (library : ActionLibrary) (source : StateIndex) (t : TransitionDef) :
    Phrasing (addTransition library source t) := by
  intro d i d' run
  obtain ⟨-,-,node,pushed,-,-,read⟩ := addTransition_ok run
  exact Draft.phrases_push pushed read

theorem addTransitions_phrasing (library : ActionLibrary) (s : StateIndex) (id : String)
    (kind : StateKind) (ts : List TransitionDef) :
    Phrasing (addTransitions library s id kind ts) := by
  induction ts with
  | nil => exact .pure _
  | cons t rest ih =>
    rw [addTransitions]
    refine .bind (addTransition_phrasing library s t) fun i => ?_
    simp only
    split
    · refine .bind .get fun d => ?_
      split
      · exact .bind (.reject _) fun _ => .bind (modifyState_phrasing _ _) fun _ => ih
      · exact .bind (modifyState_phrasing _ _) fun _ => ih
    · exact .bind (modifyState_phrasing _ _) fun _ => ih

theorem addEntry_phrasing (s : StateIndex) (id : String) (info : StateInfo) (hasChildren : Bool)
    (kids : List StateIndex) : Phrasing (addEntry s id info hasChildren kids) := by
  unfold addEntry
  split
  · refine .bind (Keeps.phrasing (initialTargets_keeps _ _ _)) fun _ => ?_
    refine .bind (Keeps.phrasing freshDocument_quiet) fun _ => ?_
    refine .bind (fun _ _ _ run => Draft.phrases_push (pushTransition_ok run).2.2 nofun) fun _ => ?_
    refine .bind (Keeps.phrasing (addPending_quiet _ _)) fun _ => ?_
    exact modifyState_phrasing _ _
  · exact .pure _

theorem addAlone_phrasing (library : ActionLibrary) (parent : Option StateIndex)
    (info : StateInfo) (hasChildren : Bool) :
    Phrasing (addAlone library parent info hasChildren) := by
  unfold addAlone
  refine .bind .get fun d => .bind (Keeps.phrasing freshDocument_quiet) fun _ => ?_
  refine .bind (Keeps.phrasing (stateId_quiet _)) fun id => ?_
  cases structureDefect? id info hasChildren with
  | some defect => exact .reject _
  | none =>
    refine .bind (.lift _) fun _ => .bind (.lift _) fun _ => ?_
    refine .bind (.mapM (fun _ => .bind (.lift _) fun _ => .pure _) _) fun _ => ?_
    refine .bind (.lift _) fun _ => .bind (pushState_phrasing _) fun _ => ?_
    refine .bind (addTransitions_phrasing library _ _ _ _) fun _ => ?_
    refine .bind (.mapM (fun i => Keeps.phrasing (invoke_quiet library i)) _) fun _ => ?_
    exact .bind (modifyState_phrasing _ _) fun _ => .pure _

theorem addState_phrasing (library : ActionLibrary) (parent : Option StateIndex)
    (info : StateInfo) (inner : List StateDef) :
    Phrasing (addState library parent (.mk info inner)) :=
  addState_keeps (addAlone_phrasing library) (fun _ _ => modifyState_phrasing _ _)
    addEntry_phrasing parent info inner

end Compile

namespace Chart

open Compile

variable {library : ActionLibrary} {source : Source.ChartDef} {c : Chart}

/-- Every condition of a compiled chart has been read from a text. -/
theorem compile_phrased (accepted : compile library source = .ok c) (t : Nat) :
    Phrased (c.transition t) := by
  obtain ⟨-,top,d,built,targeted,-⟩ := compile_parts accepted
  have phrased : d.Phrased :=
    addState_phrasing library none _ source.states {} top d built fun _ => nofun
  intro cond condition
  rw [targeted.condition t] at condition
  exact phrased t cond condition

theorem condition_named (accepted : compile library source = .ok c) {t : Nat} {cond : Expr}
    (condition : (c.transition t).condition = some cond) : cond.Named := by
  obtain ⟨text,parsed⟩ := compile_phrased accepted t cond condition
  exact Expr.parse_named parsed

end Chart

end Statechart

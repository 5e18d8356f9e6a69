import Statechart.Proofs.Chart.Compiled

/- Document positions. They are given out in ascending order, so the states of a compiled chart are
   numbered in their own order and can be found again by their positions. -/
namespace Statechart

namespace Compile

open Source

variable {α β : Type}

namespace Draft

/-- The positions of the states, in their order. -/
def documents (d : Draft) : List DocumentId := d.states.toList.map (·.document)

/-- States that have been added since have got positions that were free. -/
structure Numbers (d d' : Draft) : Prop where
  next : d.nextDocument ≤ d'.nextDocument
  added : ∃ more, d'.documents = d.documents ++ more ∧ more.Pairwise (· < ·) ∧
    ∀ n ∈ more, d.nextDocument ≤ n ∧ n < d'.nextDocument

variable {d d' d'' : Draft}

theorem numbers_of_same (states : d'.documents = d.documents)
    (next : d.nextDocument ≤ d'.nextDocument) : Numbers d d' where
  next := next
  added := ⟨[], by simp [states], List.Pairwise.nil, fun n hn => by cases hn⟩

theorem Numbers.trans (first : Numbers d d') (second : Numbers d' d'') : Numbers d d'' := by
  obtain ⟨more,documents,ordered,bounds⟩ := first.added
  obtain ⟨more',documents',ordered',bounds'⟩ := second.added
  refine ⟨Nat.le_trans first.next second.next, more ++ more', ?_, ?_, ?_⟩
  · rw [documents', documents, List.append_assoc]
  · refine List.pairwise_append.mpr ⟨ordered, ordered', ?_⟩
    intro a ha b hb
    exact Nat.lt_of_lt_of_le (bounds a ha).2 (bounds' b hb).1
  · intro n hn
    rcases List.mem_append.mp hn with hn | hn
    · exact ⟨(bounds n hn).1, Nat.lt_of_lt_of_le (bounds n hn).2 second.next⟩
    · exact ⟨Nat.le_trans first.next (bounds' n hn).1, (bounds' n hn).2⟩

end Draft

instance : Lasting Draft.Numbers where
  refl _ := Draft.numbers_of_same rfl (Nat.le_refl _)
  trans first second := first.trans second

/-- A part of compiling that numbers the states it adds. -/
abbrev Numbering (x : CompileM α) : Prop := Keeps Draft.Numbers x

theorem freshDocument_numbering : Numbering freshDocument := by
  intro d a d' run
  cases run
  exact Draft.numbers_of_same rfl (Nat.le_succ _)

theorem addPending_numbering (t : TransitionIndex) (targets : List String) :
    Numbering (addPending t targets) := by
  intro d a d' run
  cases run
  exact Draft.numbers_of_same rfl (Nat.le_refl _)

theorem pushTransition_numbering (t : TransitionNode) : Numbering (pushTransition t) := by
  intro d a d' run
  cases run
  exact Draft.numbers_of_same rfl (Nat.le_refl _)

theorem modifyState_numbering (s : StateIndex) {f : StateNode → StateNode}
    (keeps : ∀ n, (f n).document = n.document) : Numbering (modifyState s f) := by
  intro d a d' run
  cases run
  refine Draft.numbers_of_same ?_ (Nat.le_refl _)
  unfold Draft.documents
  refine List.ext_getElem? fun i => ?_
  simp only [List.getElem?_map, Array.getElem?_toList, Array.getElem?_modify]
  split
  · cases d.states[i]? with
    | none => rfl
    | some n => simp [keeps n]
  · rfl

theorem addTransitions_numbering (library : ActionLibrary) (s : StateIndex) (id : String)
    (kind : StateKind) (ts : List TransitionDef) :
    Numbering (addTransitions library s id kind ts) :=
  addTransitions_keeps
    (addTransition_keeps freshDocument_numbering pushTransition_numbering addPending_numbering
      library s)
    (fun _ => modifyState_numbering s fun _ => rfl) (fun _ => modifyState_numbering s fun _ => rfl)
    id kind ts

theorem addEntry_numbering (s : StateIndex) (id : String) (info : StateInfo) (hasChildren : Bool)
    (kids : List StateIndex) : Numbering (addEntry s id info hasChildren kids) :=
  addEntry_keeps freshDocument_numbering pushTransition_numbering addPending_numbering
    (fun _ _ => modifyState_numbering _ fun _ => rfl) s id info hasChildren kids

theorem Draft.numbers_push {d e : Draft} {node : StateNode} (quiet : e.states = d.states)
    (early : d.nextDocument ≤ node.document) (given : node.document < e.nextDocument) :
    d.Numbers { e with states := e.states.push node } := by
  refine ⟨Nat.le_trans early (Nat.le_of_lt given), [node.document], ?_,
    List.pairwise_singleton _ _, ?_⟩
  · simp [Draft.documents, quiet]
  · intro n hn
    rw [List.mem_singleton] at hn
    exact hn ▸ ⟨early, given⟩

theorem addAlone_numbering (library : ActionLibrary) (parent : Option StateIndex)
    (info : StateInfo) (hasChildren : Bool) :
    Numbering (addAlone library parent info hasChildren) := by
  intro d own d' run
  obtain ⟨-,-,node,e,e₁,e₂,invokes,-,-,-,-,-,document,quiet,next,listed,invoked,given⟩ :=
    addAlone_parts run
  have pushed : d.Numbers { e with states := e.states.push node } :=
    Draft.numbers_push quiet.states (Nat.le_of_eq document.symm)
      (document ▸ Nat.lt_of_succ_le (Nat.le_of_eq next.symm))
  have dressed := addTransitions_numbering library _ _ _ _ _ _ _ listed
  have served : Draft.Numbers _ _ :=
    Keeps.mapM (invoke_keeps freshDocument_numbering library) _ _ _ _ invoked
  exact pushed.trans (dressed.trans (served.trans
    (modifyState_numbering _ (f := fun n => { n with invokes }) (fun _ => rfl) _ _ _ given)))

theorem addState_numbering (library : ActionLibrary) (parent : Option StateIndex)
    (info : StateInfo) (inner : List StateDef) :
    Numbering (addState library parent (.mk info inner)) :=
  addState_keeps (addAlone_numbering library) (fun _ _ => modifyState_numbering _ fun _ => rfl)
    addEntry_numbering parent info inner

end Compile

namespace Chart

open Compile

variable {library : ActionLibrary} {source : Source.ChartDef} {c : Chart}

theorem compile_documents (accepted : compile library source = .ok c) :
    (c.states.toList.map (·.document)).Pairwise (· < ·) := by
  obtain ⟨_,top,d,built,targeted,_⟩ := compile_parts accepted
  obtain ⟨more,documents,ordered,_⟩ :=
    (addState_numbering library none _ source.states {} top d built).added
  have same : c.states = d.states := targeted.states
  have all : d.documents = more := documents.trans (List.nil_append more)
  rw [← all] at ordered
  rw [same]
  exact ordered

/-- The states of a compiled chart are numbered in their own order. -/
theorem document_lt (accepted : compile library source = .ok c) {s t : Nat} (before : s < t)
    (inside : t < c.states.size) : (c.state s).document < (c.state t).document := by
  have ordered := List.pairwise_iff_getElem.mp (compile_documents accepted) s t
    (by simp; omega) (by simpa using inside) before
  have at_s : c.state s = c.states[s] := by
    simp [state, Array.getD_eq_getD_getElem?, Nat.lt_trans before inside]
  have at_t : c.state t = c.states[t] := by
    simp [state, Array.getD_eq_getD_getElem?, inside]
  rw [at_s, at_t]
  simpa using ordered

/-- A state of a compiled chart is found by its position. -/
theorem findDocument_document (accepted : compile library source = .ok c) {s : Nat}
    (inside : s < c.states.size) : c.findDocument? (c.state s).document = some s := by
  unfold findDocument?
  refine List.find?_eq_some_iff_getElem.mpr ⟨by simp, s, by simpa [indices] using inside, ?_, ?_⟩
  · simp [indices]
  · intro t before
    have lt := document_lt accepted before inside
    simpa [indices] using Nat.ne_of_lt lt

end Chart

end Statechart

import Statechart.Proofs.Machine.Custody

/- Every part of a run keeps to the machine's realm. The machine writes past the read-only marks of
   its data model in two places only: where it names itself, and where it binds an event. -/
namespace Statechart

open Heap (Closes Meets Owns Confines Respects)

/-- An event as it is shown: the object that was made for it, and the heap right afterwards. -/
structure Exhibit where
  heap : Heap
  object : Ref

namespace Machine

/-- What is made to show an event. -/
def exhibit (m : Machine) (e : Event) : Exhibit :=
  let (h, r) := e.toObject (m.trace (.event e.type e.name)).heap
  ⟨h, r⟩

/-- What binding an event shows, if the data model takes it. -/
def shows? (m : Machine) (e : Event) : Option Exhibit :=
  match MachineM.bindEvent e m with
  | .ok _ _ => some (m.exhibit e)
  | .error _ _ => none

/-- What looking for something to do shows: the next internal event, if there is nothing to be done
    without one. -/
def finds? (m : Machine) : Option Exhibit :=
  if m.context.done || m.destroyed then none
  else
    match MachineM.selectTransitions none m with
    | .ok [] n =>
      match n.context.internalQueue with
      | [] => none
      | e :: rest => shows? { n with context := { n.context with internalQueue := rest } } e
    | _ => none

/-- What the next step shows. -/
def hears? (m : Machine) : Option Exhibit :=
  match m.control with
  | .macrostep => m.finds?
  | _ => none

/-- What taking an input shows. -/
def takes? (m : Machine) : Input → Option Exhibit
  | .event e =>
    match m.control with
    | .waiting => shows? { m with steps := 0 } e
    | _ => none
  | _ => none

theorem takes?_event {m : Machine} (waiting : m.control = .waiting) (e : Event) :
    m.takes? (.event e) = shows? { m with steps := 0 } e := by
  simp only [takes?]
  split
  · rfl
  · exact absurd waiting ‹_›

theorem shows?_of_ok {m n : Machine} {e : Event} (run : MachineM.bindEvent e m = .ok () n) :
    m.shows? e = some (m.exhibit e) := by
  rw [shows?, run]

end Machine

namespace MachineM

open Machine

variable {α : Type} {D : Realm} {P : Ref → String → Prop} {m n : Machine} {v : Value}

section Variables

theorem requireHeap_obeys (abides : m.Abides D) {f : Heap → Except ValueError Heap}
    (change : ∀ h, f m.heap = .ok h → Confines D m.heap h ∧ Respects P m.heap h) :
    ObeysAt D P (requireHeap f) m := by
  unfold ObeysAt Obeys Leads requireHeap
  cases run : f m.heap with
  | ok h => exact ⟨.withHeap abides (change h run).1 (change h run).2, trivial⟩
  | error e => exact .refl abides

/-- Where read-only entries stay, the variable has the value already. -/
def Spared (P : Ref → String → Prop) (m : Machine) (key : String) (v : Value) : Prop :=
  P m.context.dataModel key → m.heap.slot? m.context.dataModel key = some ⟨v, true⟩

theorem Spared.along {key : String} (spared : Spared P m key v) (minds : Minds D P m n) :
    Spared P n key v := by
  intro kept
  rw [minds.data] at kept ⊢
  exact minds.respects _ key _ kept (spared kept) rfl

theorem define_obeys (abides : m.Abides D) {key : String} (owns : Owns D m.heap v)
    (spared : ∀ h, m.heap.define m.context.dataModel key v true = .ok h → Spared P m key v) :
    ObeysAt D P (defineVariable key v) m := by
  refine .read (requireHeap_obeys abides fun h run => ?_)
  refine ⟨abides.closes.writeEntry abides.data owns run, ?_⟩
  obtain ⟨o,written⟩ := Heap.writeEntry_ok run
  apply written.respects
  intro kept old look _
  have found : m.heap.object? m.context.dataModel = some o := by
    rw [Heap.object?, written.before]
  have there := spared h run kept
  rw [Heap.slot?, found, Option.bind_some, look] at there
  cases there
  rfl

/-- Where the read-only entries for its names stay, the machine has named itself already. -/
structure Named (P : Ref → String → Prop) (m : Machine) : Prop where
  session : Spared P m "_sessionid" (.string m.options.sessionId)
  chart : Spared P m "_name" (Event.textOrUndefined m.chart.name)

theorem Named.along (named : Named P m) (minds : Minds D P m n) : Named P n where
  session := by
    rw [minds.options]
    exact named.session.along minds
  chart := by
    rw [minds.chart]
    exact named.chart.along minds

theorem textOrUndefined_bare (t : Option String) : (Event.textOrUndefined t).ref? = none := by
  cases t with
  | none => rfl
  | some s => rfl

theorem bindSystemVariables_obeys (abides : m.Abides D) (named : Named P m) :
    ObeysAt D P bindSystemVariables m := by
  refine .read (.bind (define_obeys abides (.of_bare rfl) fun _ _ => named.session) ?_)
  intro _ n minds _
  exact define_obeys (minds.abides abides) (.of_bare (textOrUndefined_bare _)) fun _ _ =>
    named.chart.along minds

theorem declare_obeys (abides : m.Abides D) (d : DataNode) : ObeysAt D P (declare d) m := by
  have put {k : Machine} {w : Value} (minds : Minds D P m k) (owns : Owns D k.heap w) :
      ObeysAt D P (requireHeap fun h => h.set m.context.dataModel d.id w) k := by
    have abides := minds.abides abides
    refine requireHeap_obeys abides fun h run => ?_
    exact ⟨abides.closes.writeEntry (minds.data ▸ abides.data) owns run,
      Heap.writeEntry_respects P run⟩
  refine .read ?_
  simp only
  split
  · rename_i args given
    have own := (Option.filter_eq_some_iff.mp given).1
    have owns := abides.closes.get (abides.arguments args own) d.id
    exact .bind (.pure (Q := fun v k => Owns D k.heap v) abides owns)
      fun v k minds owns => put minds owns
  · exact .bind (evaluateOr_obeys abides d.expr) fun v k minds owns => put minds owns

theorem declareAll_obeys (abides : m.Abides D) (ds : List DataNode) :
    ObeysAt D P (ds.forM declare) m :=
  .forM abides fun d _ _ minds => declare_obeys (minds.abides abides) d

theorem initializeData_obeys (abides : m.Abides D) (named : Named P m) :
    ObeysAt D P initializeData m := by
  refine .bind (bindSystemVariables_obeys abides named) fun _ n minds _ => ?_
  exact .read (declareAll_obeys (minds.abides abides) _)

theorem declareMissing_obeys (abides : m.Abides D) (d : DataNode) :
    ObeysAt D P (declareMissing d) m := by
  refine .read ?_
  split
  · refine requireHeap_obeys abides fun h run => ?_
    exact ⟨abides.closes.writeEntry abides.data (.of_bare rfl) run, Heap.writeEntry_respects P run⟩
  · exact .pure abides trivial

theorem setUp_obeys (abides : m.Abides D) (named : Named P m) (c : Chart) :
    ObeysAt D P (setUp c) m := by
  refine .bind (bindSystemVariables_obeys abides named) fun _ n minds _ => ?_
  have abides := minds.abides abides
  exact .forM abides fun d _ _ minds => declareMissing_obeys (minds.abides abides) d

/-- The object for an event is made of new containers, and leads to constant ones only. -/
theorem toObject_confines {h : Heap} (closes : h.Closes D) {e : Event} (meets : Meets D h e.data) :
    h.Extends (e.toObject h).1 ∧ Confines D h (e.toObject h).1 ∧
      Owns D (e.toObject h).1 (.object (e.toObject h).2) := by
  have copied : h.Extends (h.deepClone e.data .constant).1 :=
    (Heap.deepClone_carries closes.sound meets.finds .constant).grown
  obtain ⟨confines,owns⟩ := closes.deepClone meets .constant
  have level := fun s => Heap.deepClone_level (s := s) closes.sound meets.finds .constant
  generalize copy : h.deepClone e.data .constant = made at copied confines owns level
  obtain ⟨k,w⟩ := made
  simp only [Event.toObject, copy]
  dsimp only at copied confines owns level
  generalize entry : (⟨.constant, _, none⟩ : ObjectCell) = o
  have values (u : Value) (held : u ∈ (Cell.object o).values) : u = w ∨ u.ref? = none := by
    subst entry
    simp only [Cell.values, List.map_cons, List.map_nil, List.mem_cons, List.not_mem_nil,
      or_false] at held
    rcases held with rfl | rfl | rfl | rfl | rfl | rfl | rfl
    · exact Or.inr rfl
    · exact Or.inr rfl
    · exact Or.inr (textOrUndefined_bare _)
    · exact Or.inr (textOrUndefined_bare _)
    · exact Or.inr (textOrUndefined_bare _)
    · exact Or.inr (textOrUndefined_bare _)
    · exact Or.inl rfl
  have owned (u : Value) (held : u ∈ (Cell.object o).values) : Owns D k u := by
    rcases values u held with rfl | bare
    · exact owns
    · exact .of_bare bare
  have sound := confines.closes.sound.allocate (c := .object o) (fun u held => (owned u held).finds) (by
    intro _ u held s own
    rcases values u held with rfl | bare
    · exact level s own
    · rw [bare] at own
      cases own)
  have grown := Heap.extends_alloc k (.object o)
  have fresh := confines.closes.fresh k.size (Nat.le_refl _)
  refine ⟨copied.trans grown, confines.trans (.extend confines.closes grown sound ?_),
    ⟨⟨o, Heap.cell?_alloc _ _⟩, ?_⟩, ?_⟩
  · intro r new u held s own
    by_cases last : r = k.size
    · subst last
      rw [Heap.children_of_cell (Heap.cell?_alloc k (.object o))] at held
      have later := (owned u held).mono (Heap.Matures.extend grown sound)
      exact ⟨later.near s own, later.own s own⟩
    · have inside := Heap.lt_size_of_child held
      rw [Heap.size_alloc] at inside
      exact absurd (Nat.lt_of_le_of_ne new (Ne.symm last)) (Nat.not_lt.mpr (Nat.le_of_lt_succ inside))
  · intro r own
    cases own
    exact fresh.1
  · intro r own
    cases own
    exact Or.inl fresh.2

/-- Binding an event passes over the read-only mark of the event that was bound before. -/
theorem bindEvent_obeys (abides : m.Abides D) {e : Event} (meets : Meets D m.heap e.data)
    (unbound : ∀ n, bindEvent e m = .ok () n → ¬ P m.context.dataModel "_event") :
    ObeysAt D P (bindEvent e) m := by
  have traced : Minds D P m (m.trace (.event e.type e.name)) := .trace abides _
  have rest : bindEvent e m = defineVariable "_event"
      (.object (e.toObject (m.trace (.event e.type e.name)).heap).2)
      ((m.trace (.event e.type e.name)).withHeap
        (e.toObject (m.trace (.event e.type e.name)).heap).1) := rfl
  have data := traced.data
  have abides' := traced.abides abides
  generalize m.trace (.event e.type e.name) = k at traced rest data abides'
  obtain ⟨grown,confines,owns⟩ := toObject_confines abides'.closes (meets.mono traced.matures)
  have shown : Minds D P k (k.withHeap (e.toObject k.heap).1) :=
    .withHeap abides' confines (.extend P grown)
  refine .of_eq (traced.trans shown) rest (define_obeys (shown.abides abides') owns ?_)
  intro h defined kept
  refine absurd (data ▸ kept) (unbound ((k.withHeap (e.toObject k.heap).1).withHeap h) ?_)
  rw [rest, defineVariable, get_bind, requireHeap]
  rw [show (k.withHeap (e.toObject k.heap).1).heap.define _ _ _ _ = Except.ok h from defined]

end Variables

section Microstep

/-- What a machine waits with next is within its realm. -/
def Carries (D : Realm) (control : Control) (m : Machine) : Prop :=
  ∀ v ∈ control.values, Meets D m.heap v

theorem carries_nothing {control : Control} (nothing : control.values = []) :
    Carries D control m := fun v held => by
  rw [nothing] at held
  cases held

theorem trace_obeys (abides : m.Abides D) (r : TraceRecord) :
    ObeysAt D P (MachineM.update (·.trace r)) m := .update (.trace abides r)

theorem left_minds (abides : m.Abides D) (s : StateIndex) : Minds D P m (left m s) := by
  refine .shift abides rfl rfl rfl fun v held => Or.inl ?_
  simp only [left, holdings, Machine.deactivate, Machine.cancelInvocationsOf, List.flatMap_append,
    List.mem_append, List.mem_flatMap, List.mem_map, List.mem_cons] at held ⊢
  rcases held with (queued | leaving | ⟨e,⟨i,_,rfl⟩,none⟩) | rest
  · exact Or.inl (Or.inl queued)
  · exact Or.inl (Or.inr leaving)
  · cases none
  · exact Or.inr rest

theorem exitState_obeys (abides : m.Abides D) (behave : m.chart.Behaves D P) (s : StateIndex) :
    ObeysAt D P (exitState s) m := by
  refine .read (.bind (trace_obeys abides _) fun _ n minds _ => ?_)
  have abides := minds.abides abides
  refine .bind (executeBlock_obeys abides (behave.onExit s)) fun _ k minds _ => ?_
  have abides := minds.abides abides
  have leaves : Minds D P k (left k s) := left_minds abides s
  exact .bind (.update leaves) fun _ n minds _ => trace_obeys (minds.abides abides) _

theorem exitStates_obeys (abides : m.Abides D) (behave : m.chart.Behaves D P)
    (enabled : List TransitionIndex) : ObeysAt D P (exitStates enabled) m := by
  have recorded : Minds D P m { m with context := { m.context with
      statesToInvoke := m.context.statesToInvoke.filter
        (!(m.chart.exitSet m.context.history m.context.configuration enabled).contains ·)
      history := m.chart.recordAll m.context.configuration
        (m.chart.exitSet m.context.history m.context.configuration enabled) m.context.history } } :=
    .shift abides rfl rfl rfl fun _ held => Or.inl held
  refine .of_eq recorded rfl (.forM (recorded.abides abides) fun s _ n minds => ?_)
  exact exitState_obeys (minds.abides (recorded.abides abides))
    (minds.behaves (recorded.behaves behave)) s

theorem performTransitions_obeys (abides : m.Abides D) (behave : m.chart.Behaves D P)
    (enabled : List TransitionIndex) : ObeysAt D P (performTransitions enabled) m := by
  refine .forM abides fun t _ n minds => ?_
  have abides := minds.abides abides
  have behave := minds.behaves behave
  refine .read (.bind (trace_obeys abides _) fun _ k minds _ => ?_)
  have abides := minds.abides abides
  refine .bind (executeBlock_obeys abides (behave.actions t)) fun _ n minds _ => ?_
  exact trace_obeys (minds.abides abides) _

theorem enterFinal_obeys (abides : m.Abides D) (s : StateIndex) :
    ObeysAt D P (enterFinal s) m := by
  refine .read (.bind (evaluateOr_obeys abides _) fun data n minds owns => ?_)
  have abides := minds.abides abides
  simp only
  split
  · refine .update (.shift abides rfl rfl rfl fun v held => ?_)
    simp only [holdings, List.mem_append, List.mem_cons] at held ⊢
    rcases held with old | rfl | old
    · exact Or.inl (Or.inl old)
    · exact Or.inr owns.toMeets
    · exact Or.inl (Or.inr (Or.inr old))
  · refine .bind (.update (.enqueue abides owns.toMeets)) fun _ k minds _ => ?_
    have abides := minds.abides abides
    split
    · refine .read ?_
      split
      · exact .update (.enqueue abides (Owns.of_bare rfl).toMeets)
      · exact .pure abides trivial
    · exact .pure abides trivial

theorem enterByHistory_obeys {c : Chart} (abides : m.Abides D) (behave : c.Behaves D P)
    (e : EntrySet) (s : StateIndex) : ObeysAt D P (enterByHistory e c s) m := by
  have arrival {k : Machine} (abides : k.Abides D) : ObeysAt D P (arrive c s) k := by
    refine .bind (trace_obeys abides _) fun _ n minds _ => ?_
    split
    · exact enterFinal_obeys (minds.abides abides) s
    · exact .pure (minds.abides abides) trivial
  unfold enterByHistory
  simp only
  split
  · refine .bind (executeBlock_obeys abides (behave.actions _)) fun _ n minds _ => ?_
    exact arrival (minds.abides abides)
  · exact arrival abides

theorem afterActivation_obeys {c : Chart} (abides : m.Abides D) (behave : c.Behaves D P)
    (e : EntrySet) (s : StateIndex) : ObeysAt D P (afterActivation e c s) m := by
  refine .bind (executeBlock_obeys abides (behave.onEntry s)) fun _ n minds _ => ?_
  have abides := minds.abides abides
  simp only
  split
  · split
    · refine .bind (executeBlock_obeys abides (behave.actions _)) fun _ n minds _ => ?_
      exact enterByHistory_obeys (minds.abides abides) behave e s
    · exact enterByHistory_obeys abides behave e s
  · exact enterByHistory_obeys abides behave e s

theorem enterState_obeys (abides : m.Abides D) (behave : m.chart.Behaves D P) (e : EntrySet)
    (s : StateIndex) : ObeysAt D P (enterState e s) m := by
  rw [enterState_eq]
  refine .read (.bind (trace_obeys abides _) fun _ n minds _ => ?_)
  have abides := minds.abides abides
  have active : Minds D P n (n.activate s) :=
    .shift abides rfl rfl rfl fun _ held => Or.inl held
  refine .bind (.update active) fun _ k minds _ => ?_
  exact afterActivation_obeys (minds.abides abides) behave e s

theorem enterStates_obeys (abides : m.Abides D) (behave : m.chart.Behaves D P)
    (enabled : List TransitionIndex) : ObeysAt D P (enterStates enabled) m := by
  refine .read ?_
  split
  · exact .forM abides fun s _ _ minds =>
      enterState_obeys (minds.abides abides) (minds.behaves behave) _ s
  · exact .throw abides _

theorem microstep_obeys (abides : m.Abides D) (behave : m.chart.Behaves D P)
    (enabled : List TransitionIndex) : ObeysAt D P (microstep enabled) m := by
  refine .bind (exitStates_obeys abides behave enabled) fun _ n minds _ => ?_
  have abides := minds.abides abides
  have behave := minds.behaves behave
  refine .bind (performTransitions_obeys abides behave enabled) fun _ n minds _ => ?_
  exact enterStates_obeys (minds.abides abides) (minds.behaves behave) enabled

end Microstep

section Parts

theorem reach_obeys (abides : m.Abides D) (point : LifePoint) :
    ObeysAt D P (MachineM.update (·.reach point)) m := .update (.reach abides point)

theorem pure_obeys (abides : m.Abides D) {c : Control} (nothing : c.values = []) :
    Obeys D P (pure c) m (Carries D) := .pure abides (carries_nothing nothing)

/-- Entering the initial configuration, once the data has been declared. -/
def settleIn (c : Chart) : MachineM Control :=
  match (c.state Chart.root).initial with
  | none => throw (.fault (.infrastructure "chart root has no initial transition"))
  | some t => do
    enterStates [t]
    MachineM.update fun m => { m with context := { m.context with initialized := true } }
    return .effects .macrostep

theorem enterInitial_eq (c : Chart) : enterInitial c = initializeData >>= fun _ => settleIn c := rfl

theorem settleIn_obeys (abides : m.Abides D) (behave : m.chart.Behaves D P) (c : Chart) :
    Obeys D P (settleIn c) m (Carries D) := by
  unfold settleIn
  split
  · exact .throw abides _
  · refine .bind (enterStates_obeys abides behave _) fun _ n minds _ => ?_
    have abides := minds.abides abides
    refine .bind (.update (.shift abides rfl rfl rfl fun _ held => Or.inl held)) ?_
    exact fun _ n minds _ => pure_obeys (minds.abides abides) rfl

theorem enterInitial_obeys (abides : m.Abides D) (behave : m.chart.Behaves D P)
    (named : Named P m) (c : Chart) : Obeys D P (enterInitial c) m (Carries D) := by
  rw [enterInitial_eq]
  refine .bind (initializeData_obeys abides named) fun _ n minds _ => ?_
  exact settleIn_obeys (minds.abides abides) (minds.behaves behave) c

theorem start_obeys (abides : m.Abides D) (behave : m.chart.Behaves D P) (named : Named P m) :
    Obeys D P start m (Carries D) := by
  have begun : Minds D P m (m.reach .started) := .reach abides _
  have abides' := begun.abides abides
  cases entered : m.context.initialized with
  | false =>
    refine .of_eq begun (start_first entered) ?_
    exact enterInitial_obeys abides' (begun.behaves behave) (named.along begun) _
  | true =>
    have run := start_again entered
    by_cases done : m.context.done = true
    · rw [if_pos done] at run
      have ended : Minds D P (m.reach .started) ((m.reach .started).reach .completed) :=
        .reach abides' _
      exact .of_eq (begun.trans ended) run
        (pure_obeys (ended.abides abides') (c := .exited .completed) rfl)
    · rw [if_neg done] at run
      exact .of_eq begun run (pure_obeys abides' (c := .macrostep) rfl)

theorem complete_obeys (abides : m.Abides D) (behave : m.chart.Behaves D P) :
    Obeys D P complete m (Carries D) := by
  refine .read (.bind (.forM abides fun s _ n minds => ?_) fun _ n minds _ => ?_)
  · have abides := minds.abides abides
    refine .bind (executeBlock_obeys abides (behave.onExit s)) fun _ k minds _ => ?_
    have abides := minds.abides abides
    have leaves : Minds D P k (left k s) := left_minds abides s
    exact .bind (.update leaves) fun _ _ minds _ => trace_obeys (minds.abides abides) _
  · have abides := minds.abides abides
    refine .bind (.update (.shift abides rfl rfl rfl fun _ held => Or.inl held)) ?_
    exact fun _ k minds _ => pure_obeys (minds.abides abides) rfl

theorem destroy_obeys (abides : m.Abides D) : Obeys D P destroy m (Carries D) := by
  refine .bind (.update (.shift abides rfl rfl rfl fun v held => Or.inl ?_)) ?_
  · simp only [holdings, List.mem_append, List.mem_flatMap, List.mem_map] at held ⊢
    rcases held with (queued | ⟨e,⟨i,_,rfl⟩,none⟩) | rest
    · exact Or.inl (Or.inl queued)
    · cases none
    · exact Or.inr rest
  · exact fun _ n minds _ => pure_obeys (minds.abides abides) rfl

theorem suspend_obeys (abides : m.Abides D) : Obeys D P suspend m (Carries D) := by
  have suspended {k : Machine} (abides : k.Abides D) : Obeys D P (do
      MachineM.update (·.reach .suspended)
      return Control.exited .suspended) k (Carries D) :=
    .bind (reach_obeys abides _) fun _ n minds _ => pure_obeys (minds.abides abides) rfl
  refine .read ?_
  simp only
  split
  · split
    · rename_i b _
      have saved : Minds D P m { m with saved := some b } :=
        .shift abides rfl rfl rfl fun _ held => Or.inl held
      exact .of_eq saved rfl (suspended (saved.abides abides))
    · exact .throw abides _
  · exact suspended abides

theorem pass_obeys (abides : m.Abides D) (behave : m.chart.Behaves D P)
    (enabled : List TransitionIndex) : Obeys D P (pass enabled) m (Carries D) := by
  have counted : Minds D P m { m with steps := m.steps + 1 } :=
    .shift abides rfl rfl rfl fun _ held => Or.inl held
  have abides' := counted.abides abides
  have run := pass_run enabled m
  by_cases spent : m.options.maxMicrosteps < m.steps + 1
  · rw [if_pos spent] at run
    exact .of_eq (.refl abides) run (.throw abides _)
  · rw [if_neg spent] at run
    by_cases nothing : enabled.isEmpty = true
    · rw [if_pos nothing] at run
      exact .of_eq counted run (pure_obeys abides' (c := .macrostep) rfl)
    · rw [if_neg nothing] at run
      refine .of_eq counted run (.bind (microstep_obeys abides' (counted.behaves behave) enabled) ?_)
      exact fun _ n minds _ => pure_obeys (minds.abides abides') rfl

theorem settleDown_obeys (abides : m.Abides D) : Obeys D P settleDown m (Carries D) :=
  ⟨.shift abides rfl rfl rfl fun _ held => Or.inl held, carries_nothing rfl⟩

theorem popped_minds (abides : m.Abides D) {e : Event} {rest : List Event}
    (queued : m.context.internalQueue = e :: rest) : Meets D m.heap e.data ∧
      Minds D P m { m with context := { m.context with internalQueue := rest } } := by
  constructor
  · apply abides.holdings
    simp [holdings, queued]
  · refine .shift abides rfl rfl rfl fun v held => Or.inl ?_
    simp only [holdings, queued, List.mem_append, List.map_cons, List.mem_cons] at held ⊢
    tauto

/-- Looking leaves the event alone that is shown, unless it finds the next one. -/
theorem look_obeys (abides : m.Abides D)
    (unheard : P m.context.dataModel "_event" → m.finds? = none) : ObeysAt D P look m := by
  refine .read ?_
  split
  · exact .pure abides trivial
  · rename_i going
    split
    · exact .pure abides trivial
    · rename_i spared
      refine .bind_run (selectTransitions_obeys abides none) fun enabled n selected minds _ => ?_
      have abides := minds.abides abides
      split
      · exact .pure abides trivial
      · rename_i nothing
        refine .read ?_
        cases queued : n.context.internalQueue with
        | nil => exact .pure abides trivial
        | cons e rest =>
          obtain ⟨meets,popped⟩ := popped_minds (P := P) abides queued
          have abides := popped.abides abides
          refine .of_eq popped rfl (.bind (bindEvent_obeys abides meets fun k bound kept => ?_) ?_)
          · have found : ∃ x, m.finds? = some x := by
              have none_enabled : enabled = [] := by simpa using nothing
              subst none_enabled
              simp only [finds?, going, spared, selected, queued, shows?_of_ok bound]
              exact ⟨_, rfl⟩
            obtain ⟨x,found⟩ := found
            rw [unheard (minds.data ▸ kept)] at found
            cases found
          · intro _ k minds _
            refine .bind (selectTransitions_obeys (minds.abides abides) _) fun _ _ minds' _ => ?_
            exact .pure (minds'.abides (minds.abides abides)) trivial

theorem macrostep_obeys (abides : m.Abides D) (behave : m.chart.Behaves D P)
    (unheard : P m.context.dataModel "_event" → m.finds? = none) :
    Obeys D P macrostep m (Carries D) := by
  rw [macrostep_eq]
  refine .bind (look_obeys abides unheard) fun found n minds _ => ?_
  have abides := minds.abides abides
  have behave := minds.behaves behave
  cases found with
  | completion => exact complete_obeys abides behave
  | destruction => exact destroy_obeys abides
  | stability => exact settleDown_obeys abides
  | transitions event enabled => exact pass_obeys abides behave enabled

theorem serviceValues_obeys (abides : m.Abides D) (i : InvokeNode) :
    Obeys D P (serviceValues i) m fun values n =>
      Meets D n.heap values.2.1 ∧ Meets D n.heap values.2.2 := by
  have parameters {k : Machine} (abides : k.Abides D) (source : Option String) {content : Value}
      (meets : Meets D k.heap content) : Obeys D P (do
        let parameters ← if i.params.isEmpty then pure .undefined else paramsObject i.params
        return (source, content, parameters)) k fun values n =>
          Meets D n.heap values.2.1 ∧ Meets D n.heap values.2.2 := by
    simp only
    split
    · refine .bind (.pure (Q := fun v n => Owns D n.heap v) abides (.of_bare rfl)) ?_
      intro v n minds owns
      exact .pure (minds.abides abides) ⟨meets.mono minds.matures, owns.toMeets⟩
    · refine .bind (paramsObject_obeys abides _) fun v n minds owns => ?_
      exact .pure (minds.abides abides) ⟨meets.mono minds.matures, owns.toMeets⟩
  refine .bind (textOf_obeys abides _ _ _) fun source n minds _ => ?_
  have abides := minds.abides abides
  simp only
  split
  · refine .bind (evaluate_obeys abides _) fun v n minds owns => ?_
    exact parameters (minds.abides abides) source owns.toMeets
  · refine .bind (.pure (Q := fun v n => Owns D n.heap v) abides (.of_bare rfl)) ?_
    exact fun v n minds owns => parameters (minds.abides abides) source owns.toMeets

theorem invokeValues_obeys (abides : m.Abides D) (i : InvokeNode) (id : InvokeId) :
    Obeys D P (invokeValues i id) m fun values n =>
      Meets D n.heap values.2.1 ∧ Meets D n.heap values.2.2 := by
  rw [invokeValues_eq]
  split
  · refine .bind (assign_obeys abides _ (.of_bare rfl)) fun _ n minds _ => ?_
    exact serviceValues_obeys (minds.abides abides) i
  · exact serviceValues_obeys abides i

theorem prepareInvoke_obeys (abides : m.Abides D) (s : StateIndex) (node : Nat) (i : InvokeNode) :
    Obeys D P (prepareInvoke s node i) m fun data n =>
      Meets D n.heap data.content ∧ Meets D n.heap data.parameters := by
  rw [prepareInvoke_eq]
  have named : ObeysAt D P (invokeIdOf (m.chart.state s) i) m := by
    unfold invokeIdOf
    split
    · exact .pure abides trivial
    · refine .bind (freshId_obeys abides) fun _ n minds _ => ?_
      exact .pure (minds.abides abides) trivial
  refine .read (.bind named fun id n minds _ => ?_)
  have abides := minds.abides abides
  refine .bind (invokeValues_obeys abides i id) fun values n minds meets => ?_
  have abides := minds.abides abides
  refine .bind (freshId_obeys abides) fun unique k minds _ => ?_
  have abides := minds.abides abides
  have noted (entry : Invocation) : Minds D P k { k with
      context := { k.context with invocations := k.context.invocations ++ [entry] } } :=
    .shift abides rfl rfl rfl fun _ held => Or.inl held
  refine .bind (.update (noted _)) fun _ n minds' _ => ?_
  have both := minds.trans minds'
  exact .pure (minds'.abides abides) ⟨meets.1.mono both.matures, meets.2.mono both.matures⟩

theorem goOn_obeys (abides : m.Abides D) (pending : List (StateIndex × Nat)) :
    Obeys D P (goOn pending) m (Carries D) := by
  cases pending with
  | nil =>
    have waits {k : Machine} (abides : k.Abides D) : Obeys D P (do
        MachineM.update (·.reach .waiting)
        return Control.waiting) k (Carries D) :=
      .bind (reach_obeys abides _) fun _ n minds _ => pure_obeys (minds.abides abides) rfl
    rw [goOn]
    refine .read ?_
    split
    · exact pure_obeys abides rfl
    · simp only
      split
      · refine .bind (.update (.shift abides rfl rfl rfl fun _ held => Or.inl held)) ?_
        intro _ n minds _
        have abides := minds.abides abides
        refine .bind (reach_obeys abides _) fun _ n minds _ => ?_
        exact waits (minds.abides abides)
      · exact waits abides
  | cons invoke rest =>
    obtain ⟨s,node⟩ := invoke
    unfold Obeys Leads
    rw [goOn_run]
    cases (m.chart.state s).invokes[node]? with
    | none => exact ⟨.refl abides, carries_nothing rfl⟩
    | some i =>
      have prepared := prepareInvoke_obeys (P := P) abides s node i
      unfold Obeys Leads at prepared
      simp only
      cases run : prepareInvoke s node i m with
      | ok data n =>
        rw [run] at prepared
        refine ⟨prepared.1, fun v held => ?_⟩
        simp only [Control.values, List.mem_cons, List.not_mem_nil, or_false] at held
        rcases held with rfl | rfl
        · exact prepared.2.1
        · exact prepared.2.2
      | error stop n =>
        rw [run] at prepared
        cases stop with
        | failure f =>
          exact ⟨prepared.trans (.raiseFailure (prepared.abides abides) f), carries_nothing rfl⟩
        | fault f => exact prepared
        | crash => exact prepared

theorem passToServices_obeys (abides : m.Abides D) (behave : m.chart.Behaves D P) {e : Event}
    (meets : Meets D m.heap e.data) : ObeysAt D P (passToServices e) m := by
  refine .read (.forM abides fun i _ n minds => ?_)
  have abides := minds.abides abides
  split
  · split
    · rename_i node found
      exact executeBlock_obeys abides (behave.finalize _ node (List.mem_of_getElem? found))
    · exact .throw abides _
  · split
    · refine .update (.emit abides fun v held => ?_)
      rw [List.mem_singleton.mp held]
      exact meets.mono minds.matures
    · exact .pure abides trivial

theorem forget_obeys (abides : m.Abides D) (id : InvokeId) : ObeysAt D P (forget id) m :=
  .update (.shift abides rfl rfl rfl fun _ held => Or.inl held)

/-- What an external event brings once it has been bound. -/
def attend (e : Event) : MachineM Unit := do
  passToServices e
  match e.name.doneInvokeId? with
  | some id => forget id
  | none => pure ()

theorem announce_bind (e : Event) : announce e = bindEvent e >>= fun _ => attend e := rfl

theorem attend_obeys (abides : m.Abides D) (behave : m.chart.Behaves D P) {e : Event}
    (meets : Meets D m.heap e.data) : ObeysAt D P (attend e) m := by
  refine .bind (passToServices_obeys abides behave meets) fun _ n minds _ => ?_
  have abides := minds.abides abides
  split
  · exact forget_obeys abides _
  · exact .pure abides trivial

theorem announce_obeys (abides : m.Abides D) (behave : m.chart.Behaves D P) {e : Event}
    (meets : Meets D m.heap e.data)
    (unbound : ∀ n, bindEvent e m = .ok () n → ¬ P m.context.dataModel "_event") :
    ObeysAt D P (announce e) m := by
  rw [announce_bind]
  refine .bind (bindEvent_obeys abides meets unbound) fun _ n minds _ => ?_
  exact attend_obeys (minds.abides abides) (minds.behaves behave) (meets.mono minds.matures)

theorem respond_obeys (abides : m.Abides D) (behave : m.chart.Behaves D P)
    (enabled : List TransitionIndex) : Obeys D P (respond enabled) m (Carries D) := by
  unfold respond
  simp only
  split
  · have counted : Minds D P m { m with steps := m.steps + 1 } :=
      .shift abides rfl rfl rfl fun _ held => Or.inl held
    refine .bind (.update counted) fun _ n minds _ => ?_
    have abides := minds.abides abides
    refine .bind (microstep_obeys abides (minds.behaves behave) enabled) fun _ n minds _ => ?_
    exact pure_obeys (minds.abides abides) rfl
  · exact pure_obeys abides rfl

theorem process_obeys (abides : m.Abides D) (behave : m.chart.Behaves D P) {e : Event}
    (meets : Meets D m.heap e.data)
    (unheard : P m.context.dataModel "_event" → shows? { m with steps := 0 } e = none) :
    Obeys D P (process e) m (Carries D) := by
  have begun : Minds D P m { m with steps := 0 } :=
    .shift abides rfl rfl rfl fun _ held => Or.inl held
  rw [process_eq]
  have received : ObeysAt D P (receive e) m := by
    have announced : ObeysAt D P (announce e) { m with steps := 0 } := by
      refine announce_obeys (begun.abides abides) behave meets fun n bound kept => ?_
      have nothing := unheard kept
      rw [shows?_of_ok bound] at nothing
      cases nothing
    refine .of_eq begun (receive_eq e m) (.bind announced fun _ n minds _ => ?_)
    exact selectTransitions_obeys (minds.abides (begun.abides abides)) _
  refine .bind received fun enabled n minds _ => ?_
  exact respond_obeys (minds.abides abides) (minds.behaves behave) enabled

theorem takeInput_obeys (abides : m.Abides D) (behave : m.chart.Behaves D P) {input : Input}
    (waiting : m.control = .waiting) (meets : ∀ e, input = .event e → Meets D m.heap e.data)
    (unheard : P m.context.dataModel "_event" → m.takes? input = none) :
    Obeys D P (takeInput input) m (Carries D) := by
  cases input with
  | destroy => exact destroy_obeys abides
  | suspend => exact suspend_obeys abides
  | closed =>
    refine .bind (reach_obeys abides _) fun _ n minds _ => ?_
    exact pure_obeys (minds.abides abides) rfl
  | event e =>
    refine process_obeys abides behave (meets e rfl) fun kept => ?_
    rw [← takes?_event waiting]
    exact unheard kept

theorem afterEffects_obeys (abides : m.Abides D) (next : AfterEffects) :
    Obeys D P (afterEffects next) m (Carries D) := by
  cases next with
  | macrostep => exact pure_obeys abides rfl
  | exit status =>
    refine .bind (reach_obeys abides _) fun _ n minds _ => ?_
    exact pure_obeys (minds.abides abides) rfl

theorem afterStart_obeys (abides : m.Abides D) (data : InvokeData)
    (pending : List (StateIndex × Nat)) (failure : Option Failure) :
    Obeys D P (afterStart data pending failure) m (Carries D) := by
  cases failure with
  | none => exact pure_obeys abides rfl
  | some f =>
    refine .bind (forget_obeys abides _) fun _ n minds _ => ?_
    have abides := minds.abides abides
    refine .bind (.update (.raiseFailure abides f)) fun _ n minds _ => ?_
    exact pure_obeys (minds.abides abides) rfl

end Parts

end MachineM

namespace Machine

open MachineM

variable {D : Realm} {P : Ref → String → Prop} {m n : Machine}

theorem Minds.control (abides : m.Abides D) {control : Control} (carries : Carries D control m) :
    Minds D P m { m with control } := by
  refine .shift abides rfl rfl rfl fun v held => ?_
  simp only [Machine.holdings, List.mem_append, List.mem_cons] at held ⊢
  rcases held with old | old | waiting
  · exact Or.inl (Or.inl old)
  · exact Or.inl (Or.inr (Or.inl old))
  · exact Or.inr (carries v waiting)

theorem Minds.proceed {part : MachineM Control} (abides : m.Abides D)
    (obeys : Obeys D P part m (Carries D)) : Minds D P m (m.proceed part) := by
  have aborted (f : Fault) {k : Machine} (minds : Minds D P m k) :
      Minds D P m (proceed.abort k f) := by
    have abides := minds.abides abides
    have reached (point : LifePoint) : Minds D P k (k.reach point) := .reach abides point
    exact (minds.trans (reached _)).trans
      (.control ((reached _).abides abides) (carries_nothing rfl))
  refine proceed_leads (T := Minds D P m) obeys ?_ ?_ ?_ ?_
  · intro control k _ came
    exact came.1.trans (.control (came.1.abides abides) came.2)
  · exact fun f k minds => aborted f minds
  · exact fun f k minds => aborted _ minds
  · intro k minds
    exact minds.trans (.control (minds.abides abides) (carries_nothing rfl))

/-- A piece of work keeps to the realm. Read-only entries of the data model stay, where the machine
    has named itself and binds no event. -/
theorem Work.minds (abides : m.Abides D) (behave : m.chart.Behaves D P) (named : Named P m)
    (unheard : P m.context.dataModel "_event" → m.hears? = none) (work : Work m n) :
    Minds D P m n := by
  cases work.worked with
  | start => exact .proceed abides (start_obeys abides behave named)
  | macrostep control =>
    refine .proceed abides (macrostep_obeys abides behave fun kept => ?_)
    have nothing := unheard kept
    rwa [hears?, control] at nothing
  | goOn => exact .proceed abides (goOn_obeys abides _)
  | effects control failures =>
    have cleared : Minds D P m { m with effects := [] } := by
      refine .shift abides rfl rfl rfl fun v held => Or.inl ?_
      simp only [Machine.holdings, List.flatMap_nil, List.append_nil, List.mem_append] at held ⊢
      tauto
    have abides := cleared.abides abides
    have told := cleared.trans (.raiseFailures abides failures)
    exact told.trans (.proceed (told.abides ‹_›) (afterEffects_obeys (told.abides ‹_›) _))
  | started control failure => exact .proceed abides (afterStart_obeys abides _ _ failure)

theorem take_minds (abides : m.Abides D) (behave : m.chart.Behaves D P) {input : Input}
    (meets : ∀ e, input = .event e → Meets D m.heap e.data)
    (unheard : P m.context.dataModel "_event" → m.takes? input = none) :
    Minds D P m (m.take input) := by
  by_cases waiting : m.control = .waiting
  · rw [take_waiting waiting]
    exact .proceed abides (takeInput_obeys abides behave waiting meets unheard)
  · rw [take_other waiting]
    exact .refl abides

end Machine

end Statechart

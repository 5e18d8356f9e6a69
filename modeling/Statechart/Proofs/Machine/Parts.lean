import Statechart.Proofs.Machine.Run

/- What the parts of a run keep, and how they can end. Only binding a variable and the limit on
   passes can end a run by a fault. -/
namespace Statechart

/-- The frame without the services. -/
def Machine.outline (m : Machine) : Machine :=
  { m.frame with context := { m.context with internalQueue := [], invocations := [] } }

namespace MachineM

instance : Tolerant (fun m m' : Machine => m'.outline = m.outline) where
  withHeap _ _ := rfl
  freshId _ := rfl
  enqueue _ _ := rfl
  tell _ _ := rfl

variable {α β γ : Type} {R : Machine → Machine → Prop} {P : Interrupt → Prop}

/-- Where a part of a step leads to from `m`: to `Q` if it comes to its end, to `E` if it is
    interrupted. -/
def Leads (x : MachineM α) (m : Machine) (Q : α → Machine → Prop)
    (E : Interrupt → Machine → Prop) : Prop :=
  match x m with
  | .ok a m' => Q a m'
  | .error i m' => E i m'

section Leads

variable {x : MachineM α} {f : α → MachineM β} {m : Machine} {Q Q' : α → Machine → Prop}
  {E E' : Interrupt → Machine → Prop}

theorem Leads.bind {S : β → Machine → Prop} (first : Leads x m Q E)
    (rest : ∀ a m', x m = .ok a m' → Q a m' → Leads (f a) m' S E) : Leads (x >>= f) m S E := by
  simp only [Leads, Bind.bind, EStateM.bind] at first ⊢
  cases run : x m with
  | ok a m' =>
    rw [run] at first
    exact rest a m' run first
  | error i m' =>
    rw [run] at first
    exact first

theorem Leads.mono (h : Leads x m Q E) (ends : ∀ a m', x m = .ok a m' → Q a m' → Q' a m')
    (stops : ∀ i m', E i m' → E' i m') : Leads x m Q' E' := by
  unfold Leads at h ⊢
  cases run : x m with
  | ok a m' =>
    rw [run] at h
    exact ends a m' run h
  | error i m' =>
    rw [run] at h
    exact stops i m' h

theorem Leads.of_eq {y : MachineM α} {n : Machine} (same : x m = y n) (h : Leads y n Q E) :
    Leads x m Q E := by
  unfold Leads at h ⊢
  rw [same]
  exact h

theorem KeepsAt.leads (h : KeepsAt R P x m) : Leads x m (fun _ m' => R m m')
    (fun i m' => R m m' ∧ P i) := h

end Leads

/-- A breakdown, or a variable that the data model does not take. -/
def refused (i : Interrupt) : Prop := i = .crash ∨ ∃ e, i = .fault (.value e)

def survived (i : Interrupt) : Prop := i ≠ .crash

/-- A part may be refused a variable, and be interrupted in other ways besides. -/
class Refusing (P : Interrupt → Prop) : Prop where
  refusal : ∀ e, P (.fault (.value e))

instance : Refusing refused := ⟨fun e => Or.inr ⟨e, rfl⟩⟩

instance : Refusing survived := ⟨fun _ => nofun⟩

theorem Keeps.mono {x : MachineM α} {P' : Interrupt → Prop} (h : Keeps R P x)
    (weaker : ∀ i, P i → P' i) : Keeps R P' x := by
  intro m
  have kept := h m
  unfold KeepsAt at kept ⊢
  cases run : x m with
  | ok a m' =>
    rw [run] at kept
    exact kept
  | error i m' =>
    rw [run] at kept
    exact ⟨kept.1, weaker i kept.2⟩

theorem Keeps.refused {x : MachineM α} (h : Keeps R onlyCrash x) : Keeps R refused x :=
  h.mono fun _ crash => Or.inl crash

section Tolerant

variable [Tolerant R]

section Refusing

variable [Refusing P]

theorem requireHeap_frames (f : Heap → Except ValueError Heap) : Keeps R P (requireHeap f) := by
  intro m
  unfold KeepsAt requireHeap
  cases f m.heap with
  | ok h => exact Writing.withHeap m h
  | error e => exact ⟨Lasting.refl m, Refusing.refusal e⟩

theorem defineVariable_frames (key : String) (v : Value) :
    Keeps R P (defineVariable key v) :=
  Keeps.bind Keeps.get fun _ => requireHeap_frames _

theorem bindEvent_frames (e : Event) : Keeps R P (bindEvent e) := by
  unfold bindEvent
  refine Keeps.bind (Keeps.update fun m => Growing.trace m _) fun _ => ?_
  intro m
  exact .after (Writing.withHeap m (e.toObject m.heap).1) rfl (defineVariable_frames "_event" _ _)

theorem declare_frames (d : DataNode) : Keeps R P (declare d) := by
  unfold declare
  refine Keeps.bind Keeps.get fun m => ?_
  simp only
  split
  · exact Keeps.bind (Keeps.pure _) fun _ => requireHeap_frames _
  · exact Keeps.bind (evaluateOr_frames d.expr) fun _ => requireHeap_frames _

theorem initializeData_frames : Keeps R P initializeData := by
  unfold initializeData bindSystemVariables
  refine Keeps.bind ?_ fun _ => ?_
  · refine Keeps.bind Keeps.get fun m => ?_
    exact Keeps.bind (defineVariable_frames _ _) fun _ => defineVariable_frames _ _
  · exact Keeps.bind Keeps.get fun m => Keeps.forM fun d _ => declare_frames d

end Refusing

/-- A variable that a snapshot did not keep is declared again. -/
def declareMissing (d : DataNode) : MachineM Unit := do
  let m ← get
  if !m.heap.contains m.context.dataModel d.id then
    requireHeap fun h => h.set m.context.dataModel d.id .undefined

/-- What a machine that takes up a run does before it is started. -/
def setUp (c : Chart) : MachineM Unit := do
  bindSystemVariables
  (c.states.toList.flatMap (·.data)).forM declareMissing

theorem setUp_frames (c : Chart) : Keeps R refused (setUp c) := by
  unfold setUp bindSystemVariables
  refine Keeps.bind ?_ fun _ => Keeps.forM fun d _ => ?_
  · refine Keeps.bind Keeps.get fun m => ?_
    exact Keeps.bind (defineVariable_frames _ _) fun _ => defineVariable_frames _ _
  · refine Keeps.bind Keeps.get fun m => ?_
    split
    · exact requireHeap_frames _
    · exact Keeps.pure _

end Tolerant

theorem look_keeps [Tolerant R] (pops : ∀ (m : Machine) (rest : List Event),
    R m { m with context := { m.context with internalQueue := rest } }) : Keeps R refused look := by
  unfold look
  refine Keeps.bind Keeps.get fun m => ?_
  split
  · exact Keeps.pure _
  · split
    · exact Keeps.pure _
    · refine Keeps.bind (selectTransitions_frames none).refused fun enabled => ?_
      split
      · exact Keeps.pure _
      · intro n
        rw [KeepsAt, get_bind]
        cases n.context.internalQueue with
        | nil => exact Lasting.refl n
        | cons e rest =>
          have rest_keeps : Keeps R refused (do
              bindEvent e
              return Found.transitions (some e) (← selectTransitions (some e.name))) :=
            Keeps.bind (bindEvent_frames e) fun _ =>
              Keeps.bind (selectTransitions_frames _).refused fun _ => Keeps.pure _
          exact KeepsAt.after (pops n rest) rfl (rest_keeps _)

theorem pendingInvokes_frame {m n : Machine} (framed : n.frame = m.frame) :
    pendingInvokes n = pendingInvokes m := by
  have same := congrArg pendingInvokes framed
  exact same

theorem look_same : Same Machine.frame refused look := look_keeps fun _ _ => rfl

theorem look_going {m n : Machine} {found : Found} (run : look m = .ok found n)
    (going : found ≠ .completion) : m.context.done = false := by
  rw [look, get_bind] at run
  split at run
  · cases run
    exact absurd rfl going
  · simpa using ‹¬ m.context.done = true›

inductive Looked (m : Machine) : Found → Machine → Prop where
  | completion (done : m.context.done = true) : Looked m .completion m
  | destruction (doomed : m.destroyed = true) : Looked m .destruction m
  | eventless {enabled : List TransitionIndex} {n : Machine} (some : enabled ≠ [])
      (selected : selectTransitions none m = .ok enabled n) :
      Looked m (.transitions none enabled) n
  | stability {n : Machine} (selected : selectTransitions none m = .ok [] n)
      (empty : n.context.internalQueue = []) : Looked m .stability n
  | event {e : Event} {rest : List Event} {enabled : List TransitionIndex} {k l n : Machine}
      (nothing : selectTransitions none m = .ok [] k)
      (queued : k.context.internalQueue = e :: rest)
      (bound : bindEvent e { k with context := { k.context with internalQueue := rest } } = .ok () l)
      (selected : selectTransitions (some e.name) l = .ok enabled n) :
      Looked m (.transitions (.some e) enabled) n

theorem look_ok {m n : Machine} {found : Found} (run : look m = .ok found n) :
    Looked m found n := by
  rw [look, get_bind] at run
  split at run
  · rename_i done
    cases run
    exact .completion done
  · split at run
    · rename_i doomed
      cases run
      exact .destruction doomed
    · obtain ⟨enabled,k,selected,run⟩ := bind_eq_ok run
      cases enabled with
      | cons t rest =>
        cases run
        exact .eventless (List.cons_ne_nil _ _) selected
      | nil =>
        simp only [List.isEmpty_nil, Bool.not_true, Bool.false_eq_true, if_false, get_bind] at run
        cases queue : k.context.internalQueue with
        | nil =>
          rw [queue] at run
          cases run
          exact .stability selected queue
        | cons e rest =>
          rw [queue] at run
          obtain ⟨_,_,popped,run⟩ := bind_eq_ok run
          cases popped
          obtain ⟨_,l,bound,run⟩ := bind_eq_ok run
          obtain ⟨enabled,_,chosen,run⟩ := bind_eq_ok run
          cases run
          exact .event selected queue bound chosen

theorem pass_run (enabled : List TransitionIndex) (m : Machine) :
    pass enabled m =
      if m.options.maxMicrosteps < m.steps + 1 then
        .error (.fault (.liveLock m.options.maxMicrosteps)) m
      else if enabled.isEmpty then .ok .macrostep { m with steps := m.steps + 1 }
      else (microstep enabled >>= fun _ => pure (.effects .macrostep))
        { m with steps := m.steps + 1 } := by
  rw [pass, get_bind]
  simp only [gt_iff_lt]
  split
  · rfl
  · split
    · rfl
    · rfl

/-- A pass is refused at the limit, and is else counted before its transitions are taken. -/
theorem Leads.pass {enabled : List TransitionIndex} {m : Machine} {Q : Control → Machine → Prop}
    {E : Interrupt → Machine → Prop}
    (spent : m.options.maxMicrosteps < m.steps + 1 →
      E (.fault (.liveLock m.options.maxMicrosteps)) m)
    (nothing : Q .macrostep { m with steps := m.steps + 1 })
    (taking : Leads (microstep enabled) { m with steps := m.steps + 1 }
      (fun _ n => Q (.effects .macrostep) n) E) : Leads (pass enabled) m Q E := by
  have run := pass_run enabled m
  by_cases beyond : m.options.maxMicrosteps < m.steps + 1
  · rw [if_pos beyond] at run
    unfold Leads
    rw [run]
    exact spent beyond
  · rw [if_neg beyond] at run
    by_cases empty : enabled.isEmpty = true
    · rw [if_pos empty] at run
      unfold Leads
      rw [run]
      exact nothing
    · rw [if_neg empty] at run
      exact Leads.of_eq run (Leads.bind taking fun _ _ _ after => after)

theorem pass_keeps [Lasting R] {enabled : List TransitionIndex}
    (counted : ∀ m : Machine, R m { m with steps := m.steps + 1 })
    (taking : Keeps R (fun _ => True) (microstep enabled)) :
    Keeps R (fun _ => True) (pass enabled) := by
  intro m
  let n : Machine := { m with steps := m.steps + 1 }
  have after : Leads (microstep enabled) n (fun _ k => R m k) (fun _ k => R m k ∧ True) := by
    have kept := taking n
    unfold KeepsAt at kept
    unfold Leads
    cases run : microstep enabled n with
    | ok a k =>
      rw [run] at kept
      exact Lasting.trans (counted m) kept
    | error i k =>
      rw [run] at kept
      exact ⟨Lasting.trans (counted m) kept.1, trivial⟩
  exact Leads.pass (Q := fun _ k => R m k) (E := fun _ k => R m k ∧ True)
    (fun _ => ⟨Lasting.refl m, trivial⟩) (counted m) after

theorem complete_leads (m : Machine) :
    Leads complete m (fun control m' => control = .effects (.exit .completed) ∧ m'.shell = m.shell)
      (fun i m' => i = .crash ∧ m'.shell = m.shell) := by
  have leaving : Same Machine.shell onlyCrash (m.context.configuration.reverse.forM fun s => do
      let node := m.chart.state s
      executeBlock node.onExit
      update fun m => (m.cancelInvocationsOf s).deactivate s
      update (·.trace (.exited node.id))) := by
    refine Keeps.forM fun s _ => ?_
    refine Keeps.bind (Same.of_frames (fun _ => rfl) (executeBlock_frames _)) fun _ => ?_
    refine Keeps.bind (Keeps.update fun _ => rfl) fun _ => ?_
    exact Same.of_frames (fun _ => rfl) (trace_frames _)
  have left : Leads _ m _ _ := (leaving m).leads
  refine Leads.of_eq (get_bind _ m) (Leads.bind (left.mono (fun _ _ _ same => same) ?_) ?_)
  · exact fun i m' stopped => ⟨stopped.2, stopped.1⟩
  · exact fun _ m' _ same => ⟨rfl, same⟩

/-- What an external event means for one service. -/
def attendTo (c : Chart) (e : Event) (i : Invocation) : MachineM Unit := do
  if e.invokeId = some i.invokeId then
    match (c.state i.state).invokes[i.node]? with
    | some node => executeBlock node.finalize
    | none => throw .crash
  else if i.autoforward then update (·.emit (.forward i.invokeId e))

theorem passToServices_eq (e : Event) (m : Machine) :
    passToServices e m = m.context.invocations.forM (attendTo m.chart e) m := rfl

theorem attendTo_frames (c : Chart) (e : Event) (i : Invocation) :
    Frames onlyCrash (attendTo c e i) := by
  unfold attendTo
  split
  · split
    · exact executeBlock_frames _
    · exact fun m => ⟨.refl m, rfl⟩
  · split
    · exact Keeps.update fun m => .emit m _ rfl
    · exact Keeps.pure _

theorem passToServices_frames (e : Event) : Frames onlyCrash (passToServices e) := fun m =>
  Keeps.forM (l := m.context.invocations) (fun i _ => attendTo_frames m.chart e i) m

theorem Same.of_outline {x : MachineM α} {view : Machine → γ}
    (outlined : ∀ m : Machine, view m.outline = view m) (h : Same Machine.outline P x) :
    Same view P x := by
  have coarse := Same.coarsen view h
  simpa only [outlined] using coarse

theorem invokeIdOf_frames [Growing R] (state : StateNode) (i : InvokeNode) :
    Keeps R P (invokeIdOf state i) := by
  unfold invokeIdOf
  split
  · exact Keeps.pure _
  · exact Keeps.bind freshId_frames fun _ => Keeps.pure _

/-- The last part of preparing an invoke: the service is noted down. -/
def noteDown (s : StateIndex) (node : Nat) (i : InvokeNode) (invokeId : InvokeId)
    (source : Option String) (content parameters : Value) : MachineM InvokeData := do
  let uniqueId ← freshId
  let entry : Invocation := { invokeId, uniqueId, state := s, node, autoforward := i.autoforward }
  update fun m => { m with
    context := { m.context with invocations := m.context.invocations ++ [entry] } }
  return { invokeId, uniqueId, type := i.type, source, content, parameters, document := i.document }

def invokeValues (i : InvokeNode) (invokeId : InvokeId) :
    MachineM (Option String × Value × Value) := do
  match i.idLocation with
  | some location => assign location (.string invokeId)
  | none => pure ()
  let source ← textOf "srcexpr" i.src i.srcExpr
  let content ← match i.content with
    | some e => evaluate e
    | none => pure .undefined
  let parameters ← if i.params.isEmpty then pure .undefined else paramsObject i.params
  return (source, content, parameters)

/-- What a service is to run on, and what it is to start with. -/
def serviceValues (i : InvokeNode) : MachineM (Option String × Value × Value) := do
  let source ← textOf "srcexpr" i.src i.srcExpr
  let content ← match i.content with
    | some e => evaluate e
    | none => pure .undefined
  let parameters ← if i.params.isEmpty then pure .undefined else paramsObject i.params
  return (source, content, parameters)

theorem invokeValues_eq (i : InvokeNode) (invokeId : InvokeId) : invokeValues i invokeId = (do
    match i.idLocation with
    | some location => assign location (.string invokeId)
    | none => pure ()
    serviceValues i) := rfl

theorem prepareInvoke_eq (s : StateIndex) (node : Nat) (i : InvokeNode) :
    prepareInvoke s node i = (do
      let state := (← get).chart.state s
      let invokeId ← invokeIdOf state i
      let values ← invokeValues i invokeId
      noteDown s node i invokeId values.1 values.2.1 values.2.2) := by
  unfold prepareInvoke invokeValues noteDown
  refine bind_congr fun m => bind_congr fun invokeId => ?_
  cases i.idLocation <;> cases i.content <;> by_cases bare : i.params.isEmpty = true <;>
    simp only [bare, if_true, if_false, Bool.false_eq_true, bind_assoc, pure_bind]

theorem invokeValues_keeps [Growing R] (i : InvokeNode) (invokeId : InvokeId)
    (assigns : ∀ location, i.idLocation = some location →
      Keeps R onlyFailure (assign location (.string invokeId)))
    (fills : Keeps R onlyFailure (paramsObject i.params)) :
    Keeps R onlyFailure (invokeValues i invokeId) := by
  have parameters : ∀ (source : Option String) (content : Value), Keeps R onlyFailure (do
      let parameters ← if i.params.isEmpty then pure .undefined else paramsObject i.params
      return (source, content, parameters)) := by
    intro source content
    simp only
    split
    · exact Keeps.bind (Keeps.pure _) fun _ => Keeps.pure _
    · exact Keeps.bind fills fun _ => Keeps.pure _
  have values : Keeps R onlyFailure (serviceValues i) := by
    refine Keeps.bind (textOf_frames _ _ _) fun source => ?_
    simp only
    split
    · exact Keeps.bind (evaluate_frames _) (parameters source)
    · exact Keeps.bind (Keeps.pure _) (parameters source)
  rw [invokeValues_eq]
  split
  · exact Keeps.bind (assigns _ ‹_›) fun _ => values
  · exact values

theorem invokeValues_frames [Tolerant R] (i : InvokeNode) (invokeId : InvokeId) :
    Keeps R onlyFailure (invokeValues i invokeId) :=
  invokeValues_keeps i invokeId (fun _ _ => assign_frames _ _) (paramsObject_frames _)

theorem prepareInvoke_of_values [Growing R] (s : StateIndex) (node : Nat) {i : InvokeNode}
    (notes : ∀ (m : Machine) (entry : Invocation), entry.state = s ∧ entry.node = node →
      R m { m with context := { m.context with invocations := m.context.invocations ++ [entry] } })
    (values : ∀ invokeId, Keeps R onlyFailure (invokeValues i invokeId)) :
    Keeps R onlyFailure (prepareInvoke s node i) := by
  rw [prepareInvoke_eq]
  refine Keeps.bind Keeps.get fun m => ?_
  refine Keeps.bind (invokeIdOf_frames _ i) fun invokeId => ?_
  refine Keeps.bind (values invokeId) fun _ => ?_
  refine Keeps.bind freshId_frames fun _ => ?_
  exact Keeps.bind (Keeps.update fun m => notes m _ ⟨rfl, rfl⟩) fun _ => Keeps.pure _

theorem prepareInvoke_keeps [Tolerant R] (s : StateIndex) (node : Nat) (i : InvokeNode)
    (notes : ∀ (m : Machine) (entry : Invocation), entry.state = s ∧ entry.node = node →
      R m { m with context := { m.context with invocations := m.context.invocations ++ [entry] } }) :
    Keeps R onlyFailure (prepareInvoke s node i) :=
  prepareInvoke_of_values s node notes (invokeValues_frames i)

theorem prepareInvoke_outline (s : StateIndex) (node : Nat) (i : InvokeNode) :
    Same Machine.outline onlyFailure (prepareInvoke s node i) :=
  prepareInvoke_keeps s node i fun _ _ _ => rfl

/-- What an external event brings before its transitions are looked for. -/
def announce (e : Event) : MachineM Unit := do
  bindEvent e
  passToServices e
  match e.name.doneInvokeId? with
  | some id => forget id
  | none => pure ()

theorem receive_eq (e : Event) (m : Machine) :
    receive e m = (announce e >>= fun _ => selectTransitions (some e.name)) { m with steps := 0 } := by
  have same : receive e = (update fun m => { m with steps := 0 }) >>= fun _ =>
      (announce e >>= fun _ => selectTransitions (some e.name)) := by
    simp only [receive, announce, bind_assoc]
    cases e.name.doneInvokeId? <;> rfl
  rw [same]
  rfl

theorem announce_outline (e : Event) : Same Machine.outline refused (announce e) := by
  unfold announce
  refine Keeps.bind (Same.of_frames (fun _ => rfl) (bindEvent_frames e)) fun _ => ?_
  refine Keeps.bind (Same.of_frames (fun _ => rfl) (passToServices_frames e).refused) fun _ => ?_
  split
  · exact Keeps.update fun _ => rfl
  · exact Keeps.pure _

theorem reach_frames (p : LifePoint) : Frames P (update (·.reach p)) :=
  Keeps.update fun m => Growing.reach m p

theorem suspend_keeps [Lasting R] (drifts : ∀ {m m' : Machine}, m.Drifts m' → R m m')
    (saves : ∀ (m : Machine) (b : Bucket), R m { m with saved := some b }) :
    Keeps R (fun _ => True) suspend := by
  have suspended : Keeps R (fun _ => True) (do
      update (·.reach .suspended)
      return Control.exited .suspended) :=
    Keeps.bind ((reach_frames _).imp drifts) fun _ => Keeps.pure _
  intro m
  refine keepsAt_bind (Keeps.get m) ?_
  intro _ _ got
  cases got
  simp only
  split
  · split
    · exact keepsAt_bind (saves m _) fun _ n _ => suspended n
    · exact ⟨Lasting.refl m, trivial⟩
  · exact suspended m

def enterInitial (c : Chart) : MachineM Control := do
  initializeData
  match (c.state Chart.root).initial with
  | none => throw (.fault (.infrastructure "chart root has no initial transition"))
  | some t =>
    enterStates [t]
    update fun m => { m with context := { m.context with initialized := true } }
    return .effects .macrostep

theorem start_again {m : Machine} (entered : m.context.initialized = true) :
    start m =
      if m.context.done then .ok (.exited .completed) ((m.reach .started).reach .completed)
      else .ok .macrostep (m.reach .started) := by
  have context : (m.reach .started).context.initialized = m.context.initialized ∧
      (m.reach .started).context.done = m.context.done :=
    ⟨congrArg (fun m => m.context.initialized) (m.frame_reach _),
      congrArg (fun m => m.context.done) (m.frame_reach _)⟩
  change (if (m.reach .started).context.initialized then _ else _ : MachineM Control)
    (m.reach .started) = _
  rw [if_pos (context.1.trans entered), context.2]
  split
  · rfl
  · rfl

theorem start_first {m : Machine} (outside : m.context.initialized = false) :
    start m = enterInitial m.chart (m.reach .started) := by
  have initialized : (m.reach .started).context.initialized = m.context.initialized :=
    congrArg (fun m => m.context.initialized) (m.frame_reach _)
  have chart : (m.reach .started).chart = m.chart :=
    congrArg (fun m => m.chart) (m.frame_reach _)
  change (if (m.reach .started).context.initialized then _ else _ : MachineM Control)
    (m.reach .started) = _
  rw [initialized, outside, ← chart]
  rfl

theorem goOn_run (s : StateIndex) (node : Nat) (rest : List (StateIndex × Nat)) (m : Machine) :
    goOn ((s, node) :: rest) m =
      match (m.chart.state s).invokes[node]? with
      | none => .ok (.invoking rest) m
      | some i =>
        match prepareInvoke s node i m with
        | .ok data m => .ok (.starts data rest) m
        | .error (.failure f) m => .ok (.invoking rest) (m.raiseFailure f)
        | .error e m => .error e m := rfl

/-- Preparing the next service: there may be none, its values may fail, or it is to be started. -/
theorem goOn_cons (s : StateIndex) (node : Nat) (rest : List (StateIndex × Nat)) (m : Machine) :
    Leads (goOn ((s, node) :: rest)) m
      (fun control m' => m'.outline = m.outline ∧
        (control = .invoking rest ∨ ∃ data, control = .starts data rest))
      (fun _ _ => False) := by
  unfold Leads
  rw [goOn_run]
  cases (m.chart.state s).invokes[node]? with
  | none => exact ⟨rfl, Or.inl rfl⟩
  | some i =>
    have kept := prepareInvoke_outline s node i m
    unfold KeepsAt at kept
    simp only
    cases prepared : prepareInvoke s node i m with
    | ok data m' =>
      rw [prepared] at kept
      exact ⟨kept, Or.inr ⟨data, rfl⟩⟩
    | error stop m' =>
      rw [prepared] at kept
      obtain ⟨kept,f,rfl⟩ := kept
      exact ⟨kept, Or.inl rfl⟩

theorem goOn_nil (m : Machine) :
    Leads (goOn []) m
      (fun control m' => { m' with accepted := m.accepted }.frame = m.frame ∧
        ((control = .macrostep ∧ m' = m ∧ m.context.internalQueue ≠ []) ∨ control = .waiting))
      (fun _ _ => False) := by
  have framed : ∀ n : Machine, n.frame = m.frame ∨ n.frame = { m with accepted := true }.frame →
      { n with accepted := m.accepted }.frame = m.frame := by
    rintro n (same | same)
    · exact congrArg (fun k => { k with accepted := m.accepted }) same
    · exact congrArg (fun k => { k with accepted := m.accepted }) same
  rw [goOn]
  refine Leads.of_eq (get_bind _ m) ?_
  by_cases queued : (!m.context.internalQueue.isEmpty) = true
  · rw [if_pos queued]
    exact ⟨rfl, Or.inl ⟨rfl, rfl, by simpa using queued⟩⟩
  · rw [if_neg queued]
    by_cases first : (!m.accepted) = true
    · simp only [first, if_true]
      exact ⟨framed _ (Or.inr (by simp)), Or.inr rfl⟩
    · simp only [first]
      exact ⟨framed _ (Or.inl (by simp)), Or.inr rfl⟩

/-- Going on keeps what preparing an invoke keeps, and nothing interrupts it. -/
theorem goOn_keeps [Growing R] (accepts : ∀ m : Machine, R m { m with accepted := true })
    (pending : List (StateIndex × Nat)) (m : Machine)
    (prepares : ∀ s node rest i, pending = (s, node) :: rest →
      (m.chart.state s).invokes[node]? = some i → KeepsAt R onlyFailure (prepareInvoke s node i) m) :
    KeepsAt R never (goOn pending) m := by
  cases pending with
  | nil =>
    have waits : Keeps R never (do
        update (·.reach .waiting)
        return Control.waiting) :=
      Keeps.bind (Keeps.update fun m => Growing.reach m _) fun _ => Keeps.pure _
    have goes : Keeps R never (goOn []) := by
      rw [goOn]
      refine Keeps.bind Keeps.get fun m => ?_
      split
      · exact Keeps.pure _
      · simp only
        split
        · exact Keeps.bind (Keeps.update accepts) fun _ =>
            Keeps.bind (Keeps.update fun m => Growing.reach m _) fun _ => waits
        · exact waits
    exact goes m
  | cons invoke rest =>
    unfold KeepsAt
    rw [goOn_run]
    cases invoked : (m.chart.state invoke.1).invokes[invoke.2]? with
    | none => exact Lasting.refl m
    | some i =>
      have kept := prepares invoke.1 invoke.2 rest i rfl invoked
      unfold KeepsAt at kept
      simp only
      cases prepared : prepareInvoke invoke.1 invoke.2 i m with
      | ok data m' =>
        rw [prepared] at kept
        exact kept
      | error stop m' =>
        rw [prepared] at kept
        obtain ⟨kept,f,rfl⟩ := kept
        exact Lasting.trans kept (Growing.raiseFailure m' f)

theorem afterStart_keeps [Growing R] (forgets : ∀ (m : Machine) (id : InvokeId), R m { m with
      context := { m.context with
        invocations := m.context.invocations.filter (·.invokeId ≠ id) } })
    (data : InvokeData) (pending : List (StateIndex × Nat)) (failure : Option Failure) :
    Keeps R never (afterStart data pending failure) := by
  cases failure with
  | none => exact Keeps.pure _
  | some f =>
    refine Keeps.bind (Keeps.update fun m => forgets m _) fun _ => ?_
    exact Keeps.bind (Keeps.update fun m => Growing.raiseFailure m f) fun _ => Keeps.pure _

end MachineM

namespace Machine

variable {m : Machine}

theorem resume_ok {c : Chart} {options : Options} {memory : Memory} {b : Bucket}
    (resumed : resume c options memory b = .ok m) : ∃ h context,
      Context.restore c memory.heap b = .ok (h, context) ∧
      MachineM.setUp c { chart := c, options, memory := { memory with heap := h }, context }
        = .ok () m := by
  unfold resume at resumed
  cases restored : Context.restore c memory.heap b with
  | error f =>
    rw [restored] at resumed
    cases resumed
  | ok made =>
    obtain ⟨h,context⟩ := made
    simp only [restored, Bind.bind, Except.bind] at resumed
    refine ⟨h, context, rfl, ?_⟩
    split at resumed
    · cases resumed
      assumption
    · cases resumed
    · cases resumed
    · cases resumed

theorem foldl_raiseFailure_frame (failures : List Failure) (m : Machine) :
    (failures.foldl raiseFailure m).frame = m.frame := by
  induction failures generalizing m with
  | nil => rfl
  | cons f rest ih => rw [List.foldl_cons, ih, frame_raiseFailure]

theorem effectsDone_eq {next : AfterEffects} (asked : m.control = .effects next)
    (failures : List Failure) :
    m.effectsDone failures = (failures.foldl raiseFailure { m with effects := [] }).proceed
      (MachineM.afterEffects next) := by
  unfold effectsDone
  split
  · rename_i next' eq
    rw [asked] at eq
    cases eq
    rfl
  · rename_i other
    exact absurd asked (other next)

theorem startDone_eq {data : InvokeData} {pending : List (StateIndex × Nat)}
    (asked : m.control = .starts data pending) (failure : Option Failure) :
    m.startDone failure = m.proceed (MachineM.afterStart data pending failure) := by
  unfold startDone
  rw [asked]

theorem take_waiting (waiting : m.control = .waiting) (input : Input) :
    m.take input = m.proceed (MachineM.takeInput input) := by
  unfold take
  rw [waiting]

theorem take_other (other : m.control ≠ .waiting) (input : Input) : m.take input = m := by
  unfold take
  split
  · exact absurd ‹_› other
  · rfl

theorem proceed_of_eq {n : Machine} {part part' : MachineM Control} (same : part m = part' n) :
    m.proceed part = n.proceed part' := by
  unfold proceed
  rw [same]

theorem proceed_leads {part : MachineM Control} {T : Machine → Prop}
    {Q : Control → Machine → Prop} {E : Interrupt → Machine → Prop}
    (leads : MachineM.Leads part m Q E)
    (ends : ∀ control m', part m = .ok control m' → Q control m' → T { m' with control })
    (faults : ∀ f m', E (.fault f) m' → T (proceed.abort m' f))
    (fails : ∀ f m', E (.failure f) m' → T (proceed.abort m' (.infrastructure f.message)))
    (crashes : ∀ m', E .crash m' → T { m' with control := .crashed }) :
    T (m.proceed part) := by
  unfold MachineM.Leads at leads
  unfold proceed
  cases run : part m with
  | ok control m' =>
    rw [run] at leads
    exact ends control m' run leads
  | error i m' =>
    rw [run] at leads
    cases i with
    | fault f => exact faults f m' leads
    | failure f => exact fails f m' leads
    | crash => exact crashes m' leads

end Machine

end Statechart

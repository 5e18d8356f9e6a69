import Statechart.Proofs.Machine.Frame
import Statechart.Proofs.Chart.Taking

/- What a microstep does to a machine: the configuration loses the exit set and gains the entry
   set, and the course of the run is left alone. -/
namespace Statechart

namespace Machine

/-- The frame without the machine's result, which entering a final state sets. -/
def stage (m : Machine) : Machine :=
  { m.frame with
    context := { m.context with internalQueue := [], done := false, result := .undefined } }

/-- What no microstep changes. -/
def shell (m : Machine) : Machine :=
  { m.frame with
    context := { dataModel := m.context.dataModel, initialized := m.context.initialized } }

@[simp] theorem stage_activate_frame (m : Machine) (s : StateIndex) :
    (m.frame.activate s).stage = (m.activate s).stage := rfl

end Machine

namespace MachineM

variable {α β γ : Type} {P : Interrupt → Prop}

theorem bind_eq_ok {x : MachineM α} {f : α → MachineM β} {m m' : Machine} {b : β}
    (run : (x >>= f) m = .ok b m') : ∃ a n, x m = .ok a n ∧ f a n = .ok b m' := by
  simp only [bind, EStateM.bind] at run
  cases first : x m with
  | ok a n =>
    rw [first] at run
    exact ⟨a, n, rfl, run⟩
  | error i n =>
    rw [first] at run
    cases run

theorem bind_of_ok {x : MachineM α} {m n : Machine} {a : α} (f : α → MachineM β)
    (run : x m = .ok a n) : (x >>= f) m = f a n := by
  simp only [bind, EStateM.bind, run]

theorem bind_of_error {x : MachineM α} {m n : Machine} {i : Interrupt} (f : α → MachineM β)
    (run : x m = .error i n) : (x >>= f) m = .error i n := by
  simp only [bind, EStateM.bind, run]

theorem get_bind (f : Machine → MachineM α) (m : Machine) :
    ((get : MachineM Machine) >>= f) m = f m m := rfl

/-- A part of a step that leaves a view of the machine as it is. -/
abbrev Same (view : Machine → γ) (P : Interrupt → Prop) (x : MachineM α) : Prop :=
  Keeps (fun m m' => view m' = view m) P x

namespace Same

variable {view : Machine → γ}

theorem coarsen {δ : Type} {x : MachineM α} (f : γ → δ) (h : Same view P x) :
    Same (fun m => f (view m)) P x := h.imp fun same => congrArg f same

theorem of_frames {x : MachineM α} (framed : ∀ m : Machine, view m.frame = view m)
    (h : Frames P x) : Same view P x :=
  h.imp fun drifts => by rw [← framed, drifts.frame, framed]

end Same

theorem Frames.eq_of_ok {x : MachineM α} (h : Frames P x) {m m' : Machine} {a : α}
    (run : x m = .ok a m') : m'.frame = m.frame := ((h m).of_ok run).frame

theorem trace_frames (r : TraceRecord) : Frames P (update (·.trace r)) :=
  Keeps.update fun m => Growing.trace m r

theorem firstEnabled_origin {event : Option EventName} {candidates : List TransitionIndex}
    {m m' : Machine} {t : TransitionIndex}
    (run : firstEnabled event candidates m = .ok (some t) m') : t ∈ candidates := by
  induction candidates generalizing m with
  | nil => cases run
  | cons u rest ih =>
    obtain ⟨_,_,got,run⟩ := bind_eq_ok run
    cases got
    split at run
    · obtain ⟨holds,n,_,run⟩ := bind_eq_ok run
      split at run
      · cases run
        exact List.mem_cons_self
      · exact List.mem_cons_of_mem _ (ih run)
    · exact List.mem_cons_of_mem _ (ih run)

theorem collectEnabled_origin {event : Option EventName} {states : List StateIndex}
    {enabled found : List TransitionIndex} {m m' : Machine}
    (run : collectEnabled event states enabled m = .ok found m') :
    ∀ t ∈ found, t ∈ enabled ∨ ∃ s ∈ states, t ∈ m.chart.candidates s := by
  induction states generalizing enabled m with
  | nil =>
    cases run
    exact fun t ht => Or.inl ht
  | cons s rest ih =>
    obtain ⟨_,_,got,run⟩ := bind_eq_ok run
    cases got
    obtain ⟨first,n,search,run⟩ := bind_eq_ok run
    have chart : n.chart = m.chart :=
      congrArg (fun m => m.chart) (Frames.eq_of_ok (firstEnabled_frames (P := never) event _) search)
    intro t ht
    cases first with
    | none =>
      rcases ih run t ht with old | ⟨q,hq,mem⟩
      · exact Or.inl old
      · exact Or.inr ⟨q, List.mem_cons_of_mem _ hq, chart ▸ mem⟩
    | some u =>
      have origin := firstEnabled_origin search
      rcases ih run t ht with old | ⟨q,hq,mem⟩
      · have cases : t ∈ enabled ∨ t = u := by
          split at old
          · exact Or.inl old
          · exact (List.mem_append.mp old).imp id List.mem_singleton.mp
        rcases cases with old | rfl
        · exact Or.inl old
        · exact Or.inr ⟨s, List.mem_cons_self, origin⟩
      · exact Or.inr ⟨q, List.mem_cons_of_mem _ hq, chart ▸ mem⟩

/-- Nothing interrupts the search for transitions. -/
theorem collectEnabled_ends (event : Option EventName) (states : List StateIndex)
    (enabled : List TransitionIndex) (m : Machine) :
    ∃ found n, collectEnabled event states enabled m = .ok found n ∧ n.frame = m.frame := by
  have kept : KeepsAt Machine.Drifts never (collectEnabled event states enabled) m :=
    collectEnabled_frames event states enabled m
  cases run : collectEnabled event states enabled m with
  | ok found n => exact ⟨found, n, rfl, (kept.of_ok run).frame⟩
  | error i n => exact (kept.of_error run).2.elim

theorem selectTransitions_of_collect {event : Option EventName} {m n : Machine}
    {enabled : List TransitionIndex} (collected : collectEnabled event
      (m.context.configuration.filter m.chart.isAtomic) [] m = .ok enabled n) :
    selectTransitions event m =
      if enabled.all (m.chart.isFollowed m.context.history) then
        .ok (m.chart.removeConflicts m.context.history m.context.configuration enabled) n
      else .error .crash n := by
  have framed : n.frame = m.frame :=
    Frames.eq_of_ok (collectEnabled_frames (P := never) event _ _) collected
  have chart : n.chart = m.chart := congrArg (fun m => m.chart) framed
  have history : n.context.history = m.context.history :=
    congrArg (fun m => m.context.history) framed
  have configuration : n.context.configuration = m.context.configuration :=
    congrArg (fun m => m.context.configuration) framed
  refine (bind_of_ok _ collected).trans ?_
  rw [get_bind, ← chart, ← history, ← configuration]
  cases enabled.all (n.chart.isFollowed n.context.history) with
  | true => rfl
  | false => rfl

/-- The transitions to take come from active atomic states and their ancestors, and have been
    cleared of conflicts. -/
theorem selectTransitions_ok {event : Option EventName} {m m' : Machine}
    {selected : List TransitionIndex} (run : selectTransitions event m = .ok selected m') :
    m'.frame = m.frame ∧ ∃ enabled,
      selected = m.chart.removeConflicts m.context.history m.context.configuration enabled ∧
      ∀ t ∈ enabled, ∃ s ∈ m.context.configuration, m.chart.isAtomic s = true ∧
        t ∈ m.chart.candidates s := by
  obtain ⟨enabled,n,collected,framed⟩ := collectEnabled_ends event _ _ m
  rw [selectTransitions_of_collect collected] at run
  split at run
  · cases run
    refine ⟨framed, enabled, rfl, ?_⟩
    intro t ht
    rcases collectEnabled_origin collected t ht with old | ⟨s,hs,mem⟩
    · cases old
    · obtain ⟨active,atomic⟩ := List.mem_filter.mp hs
      exact ⟨s, active, atomic, mem⟩
  · cases run

def left (m : Machine) (s : StateIndex) : Machine := (m.cancelInvocationsOf s).deactivate s

theorem frame_left (m : Machine) (s : StateIndex) : (left m s).frame = (left m.frame s).frame := rfl

theorem exitState_ok {s : StateIndex} {m m' : Machine} {u : Unit}
    (run : exitState s m = .ok u m') : m'.frame = (left m s).frame := by
  obtain ⟨_,_,got,run⟩ := bind_eq_ok run
  cases got
  obtain ⟨_,m₁,exiting,run⟩ := bind_eq_ok run
  obtain ⟨_,m₂,block,run⟩ := bind_eq_ok run
  obtain ⟨_,m₃,leaving,run⟩ := bind_eq_ok run
  have e₁ := (trace_frames (P := onlyCrash) _).eq_of_ok exiting
  have e₂ := (executeBlock_frames _).eq_of_ok block
  have e₄ := (trace_frames (P := onlyCrash) _).eq_of_ok run
  cases leaving
  rw [e₄]
  change (left m₂ s).frame = _
  rw [frame_left, e₂, e₁, ← frame_left]

theorem exitState_keeps {R : Machine → Machine → Prop} [Lasting R]
    (drifts : ∀ {m m' : Machine}, m.Drifts m' → R m m') (leaves : ∀ m s, R m (left m s))
    (s : StateIndex) : Keeps R onlyCrash (exitState s) := by
  unfold exitState
  refine Keeps.bind Keeps.get fun m => ?_
  refine Keeps.bind ((trace_frames _).imp drifts) fun _ => ?_
  refine Keeps.bind ((executeBlock_frames _).imp drifts) fun _ => ?_
  exact Keeps.bind (Keeps.update fun m => leaves m s) fun _ => (trace_frames _).imp drifts

theorem exitState_shell (s : StateIndex) : Same Machine.shell onlyCrash (exitState s) :=
  exitState_keeps (fun drifts => congrArg Machine.shell drifts.frame) (fun _ _ => rfl) s

theorem frame_foldl_left (l : List StateIndex) {m n : Machine} (same : m.frame = n.frame) :
    (l.foldl left m).frame = (l.foldl left n).frame := by
  induction l generalizing m n with
  | nil => exact same
  | cons s rest ih =>
    refine ih ?_
    rw [frame_left, same, ← frame_left]

theorem exitAll_ok {l : List StateIndex} {m m' : Machine} {u : Unit}
    (run : l.forM exitState m = .ok u m') : m'.frame = (l.foldl left m).frame := by
  induction l generalizing m with
  | nil =>
    cases run
    rfl
  | cons s rest ih =>
    obtain ⟨_,m₁,first,run⟩ := bind_eq_ok run
    rw [ih run, List.foldl_cons]
    exact frame_foldl_left rest (exitState_ok first)

theorem configuration_foldl_left (l : List StateIndex) (m : Machine) :
    (l.foldl left m).context.configuration =
      m.context.configuration.filter (fun s => !l.contains s) := by
  induction l generalizing m with
  | nil => exact (List.filter_eq_self.mpr fun _ _ => rfl).symm
  | cons s rest ih =>
    rw [List.foldl_cons, ih]
    simp only [left, Machine.deactivate, Machine.cancelInvocationsOf, List.filter_filter]
    congr 1
    funext x
    by_cases eq : x = s
    · simp [eq]
    · simp [eq]

theorem history_foldl_left (l : List StateIndex) (m : Machine) :
    (l.foldl left m).context.history = m.context.history := by
  induction l generalizing m with
  | nil => rfl
  | cons s rest ih => rw [List.foldl_cons, ih]; rfl

theorem chart_foldl_left (l : List StateIndex) (m : Machine) :
    (l.foldl left m).chart = m.chart := by
  induction l generalizing m with
  | nil => rfl
  | cons s rest ih => rw [List.foldl_cons, ih]; rfl

theorem exitStates_ok {enabled : List TransitionIndex} {m m' : Machine} {u : Unit}
    (run : exitStates enabled m = .ok u m') :
    let exits := m.chart.exitSet m.context.history m.context.configuration enabled
    m'.chart = m.chart ∧
      m'.context.configuration = m.context.configuration.filter (!exits.contains ·) ∧
      m'.context.history = m.chart.recordAll m.context.configuration exits m.context.history := by
  obtain ⟨_,_,got,run⟩ := bind_eq_ok run
  cases got
  obtain ⟨_,m₁,recorded,run⟩ := bind_eq_ok run
  cases recorded
  have framed := exitAll_ok run
  refine ⟨?_, ?_, ?_⟩
  · have same := congrArg Machine.chart framed
    exact same.trans (chart_foldl_left _ _)
  · have same := congrArg (fun m => m.context.configuration) framed
    refine same.trans ((configuration_foldl_left _ _).trans ?_)
    simp
  · have same := congrArg (fun m => m.context.history) framed
    exact same.trans (history_foldl_left _ _)

theorem exitStates_shell (enabled : List TransitionIndex) :
    Same Machine.shell onlyCrash (exitStates enabled) := by
  intro m
  refine keepsAt_bind (Keeps.get m) ?_
  intro _ _ got
  cases got
  refine keepsAt_bind ?_
    (fun _ n _ => Keeps.forM (fun s _ => exitState_shell s) n)
  exact (rfl : _ = _)

theorem performTransitions_frames (enabled : List TransitionIndex) :
    Frames onlyCrash (performTransitions enabled) := by
  unfold performTransitions
  refine Keeps.forM fun t _ => ?_
  refine Keeps.bind Keeps.get fun m => ?_
  refine Keeps.bind (trace_frames _) fun _ => ?_
  exact Keeps.bind (executeBlock_frames _) fun _ => trace_frames _

def arrive (chart : Chart) (s : StateIndex) : MachineM Unit := do
  update (·.trace (.entered (chart.state s).id))
  if chart.isFinal s then enterFinal s

def enterByHistory (e : EntrySet) (chart : Chart) (s : StateIndex) : MachineM Unit := do
  match e.historyContent.lookup s with
  | some t => executeBlock (chart.transition t).actions
  | none => pure ()
  arrive chart s

def afterActivation (e : EntrySet) (chart : Chart) (s : StateIndex) : MachineM Unit := do
  executeBlock (chart.state s).onEntry
  if e.byDefault.contains s then
    match (chart.state s).initial with
    | some t => executeBlock (chart.transition t).actions
    | none => pure ()
  enterByHistory e chart s

theorem enterState_eq (e : EntrySet) (s : StateIndex) :
    enterState e s = (do
      let chart := (← get).chart
      update (·.trace (.entering (chart.state s).id))
      update (·.activate s)
      afterActivation e chart s) := rfl

section Entering

variable {R : Machine → Machine → Prop} [Lasting R]
  (drifts : ∀ {m m' : Machine}, m.Drifts m' → R m m')
  (ends : ∀ (m : Machine) (v : Value),
    R m { m with context := { m.context with done := true, result := v } })

include drifts ends

theorem enterFinal_keeps (s : StateIndex) : Keeps R onlyCrash (enterFinal s) := by
  unfold enterFinal
  refine Keeps.bind Keeps.get fun m => ?_
  refine Keeps.bind ((evaluateOr_frames _).imp drifts) fun data => ?_
  simp only
  split
  · exact Keeps.update fun m => ends m data
  · refine Keeps.bind (Keeps.update fun m => drifts (.enqueue m _)) fun _ => ?_
    split
    · refine Keeps.bind Keeps.get fun n => ?_
      split
      · exact Keeps.update fun m => drifts (.enqueue m _)
      · exact Keeps.pure _
    · exact Keeps.pure _

theorem enterByHistory_keeps (e : EntrySet) (chart : Chart) (s : StateIndex) :
    Keeps R onlyCrash (enterByHistory e chart s) := by
  have arrival : Keeps R onlyCrash (arrive chart s) := by
    refine Keeps.bind ((trace_frames _).imp drifts) fun _ => ?_
    split
    · exact enterFinal_keeps drifts ends s
    · exact Keeps.pure _
  unfold enterByHistory
  simp only
  split
  · exact Keeps.bind ((executeBlock_frames _).imp drifts) fun _ => arrival
  · exact arrival

theorem afterActivation_keeps (e : EntrySet) (chart : Chart) (s : StateIndex) :
    Keeps R onlyCrash (afterActivation e chart s) := by
  have content := enterByHistory_keeps drifts ends e chart s
  unfold afterActivation
  refine Keeps.bind ((executeBlock_frames _).imp drifts) fun _ => ?_
  simp only
  split
  · split
    · exact Keeps.bind ((executeBlock_frames _).imp drifts) fun _ => content
    · exact content
  · exact content

theorem enterState_keeps (e : EntrySet) (s : StateIndex)
    (enters : ∀ m : Machine, R m (m.activate s)) : Keeps R onlyCrash (enterState e s) := by
  rw [enterState_eq]
  refine Keeps.bind Keeps.get fun m => ?_
  refine Keeps.bind ((trace_frames _).imp drifts) fun _ => ?_
  exact Keeps.bind (Keeps.update enters) fun _ =>
    afterActivation_keeps drifts ends e m.chart s

theorem enterStates_keeps (enters : ∀ (m : Machine) (s : StateIndex), R m (m.activate s))
    (enabled : List TransitionIndex) : Keeps R onlyCrash (enterStates enabled) := by
  unfold enterStates
  refine Keeps.bind Keeps.get fun m => ?_
  split
  · exact Keeps.forM fun s _ => enterState_keeps drifts ends _ s fun m => enters m s
  · exact fun n => ⟨Lasting.refl n, rfl⟩

end Entering

theorem afterActivation_stage (e : EntrySet) (chart : Chart) (s : StateIndex) :
    Same Machine.stage onlyCrash (afterActivation e chart s) :=
  afterActivation_keeps (fun drifts => congrArg Machine.stage drifts.frame) (fun _ _ => rfl) e chart s

theorem enterState_ok {e : EntrySet} {s : StateIndex} {m m' : Machine} {u : Unit}
    (run : enterState e s m = .ok u m') : m'.stage = (m.activate s).stage := by
  rw [enterState_eq] at run
  obtain ⟨_,_,got,run⟩ := bind_eq_ok run
  cases got
  obtain ⟨_,m₁,entering,run⟩ := bind_eq_ok run
  obtain ⟨_,m₂,activated,run⟩ := bind_eq_ok run
  have e₁ := (trace_frames (P := onlyCrash) _).eq_of_ok entering
  have e₃ := (afterActivation_stage e _ s _).of_ok run
  cases activated
  rw [e₃, ← Machine.stage_activate_frame, e₁, Machine.stage_activate_frame]

theorem enterAll_ok {e : EntrySet} {l : List StateIndex} {m m' : Machine} {u : Unit}
    (run : l.forM (enterState e) m = .ok u m') :
    m'.chart = m.chart ∧
      ∀ x, x ∈ m'.context.configuration ↔ x ∈ m.context.configuration ∨ x ∈ l := by
  induction l generalizing m with
  | nil =>
    cases run
    simp
  | cons s rest ih =>
    obtain ⟨_,m₁,first,run⟩ := bind_eq_ok run
    have staged := enterState_ok first
    have chart : m₁.chart = m.chart := congrArg (fun m => m.chart) staged
    have active : m₁.context.configuration = insertIndex s m.context.configuration :=
      congrArg (fun m => m.context.configuration) staged
    obtain ⟨same,members⟩ := ih run
    refine ⟨same.trans chart, ?_⟩
    intro x
    rw [members x, active, Chart.mem_insertIndex, List.mem_cons]
    constructor
    · rintro ((h | h) | h)
      · exact Or.inr (Or.inl h)
      · exact Or.inl h
      · exact Or.inr (Or.inr h)
    · rintro (h | h | h)
      · exact Or.inl (Or.inr h)
      · exact Or.inl (Or.inl h)
      · exact Or.inr h

theorem forM_of_enterStates {enabled : List TransitionIndex} {m m' : Machine} {u : Unit}
    (run : enterStates enabled m = .ok u m') :
    let e := m.chart.entrySet m.context.history enabled
    e.states.forM (enterState e) m = .ok u m' := by
  obtain ⟨_,_,got,run⟩ := bind_eq_ok run
  cases got
  cases found : m.chart.entrySet? m.context.history enabled with
  | none =>
    rw [found] at run
    cases run
  | some e =>
    rw [found] at run
    rw [← Chart.entrySet_of_attempt found]
    exact run

theorem enterStates_ok {enabled : List TransitionIndex} {m m' : Machine} {u : Unit}
    (run : enterStates enabled m = .ok u m') :
    m'.chart = m.chart ∧
      ∀ x, x ∈ m'.context.configuration ↔
        x ∈ m.context.configuration ∨ x ∈ (m.chart.entrySet m.context.history enabled).states := by
  exact enterAll_ok (forM_of_enterStates run)

theorem enterStates_shell (enabled : List TransitionIndex) :
    Same Machine.shell onlyCrash (enterStates enabled) :=
  enterStates_keeps (fun drifts => congrArg Machine.shell drifts.frame) (fun _ _ => rfl)
    (fun _ _ => rfl) enabled

theorem microstep_shell (enabled : List TransitionIndex) :
    Same Machine.shell onlyCrash (microstep enabled) := by
  unfold microstep
  refine Keeps.bind (exitStates_shell enabled) fun _ => ?_
  refine Keeps.bind (Same.of_frames (fun _ => rfl) (performTransitions_frames enabled)) fun _ => ?_
  exact enterStates_shell enabled

/-- A microstep takes the exit set out of the configuration and puts the entry set in. -/
theorem microstep_ok {enabled : List TransitionIndex} {m m' : Machine} {u : Unit}
    (run : microstep enabled m = .ok u m') :
    let exits := m.chart.exitSet m.context.history m.context.configuration enabled
    let history := m.chart.recordAll m.context.configuration exits m.context.history
    m'.chart = m.chart ∧
      ∀ x, x ∈ m'.context.configuration ↔
        (x ∈ m.context.configuration ∧ x ∉ exits) ∨
          x ∈ (m.chart.entrySet history enabled).states := by
  obtain ⟨_,m₁,leaving,run⟩ := bind_eq_ok run
  obtain ⟨_,m₂,content,run⟩ := bind_eq_ok run
  obtain ⟨chart₁,configuration₁,history₁⟩ := exitStates_ok leaving
  have framed := (performTransitions_frames enabled).eq_of_ok content
  have chart₂ : m₂.chart = m₁.chart := congrArg (fun m => m.chart) framed
  have configuration₂ : m₂.context.configuration = m₁.context.configuration :=
    congrArg (fun m => m.context.configuration) framed
  have history₂ : m₂.context.history = m₁.context.history :=
    congrArg (fun m => m.context.history) framed
  obtain ⟨chart₃,members⟩ := enterStates_ok run
  refine ⟨chart₃.trans (chart₂.trans chart₁), ?_⟩
  intro x
  rw [members x, chart₂, chart₁, configuration₂, configuration₁, history₂, history₁]
  simp

end MachineM

end Statechart

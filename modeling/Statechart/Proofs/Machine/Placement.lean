import Statechart.Proofs.Chart.Bounds
import Statechart.Proofs.Machine.Orderly
import Statechart.Proofs.Snapshot.Sections

/- The context of a running machine is one of its chart: whatever is active, entered, recorded or
   has invoked a service is a state of the chart, and sets are in ascending order. So every point
   of a run can be stored.

   What the steps of a machine can do to its context is said once, by what a relation between the
   machines before and after must not mind. -/
namespace Statechart

namespace Context

variable {c : Chart} {x y : Context}

theorem Placed.records (placed : x.Placed c) : c.Records x.history :=
  ⟨placed.recorded, placed.histories⟩

/-- States and services may go. -/
theorem Placed.shrink (placed : x.Placed c)
    (configuration : y.configuration.Sublist x.configuration)
    (statesToInvoke : y.statesToInvoke.Sublist x.statesToInvoke) (history : c.Records y.history)
    (invocations : y.invocations.Sublist x.invocations) : y.Placed c where
  configuration := placed.configuration.sublist configuration
  active := fun s hs => placed.active s (configuration.subset hs)
  statesToInvoke := placed.statesToInvoke.sublist statesToInvoke
  entered := fun s hs => placed.entered s (statesToInvoke.subset hs)
  histories := history.distinct
  recorded := history.recorded
  services := fun i hi => placed.services i (invocations.subset hi)

end Context

namespace Machine

/-- A machine of the chart, with a context of the chart. -/
structure Placed (c : Chart) (m : Machine) : Prop where
  chart : m.chart = c
  context : m.context.Placed c

/-- What being placed depends on. -/
def places (m : Machine) : Chart × List StateIndex × List StateIndex ×
    List (StateIndex × List StateIndex) × List Invocation :=
  (m.chart, m.context.configuration, m.context.statesToInvoke, m.context.history,
    m.context.invocations)

variable {c : Chart} {m m' : Machine}

theorem Placed.of_places (placed : m.Placed c) (same : m'.places = m.places) : m'.Placed c := by
  simp only [places, Prod.mk.injEq] at same
  obtain ⟨chart,configuration,statesToInvoke,history,invocations⟩ := same
  refine ⟨chart.trans placed.chart, placed.context.shrink ?_ ?_ ?_ ?_⟩
  · rw [configuration]
  · rw [statesToInvoke]
  · rw [history]
    exact placed.context.records
  · rw [invocations]

/-- The step from `m` to `m'` keeps the context one of the chart. -/
def KeepsPlace (c : Chart) (m m' : Machine) : Prop := m.Placed c → m'.Placed c

instance : MachineM.Tolerant (KeepsPlace c) where
  refl _ := id
  trans first second := fun placed => second (first placed)
  withHeap _ _ := fun placed => placed.of_places rfl
  freshId _ := fun placed => placed.of_places rfl
  enqueue _ _ := fun placed => placed.of_places rfl
  tell _ _ := fun placed => placed.of_places rfl

/-- Relations between machines of a chart that do not mind where a run leads: states and services may
    go, what is left may be recorded, ordinary states may be entered, and invokes of the chart may be
    served. -/
class Roaming (c : outParam Chart) (R : Machine → Machine → Prop) : Prop
    extends MachineM.Tolerant R where
  wf : c.WellFormed
  /-- Other machines do not have to be looked at. -/
  placed : ∀ {m m' : Machine}, (m.Placed c → R m m') → R m m'
  fewer : ∀ {m m' : Machine}, m'.chart = m.chart →
    m'.context.configuration.Sublist m.context.configuration →
    m'.context.statesToInvoke.Sublist m.context.statesToInvoke →
    m'.context.history = m.context.history →
    m'.context.invocations.Sublist m.context.invocations → R m m'
  records : ∀ (m : Machine) (exits : List StateIndex), R m { m with context := { m.context with
    history := m.chart.recordAll m.context.configuration exits m.context.history } }
  enters : ∀ (m : Machine) (s : StateIndex), s < c.states.size → c.isHistory s = false →
    R m (m.activate s)
  notes : ∀ (m : Machine) (entry : Invocation) (i : InvokeNode),
    (c.state entry.state).invokes[entry.node]? = some i → R m { m with
      context := { m.context with invocations := m.context.invocations ++ [entry] } }

theorem inside_of_invoke {s : StateIndex} {node : Nat} {i : InvokeNode}
    (invoke : (c.state s).invokes[node]? = some i) : s < c.states.size := by
  by_contra outside
  rw [Chart.state, Array.getD_eq_getD_getElem?,
    Array.getElem?_eq_none (Nat.le_of_not_lt outside)] at invoke
  cases invoke

theorem keepsPlace_roaming (wf : c.WellFormed) : Roaming c (KeepsPlace c) where
  wf := wf
  placed own := fun placed => own placed placed
  fewer := by
    intro m m' chart configuration statesToInvoke history invocations placed
    have records := placed.context.records
    rw [← history] at records
    exact ⟨chart.trans placed.chart,
      placed.context.shrink configuration statesToInvoke records invocations⟩
  records m exits := by
    rintro ⟨rfl,own⟩
    have records := own.records.recordAll wf.toIsTree own.active exits
    exact ⟨rfl, own.shrink (List.Sublist.refl _) (List.Sublist.refl _) records (List.Sublist.refl _)⟩
  enters m s inside _ := fun placed => ⟨placed.chart, {
    configuration := pairwise_insertIndex placed.context.configuration
    active := Chart.Inside.insertIndex placed.context.active inside
    statesToInvoke := pairwise_insertIndex placed.context.statesToInvoke
    entered := Chart.Inside.insertIndex placed.context.entered inside
    histories := placed.context.histories
    recorded := placed.context.recorded
    services := placed.context.services }⟩
  notes m entry i invoke := fun placed => ⟨placed.chart, {
    configuration := placed.context.configuration
    active := placed.context.active
    statesToInvoke := placed.context.statesToInvoke
    entered := placed.context.entered
    histories := placed.context.histories
    recorded := placed.context.recorded
    services := by
      intro j hj
      rcases List.mem_append.mp hj with old | new
      · exact placed.context.services j old
      · rw [List.mem_singleton.mp new]
        exact inside_of_invoke invoke }⟩

section Roaming

variable {R : Machine → Machine → Prop} [roaming : Roaming c R]

include roaming

/-- Nothing that being placed depends on changes. -/
theorem roams_of_places (same : m'.places = m.places) : R m m' := by
  simp only [places, Prod.mk.injEq] at same
  obtain ⟨chart,configuration,statesToInvoke,history,invocations⟩ := same
  apply Roaming.fewer chart
  · rw [configuration]
  · rw [statesToInvoke]
  · exact history
  · rw [invocations]

theorem Drifts.roams (drifts : m.Drifts m') : R m m' := by
  have same : m'.frame.places = m.frame.places := congrArg places drifts.frame
  exact roams_of_places same

theorem roams_left (m : Machine) (s : StateIndex) : R m (MachineM.left m s) :=
  Roaming.fewer rfl List.filter_sublist (List.Sublist.refl _) rfl List.filter_sublist

theorem roams_record (m : Machine) (exits : List StateIndex) : R m { m with
    context := { m.context with
      statesToInvoke := m.context.statesToInvoke.filter (!exits.contains ·)
      history := m.chart.recordAll m.context.configuration exits m.context.history } } := by
  apply MachineM.Lasting.trans (Roaming.records m exits)
  exact Roaming.fewer rfl (List.Sublist.refl _) List.filter_sublist rfl (List.Sublist.refl _)

theorem roams_forget (m : Machine) (id : InvokeId) : R m { m with
    context := { m.context with invocations := m.context.invocations.filter (·.invokeId ≠ id) } } :=
  Roaming.fewer rfl (List.Sublist.refl _) (List.Sublist.refl _) rfl List.filter_sublist

end Roaming

end Machine

namespace MachineM

open Machine

variable {α : Type} {R : Machine → Machine → Prop} {P : Interrupt → Prop}

/-- The part leads along the relation, however it ends. -/
abbrev Roams (R : Machine → Machine → Prop) (x : MachineM α) : Prop := Keeps R (fun _ => True) x

theorem Keeps.roams {x : MachineM α} (kept : Keeps R P x) : Roams R x :=
  kept.mono fun _ _ => trivial

variable {c : Chart} [roaming : Roaming c R]

include roaming

theorem Frames.roams {x : MachineM α} (framed : Frames P x) : Roams R x :=
  Keeps.roams (framed.imp Drifts.roams)

theorem roams_of_placed {x : MachineM α}
    (kept : ∀ m : Machine, m.Placed c → KeepsAt R (fun _ => True) x m) : Roams R x := by
  intro m
  unfold KeepsAt
  cases run : x m with
  | ok a m' =>
    apply Roaming.placed
    intro placed
    exact (kept m placed).of_ok run
  | error i m' =>
    refine ⟨Roaming.placed ?_, trivial⟩
    intro placed
    exact ((kept m placed).of_error run).1

theorem exitStates_roams (enabled : List TransitionIndex) : Roams R (exitStates enabled) := by
  have leaving : ∀ exits : List StateIndex, Roams R (exits.forM exitState) := fun exits =>
    Keeps.roams (Keeps.forM fun s _ => exitState_keeps Drifts.roams roams_left s)
  intro m
  exact .after (roams_record m _) rfl (leaving _ _)

theorem enterStates_roams (enabled : List TransitionIndex) : Roams R (enterStates enabled) := by
  apply roams_of_placed
  intro m placed
  have inside := Chart.entrySet_inside roaming.wf placed.context.recorded enabled
  have ordinary := roaming.wf.entrySet_ordinary m.context.history enabled
  rw [← placed.chart] at inside ordinary
  refine keepsAt_bind (Keeps.get m) ?_
  intro _ _ got
  cases got
  cases found : m.chart.entrySet? m.context.history enabled with
  | none => exact ⟨Lasting.refl m, trivial⟩
  | some e =>
    obtain rfl := Chart.entrySet_of_attempt found
    refine Keeps.roams (P := onlyCrash) (Keeps.forM fun s hs => ?_) m
    refine enterState_keeps Drifts.roams (fun _ _ => roams_of_places rfl) _ s fun n => ?_
    exact Roaming.enters n s (placed.chart ▸ inside s hs) (placed.chart ▸ ordinary s hs)

theorem microstep_roams (enabled : List TransitionIndex) : Roams R (microstep enabled) :=
  Keeps.bind (exitStates_roams enabled) fun _ =>
    Keeps.bind (Frames.roams (performTransitions_frames enabled)) fun _ => enterStates_roams enabled

theorem complete_roams : Roams R complete := by
  refine Keeps.bind Keeps.get fun m => Keeps.bind (Keeps.forM fun s _ => ?_) fun _ => ?_
  · refine Keeps.bind (Frames.roams (executeBlock_frames _)) fun _ => ?_
    exact Keeps.bind (Keeps.update fun n => roams_left n s) fun _ =>
      Frames.roams (trace_frames (P := onlyCrash) _)
  · refine Keeps.bind (Keeps.update fun n => ?_) fun _ => Keeps.pure _
    exact Roaming.fewer rfl (List.Sublist.refl _) (List.nil_sublist _) rfl (List.Sublist.refl _)

theorem destroy_roams : Roams R destroy := by
  refine Keeps.bind (Keeps.update fun n => ?_) fun _ => Keeps.pure _
  exact Roaming.fewer rfl (List.Sublist.refl _) (List.Sublist.refl _) rfl (List.nil_sublist _)

theorem settleDown_roams : Roams R settleDown := fun _ =>
  Roaming.fewer rfl (List.Sublist.refl _) (List.nil_sublist _) rfl (List.Sublist.refl _)

theorem pass_roams (enabled : List TransitionIndex) : Roams R (pass enabled) :=
  pass_keeps (fun _ => roams_of_places rfl) (microstep_roams enabled)

theorem macrostep_roams : Roams R macrostep := by
  rw [macrostep_eq]
  refine Keeps.bind (Keeps.roams (look_keeps fun _ _ => roams_of_places rfl)) ?_
  intro found
  cases found with
  | completion => exact complete_roams
  | destruction => exact destroy_roams
  | stability => exact settleDown_roams
  | transitions event enabled => exact pass_roams enabled

theorem start_roams : Roams R start := by
  refine Keeps.bind (Frames.roams (reach_frames (P := onlyCrash) _)) fun _ => ?_
  refine Keeps.bind Keeps.get fun m => ?_
  split
  · split
    · exact Keeps.bind (Frames.roams (reach_frames (P := onlyCrash) _)) fun _ => Keeps.pure _
    · exact Keeps.pure _
  · refine Keeps.bind (Keeps.roams (P := refused) initializeData_frames) fun _ => ?_
    split
    · exact fun m => ⟨Lasting.refl m, trivial⟩
    · refine Keeps.bind (enterStates_roams _) fun _ => ?_
      exact Keeps.bind (Keeps.update fun _ => roams_of_places rfl) fun _ => Keeps.pure _

theorem goOn_roams (pending : List (StateIndex × Nat)) : Roams R (goOn pending) := by
  apply roams_of_placed
  intro m placed
  have kept : KeepsAt R never (goOn pending) m := by
    refine goOn_keeps (R := R) (fun _ => roams_of_places rfl) pending m fun s node _ i _ invoke => ?_
    rw [placed.chart] at invoke
    refine prepareInvoke_keeps s node i (fun n entry own => Roaming.notes n entry i ?_) m
    rw [own.1, own.2]
    exact invoke
  unfold KeepsAt at kept ⊢
  cases run : goOn pending m with
  | ok control m' =>
    rw [run] at kept
    exact kept
  | error i m' =>
    rw [run] at kept
    exact ⟨kept.1, trivial⟩

theorem afterEffects_roams (next : AfterEffects) : Roams R (afterEffects next) := by
  cases next with
  | macrostep => exact Keeps.pure _
  | exit status =>
    exact Keeps.bind (Frames.roams (reach_frames (P := onlyCrash) _)) fun _ => Keeps.pure _

theorem receive_roams (e : Event) : Roams R (receive e) := by
  refine Keeps.bind (Keeps.update fun _ => roams_of_places rfl) fun _ => ?_
  refine Keeps.bind (Keeps.roams (P := refused) (bindEvent_frames e)) fun _ => ?_
  refine Keeps.bind (Frames.roams (passToServices_frames e)) fun _ => ?_
  have selecting : Roams R (selectTransitions (some e.name)) :=
    Keeps.roams (selectTransitions_frames _)
  simp only
  split
  · exact Keeps.bind (Keeps.update fun m => roams_forget m _) fun _ => selecting
  · exact selecting

theorem process_roams (e : Event) : Roams R (process e) := by
  rw [process_eq]
  refine Keeps.bind (receive_roams e) fun enabled => ?_
  unfold respond
  simp only
  split
  · refine Keeps.bind (Keeps.update fun _ => roams_of_places rfl) fun _ => ?_
    exact Keeps.bind (microstep_roams enabled) fun _ => Keeps.pure _
  · exact Keeps.pure _

theorem takeInput_roams (input : Input) : Roams R (takeInput input) := by
  cases input with
  | destroy => exact destroy_roams
  | suspend => exact suspend_keeps Drifts.roams fun _ _ => roams_of_places rfl
  | closed =>
    exact Keeps.bind (Frames.roams (reach_frames (P := onlyCrash) _)) fun _ => Keeps.pure _
  | event e => exact process_roams e

end MachineM

namespace Machine

open MachineM

section Roaming

variable {c : Chart} {R : Machine → Machine → Prop} [roaming : Roaming c R] {m m' : Machine}

include roaming

theorem proceed_roams {part : MachineM Control} (kept : Roams R part) : R m (m.proceed part) := by
  have aborted : ∀ (f : Fault) (n : Machine), R m n → R m (proceed.abort n f) := by
    intro f n led
    have told := fun p => (n.drifts_reach p).roams (R := R)
    exact Lasting.trans (Lasting.trans led (told _)) (roams_of_places rfl)
  apply proceed_leads (T := R m) (kept m).leads
  · exact fun control n _ led => Lasting.trans led (roams_of_places rfl)
  · exact fun f n stopped => aborted f n stopped.1
  · exact fun f n stopped => aborted _ n stopped.1
  · exact fun n stopped => Lasting.trans stopped.1 (roams_of_places rfl)

theorem worked_roams (worked : Worked m m') : R m m' := by
  cases worked with
  | start => exact proceed_roams start_roams
  | macrostep => exact proceed_roams macrostep_roams
  | goOn => exact proceed_roams (goOn_roams _)
  | effects control failures =>
    have cleared : R m { m with effects := [] } := roams_of_places rfl
    have raised : R { m with effects := [] } (failures.foldl raiseFailure { m with effects := [] }) :=
      roams_of_places
        (congrArg (fun k => k.places) (foldl_raiseFailure_frame failures { m with effects := [] }))
    exact Lasting.trans (Lasting.trans cleared raised) (proceed_roams (afterEffects_roams _))
  | started control failure =>
    exact proceed_roams (Keeps.roams (afterStart_keeps roams_forget _ _ failure))

theorem move_roams (move : Move m m') : R m m' := by
  cases move with
  | work work => exact worked_roams work.worked
  | take input =>
    by_cases waiting : m.control = .waiting
    · rw [take_waiting waiting]
      exact proceed_roams (takeInput_roams input)
    · rw [take_other waiting]
      exact Lasting.refl m
  | disturb => exact roams_of_places rfl
  | restart => exact roams_of_places rfl
  | retry => exact roams_of_places rfl

theorem run_roams (run : Run m m') : R m m' := by
  induction run with
  | refl => exact Lasting.refl m
  | next _ move ih => exact Lasting.trans ih (move_roams move)

end Roaming

variable {c : Chart} {m m' : Machine}

theorem move_placed (wf : c.WellFormed) (placed : m.Placed c) (move : Move m m') : m'.Placed c := by
  have := keepsPlace_roaming wf
  exact move_roams (R := KeepsPlace c) move placed

end Machine

namespace Chart

variable {c : Chart} {b : Bucket} {s : StateIndex}

theorem stateAt_inside {document : Nat} (found : c.stateAt document = .ok s) :
    s < c.states.size := by
  unfold stateAt findDocument? at found
  split at found
  · rename_i there
    cases found
    exact List.mem_range.mp (List.mem_of_find?_eq_some there)
  · cases found

theorem resolve_inside (found : c.resolve b = .ok s) : s < c.states.size := by
  unfold resolve at found
  split at found
  · cases found
  · obtain ⟨t,there,found⟩ := Except.bind_eq_ok found
    split at found
    · cases found
      exact stateAt_inside there
    · cases found

/-- States that are read from a snapshot are states of the chart, in ascending order. -/
theorem restoreStates_inside {key : Key} {states : List StateIndex}
    (restored : c.restoreStates b key = .ok states) :
    states.Pairwise (· < ·) ∧ c.Inside states := by
  unfold restoreStates at restored
  split at restored
  · cases restored
    exact ⟨.nil, fun _ none => absurd none List.not_mem_nil⟩
  · obtain ⟨found,resolved,restored⟩ := Except.bind_eq_ok restored
    cases restored
    have inside : c.Inside found := Except.mapM_ok (fun _ _ => resolve_inside) resolved
    refine List.foldlRecOn (motive := fun l : List StateIndex => l.Pairwise (· < ·) ∧ c.Inside l)
      _ _ ⟨.nil, fun _ none => absurd none List.not_mem_nil⟩ ?_
    intro l ⟨ascending,own⟩ s hs
    exact ⟨pairwise_insertIndex ascending, own.insertIndex (inside s hs)⟩

end Chart

namespace Context

variable {c : Chart} {b : Bucket}

theorem restoreRecord_inside {r : StateIndex × List StateIndex}
    (restored : restoreRecord c b = .ok r) : r.1 < c.states.size ∧ c.Inside r.2 := by
  unfold restoreRecord at restored
  obtain ⟨s,found,restored⟩ := Except.bind_eq_ok restored
  obtain ⟨states,listed,restored⟩ := Except.bind_eq_ok restored
  cases restored
  refine ⟨Chart.resolve_inside found, Except.mapM_ok (fun j t there => ?_) listed⟩
  split at there
  · exact Chart.stateAt_inside there
  · cases there

theorem restoreHistory_records {history : List (StateIndex × List StateIndex)}
    (restored : restoreHistory c b = .ok history) : c.Records history := by
  have none : c.Records [] := ⟨fun _ none => absurd none List.not_mem_nil, List.nodup_nil⟩
  unfold restoreHistory at restored
  split at restored
  · cases restored
    exact none
  · obtain ⟨records,read,restored⟩ := Except.bind_eq_ok restored
    cases restored
    have each : c.Recorded records := Except.mapM_ok (fun _ _ => restoreRecord_inside) read
    refine List.foldlRecOn (motive := c.Records) _ _ none ?_
    exact fun history own r hr => own.record (each r hr).1 (each r hr).2

theorem restoreInvocations_inside {invocations : List Invocation}
    (restored : restoreInvocations c b = .ok invocations) :
    ∀ i ∈ invocations, i.state < c.states.size := by
  unfold restoreInvocations at restored
  split at restored
  · cases restored
    exact fun _ none => absurd none List.not_mem_nil
  · refine Except.mapM_ok (fun inner i there => ?_) restored
    unfold restoreInvocation at there
    split at there
    · cases there
    · cases there
    · obtain ⟨s,found,there⟩ := Except.bind_eq_ok there
      cases there
      exact Chart.stateAt_inside found

/-- Whatever a bucket holds, a context that is read from it is one of the chart. -/
theorem restore_placed {h h' : Heap} {x : Context} (restored : restore c h b = .ok (h', x)) :
    x.Placed c := by
  obtain ⟨_,active,entered,recorded,_,invoked,_,_⟩ := restore_ok restored
  have records := restoreHistory_records recorded
  exact {
    configuration := (Chart.restoreStates_inside active).1
    active := (Chart.restoreStates_inside active).2
    statesToInvoke := (Chart.restoreStates_inside entered).1
    entered := (Chart.restoreStates_inside entered).2
    histories := records.distinct
    recorded := records.recorded
    services := restoreInvocations_inside invoked }

end Context

namespace Machine

open MachineM

variable {c : Chart} {m m₀ : Machine}

theorem Unstarted.placed (unstarted : Unstarted m) : m.Placed m.chart := by
  cases unstarted with
  | created chart options memory =>
    exact ⟨rfl, .nil, fun _ none => absurd none List.not_mem_nil, .nil,
      fun _ none => absurd none List.not_mem_nil, List.nodup_nil,
      fun _ none => absurd none List.not_mem_nil, fun _ none => absurd none List.not_mem_nil⟩
  | @resumed chart options memory b m resumed =>
    obtain ⟨h,context,restored,ready⟩ := resume_ok resumed
    have kept := (setUp_frames (R := KeepsPlace chart) chart _).of_ok ready
    have placed := kept ⟨rfl, Context.restore_placed restored⟩
    exact placed.chart ▸ placed

/-- Every point of a run has a context of its chart. -/
theorem run_placed (wf : m₀.chart.WellFormed) (unstarted : Unstarted m₀) (run : Run m₀.start m) :
    m.Placed m₀.chart := by
  have := keepsPlace_roaming wf
  exact run_roams (R := KeepsPlace m₀.chart) run (unstarted.placed.of_places rfl)

end Machine

end Statechart

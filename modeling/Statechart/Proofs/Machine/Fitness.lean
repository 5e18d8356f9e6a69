import Statechart.Proofs.Chart.Termination
import Statechart.Proofs.Machine.Lifecycle
import Statechart.Proofs.Machine.Resumption
import Statechart.Proofs.Machine.Services

/- What a machine takes on trust from a snapshot.

   A snapshot may only mention states of the chart, and that is all that is looked at. The invoke that
   a service was started for is looked up when an event comes from it, and what a history state has
   recorded is entered in its place, so both have to fit the chart as well. They do as long as nobody
   else writes the snapshots: a machine whose context fits goes on to have one that fits. -/
namespace Statechart

namespace Chart

variable {c : Chart} {history : HistoryTable} {configuration : List StateIndex}

/-- A record that can be entered: one of a history state, with ordinary states inside of its parent. -/
def Shelters (c : Chart) (entry : StateIndex × List StateIndex) : Prop :=
  c.isHistory entry.1 = true ∧ ∀ r ∈ entry.2,
    c.isHistory r = false ∧ ∃ p, (c.state entry.1).parent = some p ∧ c.Below r p

theorem sheltered_of_shelters (all : ∀ entry ∈ history, c.Shelters entry) : c.Sheltered history := by
  intro h states found _ r hr
  obtain ⟨before,after,rfl,_⟩ := List.lookup_eq_some_iff.mp found
  exact (all (h, states) (by simp)).2 r hr

theorem recordAll_shelters (tree : c.IsTree) (ordinary : ∀ s ∈ configuration, c.isHistory s = false)
    (all : ∀ entry ∈ history, c.Shelters entry) (exits : List StateIndex) :
    ∀ entry ∈ c.recordAll configuration exits history, c.Shelters entry := by
  apply recordAll_forall all
  intro s _ h hh
  obtain ⟨child,past⟩ := List.mem_filter.mp hh
  constructor
  · exact past
  · intro r hr
    exact ⟨ordinary r (active_of_recordFor hr), s, (tree.child_iff s h).mp child,
      recordFor_below tree hr⟩

end Chart

namespace Context

variable {library : ActionLibrary} {source : Source.ChartDef} {c : Chart} {x y : Context}
  {h h' : Heap} {b : Bucket}

/-- A context that can be trusted: besides its states being states of the chart, no history state is
    active, every service has its invoke, and every record can be entered. -/
structure Fits (c : Chart) (x : Context) : Prop extends x.Placed c where
  ordinary : ∀ s ∈ x.configuration, c.isHistory s = false
  served : ∀ i ∈ x.invocations, i.node < (c.state i.state).invokes.length
  shelters : ∀ entry ∈ x.history, c.Shelters entry

/-- The contexts agree on all that fitting depends on. -/
structure Agrees (x y : Context) : Prop where
  configuration : y.configuration = x.configuration
  statesToInvoke : y.statesToInvoke = x.statesToInvoke
  history : ∀ s, y.history.lookup s = x.history.lookup s
  invocations : y.invocations = x.invocations

theorem Fits.of_agrees (fits : x.Fits c) (agrees : x.Agrees y) (placed : y.Placed c) : y.Fits c where
  toPlaced := placed
  ordinary := by
    rw [agrees.configuration]
    exact fits.ordinary
  served := by
    rw [agrees.invocations]
    exact fits.served
  shelters := by
    rintro ⟨h,states⟩ within
    have found := (lookup_eq_some_iff placed.histories).mpr within
    rw [agrees.history] at found
    exact fits.shelters _ ((lookup_eq_some_iff fits.histories).mp found)

/-- A snapshot that is read gives back what it was taken of. -/
theorem agrees_of_store (accepted : Chart.compile library source = .ok c) (placed : x.Placed c)
    (stored : x.store c h = .ok b) {h₀ : Heap} (restored : restore c h₀ b = .ok (h', y)) :
    x.Agrees y := by
  have written := written_of_store stored
  have same := Machine.restored_lodging accepted placed stored restored
  simp only [lodging, Prod.mk.injEq] at same
  obtain ⟨configuration,statesToInvoke,invocations,_⟩ := same
  refine ⟨configuration, statesToInvoke, ?_, invocations⟩
  obtain ⟨history,records,recorded⟩ := restoreHistory_store accepted placed written.history
  rw [written.restore_eq, restoreSections, records] at restored
  obtain ⟨_,_,restored⟩ := Except.bind_eq_ok restored
  obtain ⟨_,_,restored⟩ := Except.bind_eq_ok restored
  obtain ⟨_,read,restored⟩ := Except.bind_eq_ok restored
  obtain ⟨_,_,restored⟩ := Except.bind_eq_ok restored
  obtain ⟨_,_,restored⟩ := Except.bind_eq_ok restored
  cases read
  cases restored
  exact recorded

theorem bare_stored (x : Context) (c : Chart) : ∃ b,
    ({ x with internalQueue := [], done := false } : Context).store c ⟨#[], []⟩ = .ok b :=
  ⟨_, rfl⟩

/-- Any states, records and services of the chart are read from some snapshot. -/
theorem exists_restored (accepted : Chart.compile library source = .ok c) (placed : x.Placed c)
    (h₀ : Heap) : ∃ b h' y, restore c h₀ b = .ok (h', y) ∧ x.Agrees y := by
  obtain ⟨b,stored⟩ := bare_stored x c
  have bare : ({ x with internalQueue := [], done := false } : Context).Placed c :=
    placed.shrink (List.Sublist.refl _) (List.Sublist.refl _) placed.records (List.Sublist.refl _)
  obtain ⟨h₁,queue,history,restored,_,_⟩ :=
    restore_written accepted bare (fun _ none => by cases none) (written_of_store stored) h₀
  obtain ⟨configuration,statesToInvoke,records,invocations⟩ :=
    agrees_of_store accepted bare stored restored
  exact ⟨b, _, _, restored, configuration, statesToInvoke, records, invocations⟩

end Context

namespace Machine

open MachineM

variable {c : Chart} {m m' : Machine}

structure Fits (c : Chart) (m : Machine) : Prop where
  chart : m.chart = c
  context : m.context.Fits c

theorem Fits.placed (fits : m.Fits c) : m.Placed c := ⟨fits.chart, fits.context.toPlaced⟩

theorem Fits.of_places (fits : m.Fits c) (same : m'.places = m.places) : m'.Fits c := by
  have placed := fits.placed.of_places same
  simp only [places, Prod.mk.injEq] at same
  obtain ⟨_,configuration,statesToInvoke,history,invocations⟩ := same
  refine ⟨placed.chart, fits.context.of_agrees ?_ placed.context⟩
  exact ⟨configuration, statesToInvoke, fun s => by rw [history], invocations⟩

theorem Fits.of_frame (fits : m.Fits c) (framed : m'.frame = m.frame) : m'.Fits c := by
  have same : m'.places = m.places :=
    (congrArg places framed : m'.frame.places = m.frame.places)
  exact fits.of_places same

theorem Fits.start (fits : m.Fits c) : m.start.Fits c := fits.of_places rfl

/-- The step from `m` to `m'` keeps the context fitting. -/
def KeepsFit (c : Chart) (m m' : Machine) : Prop := m.Fits c → m'.Fits c

instance : MachineM.Tolerant (KeepsFit c) where
  refl _ := id
  trans first second := fun fits => second (first fits)
  withHeap _ _ := fun fits => fits.of_places rfl
  freshId _ := fun fits => fits.of_places rfl
  enqueue _ _ := fun fits => fits.of_places rfl
  tell _ _ := fun fits => fits.of_places rfl

theorem keepsFit_roaming (wf : c.WellFormed) : Roaming c (KeepsFit c) where
  wf := wf
  placed own := fun fits => own fits.placed fits
  fewer := by
    intro m m' chart configuration statesToInvoke history invocations fits
    have placed := (keepsPlace_roaming wf).fewer chart configuration statesToInvoke history
      invocations fits.placed
    exact ⟨placed.chart, {
      toPlaced := placed.context
      ordinary := fun s hs => fits.context.ordinary s (configuration.subset hs)
      served := fun i hi => fits.context.served i (invocations.subset hi)
      shelters := history ▸ fits.context.shelters }⟩
  records m exits := by
    intro fits
    have placed := (keepsPlace_roaming wf).records m exits fits.placed
    obtain ⟨rfl,own⟩ := fits
    exact ⟨rfl, {
      toPlaced := placed.context
      ordinary := own.ordinary
      served := own.served
      shelters := Chart.recordAll_shelters wf.toIsTree own.ordinary own.shelters exits }⟩
  enters m s inside ordinary := by
    intro fits
    have placed := (keepsPlace_roaming wf).enters m s inside ordinary fits.placed
    refine ⟨placed.chart, ⟨placed.context, ?_, fits.context.served, fits.context.shelters⟩⟩
    intro q hq
    rcases Chart.mem_insertIndex.mp hq with rfl | old
    · exact ordinary
    · exact fits.context.ordinary q old
  notes m entry i invoke := by
    intro fits
    have placed := (keepsPlace_roaming wf).notes m entry i invoke fits.placed
    refine ⟨placed.chart, ⟨placed.context, fits.context.ordinary, ?_, fits.context.shelters⟩⟩
    intro j hj
    rcases List.mem_append.mp hj with old | new
    · exact fits.context.served j old
    · rw [List.mem_singleton.mp new]
      exact (List.getElem?_eq_some_iff.mp invoke).choose

theorem run_fits (wf : c.WellFormed) (fits : m.Fits c) (run : Run m m') : m'.Fits c := by
  have := keepsFit_roaming wf
  exact run_roams (R := KeepsFit c) run fits

/-- A machine before it runs, a new one or one that takes up a context that fits. -/
inductive Trusting (c : Chart) : Machine → Prop where
  | created (options : Options) (memory : Memory) : Trusting c (create c options memory)
  | resumed {options : Options} {memory : Memory} {b : Bucket} {h : Heap} {x : Context} {m : Machine}
      (restored : Context.restore c memory.heap b = .ok (h, x)) (fits : x.Fits c)
      (resumed : resume c options memory b = .ok m) : Trusting c m

theorem create_fits (c : Chart) (options : Options) (memory : Memory) :
    (create c options memory).Fits c :=
  ⟨rfl, (Unstarted.placed (.created c options memory)).context, nofun, nofun, nofun⟩

theorem Trusting.fits (trusting : Trusting c m) : m.Fits c := by
  cases trusting with
  | created options memory => exact create_fits c options memory
  | resumed restored fits resumed =>
    obtain ⟨h,x,again,ready⟩ := resume_ok resumed
    rw [restored] at again
    cases again
    exact (setUp_frames (R := KeepsFit c) c _).of_ok ready ⟨rfl, fits⟩

end Machine

namespace MachineM

variable {α β : Type} {e : Event} {m : Machine}

/-- As `attendTo`, for services whose invokes are there. -/
def finalizeOrForward (c : Chart) (e : Event) (i : Invocation) : MachineM Unit := do
  if e.invokeId = some i.invokeId then
    executeBlock (((c.state i.state).invokes[i.node]?.map (·.finalize)).getD [])
  else if i.autoforward then update (·.emit (.forward i.invokeId e))

theorem passToServices_served
    (served : ∀ i ∈ m.context.invocations, i.node < (m.chart.state i.state).invokes.length) :
    passToServices e m = m.context.invocations.forM (finalizeOrForward m.chart e) m := by
  rw [passToServices_eq]
  refine congrFun (forM_congr ?_) m
  intro i hi
  have invoke := List.getElem?_eq_getElem (served i hi)
  unfold attendTo finalizeOrForward
  simp only [invoke, Option.map_some, Option.getD_some]

theorem forM_crashes {l : List β} {f : β → MachineM Unit} {b : β}
    (frames : ∀ d ∈ l, Frames onlyCrash (f d)) (within : b ∈ l)
    (stops : ∀ m, f b m = .error .crash m) (m : Machine) : ∃ n, l.forM f m = .error .crash n := by
  induction l generalizing m with
  | nil => cases within
  | cons d rest ih =>
    change ∃ n, (f d >>= fun _ => rest.forM f) m = .error .crash n
    cases run : f d m with
    | error i n =>
      obtain rfl : i = .crash := ((frames d List.mem_cons_self m).of_error run).2
      exact ⟨n, bind_of_error _ run⟩
    | ok u n =>
      rw [bind_of_ok _ run]
      rcases List.mem_cons.mp within with rfl | later
      · rw [stops] at run
        cases run
      · exact ih (fun d' hd => frames d' (List.mem_cons_of_mem d hd)) later n

/-- An event from a service whose invoke is not there stops the host. -/
theorem passToServices_crashes {i : Invocation} (noted : i ∈ m.context.invocations)
    (own : e.invokeId = some i.invokeId)
    (missing : (m.chart.state i.state).invokes.length ≤ i.node) :
    ∃ n, passToServices e m = .error .crash n := by
  rw [passToServices_eq]
  apply forM_crashes (fun d _ => attendTo_frames m.chart e d) noted
  intro n
  have none := List.getElem?_eq_none missing
  unfold attendTo
  simp only [own, if_true, none]
  rfl

end MachineM

namespace Machine

open MachineM

variable {library : ActionLibrary} {source : Source.ChartDef} {c : Chart} {m m' : Machine}

/-- Whatever comes next, nothing is missing and nothing is endless: an event that is passed to the
    services finds their invokes, and the targets of transitions are found, and all that they mean
    entering once what is left has been recorded, with any depth above the number of states. -/
structure Secure (m : Machine) : Prop where
  services : ∀ n : Machine, n.places = m.places → ∀ e, passToServices e n =
    n.context.invocations.forM (finalizeOrForward n.chart e) n
  targets : ∀ depth, m.chart.states.size < depth → ∀ t,
    m.chart.targetsWithin? m.context.history depth t =
      some (m.chart.effectiveTargets m.context.history t)
  entries : ∀ depth, m.chart.states.size < depth → ∀ transitions s e,
    let history := m.chart.recalled m.context.history m.context.configuration transitions
    m.chart.addDescendants? history depth s e =
      some (m.chart.addDescendants history (m.chart.states.size + 1) s e)

theorem Fits.secure (fits : m.Fits c) (accepted : Chart.compile library source = .ok c)
    (uncircular : c.Uncircular) : m.Secure := by
  have wf := Chart.compile_wellFormed accepted
  have inward := Chart.compile_inward accepted
  obtain ⟨rfl,own⟩ := fits
  constructor
  · intro n same e
    have fits : n.Fits m.chart := Fits.of_places ⟨rfl, own⟩ same
    apply passToServices_served
    rw [fits.chart]
    exact fits.context.served
  · intro depth deep t
    exact wf.targets_found_deep inward uncircular deep t
  · intro depth deep transitions s e history
    have shelters : ∀ entry ∈ history, m.chart.Shelters entry :=
      Chart.recordAll_shelters wf.toIsTree own.ordinary own.shelters _
    exact wf.succeeds_deep inward uncircular (Chart.sheltered_of_shelters shelters) deep s e

theorem take_crashes {e : Event} {n : Machine} {i : Invocation} (waiting : m.control = .waiting)
    (bound : bindEvent e { m with steps := 0 } = .ok () n) (noted : i ∈ m.context.invocations)
    (own : e.invokeId = some i.invokeId)
    (missing : (m.chart.state i.state).invokes.length ≤ i.node) :
    (m.take (.event e)).control = .crashed := by
  have framed : n.frame = ({ m with steps := 0 } : Machine).frame :=
    Frames.eq_of_ok (P := refused) (bindEvent_frames e) bound
  have services : n.context.invocations = m.context.invocations :=
    congrArg (fun k => k.context.invocations) framed
  have chart : n.chart = m.chart := congrArg (fun k => k.chart) framed
  rw [← services] at noted
  rw [← chart] at missing
  obtain ⟨k,crash⟩ := passToServices_crashes noted own missing
  have received : receive e m = .error .crash k := by
    unfold receive
    rw [bind_of_ok _ (rfl : update (fun m => { m with steps := 0 }) m = .ok () { m with steps := 0 }),
      bind_of_ok _ bound, bind_of_error _ crash]
  have stopped : takeInput (.event e) m = .error .crash k := by
    change process e m = _
    rw [process_eq, bind_of_error _ received]
  rw [take_waiting waiting, proceed, stopped]

/-- That a snapshot is read says that its states are states of the chart, its sets in order and its
    records one for each state, and no more: whatever is like this is read from some snapshot. If its
    context fits, a machine that takes it up is secure at every point of its runs, as a new machine is,
    and the snapshots that it takes have contexts that fit. If it does not fit, an event from a service
    without invoke stops the host, and entering a history state that is in its own record never ends. -/
theorem snapshots_sound_if_fitting (accepted : Chart.compile library source = .ok c)
    (uncircular : c.Uncircular) :
    (∀ h b h' x, Context.restore c h b = .ok (h', x) → x.Placed c)
    ∧ (∀ x : Context, x.Placed c → ∀ h, ∃ b h' y,
        Context.restore c h b = .ok (h', y) ∧ x.Agrees y)
    ∧ (∀ m₀ m, Trusting c m₀ → Run m₀.start m → m.Fits c ∧ m.Secure ∧
        ∀ b h h' y, m.snapshot = .ok b → Context.restore c h b = .ok (h', y) → y.Fits c)
    ∧ (∀ (m n : Machine) (e : Event) (i : Invocation), m.control = .waiting →
        bindEvent e { m with steps := 0 } = .ok () n → i ∈ m.context.invocations →
        e.invokeId = some i.invokeId → (m.chart.state i.state).invokes.length ≤ i.node →
        (m.take (.event e)).control = .crashed)
    ∧ ∀ history h states, c.isHistory h = true → history.lookup h = some states → h ∈ states →
        ∀ depth e, c.addDescendants? history depth h e = none := by
  have wf := Chart.compile_wellFormed accepted
  constructor
  · exact fun _ _ _ _ => Context.restore_placed
  constructor
  · exact fun _ placed => Context.exists_restored accepted placed
  constructor
  · intro m₀ m trusting run
    have now := run_fits wf trusting.fits.start run
    refine ⟨now, now.secure accepted uncircular, ?_⟩
    intro b h h' y stored restored
    rw [snapshot, now.chart] at stored
    apply now.context.of_agrees
    · exact Context.agrees_of_store accepted now.context.toPlaced stored restored
    · exact Context.restore_placed restored
  constructor
  · exact fun _ _ _ _ => take_crashes
  · -- The history state stands for itself, so entering it comes back to it.
    intro history h states past found within depth e
    have stands : h ∈ c.onward history h := by
      simpa only [Chart.onward, past, if_true, Chart.standIns, found, Option.getD_some] using within
    apply Chart.never_ends (fun s => s = h) _ rfl
    rintro _ rfl
    exact ⟨_, stands, rfl⟩

end Machine

namespace Tampered

open Source Machine MachineM
open Awoken hiding chart

/-- A state that invokes a service, and one with a history. -/
def source : ChartDef where
  name := none
  initial := none
  data := []
  extra := none
  states :=
    [.mk { StateInfo.simple "busy" .state [⟨some ["go"], none, some ["h"], .external, []⟩] with
        invokes := [⟨none, some "service", none, some "kid", none, [], none, false, []⟩] } [],
      .mk (.simple "outer" .state [])
        [.mk (.simple "h" .history [⟨none, none, some ["a"], .external, []⟩]) [],
          .mk (.simple "a" .state []) []]]

def chart : Chart := Chart.compiled [] source

def machine : Machine := (Machine.create chart options default).start

def serving : Machine := served machine

/-- What is stored when somebody else has changed the snapshot: the service is said to be of another
    invoke, and the history state to have recorded itself. -/
def altered : Machine := { serving with context := { serving.context with
  invocations := serving.context.invocations.map fun i => { i with node := 7 }
  history := [(3, [3])] } }

def heard : Event := { name := ⟨["go"]⟩, type := .external, invokeId := some "kid" }

theorem accepted : Chart.compile [] source = .ok chart :=
  Chart.compile_eq_compiled (by decide +kernel)

theorem uncircular : chart.Uncircular := by
  have peopled : chart.Peopled := Chart.peopled_of_check (by decide +kernel)
  exact peopled.uncircular

theorem serving_reached : Run machine serving := served_reached machine

theorem altered_chart : altered.chart = chart := by
  have begun := (create_fits chart options default).start
  have fits := run_fits (Chart.compile_wellFormed accepted) begun serving_reached
  unfold altered
  dsimp only
  exact fits.chart

theorem altered_placed : altered.context.Placed chart where
  configuration := by decide +kernel
  active := by decide +kernel
  statesToInvoke := by decide +kernel
  entered := by decide +kernel
  histories := by decide +kernel
  recorded := by decide +kernel
  services := by decide +kernel

/-- Whether the event can be shown to the data model. -/
def binds (m : Machine) : Bool :=
  match bindEvent heard { m with steps := 0 } with
  | .ok _ _ => true
  | .error _ _ => false

/-- The machine that has not been altered is secure. A snapshot of the other one is read as well, and
    the event stops the host; or else what it leads to is entered without end. -/
theorem alteration_harms : serving.Secure
    ∧ (∃ b h y, Context.restore chart .initial b = .ok (h, y) ∧ altered.context.Agrees y)
    ∧ (altered.take (.event heard)).control = .crashed
    ∧ chart.addDescendants? altered.context.history 100 3 {} = none := by
  obtain ⟨_,readable,secure,stops,endless⟩ := snapshots_sound_if_fitting accepted uncircular
  constructor
  · exact (secure _ serving (.created options default) serving_reached).2.1
  constructor
  · exact readable altered.context altered_placed .initial
  constructor
  · have waiting : altered.control = .waiting := control_of_waiting (by decide +kernel)
    have noted : ∃ i ∈ altered.context.invocations, heard.invokeId = some i.invokeId ∧
        (altered.chart.state i.state).invokes.length ≤ i.node := by decide +kernel
    have free : binds altered = true := by decide +kernel
    obtain ⟨i,noted,own,missing⟩ := noted
    unfold binds at free
    split at free
    · rename_i n bound
      exact stops altered n heard i waiting bound noted own missing
    · cases free
  · exact endless altered.context.history 3 [3] (by decide +kernel) rfl (by decide) 100 {}

def broken (m : Machine) : Bool :=
  match m.control with
  | .crashed => true
  | _ => false

theorem crashed_of_broken {m : Machine} (seen : broken m = true) : m.control = .crashed := by
  unfold broken at seen
  split at seen
  · assumption
  · cases seen

/-- The invokes, the records and the end of a machine that takes up the run. -/
def aftermath (r : Machine) : List (StateIndex × Nat) × HistoryTable × Bool :=
  (r.context.invocations.map fun i => (i.state, i.node), r.context.history,
    broken ((served r.start).take (.event heard)))

/-- The altered snapshot is read, and the machine that takes it up goes as far as to wait. Then the
    event stops the host. -/
theorem alteration_unnoticed : Chart.compile [] source = .ok chart ∧ chart.Uncircular
    ∧ ∃ b h x r, Context.restore chart altered.heap b = .ok (h, x)
      ∧ (¬ ∀ i ∈ x.invocations, i.node < (chart.state i.state).invokes.length)
      ∧ (¬ ∀ entry ∈ x.history, ∀ s ∈ entry.2, chart.isHistory s = false)
      ∧ (∀ depth e, chart.addDescendants? x.history depth 3 e = none)
      ∧ resume chart altered.options altered.memory b = .ok r ∧ Run r.start (served r.start)
      ∧ ((served r.start).take (.event heard)).control = .crashed := by
  have seen : (resumed altered).map aftermath = some ([(1, 7)], [(3, [3])], true) := by
    decide +kernel
  obtain ⟨r,found,seen⟩ := Option.map_eq_some_iff.mp seen
  simp only [aftermath, Prod.mk.injEq] at seen
  obtain ⟨invokes,records,ends⟩ := seen
  obtain ⟨b,_,again⟩ := resume_of_resumed found
  rw [altered_chart] at again
  obtain ⟨h,x,restored,ready⟩ := resume_ok again
  have framed := (setUp_frames (R := fun m m' : Machine => m'.frame = m.frame) chart _).of_ok ready
  have services : r.context.invocations = x.invocations :=
    congrArg (fun m => m.context.invocations) framed
  have history : r.context.history = x.history := congrArg (fun m => m.context.history) framed
  rw [history] at records
  rw [services] at invokes
  refine ⟨accepted, uncircular, b, h, x, r, restored, ?_, ?_, ?_, again, served_reached _,
    crashed_of_broken ends⟩
  · intro served
    have own : (1, 7) ∈ x.invocations.map fun i => (i.state, i.node) := by simp [invokes]
    obtain ⟨i,noted,named⟩ := List.mem_map.mp own
    have within := served i noted
    simp only [Prod.mk.injEq] at named
    rw [named.1, named.2] at within
    exact absurd within (by decide +kernel)
  · rw [records]
    decide +kernel
  · intro depth e
    rw [records]
    apply Chart.never_ends (fun s => s = 3) _ rfl
    rintro _ rfl
    exact ⟨3, by decide +kernel, rfl⟩

end Tampered

end Statechart

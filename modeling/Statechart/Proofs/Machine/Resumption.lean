import Statechart.Proofs.Chart.Conditions
import Statechart.Proofs.Machine.Mirror
import Statechart.Proofs.Machine.Placement
import Statechart.Proofs.Snapshot.Faithful
import Statechart.Proofs.Value.Writing

/- Taking up a run. A machine that is stored while it waits, and made again from its snapshot, comes
   to its first wait without doing anything, as long as what its conditions read is kept: the system
   variable of the last event is not, and a container in two places becomes two containers. -/
namespace Statechart

def Report.isPoint : Report → Bool
  | .life _ | .trace (.point _) => true
  | _ => false

namespace Machine

open MachineM

variable {m r : Machine}

theorem reach_points (reliable : m.options.logger.Reliable) (p : LifePoint) :
    ∃ told, m.reach p = { m with reports := told ++ m.reports } ∧ told.all Report.isPoint = true := by
  unfold reach trace
  by_cases tracing : m.options.logger.tracing = true
  · refine ⟨[.life p, .trace (.point p)], ?_, rfl⟩
    have sound : m.options.logger.traceFault (.point p) = none := reliable tracing _
    simp only [tracing, Bool.not_true, Bool.false_eq_true, if_false, tell, sound]
    rfl
  · exact ⟨[.life p], by simp [tracing, tell], rfl⟩

/-- The machine comes from its start to its first wait without doing anything: it looks once and
    finds neither transitions nor events, and afterwards all that is different are containers that
    conditions have made and reports of points of life. -/
structure WaitsAtOnce (r : Machine) : Prop where
  nothing : ∃ n, look r.start.step = .ok .stability n
  waits : ∃ h told, r.heap.Extends h ∧ told.all Report.isPoint = true ∧
    r.start.advance = { r.start.withHeap h with
      control := .waiting, accepted := true, reports := told ++ r.reports }

theorem stepUntilBlocked_of_running {fuel : Nat} (running : m.isBlocked = false) :
    stepUntilBlocked (fuel + 1) m = stepUntilBlocked fuel m.step := by
  rw [stepUntilBlocked, running]
  rfl

theorem stepUntilBlocked_of_blocked {fuel : Nat} (blocked : m.isBlocked = true) :
    stepUntilBlocked fuel m = m := by
  cases fuel with
  | zero => rfl
  | succ fuel => rw [stepUntilBlocked, if_pos blocked]

/-- There is enough time for a few steps. -/
theorem stepBound_eq (m : Machine) : ∃ fuel, m.stepBound = fuel + 3 := by
  refine ⟨m.stepBound - 3, ?_⟩
  have enough : 1 * 6 ≤ (m.options.maxMicrosteps + 3) * (2 * m.invokeCount + 6) :=
    Nat.mul_le_mul (by omega) (by omega)
  unfold stepBound
  omega

theorem start_step (reliable : r.options.logger.Reliable) (entered : r.context.initialized = true)
    (going : r.context.done = false) : ∃ told,
      r.start.step = { r.start with reports := told ++ r.reports, control := .macrostep } ∧
        told.all Report.isPoint = true := by
  obtain ⟨told,begun,points⟩ := reach_points (m := r.start) reliable .started
  have running : ¬ r.start.context.done = true := by
    rw [show r.start.context.done = false from going]
    exact Bool.false_ne_true
  have run := start_again (m := r.start) entered
  rw [if_neg running, begun] at run
  refine ⟨told, ?_, points⟩
  change r.start.proceed MachineM.start = _
  rw [proceed, run]
  rfl

theorem look_of_nothing {n : Machine} (going : m.context.done = false) (spared : m.destroyed = false)
    (selected : selectTransitions none m = .ok [] n) (queue : n.context.internalQueue = []) :
    look m = .ok .stability n := by
  rw [look, get_bind, if_neg (by simp [going]), if_neg (by simp [spared]), bind_of_ok _ selected,
    if_neg (by simp), get_bind, queue]
  rfl

theorem settle_step {n : Machine} (control : m.control = .macrostep)
    (looked : look m = .ok .stability n) (invokes : n.context.statesToInvoke = []) :
    m.step = { n with control := .invoking [] } := by
  have same : { n with context := { n.context with statesToInvoke := [] } } = n := by
    rw [← invokes]
  have pending : pendingInvokes n = [] := by
    rw [pendingInvokes, invokes]
    rfl
  have run : MachineM.macrostep m = .ok (.invoking []) n := by
    rw [macrostep_of_look looked]
    change EStateM.Result.ok (Control.invoking (pendingInvokes n))
      { n with context := { n.context with statesToInvoke := [] } } = _
    rw [pending, same]
  rw [step, control]
  change m.proceed MachineM.macrostep = _
  rw [proceed, run]

theorem wait_step (reliable : m.options.logger.Reliable) (control : m.control = .invoking [])
    (queue : m.context.internalQueue = []) (first : m.accepted = false) : ∃ told,
      m.step = { m with control := .waiting, accepted := true, reports := told ++ m.reports } ∧
        told.all Report.isPoint = true := by
  obtain ⟨told,accepted,points⟩ := reach_points (m := { m with accepted := true }) reliable .accepted
  obtain ⟨told',waiting,points'⟩ := reach_points
    (m := { m with accepted := true, reports := told ++ m.reports }) reliable .waiting
  refine ⟨told' ++ told, ?_, by rw [List.all_append, points, points']; rfl⟩
  have run : MachineM.goOn [] m =
      .ok .waiting (({ m with accepted := true }.reach .accepted).reach .waiting) := by
    rw [goOn, get_bind, if_neg (by simp [queue]), if_pos (by simp [first])]
    rfl
  rw [accepted, waiting] at run
  rw [step, control]
  change m.proceed (MachineM.goOn []) = _
  rw [proceed, run, List.append_assoc]

theorem waitsAtOnce (reliable : r.options.logger.Reliable) (entered : r.context.initialized = true)
    (going : r.context.done = false) (spared : r.destroyed = false)
    (queue : r.context.internalQueue = []) (invokes : r.context.statesToInvoke = [])
    (nothing : ∀ n : Machine, n.chart = r.chart → n.context = r.context → n.heap = r.heap →
      ∃ n', selectTransitions none n = .ok [] n' ∧ n.Grew n') : r.WaitsAtOnce := by
  obtain ⟨told,first,points⟩ := start_step reliable entered going
  obtain ⟨n,selected,h,grown,rfl⟩ := nothing r.start.step (by rw [first]; rfl) (by rw [first]; rfl)
    (by rw [first]; rfl)
  have looked := look_of_nothing (by rw [first]; exact going) (by rw [first]; exact spared) selected
    (by rw [first]; exact queue)
  have second := settle_step (by rw [first]) looked (by rw [first]; exact invokes)
  obtain ⟨told',third,points'⟩ := wait_step (m := r.start.step.step)
    (by rw [second, first]; exact reliable) (by rw [second]) (by rw [second, first]; exact queue)
    (by rw [second, first]; rfl)
  obtain ⟨fuel,bound⟩ := stepBound_eq r.start
  have advanced : r.start.advance = r.start.step.step.step := by
    rw [advance, bound, stepUntilBlocked_of_running (by rfl),
      stepUntilBlocked_of_running (by rw [first]; rfl),
      stepUntilBlocked_of_running (by rw [second]; rfl),
      stepUntilBlocked_of_blocked (by rw [third]; rfl)]
  refine ⟨⟨_, looked⟩, h, told' ++ told, ?_, by rw [List.all_append, points, points']; rfl, ?_⟩
  · rw [first] at grown
    exact grown
  · rw [advanced, third, second, first, List.append_assoc]
    rfl

end Machine

namespace MachineM

open Machine

variable {m : Machine} {k k' : Heap} {data : Ref} {entries : List (String × Slot)}

/-- A machine whose data model is the object that is rewritten. -/
structure Refits (data : Ref) (k : Heap) (entries : List (String × Slot)) (m : Machine) : Prop where
  dataModel : m.context.dataModel = data
  rewrites : Heap.Rewrites data k entries m.heap

theorem requireHeap_ok {f : Heap → Except ValueError Heap} (done : f m.heap = .ok k') :
    requireHeap f m = .ok () (m.withHeap k') := by
  rw [requireHeap, done]

theorem defineVariable_refits (refits : Refits data k entries m) (key : String) (v : Value) :
    ∃ k', defineVariable key v m = .ok () (m.withHeap k') ∧
      Refits data k (insertEntry key ⟨v, true⟩ entries) (m.withHeap k') := by
  obtain ⟨k',written,after⟩ := refits.rewrites.writeEntry key ⟨v, true⟩ false nofun
  refine ⟨k', ?_, refits.dataModel, after⟩
  rw [defineVariable, get_bind, refits.dataModel]
  exact requireHeap_ok written

/-- A variable that is declared again has no value, as it had none before. -/
theorem declareMissing_refits (refits : Refits data k entries m) (d : DataNode) :
    ∃ k' entries', declareMissing d m = .ok () (m.withHeap k') ∧
      Refits data k entries' (m.withHeap k') ∧
      ∀ key, Heap.valueOf (lookupEntry key entries') = Heap.valueOf (lookupEntry key entries) := by
  have found : m.heap.slot? m.context.dataModel d.id = lookupEntry d.id entries := by
    rw [Heap.slot?, refits.dataModel, refits.rewrites.object]
    rfl
  rw [declareMissing, get_bind]
  cases present : lookupEntry d.id entries with
  | some slot =>
    have there : m.heap.contains m.context.dataModel d.id = true := by
      rw [Heap.contains, found, present]
      rfl
    rw [if_neg (by simp [there])]
    exact ⟨m.heap, entries, rfl, refits, fun _ => rfl⟩
  | none =>
    have absent : m.heap.contains m.context.dataModel d.id = false := by
      rw [Heap.contains, found, present]
      rfl
    obtain ⟨k',written,after⟩ :=
      refits.rewrites.writeEntry d.id ⟨.undefined, false⟩ true fun _ => present
    rw [if_pos (by simp [absent]), refits.dataModel]
    refine ⟨k', _, requireHeap_ok written, ⟨refits.dataModel, after⟩, fun key => ?_⟩
    rw [lookupEntry_insertEntry]
    split
    · rename_i same
      rw [← same, present]
      rfl
    · rfl

theorem declareAll_refits (refits : Refits data k entries m) (nodes : List DataNode) :
    ∃ k' entries', nodes.forM declareMissing m = .ok () (m.withHeap k') ∧
      Refits data k entries' (m.withHeap k') ∧
      ∀ key, Heap.valueOf (lookupEntry key entries') = Heap.valueOf (lookupEntry key entries) := by
  induction nodes generalizing m entries with
  | nil => exact ⟨m.heap, entries, rfl, refits, fun _ => rfl⟩
  | cons d rest ih =>
    obtain ⟨k₁,entries₁,first,refits₁,same₁⟩ := declareMissing_refits refits d
    obtain ⟨k₂,entries₂,later,refits₂,same₂⟩ := ih refits₁
    refine ⟨k₂, entries₂, ?_, refits₂, fun key => (same₂ key).trans (same₁ key)⟩
    exact (bind_of_ok (fun _ => rest.forM declareMissing) first).trans later

/-- Setting up binds session and name, and leaves other variables with the values they have. -/
theorem setUp_refits {c : Chart} (refits : Refits data k entries m) :
    ∃ k' entries', setUp c m = .ok () (m.withHeap k') ∧ Refits data k entries' (m.withHeap k') ∧
      ∀ key, Heap.valueOf (lookupEntry key entries') =
        if "_name" = key then Event.textOrUndefined m.chart.name
        else if "_sessionid" = key then .string m.options.sessionId
        else Heap.valueOf (lookupEntry key entries) := by
  obtain ⟨k₁,first,refits₁⟩ :=
    defineVariable_refits refits "_sessionid" (.string m.options.sessionId)
  obtain ⟨k₂,second,refits₂⟩ :=
    defineVariable_refits refits₁ "_name" (Event.textOrUndefined m.chart.name)
  obtain ⟨k₃,entries₃,third,refits₃,same⟩ :=
    declareAll_refits refits₂ (c.states.toList.flatMap (·.data))
  refine ⟨k₃, entries₃, ?_, refits₃, fun key => ?_⟩
  · have bound : bindSystemVariables m = .ok () (m.withHeap k₂) := by
      rw [bindSystemVariables, get_bind, bind_of_ok _ first, second]
      rfl
    rw [setUp, bind_of_ok _ bound]
    exact third
  · rw [same, lookupEntry_insertEntry, lookupEntry_insertEntry]
    split
    · rfl
    · split
      · rfl
      · rfl

end MachineM

namespace Heap

variable {p : Pairing} {h k k' : Heap} {r s : Nat} {entries : List (String × Slot)}

/-- What is paired stays paired while an object that is not is rewritten. -/
theorem Corresponds.rewrite (corresponds : Corresponds p h k) (rewrites : Rewrites s k entries k')
    (single : ∀ r, ¬ p r s) : Corresponds p h k' where
  functional := corresponds.functional
  injective := corresponds.injective
  cells := by
    intro r t pair
    obtain ⟨c,d,here,there,like⟩ := corresponds.cells pair
    have other : t ≠ s := fun same => single r (same ▸ pair)
    exact ⟨c, d, here, (rewrites.others t other).trans there, like⟩

end Heap

/-- A condition of a transition without event reads the path. -/
def Chart.Glances (c : Chart) (path : List String) : Prop :=
  ∃ t cond, c.triggered none t = true ∧ (c.transition t).condition = some cond ∧ cond.Reads path

/-- The value of a system variable when a run is taken up. The last event is not known any more. -/
def Chart.rebound (c : Chart) (sessionId key : String) : Value :=
  if "_name" = key then Event.textOrUndefined c.name
  else if "_sessionid" = key then .string sessionId
  else .undefined

theorem Chart.rebound_like (c : Chart) (sessionId key : String) (p : Pairing) :
    (c.rebound sessionId key).Like p (c.rebound sessionId key) := by
  unfold rebound
  split
  · cases c.name with
    | none => exact .undefined
    | some text => exact .string text
  · split
    · exact .string sessionId
    · exact .undefined

namespace Machine

open MachineM

variable {library : ActionLibrary} {source : Source.ChartDef} {c : Chart} {m n m₀ : Machine}
  {options : Options} {memory : Memory} {b : Bucket}

/-- A system variable that conditions of transitions without event read has the value it will have
    when the run is taken up. -/
def Rebindable (m : Machine) (sessionId : String) : Prop :=
  ∀ key ∈ systemVariables, ∀ rest, m.chart.Glances (key :: rest) →
    m.heap.get m.context.dataModel key = m.chart.rebound sessionId key

theorem resume_eq {h : Heap} {x : Context} {r : Machine}
    (restored : Context.restore c memory.heap b = .ok (h, x))
    (ready : setUp c { chart := c, options, memory := { memory with heap := h }, context := x }
      = .ok () r) : resume c options memory b = .ok r := by
  unfold resume
  simp only [restored, Bind.bind, Except.bind]
  split
  all_goals
    rename_i run
    cases ready.symm.trans run
  rfl

/-- A machine that rests is stored, unless its data cannot be. -/
theorem snapshot_of_rest (queue : m.context.internalQueue = []) (going : m.context.done = false)
    (faithful : m.context.Faithful m.heap) : ∃ b, m.snapshot = .ok b := by
  obtain ⟨d,stored⟩ := faithful.stored
  refine ⟨m.context.sections m.chart (.array []) d, ?_⟩
  have none : m.context.storeQueue m.heap = .ok (.array []) := by
    rw [Context.storeQueue_eq, queue]
    rfl
  rw [snapshot, Context.store_eq, none, stored]
  change m.context.storeResult m.heap _ = _
  rw [Context.storeResult, if_neg (by simp [going])]

/-- A variable is alike in a data model that was read back and set up. -/
theorem like_of_alike {p : Pairing} {k : Heap} {data : Ref} {entries : List (String × Slot)}
    (alike : m.context.Alike m.heap p k data entries) {sessionId key : String} {slot : Option Slot}
    (value : Heap.valueOf slot =
      if "_name" = key then Event.textOrUndefined c.name
      else if "_sessionid" = key then .string sessionId
      else Heap.valueOf (lookupEntry key entries))
    (system : key ∈ systemVariables →
      m.heap.get m.context.dataModel key = c.rebound sessionId key) :
    (m.heap.get m.context.dataModel key).Like p (Heap.valueOf slot) := by
  by_cases own : key ∈ systemVariables
  · rw [alike.absent key own] at value
    rw [system own, value]
    exact c.rebound_like sessionId key p
  · have apart : "_name" ≠ key ∧ "_sessionid" ≠ key :=
      ⟨fun same => own (same ▸ by decide), fun same => own (same ▸ by decide)⟩
    rw [value, if_neg apart.1, if_neg apart.2]
    exact alike.values key own

/-- A machine mirrors another if the variables that conditions read are alike. -/
theorem mirrors_of_like (accepted : Chart.compile library source = .ok m.chart) {r : Machine}
    {p : Pairing} {o o' : ObjectCell} (chart : r.chart = m.chart)
    (configuration : r.context.configuration = m.context.configuration)
    (corresponds : Heap.Corresponds p m.heap r.heap)
    (here : m.heap.object? m.context.dataModel = some o)
    (there : r.heap.object? r.context.dataModel = some o')
    (like : ∀ key rest, m.chart.Glances (key :: rest) →
      (m.heap.get m.context.dataModel key).Like p (Heap.valueOf (lookupEntry key o'.entries))) :
    Mirrors p m r := by
  refine ⟨chart, configuration, corresponds, ?_⟩
  intro t cond path triggered condition reads
  cases path with
  | nil => exact absurd rfl (Chart.condition_named accepted condition [] reads)
  | cons head rest =>
    have like := like head rest ⟨t, cond, triggered, condition, reads⟩
    rw [← Heap.get_of_object there] at like
    exact .entry (Heap.lt_size_of_object here) (Heap.lt_size_of_object there) like

/-- Everything that conditions read is alike in the machine that takes up the run. -/
theorem resume_mirrors (accepted : Chart.compile library source = .ok m.chart)
    (placed : m.Placed m.chart) (queue : m.context.internalQueue = [])
    (faithful : m.context.Faithful m.heap) (rebindable : m.Rebindable options.sessionId)
    (stored : m.snapshot = .ok b) (memory : Memory) :
    ∃ p r, resume m.chart options memory b = .ok r ∧ Mirrors p m r ∧ r.options = options ∧
      r.destroyed = false ∧ r.context.initialized = true ∧
      r.context.done = m.context.done ∧ r.context.internalQueue = [] ∧
      r.context.statesToInvoke = m.context.statesToInvoke := by
  rw [snapshot] at stored
  have written := Context.written_of_store stored
  have given : ∀ e ∈ m.context.internalQueue, e.name.Given := by
    rw [queue]
    exact List.forall_mem_nil _
  obtain ⟨h₁,events,history,restored,-,requeued⟩ := Context.restore_written accepted placed.context
    given written memory.heap
  rw [queue] at requeued
  cases requeued
  obtain ⟨p,entries,alike⟩ := faithful.reread written h₁ [] history
  obtain ⟨k,entries',ready,refits,values⟩ := setUp_refits (c := m.chart) (m := {
      chart := m.chart
      options
      memory := { memory with heap := (m.context.reread b h₁ [] history).1 }
      context := (m.context.reread b h₁ [] history).2 }) ⟨rfl, alike.object, fun _ _ => rfl⟩
  refine ⟨p, _, resume_eq restored ready, ?_, rfl, rfl, rfl, rfl, rfl, rfl⟩
  obtain ⟨o,present⟩ := faithful.present
  exact mirrors_of_like accepted rfl rfl (alike.corresponds.rewrite refits.rewrites alike.single)
    present refits.rewrites.object fun key rest glances =>
      like_of_alike alike (values key) fun system => rebindable key system rest glances

theorem Mirrors.congr {p : Pairing} {r : Machine} (mirrors : Mirrors p m r) (chart : n.chart = r.chart)
    (context : n.context = r.context) (heap : n.heap = r.heap) : Mirrors p m n where
  chart := chart.trans mirrors.chart
  configuration := by rw [context, mirrors.configuration]
  corresponds := heap ▸ mirrors.corresponds
  begins := by
    rw [context, heap]
    exact mirrors.begins

/-- Resuming is invisible until the next event. A machine that waits, finds no transition without
    event and whose data comes through a snapshot unchanged is stored; the machine that takes up the
    run is in the same configuration and comes to its first wait without selecting a transition and
    without running any content. Conditions must not depend on the last event, which is not kept. -/
theorem resuming_unnoticed (accepted : Chart.compile library source = .ok m₀.chart)
    (unstarted : Unstarted m₀) (run : Run m₀.start m) (waiting : m.control = .waiting)
    (reliable : m₀.options.logger.Reliable) (stable : selectTransitions none m = .ok [] n)
    (sound : n.context.internalQueue = []) (faithful : m.context.Faithful m.heap)
    (rebindable : m.Rebindable options.sessionId) (reliable' : options.logger.Reliable)
    (memory : Memory) :
    ∃ b r, m.snapshot = .ok b ∧ resume m₀.chart options memory b = .ok r ∧
      r.context.configuration = m.context.configuration ∧ r.WaitsAtOnce := by
  have placed : m.Placed m₀.chart := run_placed (Chart.compile_wellFormed accepted) unstarted run
  obtain ⟨setting,orderly⟩ := run_orderly unstarted run
  have rested : m.Rested := by
    rw [Orderly, waiting] at orderly
    exact orderly
  have kept : m.options = m₀.options := congrArg Prod.snd setting
  have queue := rested.queue (kept ▸ reliable)
  obtain ⟨b,stored⟩ := snapshot_of_rest queue rested.going faithful
  have chart := placed.chart
  rw [← chart] at accepted placed ⊢
  obtain ⟨p,r,resumed,mirrors,settings,spared,entered,going,empty,invokes⟩ :=
    resume_mirrors accepted placed queue faithful rebindable stored memory
  refine ⟨b, r, stored, resumed, mirrors.configuration, ?_⟩
  refine waitsAtOnce (settings ▸ reliable') entered (going.trans rested.going) spared empty
    (invokes.trans rested.invokes) fun n' chart context heap => ?_
  exact selects_none_again (mirrors.congr chart context heap) stable (by rw [sound, queue])

end Machine

namespace Awoken

open Source Machine MachineM

/-- Surroundings in which everything succeeds. -/
def willing : Host Unit where
  perform _ _ s := (none, s)
  invoke _ _ s := (none, s)
  destroyed _ := false
  suspended _ := false

def options : Options := { sessionId := "s" }

def created (source : ChartDef) : Machine :=
  Machine.create (Chart.compiled [] source) options default

theorem created_reliable (source : ChartDef) : (created source).options.logger.Reliable := nofun

theorem compile_eq_created {source : ChartDef} (sound : (Chart.compile [] source).isOk = true) :
    Chart.compile [] source = .ok (created source).chart :=
  Chart.compile_eq_compiled sound

def served (m : Machine) : Machine := (willing.serve m ()).1

def fed (source : ChartDef) (events : List Event) : Machine :=
  events.foldl (fun m e => served (m.take (.event e))) (served (created source).start)

theorem served_reached (m : Machine) : Run m (served m) := willing.serveWithin_run _ m ()

theorem fed_reached (source : ChartDef) (events : List Event) :
    Run (created source).start (fed source events) := by
  have run := served_reached (created source).start
  unfold fed
  generalize served (created source).start = m at run ⊢
  induction events generalizing m with
  | nil => exact run
  | cons e rest ih => exact ih _ ((run.next (.take m (.event e))).trans (served_reached _))

/-- The machine that takes up the run of another one, made without looking at checksums. -/
def resumed (m : Machine) : Option Machine :=
  match m.snapshot with
  | .error _ => none
  | .ok b =>
    match Context.restoreSections m.chart m.heap b with
    | .error _ => none
    | .ok (h, context) =>
      match setUp m.chart
          { chart := m.chart, options := m.options, memory := { m.memory with heap := h }, context } with
      | .ok _ r => some r
      | .error _ _ => none

theorem resume_of_resumed {m r : Machine} (found : resumed m = some r) :
    ∃ b, m.snapshot = .ok b ∧ resume m.chart m.options m.memory b = .ok r := by
  unfold resumed at found
  split at found
  · cases found
  · rename_i b stored
    split at found
    · cases found
    · rename_i h context read
      split at found
      · rename_i r ready
        cases found
        refine ⟨b, stored, resume_eq ?_ ready⟩
        exact ((Context.written_of_store stored).restore_eq _).trans read
      · cases found

/-- How many transitions are selected without event, and how many events are queued by then. -/
def glimpse (m : Machine) : Option (Nat × Nat) :=
  match selectTransitions none m with
  | .ok enabled n => some (enabled.length, n.context.internalQueue.length)
  | .error _ _ => none

theorem stable_of_glimpse {m : Machine} (queued : Nat) (seen : glimpse m = some (0, queued)) :
    ∃ n, selectTransitions none m = .ok [] n ∧ n.context.internalQueue.length = queued := by
  unfold glimpse at seen
  split at seen
  · rename_i enabled n selected
    simp only [Option.some.injEq, Prod.mk.injEq, List.length_eq_zero_iff] at seen
    exact ⟨n, seen.1 ▸ selected, seen.2⟩
  · cases seen

/-- The machine waits and has no transition without event, and its values are not altered by JSON.
    The machine that takes up the run waits for the first time in another configuration. -/
structure Noticed (source : ChartDef) (m : Machine) : Prop where
  accepted : Chart.compile [] source = .ok m.chart
  reached : Run (created source).start m
  waiting : m.control = .waiting
  stable : ∃ n, selectTransitions none m = .ok [] n
  unchanged : ∀ e ∈ m.context.kept m.heap,
    ∃ t, m.heap.unfold e.2.value = .ok t ∧ Tree.ofJson t.toJson = t
  elsewhere : ∃ b r, m.snapshot = .ok b ∧ resume m.chart m.options m.memory b = .ok r ∧
    (served r.start).control = .waiting ∧
    (served r.start).context.configuration ≠ m.context.configuration

def firstWait (m : Machine) : Option (List StateIndex) :=
  match resumed m with
  | some r =>
    if (served r.start).posture = .waiting then some (served r.start).context.configuration else none
  | none => none

theorem noticed_of_firstWait {source : ChartDef} {m : Machine} (queued : Nat)
    (first : List StateIndex) (sound : (Chart.compile [] source).isOk = true)
    (run : Run (created source).start m) (waiting : m.posture = .waiting)
    (stable : glimpse m = some (0, queued))
    (plain : ∀ e ∈ m.context.kept m.heap, m.heap.isPlain e.2.value = true)
    (wait : firstWait m = some first) (elsewhere : first ≠ m.context.configuration) :
    Noticed source m := by
  have accepted := compile_eq_created sound
  have placed := run_placed (Chart.compile_wellFormed accepted) (.created _ _ _) run
  obtain ⟨n,selected,-⟩ := stable_of_glimpse queued stable
  refine
    { accepted := placed.chart ▸ accepted
      reached := run
      waiting := control_of_waiting waiting
      stable := ⟨n, selected⟩
      unchanged := fun e held => Heap.unchanged_of_plain (plain e held)
      elsewhere := ?_ }
  unfold firstWait at wait
  split at wait
  · rename_i r found
    obtain ⟨b,stored,again⟩ := resume_of_resumed found
    split at wait
    · rename_i posture
      cases wait
      exact ⟨b, r, stored, again, control_of_waiting posture, elsewhere⟩
    · cases wait
  · cases wait

def chart (data : List DataDef) (states : List StateDef) : ChartDef where
  name := none
  initial := none
  data
  extra := none
  states

/-- Two variables with containers, which are compared. -/
def comparing (second : ValueDef) (cond : String) : ChartDef :=
  chart [⟨"x", ⟨none, some (.object [])⟩⟩, ⟨"y", second⟩]
    [.mk (.simple "a" .state [⟨none, some cond, some ["b"], .external, []⟩]) [],
      .mk (.simple "b" .state []) []]

/-- Both variables have one container. -/
def sharing : ChartDef := comparing ⟨some "x", none⟩ "x != y"

def apart : ChartDef := comparing ⟨none, some (.object [])⟩ "x == y"

/-- A state that is left as soon as there is no last event. -/
def remembering : ChartDef :=
  chart []
    [.mk (.simple "a" .state [⟨some ["go"], none, some ["b"], .external, []⟩]) [],
      .mk (.simple "b" .state [⟨none, some "!_event", some ["c"], .external, []⟩]) [],
      .mk (.simple "c" .state []) []]

/-- A condition that fails once the id of a service has been stored. -/
def failing : ChartDef :=
  chart [⟨"x", ⟨none, some (.string "")⟩⟩]
    [.mk { StateInfo.simple "a" .state
        [⟨none, some "x != '' && x > true", some ["b"], .external, []⟩,
          ⟨some ["error"], none, some ["b"], .external, []⟩] with
      invokes := [{
        type := none, src := some "child", srcExpr := none, id := none, idLocation := some "x"
        params := [], content := none, autoforward := false, finalize := [] }] } [],
      .mk (.simple "b" .state []) []]

/-- Containers that were one are two, the last event is gone, and a condition that fails queues an
    event: each is noticed. -/
theorem awakening_noticed : Noticed sharing (fed sharing []) ∧
    Noticed remembering (fed remembering [.external ⟨["go"]⟩]) ∧
    Noticed failing (fed failing []) := by
  refine ⟨?_, ?_, ?_⟩
  · exact noticed_of_firstWait 0 [2] (by decide +kernel) (fed_reached sharing [])
      (by decide +kernel) (by decide +kernel) (by decide +kernel) (by decide +kernel)
      (by decide +kernel)
  · exact noticed_of_firstWait 0 [3] (by decide +kernel) (fed_reached remembering _)
      (by decide +kernel) (by decide +kernel) (by decide +kernel) (by decide +kernel)
      (by decide +kernel)
  · exact noticed_of_firstWait 1 [2] (by decide +kernel) (fed_reached failing [])
      (by decide +kernel) (by decide +kernel) (by decide +kernel) (by decide +kernel)
      (by decide +kernel)

/-- Whether two values are both undefined or the same text. -/
def agree : Value → Value → Bool
  | .undefined, .undefined => true
  | .string s, .string t => s = t
  | _, _ => false

theorem eq_of_agree {v w : Value} (same : agree v w = true) : v = w := by
  unfold agree at same
  split at same
  · rfl
  · rw [decide_eq_true_eq] at same
    rw [same]
  · cases same

/-- Two containers stay two, and before any event there is none to be missed. -/
theorem awakening_unnoticed : (fed apart []).control = .waiting ∧
    ∃ b r, (fed apart []).snapshot = .ok b ∧ resume (created apart).chart options default b = .ok r ∧
      r.context.configuration = (fed apart []).context.configuration ∧ r.WaitsAtOnce := by
  have accepted : Chart.compile [] apart = .ok (created apart).chart :=
    compile_eq_created (by decide +kernel)
  have unstarted : Unstarted (created apart) := .created _ _ _
  have waits : (fed apart []).control = .waiting := control_of_waiting (by decide +kernel)
  obtain ⟨n,stable,queue⟩ := stable_of_glimpse (m := fed apart []) 0 (by decide +kernel)
  have faithful : (fed apart []).context.Faithful (fed apart []).heap :=
    Context.faithful_of_plain (by decide +kernel) (by decide +kernel) (by decide +kernel)
      (by decide +kernel) (by decide +kernel)
  have bound : ∀ key ∈ systemVariables,
      agree ((fed apart []).heap.get (fed apart []).context.dataModel key)
        ((fed apart []).chart.rebound options.sessionId key) = true := by
    decide +kernel
  have rebindable : (fed apart []).Rebindable options.sessionId :=
    fun key own _ _ => eq_of_agree (bound key own)
  exact ⟨waits, resuming_unnoticed accepted unstarted (fed_reached apart []) waits
    (created_reliable apart) stable (List.length_eq_zero_iff.mp queue) faithful rebindable
    (created_reliable apart) default⟩

end Awoken

end Statechart

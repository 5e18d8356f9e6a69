import Statechart.Proofs.Chart.Compiled
import Statechart.Proofs.Machine.Orderly

/- Internal work goes before external events. A machine that waits has an empty internal queue, no
   effects to be carried out and no services to be started, and whatever it had to do at any point
   since it last took something in has been done in order. -/
namespace Statechart

namespace Machine

open MachineM

variable {m m' : Machine}

/-- What a piece of work takes off the things to be done. -/
inductive Errand where
  /-- An internal event is taken from the queue and shown to the transitions. -/
  | consume (e : Event)
  | perform (effects : List Effect)
  /-- A service of a state is prepared. -/
  | attempt (s : StateIndex) (node : Nat)
  | leave (states : List StateIndex)

/-- The errands of the next piece of work. -/
def errands (m : Machine) : List Errand :=
  match m.control with
  | .macrostep =>
    match look m with
    | .ok (.transitions event enabled) n =>
      event.toList.map .consume ++
        [.leave (n.chart.exitSet n.context.history n.context.configuration enabled)]
    | _ => []
  | .effects _ => [.perform m.effects]
  | .invoking ((s, node) :: _) => [.attempt s node]
  | _ => []

/-- Pieces of work one after another, with their errands, in any surroundings. -/
inductive Stretch : Machine → List Errand → Machine → Prop where
  | refl (m : Machine) : Stretch m [] m
  | disturb {m m' : Machine} {errands : List Errand} (memory : Memory) (destroyed : Bool)
      (reports : List Report) (rest : Stretch (m.disturb memory destroyed reports) errands m') :
      Stretch m errands m'
  | work {m m' m'' : Machine} {errands : List Errand} (work : Work m m')
      (rest : Stretch m' errands m'') : Stretch m (m.errands ++ errands) m''

def Errand.event? : Errand → Option Event
  | .consume e => some e
  | _ => none

def Errand.effects : Errand → List Effect
  | .perform effects => effects
  | _ => []

def consumed (errands : List Errand) : List Event := errands.filterMap Errand.event?

/-- The effects carried out, in order. -/
def performed (errands : List Errand) : List Effect := errands.flatMap Errand.effects

/-- A service has been prepared, or its state has been left before. -/
def Seen (errands : List Errand) (s : StateIndex) (node : Nat) : Prop :=
  .attempt s node ∈ errands ∨ ∃ states, .leave states ∈ errands ∧ s ∈ states

/-- The services that a control has still to prepare. -/
def pending : Control → List (StateIndex × Nat)
  | .invoking pending | .starts _ pending => pending
  | _ => []

/-- A service is to be prepared before the next wait, unless its state is left. -/
def Due (m : Machine) (s : StateIndex) (node : Nat) : Prop :=
  (s, node) ∈ pendingInvokes m ∨ (s, node) ∈ pending m.control

/-- What there is to do in `m` is done by the errands, in order, or is left to `m'`. -/
structure Clears (m : Machine) (errands : List Errand) (m' : Machine) : Prop where
  queue : m.context.internalQueue <+: consumed errands ++ m'.context.internalQueue
  effects : m.effects <+: performed errands ++ m'.effects
  services : ∀ s node, m.Due s node → Seen errands s node ∨ m'.Due s node

/-- The machine may still come to wait. -/
def isUnderway (m : Machine) : Bool :=
  match m.control with
  | .idle | .effects (.exit _) | .exited _ | .aborted _ | .crashed => false
  | _ => true

/-- Nothing that is to be done gets lost. -/
structure Gathers (m m' : Machine) : Prop where
  chart : m'.chart = m.chart
  queue : m.context.internalQueue <+: m'.context.internalQueue
  invokes : m.context.statesToInvoke ⊆ m'.context.statesToInvoke

theorem Gathers.of_frame (framed : m'.frame = m.frame)
    (queue : m.context.internalQueue <+: m'.context.internalQueue) : m.Gathers m' where
  chart := congrArg (fun m => m.chart) framed
  queue := queue
  invokes := by
    have invokes : m'.context.statesToInvoke = m.context.statesToInvoke :=
      congrArg (fun m => m.context.statesToInvoke) framed
    rw [invokes]
    exact List.Subset.refl _

theorem Drifts.gathers (drifts : m.Drifts m') : m.Gathers m' := by
  obtain ⟨more,queue⟩ := drifts.queue
  exact .of_frame drifts.frame ⟨more, queue.symm⟩

instance : MachineM.Tolerant Gathers where
  refl m := (Drifts.refl m).gathers
  trans first second :=
    ⟨second.chart.trans first.chart, first.queue.trans second.queue,
      List.Subset.trans first.invokes second.invokes⟩
  withHeap m h := (Drifts.withHeap m h).gathers
  freshId m := (Drifts.freshId m).gathers
  enqueue m e := (Drifts.enqueue m e).gathers
  tell m r := (Drifts.tell m r).gathers

theorem Gathers.due (gathers : m.Gathers m') {s : StateIndex} {node : Nat}
    (due : (s, node) ∈ pendingInvokes m) : (s, node) ∈ pendingInvokes m' := by
  unfold pendingInvokes at due ⊢
  rw [gathers.chart]
  obtain ⟨t,within,listed⟩ := List.mem_flatMap.mp due
  exact List.mem_flatMap.mpr ⟨t, gathers.invokes within, listed⟩

theorem gathers_activate (m : Machine) (s : StateIndex) : m.Gathers (m.activate s) where
  chart := rfl
  queue := List.prefix_refl _
  invokes := fun _ within => Chart.mem_insertIndex.mpr (Or.inr within)

end Machine

namespace MachineM

open Machine

variable {m m' : Machine} {P : Interrupt → Prop}

theorem enterStates_gathers (enabled : List TransitionIndex) :
    Keeps Gathers onlyCrash (enterStates enabled) :=
  enterStates_keeps Drifts.gathers
    (fun _ _ => ⟨rfl, List.prefix_refl _, List.Subset.refl _⟩) gathers_activate enabled

theorem start_gathers : Keeps Gathers (fun _ => True) start := by
  have entry : ∀ c : Chart, Keeps Gathers (fun _ => True) (enterInitial c) := by
    intro c
    refine Keeps.bind ((initializeData_frames (P := refused)).mono fun _ _ => trivial) fun _ => ?_
    split
    · exact fun m => ⟨Lasting.refl m, trivial⟩
    · refine Keeps.bind ((enterStates_gathers _).mono fun _ _ => trivial) fun _ => ?_
      refine Keeps.bind (Keeps.update fun m => ?_) fun _ => Keeps.pure _
      exact ⟨rfl, List.prefix_refl _, List.Subset.refl _⟩
  unfold start
  refine Keeps.bind (Keeps.update fun m => Growing.reach m _) fun _ => ?_
  refine Keeps.bind Keeps.get fun m => ?_
  split
  · split
    · exact Keeps.bind (Keeps.update fun m => Growing.reach m _) fun _ => Keeps.pure _
    · exact Keeps.pure _
  · exact entry m.chart

/-- A microstep loses services of the states that it leaves only. -/
theorem microstep_gathers {enabled : List TransitionIndex} {u : Unit}
    (run : microstep enabled m = .ok u m') :
    m'.chart = m.chart ∧ m.context.internalQueue <+: m'.context.internalQueue ∧
      ∀ s ∈ m.context.statesToInvoke, s ∈ m'.context.statesToInvoke ∨
        s ∈ m.chart.exitSet m.context.history m.context.configuration enabled := by
  obtain ⟨_,m₁,leaving,run⟩ := bind_eq_ok run
  obtain ⟨_,m₂,content,entering⟩ := bind_eq_ok run
  obtain ⟨_,_,got,leaving⟩ := bind_eq_ok leaving
  cases got
  obtain ⟨_,n,recorded,leaving⟩ := bind_eq_ok leaving
  cases recorded
  have exits : ∀ l : List StateIndex, Keeps Gathers onlyCrash (l.forM exitState) :=
    fun l => Keeps.forM fun s _ => exitState_keeps Drifts.gathers
      (fun _ _ => ⟨rfl, List.prefix_refl _, List.Subset.refl _⟩) s
  have left := (exits _ _).of_ok leaving
  have gathers := Lasting.trans left (Lasting.trans
    ((performTransitions_frames enabled m₁).of_ok content).gathers
    ((enterStates_gathers enabled m₂).of_ok entering))
  refine ⟨gathers.chart, gathers.queue, ?_⟩
  intro s entered
  by_cases gone : s ∈ m.chart.exitSet m.context.history m.context.configuration enabled
  · exact Or.inr gone
  · refine Or.inl (gathers.invokes (List.mem_filter.mpr ⟨entered, ?_⟩))
    simpa using gone

theorem pass_gathers {enabled : List TransitionIndex} {next : Control}
    (run : pass enabled m = .ok next m') :
    m'.chart = m.chart ∧ m.context.internalQueue <+: m'.context.internalQueue ∧
      ∀ s ∈ m.context.statesToInvoke, s ∈ m'.context.statesToInvoke ∨
        s ∈ m.chart.exitSet m.context.history m.context.configuration enabled := by
  rw [pass_run] at run
  split at run
  · cases run
  · split at run
    · cases run
      exact ⟨rfl, List.prefix_refl _, fun s entered => Or.inl entered⟩
    · obtain ⟨_,k,taken,run⟩ := bind_eq_ok run
      cases run
      have gathers := microstep_gathers taken
      exact gathers

theorem goOn_gathers (pending : List (StateIndex × Nat)) :
    Keeps Gathers never (goOn pending) := by
  intro m
  refine goOn_keeps (fun _ => ⟨rfl, List.prefix_refl _, List.Subset.refl _⟩) pending m ?_
  intro s node rest i _ _
  exact prepareInvoke_keeps s node i
    (fun _ _ _ => ⟨rfl, List.prefix_refl _, List.Subset.refl _⟩) m

theorem afterStart_gathers (data : InvokeData) (pending : List (StateIndex × Nat))
    (failure : Option Failure) : Keeps Gathers never (afterStart data pending failure) :=
  afterStart_keeps (fun _ _ => ⟨rfl, List.prefix_refl _, List.Subset.refl _⟩) data pending failure

theorem look_found {event : Option Event} {enabled : List TransitionIndex} {n : Machine}
    (run : look m = .ok (.transitions event enabled) n) :
    n.frame = m.frame ∧
      m.context.internalQueue <+: event.toList ++ n.context.internalQueue := by
  refine ⟨(look_same m).of_ok run, ?_⟩
  cases look_ok run with
  | eventless _ selected => exact ((selectTransitions_frames (R := Gathers) none m).of_ok selected).queue
  | @event e rest _ k l n nothing queued bound selected =>
    have before := ((selectTransitions_frames (R := Gathers) none m).of_ok nothing).queue
    have after := Lasting.trans ((bindEvent_frames (R := Gathers) (P := refused) e _).of_ok bound)
      ((selectTransitions_frames (R := Gathers) (some e.name) l).of_ok selected)
    rw [queued] at before
    obtain ⟨more,later⟩ := after.queue
    refine before.trans ⟨more, ?_⟩
    rw [← later]
    rfl

end MachineM

namespace Machine

open MachineM

variable {m m' m'' : Machine} {errands : List Errand}

theorem consumed_append (first second : List Errand) :
    consumed (first ++ second) = consumed first ++ consumed second := List.filterMap_append

theorem performed_append (first second : List Errand) :
    performed (first ++ second) = performed first ++ performed second := List.flatMap_append

theorem Seen.append_left {first : List Errand} (second : List Errand) {s : StateIndex} {node : Nat}
    (seen : Seen first s node) : Seen (first ++ second) s node := by
  rcases seen with attempted | ⟨states,left,within⟩
  · exact Or.inl (List.mem_append_left _ attempted)
  · exact Or.inr ⟨states, List.mem_append_left _ left, within⟩

theorem Seen.append_right (first : List Errand) {second : List Errand} {s : StateIndex} {node : Nat}
    (seen : Seen second s node) : Seen (first ++ second) s node := by
  rcases seen with attempted | ⟨states,left,within⟩
  · exact Or.inl (List.mem_append_right _ attempted)
  · exact Or.inr ⟨states, List.mem_append_right _ left, within⟩

theorem Clears.trans {first second : List Errand} (one : Clears m first m')
    (two : Clears m' second m'') : Clears m (first ++ second) m'' where
  queue := by
    rw [consumed_append, List.append_assoc]
    exact one.queue.trans ((List.prefix_append_right_inj _).mpr two.queue)
  effects := by
    rw [performed_append, List.append_assoc]
    exact one.effects.trans ((List.prefix_append_right_inj _).mpr two.effects)
  services := by
    intro s node due
    rcases one.services s node due with seen | due
    · exact Or.inl (seen.append_left second)
    · exact (two.services s node due).imp (Seen.append_right first) id

theorem proceed_underway {part : MachineM Control} (underway : (m.proceed part).isUnderway = true) :
    ∃ control n, part m = .ok control n ∧ m.proceed part = { n with control } := by
  unfold proceed at underway ⊢
  cases run : part m with
  | ok control n => exact ⟨control, n, rfl, rfl⟩
  | error i n =>
    rw [run] at underway
    cases i with
    | fault f => cases underway
    | failure f => cases underway
    | crash => cases underway

theorem clears_of_gathers (gathers : m.Gathers m') (clear : m.effects = [])
    (pendings : ∀ s node, (s, node) ∈ pending m.control → Seen errands s node ∨ m'.Due s node)
    (quiet : consumed errands = []) : Clears m errands m' where
  queue := by
    rw [quiet]
    exact gathers.queue
  effects := by
    rw [clear]
    exact List.nil_prefix
  services := by
    intro s node due
    rcases due with entered | listed
    · exact Or.inr (Or.inl (gathers.due entered))
    · exact pendings s node listed

theorem start_clears (clear : m.effects = []) (control : m.control = .starting)
    (underway : (m.proceed MachineM.start).isUnderway = true) :
    Clears m m.errands (m.proceed MachineM.start) := by
  obtain ⟨next,n,run,eq⟩ := proceed_underway underway
  have gathers := (start_gathers m).of_ok run
  have nothing : m.errands = [] := by rw [errands, control]
  rw [eq, nothing]
  refine clears_of_gathers ⟨gathers.chart, gathers.queue, gathers.invokes⟩ clear ?_ rfl
  rw [control]
  exact fun s node listed => absurd listed List.not_mem_nil

theorem pass_clears {event : Option Event} {enabled : List TransitionIndex} {n k : Machine}
    {next : Control} (control : m.control = .macrostep) (clear : m.effects = [])
    (found : look m = .ok (.transitions event enabled) n) (run : pass enabled n = .ok next k) :
    Clears m m.errands { k with control := next } := by
  obtain ⟨framed,queue⟩ := look_found found
  have errands : m.errands = event.toList.map .consume ++
      [.leave (n.chart.exitSet n.context.history n.context.configuration enabled)] := by
    rw [Machine.errands, control]
    simp only [found]
  have events : consumed m.errands = event.toList := by
    rw [errands]
    cases event with
    | none => rfl
    | some e => rfl
  have looked : m.Due = n.Due := by
    have same : n.control = m.control := congrArg (fun m => m.control) framed
    funext s node
    rw [Due, Due, pendingInvokes_frame framed, same]
  obtain ⟨chart,grown,invokes⟩ := pass_gathers run
  constructor
  · rw [events]
    exact queue.trans ((List.prefix_append_right_inj _).mpr grown)
  · rw [clear]
    exact List.nil_prefix
  · rw [looked]
    rintro s node (entered | listed)
    · obtain ⟨t,within,listed⟩ := List.mem_flatMap.mp entered
      have own : t = s := by
        obtain ⟨_,_,pair⟩ := List.mem_map.mp listed
        exact congrArg Prod.fst pair
      subst own
      rcases invokes t within with kept | left
      · refine Or.inr (Or.inl (List.mem_flatMap.mpr ⟨t, kept, ?_⟩))
        rw [← chart] at listed
        exact listed
      · refine Or.inl (Or.inr ⟨_, ?_, left⟩)
        rw [errands]
        exact List.mem_append_right _ List.mem_cons_self
    · have same : n.control = .macrostep := (congrArg (fun m => m.control) framed).trans control
      rw [same] at listed
      cases listed

theorem stability_clears {n : Machine} (control : m.control = .macrostep) (clear : m.effects = [])
    (found : look m = .ok .stability n) :
    Clears m m.errands { n with
      context := { n.context with statesToInvoke := [] }
      control := .invoking (pendingInvokes n) } := by
  have nothing : m.errands = [] := by
    rw [errands, control]
    simp only [found]
  have queue : m.context.internalQueue <+: [] := by
    cases look_ok found with
    | stability selected empty =>
      rw [← empty]
      exact ((selectTransitions_frames (R := Gathers) none m).of_ok selected).queue
  rw [nothing]
  constructor
  · exact queue.trans List.nil_prefix
  · rw [clear]
    exact List.nil_prefix
  · rintro s node (entered | listed)
    · refine Or.inr (Or.inr ?_)
      rw [← pendingInvokes_frame ((look_same m).of_ok found)] at entered
      exact entered
    · rw [control] at listed
      cases listed

theorem macrostep_clears (control : m.control = .macrostep) (clear : m.effects = [])
    (underway : (m.proceed MachineM.macrostep).isUnderway = true) :
    Clears m m.errands (m.proceed MachineM.macrostep) := by
  obtain ⟨next,k,run,eq⟩ := proceed_underway underway
  rw [eq] at underway ⊢
  cases looked : look m with
  | error i n =>
    rw [macrostep_of_error looked] at run
    cases run
  | ok found n =>
    rw [macrostep_of_look looked] at run
    cases found with
    | completion =>
      have led := complete_leads n
      unfold Leads at led
      rw [show complete n = .ok next k from run] at led
      rw [led.1] at underway
      cases underway
    | destruction =>
      cases run
      cases underway
    | stability =>
      cases run
      exact stability_clears control clear looked
    | transitions event enabled => exact pass_clears control clear looked run

theorem goOn_clears {waiting : List (StateIndex × Nat)} (control : m.control = .invoking waiting)
    (clear : m.effects = []) (underway : (m.proceed (goOn waiting)).isUnderway = true) :
    Clears m m.errands (m.proceed (goOn waiting)) := by
  obtain ⟨next,n,run,eq⟩ := proceed_underway underway
  have gathers := (goOn_gathers waiting m).of_ok run
  rw [eq]
  refine clears_of_gathers ⟨gathers.chart, gathers.queue, gathers.invokes⟩ clear ?_ ?_
  · rw [control]
    intro s node listed
    cases waiting with
    | nil => cases listed
    | cons invoke rest =>
      rcases List.mem_cons.mp listed with rfl | later
      · refine Or.inl (Or.inl ?_)
        rw [errands, control]
        exact List.mem_cons_self
      · have led := goOn_cons invoke.1 invoke.2 rest m
        unfold Leads at led
        rw [show goOn ((invoke.1, invoke.2) :: rest) m = .ok next n from run] at led
        refine Or.inr (Or.inr ?_)
        rcases led.2 with rfl | ⟨data,rfl⟩
        · exact later
        · exact later
  · rw [errands, control]
    cases waiting with
    | nil => rfl
    | cons invoke rest => rfl

theorem started_clears {data : InvokeData} {waiting : List (StateIndex × Nat)}
    (control : m.control = .starts data waiting) (clear : m.effects = [])
    (failure : Option Failure) :
    Clears m m.errands (m.proceed (afterStart data waiting failure)) := by
  have nothing : m.errands = [] := by rw [errands, control]
  have listed : ∀ n : Machine, m.Gathers n → Clears m [] { n with control := .invoking waiting } := by
    intro n gathers
    refine clears_of_gathers ⟨gathers.chart, gathers.queue, gathers.invokes⟩ clear ?_ rfl
    rw [control]
    exact fun s node listed => Or.inr (Or.inr listed)
  have gathers := afterStart_gathers data waiting failure m
  rw [nothing]
  cases failure with
  | none => exact listed m gathers
  | some f => exact listed _ gathers

theorem effects_clears {next : AfterEffects} (control : m.control = .effects next)
    (failures : List Failure)
    (underway : ((failures.foldl raiseFailure { m with effects := [] }).proceed
      (afterEffects next)).isUnderway = true) :
    Clears m m.errands
      ((failures.foldl raiseFailure { m with effects := [] }).proceed (afterEffects next)) := by
  have errands : m.errands = [.perform m.effects] := by rw [Machine.errands, control]
  have raised : ∀ (l : List Failure) (n : Machine), n.Gathers (l.foldl raiseFailure n) := by
    intro l
    induction l with
    | nil => exact fun n => Lasting.refl n
    | cons f rest ih => exact fun n => Lasting.trans (Growing.raiseFailure n f) (ih _)
  have gathers := raised failures { m with effects := [] }
  cases next with
  | exit status => cases underway
  | macrostep =>
    rw [errands]
    constructor
    · exact gathers.queue
    · have all : performed [.perform m.effects] = m.effects := List.append_nil _
      rw [all]
      exact List.prefix_append _ _
    · rintro s node (entered | listed)
      · exact Or.inr (Or.inl (gathers.due entered))
      · rw [control] at listed
        cases listed

/-- A piece of work on the way to a wait does some of what there is to do and keeps the rest. -/
theorem worked_clears (orderly : m.Orderly) (worked : Worked m m')
    (underway : m'.isUnderway = true) : Clears m m.errands m' := by
  unfold Orderly at orderly
  cases worked with
  | start control =>
    rw [control] at orderly
    exact start_clears orderly control underway
  | macrostep control =>
    rw [control] at orderly
    exact macrostep_clears control orderly underway
  | goOn control =>
    rw [control] at orderly
    exact goOn_clears control orderly.effects underway
  | effects control failures => exact effects_clears control failures underway
  | started control failure =>
    rw [control] at orderly
    exact started_clears control orderly.effects failure

theorem Stretch.underway (stretch : Stretch m errands m') (waiting : m'.control = .waiting) :
    m.isUnderway = true := by
  induction stretch with
  | refl m =>
    rw [isUnderway, waiting]
  | disturb memory destroyed reports rest ih => exact ih waiting
  | @work m n k errands work rest ih =>
    have later := ih waiting
    cases work.worked with
    | start control => rw [isUnderway, control]
    | macrostep control => rw [isUnderway, control]
    | goOn control => rw [isUnderway, control]
    | started control => rw [isUnderway, control]
    | @effects next control failures =>
      cases next with
      | macrostep => rw [isUnderway, control]
      | exit status => cases later

theorem Stretch.clears (stretch : Stretch m errands m') (orderly : m.Orderly)
    (waiting : m'.control = .waiting) : Clears m errands m' := by
  induction stretch with
  | refl m => exact ⟨List.prefix_refl _, List.prefix_refl _, fun _ _ due => Or.inr due⟩
  | @disturb m n errands memory destroyed reports rest ih =>
    have after := ih (move_orderly orderly (.disturb m memory destroyed reports)).2 waiting
    exact ⟨after.queue, after.effects, after.services⟩
  | @work m n k errands work rest ih =>
    have step := worked_clears orderly work.worked (rest.underway waiting)
    exact step.trans (ih (worked_orderly orderly work.worked).2 waiting)

theorem Stretch.run (stretch : Stretch m errands m') :
    Run m m' := by
  induction stretch with
  | refl m => exact .refl m
  | @disturb m m' errands memory destroyed reports rest ih =>
    exact (Run.next (.refl m) (.disturb m memory destroyed reports)).trans ih
  | @work m _ _ _ work rest ih => exact (Run.next (.refl m) (.work work)).trans ih

theorem Stretch.append {first second : List Errand} (one : Stretch m first m')
    (two : Stretch m' second m'') : Stretch m (first ++ second) m'' := by
  induction one with
  | refl m => exact two
  | disturb memory destroyed reports _ ih => exact .disturb memory destroyed reports (ih two)
  | work work _ ih =>
    rw [List.append_assoc]
    exact .work work (ih two)

theorem Stretch.move {k : Machine} (stretch : Stretch k errands m)
    (move : Stretch m [] m' ∨ Work m m') : ∃ errands, Stretch k errands m' := by
  rcases move with still | work
  · exact ⟨_, stretch.append still⟩
  · exact ⟨_, stretch.append (.work work (.refl m'))⟩

/-- Where a machine last took something in: it was started, or was given what it waited for. -/
inductive TakesIn (m₀ : Machine) : Machine → Prop where
  | start : TakesIn m₀ m₀.start
  | again {m : Machine} (run : Run m₀.start m) : TakesIn m₀ m.start
  | input {m : Machine} (run : Run m₀.start m) (waiting : m.control = .waiting) (input : Input) :
      TakesIn m₀ (m.take input)

theorem Run.stretch {m₀ : Machine} (run : Run m₀.start m) :
    ∃ k errands, TakesIn m₀ k ∧ Stretch k errands m := by
  induction run with
  | refl => exact ⟨_, [], .start, .refl _⟩
  | @next m m' before move ih =>
    obtain ⟨k,errands,taken,stretch⟩ := ih
    cases move with
    | work work =>
      obtain ⟨errands,longer⟩ := stretch.move (Or.inr work)
      exact ⟨k, errands, taken, longer⟩
    | disturb memory destroyed reports =>
      obtain ⟨errands,longer⟩ :=
        stretch.move (Or.inl (.disturb memory destroyed reports (.refl _)))
      exact ⟨k, errands, taken, longer⟩
    | take input =>
      by_cases waiting : m.control = .waiting
      · exact ⟨m.take input, [], .input before waiting input, .refl _⟩
      · rw [take_other waiting]
        exact ⟨k, errands, taken, stretch⟩
    | restart status early ended => exact ⟨m.start, [], .again before, .refl _⟩
    | retry fault ended => exact ⟨m.start, [], .again before, .refl _⟩

/-- A machine that waits has done all there was to do inside. Whatever it had to do at a point of
    its run since it last took something in has been done, in order. -/
theorem internal_work_first {m₀ : Machine} (unstarted : Unstarted m₀)
    (reliable : m₀.options.logger.Reliable) (run : Run m₀.start m)
    (waiting : m.control = .waiting) :
    (m.context.internalQueue = [] ∧ m.effects = [] ∧ m.context.statesToInvoke = [] ∧
      m.context.done = false) ∧
    (∃ k errands, TakesIn m₀ k ∧ Stretch k errands m) ∧
    ∀ k errands, Run m₀.start k → Stretch k errands m →
      k.context.internalQueue <+: consumed errands ∧ k.effects <+: performed errands ∧
        ∀ s node, k.Due s node → Seen errands s node := by
  obtain ⟨setting,orderly⟩ := run_orderly unstarted run
  unfold Orderly at orderly
  rw [waiting] at orderly
  have options : m.options = m₀.options := congrArg Prod.snd setting
  have queue := orderly.queue (options ▸ reliable)
  refine ⟨⟨queue, orderly.effects, orderly.invokes, orderly.going⟩, run.stretch, ?_⟩
  intro k errands before stretch
  -- Nothing is left of what was to be done, so the errands have done all of it.
  have clears := stretch.clears (run_orderly unstarted before).2 waiting
  refine ⟨?_, ?_, ?_⟩
  · have done := clears.queue
    rw [queue, List.append_nil] at done
    exact done
  · have done := clears.effects
    rw [orderly.effects, List.append_nil] at done
    exact done
  · intro s node due
    rcases clears.services s node due with seen | entered | listed
    · exact seen
    · rw [pendingInvokes, orderly.invokes] at entered
      cases entered
    · rw [waiting] at listed
      cases listed

end Machine

namespace BusyEntry

open Source Machine

/-- Entering the state raises an event, sends another one out and starts a service. -/
def source : ChartDef where
  name := none
  initial := none
  data := []
  extra := none
  states :=
    [.mk { StateInfo.simple "busy" .state [⟨some ["ping"], none, none, .external, []⟩] with
      onEntry := [.raise "ping", .send
        { event := some "hello", eventExpr := none, target := some "peer", targetExpr := none
          type := none, id := none, idLocation := none, delay := none, delayExpr := none
          params := [], content := none }]
      invokes := [{
        type := none, src := some "child", srcExpr := none, id := some "kid", idLocation := none
        params := [], content := none, autoforward := false, finalize := [] }] } []]

def created : Machine := Machine.create (Chart.compiled [] source) { sessionId := "s" } default

def entered : Machine := created.start.step

def sent : Machine := entered.effectsDone []

def invoked : Machine := sent.step.step.step.step

def waiting : Machine := (invoked.startDone none).step

theorem waiting_stretch : ∃ errands, Stretch entered errands waiting := by
  obtain ⟨data,pending,asked⟩ := control_of_starting (m := invoked) (by decide +kernel)
  have last : Stretch (invoked.startDone none) _ waiting :=
    .work (.step _ (by decide +kernel)) (.refl _)
  have started := Stretch.work (.startDone invoked data pending none asked) last
  have four := Stretch.work (.step sent.step.step.step (by decide +kernel)) started
  have three := Stretch.work (.step sent.step.step (by decide +kernel)) four
  have two := Stretch.work (.step sent.step (by decide +kernel)) three
  have one := Stretch.work (.step sent (by decide +kernel)) two
  exact ⟨_, .work (.effectsDone entered .macrostep [] (control_of_performing (by decide +kernel))) one⟩

/-- What entering the state left to be done has been done when the machine waits. -/
theorem entered_work_done :
    entered.context.internalQueue.map (·.name.text) = ["ping"] ∧ entered.effects.length = 1 ∧
      entered.Due 1 0 ∧ waiting.context.internalQueue = [] ∧ waiting.effects = [] ∧
      ∃ errands, Stretch entered errands waiting ∧
        entered.context.internalQueue <+: consumed errands ∧
        entered.effects <+: performed errands ∧ Seen errands 1 0 := by
  have begun : Run created.start entered := .next (.refl _) (.work (.step _ (by decide +kernel)))
  have due : entered.Due 1 0 := Or.inl (by decide +kernel)
  obtain ⟨errands,stretch⟩ := waiting_stretch
  obtain ⟨clear,_,done⟩ := internal_work_first (.created _ _ _) (nofun : created.options.logger.Reliable)
    (begun.trans stretch.run) (control_of_waiting (m := waiting) (by decide +kernel))
  obtain ⟨consumed,performed,seen⟩ := done entered errands begun stretch
  exact ⟨by decide +kernel, by decide +kernel, due, clear.1, clear.2.1, errands, stretch, consumed,
    performed, seen 1 0 due⟩

end BusyEntry

end Statechart

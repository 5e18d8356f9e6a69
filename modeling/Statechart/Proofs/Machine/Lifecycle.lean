import Statechart.Proofs.Machine.Placement
import Statechart.Proofs.Machine.Releasing
import Statechart.Proofs.Snapshot.RoundTrip

/- What a machine invokes belongs to what is active. A state to be served is active, and so is the
   state of every service. A state that is left takes its services along: each is dropped and has
   its cancellation put among the effects once, and a machine that has come to its end has none. -/
namespace Statechart

/-- States to invoke and services belong to the configuration; a service is one of the invokes of
    its state. -/
structure Context.Attended (c : Chart) (x : Context) : Prop where
  entered : ∀ s ∈ x.statesToInvoke, s ∈ x.configuration
  active : ∀ i ∈ x.invocations, i.state ∈ x.configuration
  node : ∀ i ∈ x.invocations, i.node < (c.state i.state).invokes.length

/-- The context of a machine that has not come to its end. -/
structure Context.Going (c : Chart) (x : Context) : Prop extends x.Attended c where
  going : x.done = false

/-- Nothing is active, and nothing has been invoked or is to be. -/
structure Context.Vacant (x : Context) : Prop where
  configuration : x.configuration = []
  statesToInvoke : x.statesToInvoke = []
  invocations : x.invocations = []

/-- The context suits a machine that has come to the control. -/
def Context.Suits (c : Chart) (x : Context) : Control → Prop
  | .crashed => True
  | .idle | .macrostep | .effects .macrostep => x.Attended c
  | .effects (.exit .completed) | .exited .completed => x.Vacant
  | .effects (.exit _) | .exited .destroyed => x.Going c ∧ x.invocations = []
  | .invoking pending | .starts _ pending =>
    x.Going c ∧ ∀ invoke ∈ pending, invoke.1 ∈ x.configuration
  | _ => x.Going c

namespace Context

variable {c : Chart} {x y : Context}

theorem Vacant.attended (vacant : x.Vacant) : x.Attended c where
  entered := by
    rw [vacant.statesToInvoke]
    exact fun _ none => absurd none List.not_mem_nil
  active := by
    rw [vacant.invocations]
    exact fun _ none => absurd none List.not_mem_nil
  node := by
    rw [vacant.invocations]
    exact fun _ none => absurd none List.not_mem_nil

/-- What a context's suiting a control depends on. -/
def lodging (x : Context) : List StateIndex × List StateIndex × List Invocation × Bool :=
  (x.configuration, x.statesToInvoke, x.invocations, x.done)

theorem Attended.of_same (attended : x.Attended c)
    (configuration : y.configuration = x.configuration)
    (statesToInvoke : y.statesToInvoke = x.statesToInvoke)
    (invocations : y.invocations = x.invocations) : y.Attended c := by
  refine ⟨?_, ?_, ?_⟩
  · rw [statesToInvoke, configuration]
    exact attended.entered
  · rw [invocations, configuration]
    exact attended.active
  · rw [invocations]
    exact attended.node

theorem Suits.of_lodging {k : Control} (own : x.Suits c k) (same : y.lodging = x.lodging) :
    y.Suits c k := by
  simp only [lodging, Prod.mk.injEq] at same
  obtain ⟨configuration,statesToInvoke,invocations,done⟩ := same
  have attended : x.Attended c → y.Attended c := fun own =>
    own.of_same configuration statesToInvoke invocations
  have going : x.Going c → y.Going c := fun own => ⟨attended own.toAttended, done.trans own.going⟩
  have vacant : x.Vacant → y.Vacant := fun own => ⟨configuration.trans own.configuration,
    statesToInvoke.trans own.statesToInvoke, invocations.trans own.invocations⟩
  unfold Suits at own ⊢
  split at own
  · trivial
  · exact attended own
  · exact attended own
  · exact attended own
  · exact vacant own
  · exact vacant own
  · exact ⟨going own.1, invocations.trans own.2⟩
  · exact ⟨going own.1, invocations.trans own.2⟩
  · exact ⟨going own.1, configuration ▸ own.2⟩
  · exact ⟨going own.1, configuration ▸ own.2⟩
  · exact going own

theorem Suits.attended {control : Control} (suits : x.Suits c control)
    (sound : control ≠ .crashed) : x.Attended c := by
  unfold Suits at suits
  split at suits
  · exact absurd rfl sound
  · exact suits
  · exact suits
  · exact suits
  · exact suits.attended
  · exact suits.attended
  · exact suits.1.toAttended
  · exact suits.1.toAttended
  · exact suits.1.toAttended
  · exact suits.1.toAttended
  · exact suits.toAttended

/-- Near the end of a run no service is left. -/
theorem Suits.spent {status : ExitStatus} (suits : x.Suits c (.effects (.exit status))) :
    x.invocations = [] := by
  cases status with
  | completed => exact suits.invocations
  | destroyed => exact suits.2
  | suspended => exact suits.2
  | queueClosed => exact suits.2

end Context

namespace Machine

variable {c : Chart} {m m' : Machine}

theorem lodging_of_frame (framed : m'.frame = m.frame) :
    m'.context.lodging = m.context.lodging := by
  have same : m'.frame.context.lodging = m.frame.context.lodging :=
    congrArg (fun m => m.context.lodging) framed
  exact same

/-- The step from `m` to `m'` keeps what is invoked with what is active. -/
def KeepsAttended (c : Chart) (m m' : Machine) : Prop :=
  m.context.Attended c → m'.context.Attended c

/-- Where the control could be before the step from `m` to `m'` it can be afterwards. -/
def KeepsSuited (c : Chart) (control : Control) (m m' : Machine) : Prop :=
  m.context.Suits c control → m'.context.Suits c control

theorem KeepsSuited.of_same {k : Control} (same : m'.context.lodging = m.context.lodging) :
    KeepsSuited c k m m' := fun own => own.of_lodging same

theorem Drifts.keepsSuited {k : Control} (drifts : m.Drifts m') : KeepsSuited c k m m' :=
  .of_same (lodging_of_frame drifts.frame)

theorem Drifts.keepsAttended (drifts : m.Drifts m') : KeepsAttended c m m' :=
  drifts.keepsSuited (k := .macrostep)

end Machine

namespace MachineM

open Machine

variable {c : Chart} {m m' : Machine} {u : Unit}

instance : Lasting (KeepsAttended c) := ⟨fun _ => id, fun first second own => second (first own)⟩

instance {control : Control} : Tolerant (KeepsSuited c control) where
  refl _ := id
  trans first second own := second (first own)
  withHeap _ _ := .of_same rfl
  freshId _ := .of_same rfl
  enqueue _ _ := .of_same rfl
  tell _ _ := .of_same rfl

theorem exitStates_attended {enabled : List TransitionIndex} (attended : m.context.Attended c)
    (run : exitStates enabled m = .ok u m') : m'.context.Attended c := by
  obtain ⟨_,_,got,run⟩ := bind_eq_ok run
  cases got
  obtain ⟨_,m₁,recorded,run⟩ := bind_eq_ok run
  cases recorded
  obtain ⟨framed,released⟩ := leaveAll_ok (fun _ _ _ => exitState_leaves) run
  obtain ⟨configuration,statesToInvoke,invocations⟩ := left_all framed released
  refine ⟨?_, ?_, ?_⟩
  · rw [configuration, statesToInvoke]
    intro s hs
    obtain ⟨entered,stays⟩ := List.mem_filter.mp hs
    exact List.mem_filter.mpr ⟨attended.entered s entered, by simpa using stays⟩
  · rw [configuration, invocations]
    intro i hi
    obtain ⟨noted,stays⟩ := List.mem_filter.mp hi
    exact List.mem_filter.mpr ⟨attended.active i noted, by simpa using stays⟩
  · rw [invocations]
    exact fun i hi => attended.node i (List.mem_filter.mp hi).1

theorem enterStates_attended (enabled : List TransitionIndex) :
    Keeps (KeepsAttended c) onlyCrash (enterStates enabled) := by
  refine enterStates_keeps (R := KeepsAttended c) Drifts.keepsAttended
    (fun _ _ own => own.of_same rfl rfl rfl) (fun m s own => ?_) enabled
  refine ⟨fun x hx => ?_, fun i hi => ?_, own.node⟩
  · rw [Machine.activate, Chart.mem_insertIndex] at hx ⊢
    exact hx.imp id (own.entered x)
  · rw [Machine.activate, Chart.mem_insertIndex]
    exact Or.inr (own.active i hi)

theorem microstep_attended (attended : m.context.Attended c) (enabled : List TransitionIndex) :
    Leads (microstep enabled) m (fun _ n => n.context.Attended c) (fun i _ => i = .crash) := by
  refine Leads.bind (Q := fun _ n => n.context.Attended c) ?_ fun _ m₁ _ own => ?_
  · refine (exitStates_shell enabled m).leads.mono (fun _ n run _ => ?_)
      fun _ _ stopped => stopped.2
    exact exitStates_attended attended run
  · refine Leads.bind ((performTransitions_frames enabled m₁).leads.mono
      (fun _ n _ drifts => drifts.keepsAttended own) fun _ _ stopped => stopped.2) ?_
    intro _ m₂ _ own
    exact (enterStates_attended enabled m₂).leads.mono (fun _ n _ kept => kept own)
      fun _ _ stopped => stopped.2

/-- A part of a step comes to a control that the context suits. Only a breakdown leaves anything
    else behind. -/
abbrev Suited (c : Chart) (part : MachineM Control) (m : Machine) : Prop :=
  Leads part m (fun control n => n.context.Suits c control)
    (fun i n => i = .crash ∨ n.context.Going c)

theorem Frames.suited {α : Type} {P : Interrupt → Prop} {x : MachineM α} (framed : Frames P x)
    {k : Control} (own : m.context.Suits c k) :
    Leads x m (fun _ n => n.context.Suits c k)
      (fun i n => P i ∧ n.context.Suits c k) :=
  (framed m).leads.mono (fun _ _ _ drifts => drifts.keepsSuited own)
    fun _ _ stopped => ⟨stopped.2, stopped.1.keepsSuited own⟩

theorem Frames.going {α : Type} {P : Interrupt → Prop} {x : MachineM α} (framed : Frames P x)
    (going : m.context.Going c) :
    Leads x m (fun _ n => n.context.Going c) (fun i n => P i ∧ n.context.Going c) :=
  framed.suited (k := .waiting) going

theorem enterInitial_suited (chart : Chart) (going : m.context.Going c) :
    Suited c (enterInitial chart) m := by
  have declared := Frames.going (P := refused) initializeData_frames going
  refine Leads.bind (declared.mono (fun _ n _ own => own) fun _ n stopped => Or.inr stopped.2)
    fun _ n _ own => ?_
  cases (chart.state Chart.root).initial with
  | none => exact Or.inr own
  | some t =>
    refine Leads.bind ((enterStates_attended [t] n).leads.mono
      (fun _ k _ kept => kept own.toAttended) fun _ _ stopped => Or.inl stopped.2) ?_
    exact fun _ k _ entered => entered.of_same rfl rfl rfl

theorem reach_going (p : LifePoint) (going : m.context.Going c) : (m.reach p).context.Going c :=
  Growing.reach (R := KeepsSuited c .waiting) m p going

theorem start_suited (going : m.context.Going c) : Suited c start m := by
  have begun := reach_going .started going
  by_cases entered : m.context.initialized = true
  · have run := start_again entered
    rw [if_neg (by simp [going.going])] at run
    exact Leads.of_eq (y := pure .macrostep) run begun.toAttended
  · exact Leads.of_eq (start_first (by simpa using entered)) (enterInitial_suited m.chart begun)

theorem complete_suited (attended : m.context.Attended c) : Suited c complete m := by
  refine (complete_leads m).mono (fun control n run _ => ?_) fun _ _ stopped => Or.inl stopped.1
  obtain ⟨rfl,released,configuration,statesToInvoke⟩ := complete_ok run
  refine ⟨configuration, statesToInvoke, ?_⟩
  rw [released.services, List.filter_eq_nil_iff]
  intro i noted
  simpa using attended.active i noted

theorem destroy_suited (going : m.context.Going c) : Suited c destroy m := by
  have none : ∀ {P : Invocation → Prop}, ∀ i ∈ ([] : List Invocation), P i :=
    fun _ impossible => absurd impossible List.not_mem_nil
  exact ⟨⟨⟨going.entered, none, none⟩, going.going⟩, rfl⟩

theorem settleDown_suited (going : m.context.Going c) : Suited c settleDown m := by
  refine ⟨⟨⟨fun _ none => absurd none List.not_mem_nil, going.active, going.node⟩, going.going⟩, ?_⟩
  intro invoke pending
  obtain ⟨s,entered,mapped⟩ := List.mem_flatMap.mp pending
  obtain ⟨node,_,rfl⟩ := List.mem_map.mp mapped
  exact going.entered s entered

theorem pass_suited (enabled : List TransitionIndex) (going : m.context.Going c) :
    Suited c (pass enabled) m := by
  refine Leads.pass (fun _ => Or.inr going) going.toAttended ?_
  exact (microstep_attended (m := { m with steps := m.steps + 1 }) going.toAttended enabled).mono
    (fun _ _ _ own => own) fun _ _ crash => Or.inl crash

theorem look_done (done : m.context.done = true) : look m = .ok .completion m := by
  rw [look, get_bind, if_pos done]
  rfl

theorem macrostep_suited (attended : m.context.Attended c) : Suited c macrostep m := by
  by_cases done : m.context.done = true
  · exact Leads.of_eq (macrostep_of_look (look_done done)) (complete_suited attended)
  · have going : m.context.Going c := ⟨attended, by simpa using done⟩
    rw [macrostep_eq]
    have looking := look_keeps (R := KeepsSuited c .waiting) (fun _ _ => .of_same rfl) m
    refine Leads.bind (looking.leads.mono (fun _ n _ kept => kept going)
      fun _ n stopped => Or.inr (stopped.1 going)) fun found n _ own => ?_
    cases found with
    | completion => exact complete_suited own.toAttended
    | destruction => exact destroy_suited own
    | stability => exact settleDown_suited own
    | transitions event enabled => exact pass_suited enabled own

theorem goOn_nil_suited (going : m.context.Going c) : Suited c (goOn []) m := by
  refine (goOn_nil m).mono (fun control n _ after => ?_) fun _ _ absurd => absurd.elim
  have same := lodging_of_frame after.1
  have own : n.context.Going c := Context.Suits.of_lodging (k := .waiting) going same
  rcases after.2 with ⟨rfl,_⟩ | rfl
  · exact own.toAttended
  · exact own

theorem keepsSuited_note {s : StateIndex} {node : Nat} {rest : List (StateIndex × Nat)}
    (declared : node < (c.state s).invokes.length) (m : Machine) (entry : Invocation)
    (own : entry.state = s ∧ entry.node = node) :
    KeepsSuited c (.invoking ((s, node) :: rest)) m
      { m with context := { m.context with invocations := m.context.invocations ++ [entry] } } := by
  rintro ⟨going,active⟩
  refine ⟨⟨⟨going.entered, fun i hi => ?_, fun i hi => ?_⟩, going.going⟩, active⟩
  · rcases List.mem_append.mp hi with old | new
    · exact going.active i old
    · rw [List.mem_singleton.mp new, own.1]
      exact active (s, node) List.mem_cons_self
  · rcases List.mem_append.mp hi with old | new
    · exact going.node i old
    · rw [List.mem_singleton.mp new, own.1, own.2]
      exact declared

theorem going_forget {x : Context} (id : InvokeId) (own : x.Going c) :
    Context.Going c { x with invocations := x.invocations.filter (·.invokeId ≠ id) } :=
  ⟨⟨own.entered, fun i hi => own.active i (List.mem_filter.mp hi).1,
    fun i hi => own.node i (List.mem_filter.mp hi).1⟩, own.going⟩

theorem goOn_cons_suited (s : StateIndex) (node : Nat) (rest : List (StateIndex × Nat))
    (own : m.context.Suits c (.invoking ((s, node) :: rest))) (chart : m.chart = c) :
    Suited c (goOn ((s, node) :: rest)) m := by
  have fewer : ∀ {x : Context}, x.Suits c (.invoking ((s, node) :: rest)) →
      x.Suits c (.invoking rest) := fun own =>
    ⟨own.1, fun invoke pending => own.2 invoke (List.mem_cons_of_mem _ pending)⟩
  unfold Suited Leads
  rw [goOn_run]
  cases invoked : (m.chart.state s).invokes[node]? with
  | none => exact fewer own
  | some i =>
    have declared : node < (c.state s).invokes.length := by
      rw [← chart]
      exact (List.getElem?_eq_some_iff.mp invoked).1
    have kept := prepareInvoke_keeps (R := KeepsSuited c (.invoking ((s, node) :: rest))) s node i
      (keepsSuited_note declared) m
    unfold KeepsAt at kept
    simp only
    cases prepared : prepareInvoke s node i m with
    | ok data m' =>
      rw [prepared] at kept
      exact fewer (kept own)
    | error stop m' =>
      rw [prepared] at kept
      obtain ⟨kept,f,rfl⟩ := kept
      have told := Growing.raiseFailure (R := KeepsSuited c (.invoking ((s, node) :: rest))) m' f
      exact fewer (told (kept own))

theorem goOn_suited {pending : List (StateIndex × Nat)}
    (own : m.context.Suits c (.invoking pending)) (chart : m.chart = c) : Suited c (goOn pending) m := by
  cases pending with
  | nil => exact goOn_nil_suited own.1
  | cons invoke rest => exact goOn_cons_suited invoke.1 invoke.2 rest own chart

theorem afterStart_suited (data : InvokeData) {pending : List (StateIndex × Nat)}
    (failure : Option Failure) (own : m.context.Suits c (.invoking pending)) :
    Suited c (afterStart data pending failure) m := by
  cases failure with
  | none => exact own
  | some f =>
    have told := fun n => Growing.raiseFailure (R := KeepsSuited c (.invoking pending)) n f
    exact told _ ⟨going_forget data.invokeId own.1, own.2⟩

theorem afterEffects_suited {next : AfterEffects} (own : m.context.Suits c (.effects next)) :
    Suited c (afterEffects next) m := by
  cases next with
  | macrostep => exact own
  | exit status =>
    have after := (m.drifts_reach status.point).keepsSuited own
    cases status with
    | completed => exact after
    | destroyed => exact after
    | suspended => exact after.1
    | queueClosed => exact after.1

theorem suspend_exits : Leads suspend m (fun control _ => control = .exited .suspended)
    (fun i _ => survived i) := by
  unfold suspend
  refine Leads.of_eq (get_bind _ m) ?_
  split
  · split
    · rfl
    · exact nofun
  · rfl

theorem suspend_suited (going : m.context.Going c) : Suited c suspend m := by
  have kept := suspend_keeps (R := KeepsSuited c .waiting) Drifts.keepsSuited
    (fun _ _ => .of_same rfl) m
  have exits := suspend_exits (m := m)
  unfold Suited Leads at *
  unfold KeepsAt at kept
  cases run : suspend m with
  | ok control n =>
    rw [run] at kept exits
    cases exits
    exact kept going
  | error i n =>
    rw [run] at kept
    exact Or.inr (kept.1 going)

theorem process_suited (e : Event) (going : m.context.Going c) : Suited c (process e) m := by
  have announced : Leads (announce e) { m with steps := 0 } (fun _ n => n.context.Going c)
      (fun _ n => n.context.Going c) := by
    have binding := Frames.going (P := refused) (m := { m with steps := 0 }) (bindEvent_frames e) going
    refine Leads.bind (binding.mono (fun _ n _ own => own) fun _ _ stopped => stopped.2) ?_
    intro _ n _ own
    refine Leads.bind ((Frames.going (passToServices_frames e) own).mono (fun _ k _ after => after)
      fun _ _ stopped => stopped.2) fun _ k _ own => ?_
    cases e.name.doneInvokeId? with
    | none => exact own
    | some id => exact going_forget id own
  have received : Leads (receive e) m (fun _ n => n.context.Going c)
      (fun _ n => n.context.Going c) := by
    refine Leads.of_eq (receive_eq e m) (Leads.bind announced fun _ n _ own => ?_)
    exact (Frames.going (selectTransitions_frames _) own).mono (fun _ k _ after => after)
      fun _ _ stopped => stopped.2
  rw [process_eq]
  refine Leads.bind (received.mono (fun _ n _ own => own) fun _ _ own => Or.inr own) ?_
  intro enabled n _ own
  unfold respond
  split
  · refine Leads.bind (Q := fun _ n => n.context.Going c) own fun _ k _ own => ?_
    refine Leads.bind ((microstep_attended own.toAttended enabled).mono (fun _ _ _ after => after)
      fun _ _ crash => Or.inl crash) ?_
    exact fun _ l _ after => after
  · exact own.toAttended

theorem takeInput_suited (input : Input) (going : m.context.Going c) :
    Suited c (takeInput input) m := by
  cases input with
  | destroy => exact destroy_suited going
  | suspend => exact suspend_suited going
  | closed => exact reach_going .queueClosed going
  | event e => exact process_suited e going

end MachineM

namespace Machine

open MachineM

variable {c : Chart} {m m' : Machine}

theorem proceed_suits {part : MachineM Control} (suited : Suited c part m) :
    (m.proceed part).context.Suits c (m.proceed part).control := by
  refine proceed_leads (T := fun n => n.context.Suits c n.control) suited ?_ ?_ ?_ ?_
  · exact fun control n _ own => own
  · rintro f n (crash | own)
    · cases crash
    · exact reach_going _ own
  · rintro f n (crash | own)
    · cases crash
    · exact reach_going _ own
  · exact fun n _ => trivial

theorem worked_suits (own : m.context.Suits c m.control) (chart : m.chart = c)
    (worked : Worked m m') : m'.context.Suits c m'.control := by
  cases worked with
  | start control =>
    rw [control] at own
    exact proceed_suits (start_suited own)
  | macrostep control =>
    rw [control] at own
    exact proceed_suits (macrostep_suited own)
  | goOn control =>
    rw [control] at own
    exact proceed_suits (goOn_suited own chart)
  | @effects next control failures =>
    rw [control] at own
    refine proceed_suits (afterEffects_suited ?_)
    have framed := foldl_raiseFailure_frame failures { m with effects := [] }
    exact own.of_lodging (lodging_of_frame framed)
  | started control failure =>
    rw [control] at own
    exact proceed_suits (afterStart_suited _ failure own)

theorem move_suits (own : m.context.Suits c m.control) (chart : m.chart = c) (move : Move m m') :
    m'.context.Suits c m'.control := by
  cases move with
  | work work => exact worked_suits own chart work.worked
  | take input =>
    by_cases waiting : m.control = .waiting
    · rw [take_waiting waiting]
      rw [waiting] at own
      exact proceed_suits (takeInput_suited input own)
    · rwa [take_other waiting]
  | disturb => exact own
  | restart status early ended =>
    rw [ended] at own
    cases status with
    | completed => exact absurd rfl early
    | destroyed => exact own.1
    | suspended => exact own
    | queueClosed => exact own
  | retry fault ended =>
    rw [ended] at own
    exact own

/-- Where the end of a run is near, every service has been dropped and is to be cancelled, once. -/
def Discharged (m m' : Machine) : Control → Prop
  | .effects (.exit _) => m'.cancels.Perm (m.context.invocations.map (·.invokeId))
  | _ => True

/-- The part of a step brings the end of a run near only with all services cancelled. -/
abbrev Discharges (part : MachineM Control) (m : Machine) : Prop :=
  Leads part m (fun control n => Discharged m n control) (fun _ _ => True)

theorem leads_anywhere {α : Type} (x : MachineM α) (m : Machine) :
    Leads x m (fun _ _ => True) (fun _ _ => True) := by
  unfold Leads
  cases x m <;> trivial

theorem start_discharges (m : Machine) : Discharges MachineM.start m := by
  by_cases entered : m.context.initialized = true
  · unfold Discharges Leads
    rw [start_again entered]
    by_cases done : m.context.done = true
    · rw [if_pos done]
      trivial
    · rw [if_neg done]
      trivial
  · refine Leads.of_eq (start_first (by simpa using entered)) ?_
    refine Leads.bind (leads_anywhere _ _) fun _ n _ _ => ?_
    cases (m.chart.state Chart.root).initial with
    | none => trivial
    | some t => exact Leads.bind (leads_anywhere _ n) fun _ _ _ _ => trivial

theorem complete_discharges (attended : m.context.Attended c) (clear : m.cancels = []) :
    Discharges complete m := by
  refine (complete_leads m).mono (fun control n run _ => ?_) fun _ _ _ => trivial
  obtain ⟨rfl,released,_⟩ := complete_ok run
  have all : (m.context.invocations.filter fun i => m.context.configuration.contains i.state) =
      m.context.invocations :=
    List.filter_eq_self.mpr fun i noted => by simpa using attended.active i noted
  have cancels := released.cancels
  rwa [clear, all, List.nil_append] at cancels

theorem destroy_discharges (m : Machine) : Discharges destroy m :=
  List.Perm.of_eq (filterMap_cancelled m.context.invocations)

theorem pass_discharges (enabled : List TransitionIndex) (m n : Machine) :
    Leads (pass enabled) n (fun control k => Discharged m k control) (fun _ _ => True) :=
  .pass (fun _ => trivial) trivial
    ((leads_anywhere (microstep enabled) _).mono (fun _ _ _ _ => trivial) fun _ _ _ => trivial)

theorem macrostep_discharges (attended : m.context.Attended c) (clear : m.effects = []) :
    Discharges macrostep m := by
  rw [macrostep_eq]
  have looking := look_keeps (R := fun m m' : Machine => m'.standing = m.standing) fun _ _ => rfl
  refine Leads.bind ((look_same m).leads.mono (fun _ n _ framed => framed) fun _ _ _ => trivial) ?_
  intro found n run framed
  have lodging := lodging_of_frame framed
  have cleared : n.effects = [] := (effects_of_standing ((looking m).of_ok run)).trans clear
  have services : ∀ control k, Discharged n k control → Discharged m k control := by
    have same : n.context.invocations = m.context.invocations :=
      congrArg (fun lodging => lodging.2.2.1) lodging
    unfold Discharged
    rw [same]
    exact fun _ _ own => own
  cases found with
  | completion =>
    have own := Context.Suits.of_lodging (k := .macrostep) attended lodging
    have ending := complete_discharges own (by rw [cancels, cleared, List.filterMap_nil])
    exact ending.mono (fun control k _ => services control k) fun _ _ => id
  | destruction =>
    exact (destroy_discharges n).mono (fun control k _ => services control k) fun _ _ => id
  | stability => trivial
  | transitions event enabled => exact pass_discharges enabled m n

theorem goOn_discharges (pending : List (StateIndex × Nat)) (m : Machine) :
    Discharges (goOn pending) m := by
  cases pending with
  | nil =>
    refine (goOn_nil m).mono (fun control n _ after => ?_) fun _ _ _ => trivial
    rcases after.2 with ⟨rfl,_⟩ | rfl
    · trivial
    · trivial
  | cons invoke rest =>
    refine (goOn_cons invoke.1 invoke.2 rest m).mono (fun control n _ after => ?_)
      fun _ _ _ => trivial
    rcases after.2 with rfl | ⟨data,rfl⟩
    · trivial
    · trivial

theorem takeInput_discharges (input : Input) (m : Machine) : Discharges (takeInput input) m := by
  cases input with
  | destroy => exact destroy_discharges m
  | suspend => exact suspend_exits.mono (fun control n _ exits => exits ▸ trivial) fun _ _ _ => trivial
  | closed => trivial
  | event e =>
    change Discharges (process e) m
    rw [process_eq]
    refine Leads.bind (leads_anywhere _ m) fun enabled n _ _ => ?_
    unfold respond
    split
    · exact Leads.bind (leads_anywhere _ n) fun _ k _ _ =>
        Leads.bind (leads_anywhere (microstep enabled) k) fun _ _ _ _ => trivial
    · trivial

theorem proceed_discharges {part : MachineM Control} (discharges : Discharges part m) :
    Discharged m (m.proceed part) (m.proceed part).control :=
  proceed_leads (T := fun n => Discharged m n n.control) discharges (fun _ _ _ own => own)
    (fun _ _ _ => trivial) (fun _ _ _ => trivial) fun _ _ => trivial

theorem worked_discharges (attended : m.control ≠ .crashed → m.context.Attended c)
    (orderly : m.Orderly) (worked : Worked m m') : Discharged m m' m'.control := by
  unfold Orderly at orderly
  cases worked with
  | start => exact proceed_discharges (start_discharges m)
  | macrostep control =>
    rw [control] at orderly attended
    exact proceed_discharges (macrostep_discharges (attended nofun) orderly)
  | goOn => exact proceed_discharges (goOn_discharges _ m)
  | @effects next control failures =>
    refine proceed_leads (T := fun n => Discharged m n n.control) (Q := fun control n =>
      Discharged m n control) (E := fun _ _ => True) ?_ (fun _ _ _ own => own)
      (fun _ _ _ => trivial) (fun _ _ _ => trivial) fun _ _ => trivial
    cases next with
    | macrostep => trivial
    | exit status => trivial
  | started control failure =>
    cases failure with
    | none => exact trivial
    | some f => exact trivial

/-- A move that brings the end of a run near has all services cancelled. -/
theorem move_discharges (attended : m.control ≠ .crashed → m.context.Attended c)
    (orderly : m.Orderly) (move : Move m m') {status : ExitStatus}
    (ending : m'.control = .effects (.exit status)) (sudden : m.control ≠ m'.control) :
    m'.cancels.Perm (m.context.invocations.map (·.invokeId)) := by
  suffices discharged : Discharged m m' m'.control by
    rw [ending] at discharged
    exact discharged
  cases move with
  | work work => exact worked_discharges attended orderly work.worked
  | take input =>
    by_cases waiting : m.control = .waiting
    · rw [take_waiting waiting]
      exact proceed_discharges (takeInput_discharges input m)
    · rw [take_other waiting] at sudden
      exact absurd rfl sudden
  | disturb => exact absurd rfl sudden
  | restart => trivial
  | retry => trivial

/-- A machine at any point of the runs of one session: of a new machine, and of machines that take
    up a run from a snapshot of it. -/
inductive Lived (c : Chart) : Machine → Prop where
  | created (options : Options) (memory : Memory) : Lived c (create c options memory).start
  | moved {m m' : Machine} (lived : Lived c m) (move : Move m m') : Lived c m'
  | resumed {m r : Machine} {b : Bucket} (lived : Lived c m) (waiting : m.control = .waiting)
      (stored : m.snapshot = .ok b) (options : Options) (memory : Memory)
      (resumed : resume c options memory b = .ok r) : Lived c r.start

theorem Lived.run (lived : Lived c m) : ∃ m₀, Unstarted m₀ ∧ m₀.chart = c ∧ Run m₀.start m := by
  induction lived with
  | created options memory =>
    exact ⟨_, .created c options memory, rfl, .refl _⟩
  | moved _ move ih =>
    obtain ⟨m₀,unstarted,chart,run⟩ := ih
    exact ⟨m₀, unstarted, chart, run.next move⟩
  | @resumed m r b _ _ _ options memory resumed _ =>
    have chart : r.chart = c := by
      obtain ⟨h,context,_,ready⟩ := resume_ok resumed
      have framed := (setUp_frames (R := fun m m' : Machine => m'.frame = m.frame) c _).of_ok ready
      exact congrArg (fun m => m.chart) framed
    exact ⟨r, .resumed resumed, chart, .refl _⟩

/-- A context that has been restored from a snapshot has what the snapshot was taken of. -/
theorem restored_lodging {library : ActionLibrary} {source : Source.ChartDef} {x y : Context}
    {h h₀ h' : Heap} {b : Bucket} (accepted : Chart.compile library source = .ok c)
    (placed : x.Placed c) (stored : x.store c h = .ok b)
    (restored : Context.restore c h₀ b = .ok (h', y)) : y.lodging = x.lodging := by
  have written := Context.written_of_store stored
  rw [written.restore_eq, Context.restoreSections,
    Chart.restoreStates_store accepted placed.configuration placed.active written.configuration,
    Chart.restoreStates_store accepted placed.statesToInvoke placed.entered written.statesToInvoke,
    Context.restoreInvocations_store accepted placed written.invocations, written.done] at restored
  obtain ⟨_,active,restored⟩ := Except.bind_eq_ok restored
  obtain ⟨_,entered,restored⟩ := Except.bind_eq_ok restored
  obtain ⟨_,_,restored⟩ := Except.bind_eq_ok restored
  obtain ⟨_,_,restored⟩ := Except.bind_eq_ok restored
  obtain ⟨_,services,restored⟩ := Except.bind_eq_ok restored
  cases active
  cases entered
  cases services
  cases restored
  rfl

theorem Lived.suits {library : ActionLibrary} {source : Source.ChartDef}
    (accepted : Chart.compile library source = .ok c) (lived : Lived c m) :
    m.context.Suits c m.control := by
  induction lived with
  | created options memory =>
    have none : ∀ {α : Type} {P : α → Prop}, ∀ a ∈ ([] : List α), P a :=
      fun _ impossible => absurd impossible List.not_mem_nil
    exact ⟨⟨none, none, none⟩, rfl⟩
  | moved lived move ih =>
    obtain ⟨m₀,unstarted,chart,run⟩ := lived.run
    obtain ⟨setting,_⟩ := run_orderly unstarted run
    exact move_suits ih ((congrArg Prod.fst setting).trans chart) move
  | @resumed m r b lived waiting stored options memory resumed ih =>
    obtain ⟨m₀,unstarted,chart,run⟩ := lived.run
    have wf := Chart.compile_wellFormed accepted
    subst chart
    have placed := run_placed wf unstarted run
    obtain ⟨h,context,restored,ready⟩ := resume_ok resumed
    rw [snapshot, placed.chart] at stored
    have same := restored_lodging accepted placed.context stored restored
    have going : context.Suits m₀.chart .waiting := by
      rw [waiting] at ih
      exact ih.of_lodging same
    have ready := (setUp_frames (R := KeepsSuited m₀.chart .waiting) m₀.chart _).of_ok ready
    exact ready going

/-- The services of a machine of an accepted chart live and end with the states that invoked them.
    At every point of its runs what is to be invoked is active, and so is the state of every
    service, which is one of its invokes. What a microstep leaves takes its services along, each
    cancelled once; so does what is left when a machine completes or is destroyed, and then no
    service remains. -/
theorem services_end_with_states {library : ActionLibrary} {source : Source.ChartDef}
    (accepted : Chart.compile library source = .ok c) (lived : Lived c m) :
    (m.control ≠ .crashed → m.context.Attended c) ∧
      (∀ enabled n n', microstep enabled n = .ok () n' →
        Releases (n.chart.exitSet n.context.history n.context.configuration enabled) n n') ∧
      (∀ m' status, Move m m' → m'.control = .effects (.exit status) → m.control ≠ m'.control →
        m'.context.invocations = [] ∧ m'.cancels.Perm (m.context.invocations.map (·.invokeId))) ∧
      (m.control = .exited .completed → m.context.Vacant) ∧
      (m.control = .exited .destroyed → m.context.invocations = []) := by
  have suits := lived.suits accepted
  have attended : m.control ≠ .crashed → m.context.Attended c := suits.attended
  obtain ⟨m₀,unstarted,_,run⟩ := lived.run
  obtain ⟨_,orderly⟩ := run_orderly unstarted run
  refine ⟨attended, fun _ _ _ run => microstep_releases run, ?_, ?_, ?_⟩
  · intro m' status move ending sudden
    have after := (lived.moved move).suits accepted
    rw [ending] at after
    exact ⟨after.spent, move_discharges attended orderly move ending sudden⟩
  · intro ended
    rw [ended] at suits
    exact suits
  · intro ended
    rw [ended] at suits
    exact suits.2

end Machine

namespace Attendance

open Source Machine

/-- A state that invokes a service, and that can be left. -/
def source : ChartDef where
  name := none
  initial := none
  data := []
  extra := none
  states :=
    [.mk { StateInfo.simple "busy" .state [⟨some ["go"], none, some ["idle"], .external, []⟩] with
        invokes := [⟨none, some "service", none, some "kid", none, [], none, false, []⟩] } [],
      .mk (.simple "idle" .state []) []]

def chart : Chart := Chart.compiled [] source

def machine : Machine := (Machine.create chart { sessionId := "s" } default).start

def serving : Machine := (machine.step.step.step.step.startDone none).step

theorem serving_lived : Lived chart serving := by
  have first : Lived chart machine := .created { sessionId := "s" } default
  have one := first.moved (.work (.step _ (by decide +kernel)))
  have two := one.moved (.work (.step _ (by decide +kernel)))
  have three := two.moved (.work (.step _ (by decide +kernel)))
  have four := three.moved (.work (.step _ (by decide +kernel)))
  obtain ⟨data,pending,asked⟩ := control_of_starting (m := machine.step.step.step.step)
    (by decide +kernel)
  have five := four.moved (.work (.startDone _ data pending none asked))
  exact five.moved (.work (.step _ (by decide +kernel)))

/-- Destroyed, the machine has its service cancelled. -/
theorem serving_ends : serving.context.invocations.map (·.invokeId) = ["kid"] ∧
    serving.context.Attended chart ∧ (serving.take .destroy).context.invocations = [] ∧
      (serving.take .destroy).cancels = ["kid"] := by
  have waiting : serving.control = .waiting := control_of_waiting (by decide +kernel)
  obtain ⟨attended,_,ends,_⟩ := services_end_with_states
    (Chart.compile_eq_compiled (by decide +kernel)) serving_lived
  have noted : serving.context.invocations.map (·.invokeId) = ["kid"] := by decide +kernel
  have ending : (serving.take .destroy).control = .effects (.exit .destroyed) := by
    rw [take_waiting waiting]
    rfl
  obtain ⟨gone,cancelled⟩ := ends _ _ (.take serving .destroy) ending
    (by rw [waiting, ending]; exact nofun)
  rw [noted] at cancelled
  exact ⟨noted, attended (by rw [waiting]; exact nofun), gone, List.perm_singleton.mp cancelled⟩

end Attendance

end Statechart

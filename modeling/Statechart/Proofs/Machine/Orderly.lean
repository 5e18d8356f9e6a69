import Statechart.Proofs.Machine.Parts

/- What a machine has got done when it comes to a point of its run. Before it prepares services there
   is nothing else to do, and before it waits there is nothing to do at all. -/
namespace Statechart

/-- Traces do not fail. -/
def Logger.Reliable (l : Logger) : Prop := l.tracing = true → ∀ r, l.traceFault r = none

namespace Machine

open MachineM

variable {m m' : Machine}

theorem trace_eq (reliable : m.options.logger.Reliable) (r : TraceRecord) :
    ∃ reports, m.trace r = { m with reports } := by
  unfold trace
  by_cases tracing : m.options.logger.tracing = true
  · have sound : m.options.logger.traceFault r = none := reliable tracing r
    simp only [tracing, Bool.not_true, Bool.false_eq_true, if_false]
    refine ⟨.trace r :: m.reports, ?_⟩
    simp only [tell, sound]
  · simp only [tracing, Bool.not_false, if_true]
    exact ⟨m.reports, rfl⟩

theorem reach_eq (reliable : m.options.logger.Reliable) (p : LifePoint) :
    ∃ reports, m.reach p = { m with reports } := by
  obtain ⟨reports,traced⟩ := trace_eq reliable (.point p)
  rw [reach, traced]
  exact ⟨.life p :: reports, rfl⟩

/-- The ways a machine does a piece of work. A machine without effects is as good as answered. -/
inductive Worked (m : Machine) : Machine → Prop where
  | start (control : m.control = .starting) : Worked m (m.proceed MachineM.start)
  | macrostep (control : m.control = .macrostep) : Worked m (m.proceed MachineM.macrostep)
  | goOn {pending : List (StateIndex × Nat)} (control : m.control = .invoking pending) :
      Worked m (m.proceed (MachineM.goOn pending))
  | effects {next : AfterEffects} (control : m.control = .effects next)
      (failures : List Failure) :
      Worked m ((failures.foldl raiseFailure { m with effects := [] }).proceed (afterEffects next))
  | started {data : InvokeData} {pending : List (StateIndex × Nat)}
      (control : m.control = .starts data pending) (failure : Option Failure) :
      Worked m (m.proceed (afterStart data pending failure))

theorem Work.worked (work : Work m m') : Worked m m' := by
  cases work with
  | step running =>
    cases control : m.control with
    | starting =>
      rw [Machine.step, control]
      exact .start control
    | macrostep =>
      rw [Machine.step, control]
      exact .macrostep control
    | invoking pending =>
      rw [Machine.step, control]
      exact .goOn control
    | effects next =>
      have none : m.effects.isEmpty = true := by simpa [isBlocked, control] using running
      have same : { m with effects := [] } = m := by
        rw [← List.isEmpty_iff.mp none]
      have moved : m.step = m.proceed (afterEffects next) := by
        rw [Machine.step, control]
        simp only [none, if_true]
      have worked := Worked.effects control []
      rw [List.foldl_nil, same, ← moved] at worked
      exact worked
    | _ => simp [isBlocked, control] at running
  | effectsDone next failures asked =>
    rw [effectsDone_eq asked]
    exact .effects asked failures
  | startDone data pending failure asked =>
    rw [startDone_eq asked]
    exact .started asked failure

/-- What a run is given from outside and keeps. -/
def setting (m : Machine) : Chart × Options := (m.chart, m.options)

/-- Nothing is left to do but to start services. -/
structure Settled (m : Machine) : Prop where
  effects : m.effects = []
  invokes : m.context.statesToInvoke = []
  going : m.context.done = false

/-- Nothing at all is left to do. A failing trace is told by an internal event. -/
structure Rested (m : Machine) : Prop extends Settled m where
  queue : m.options.logger.Reliable → m.context.internalQueue = []

/-- What a machine has got done when it comes to a point of its run. -/
def Orderly (m : Machine) : Prop :=
  match m.control with
  | .effects _ | .crashed => True
  | .invoking _ | .starts _ _ => m.Settled
  | .waiting => m.Rested
  | _ => m.effects = []

/-- What being orderly depends on, the queue apart. -/
structure Standing where
  setting : Chart × Options
  effects : List Effect
  invokes : List StateIndex
  done : Bool

def standing (m : Machine) : Standing :=
  ⟨m.setting, m.effects, m.context.statesToInvoke, m.context.done⟩

instance : Tolerant (fun m m' : Machine => m'.standing = m.standing) where
  withHeap _ _ := rfl
  freshId _ := rfl
  enqueue _ _ := rfl
  tell _ _ := rfl

theorem setting_of_standing (same : m'.standing = m.standing) : m'.setting = m.setting :=
  congrArg Standing.setting same

theorem effects_of_standing (same : m'.standing = m.standing) : m'.effects = m.effects :=
  congrArg Standing.effects same

theorem Settled.of_standing (settled : m.Settled) (same : m'.standing = m.standing) :
    m'.Settled where
  effects := (effects_of_standing same).trans settled.effects
  invokes := (congrArg Standing.invokes same).trans settled.invokes
  going := (congrArg Standing.done same).trans settled.going

theorem reach_standing (m : Machine) (p : LifePoint) : (m.reach p).standing = m.standing :=
  Growing.reach (R := fun m m' : Machine => m'.standing = m.standing) m p

theorem Rested.reach (rested : m.Rested) (p : LifePoint) : (m.reach p).Rested := by
  refine ⟨rested.toSettled.of_standing (reach_standing m p), ?_⟩
  have options : (m.reach p).options = m.options :=
    congrArg Prod.snd (setting_of_standing (reach_standing m p))
  rw [options]
  intro reliable
  obtain ⟨reports,reached⟩ := reach_eq reliable p
  rw [reached]
  exact rested.queue reliable

end Machine

namespace MachineM

open Machine

variable {m : Machine}

/-- The part leaves the machine orderly, and a fault leaves no effects behind. -/
def Tidy (part : MachineM Control) (m : Machine) : Prop :=
  Leads part m (fun control n => n.setting = m.setting ∧ Orderly { n with control })
    (fun i n => n.setting = m.setting ∧ (i = .crash ∨ n.effects = []))

theorem Tidy.orderly {part : MachineM Control} (tidy : Tidy part m) :
    (m.proceed part).setting = m.setting ∧ (m.proceed part).Orderly := by
  have aborted : ∀ (f : Fault) (n : Machine), n.setting = m.setting → n.effects = [] →
      (proceed.abort n f).setting = m.setting ∧ (proceed.abort n f).Orderly := by
    intro f n same clear
    have reached := fun p => reach_standing n p
    exact ⟨(setting_of_standing (reached _)).trans same,
      (effects_of_standing (reached _)).trans clear⟩
  refine proceed_leads (T := fun n => n.setting = m.setting ∧ n.Orderly) tidy ?_ ?_ ?_ ?_
  · exact fun control n _ after => after
  · rintro f n ⟨same,absurd | clear⟩
    · cases absurd
    · exact aborted f n same clear
  · rintro f n ⟨same,absurd | clear⟩
    · cases absurd
    · exact aborted _ n same clear
  · exact fun n stopped => ⟨stopped.1, trivial⟩

theorem Tidy.of_setting {part : MachineM Control} {n : Machine} (tidy : Tidy part n)
    (same : n.setting = m.setting) :
    Leads part n (fun control k => k.setting = m.setting ∧ Orderly { k with control })
      (fun i k => k.setting = m.setting ∧ (i = .crash ∨ k.effects = [])) := by
  refine Leads.mono tidy ?_ ?_
  · exact fun control k _ after => ⟨after.1.trans same, after.2⟩
  · exact fun i k stopped => ⟨stopped.1.trans same, stopped.2⟩

theorem setting_of_shell {n : Machine} (same : n.shell = m.shell) : n.setting = m.setting := by
  have framed : n.shell.setting = m.shell.setting := congrArg setting same
  exact framed

theorem microstep_setting (enabled : List TransitionIndex) (m : Machine) :
    Leads (microstep enabled) m (fun _ n => n.setting = m.setting)
      (fun i n => n.setting = m.setting ∧ i = .crash) := by
  refine (microstep_shell enabled m).leads.mono ?_ ?_
  · exact fun _ n _ same => setting_of_shell same
  · exact fun i n stopped => ⟨setting_of_shell stopped.1, stopped.2⟩

theorem enterInitial_tidy (c : Chart) (clear : m.effects = []) : Tidy (enterInitial c) m := by
  have declared : Leads _ m _ _ :=
    (initializeData_frames (R := fun m m' => m'.standing = m.standing) (P := refused) m).leads
  refine Leads.bind (declared.mono (fun _ n _ same => same) ?_) ?_
  · intro i n stopped
    exact ⟨setting_of_standing stopped.1,
      Or.inr ((effects_of_standing stopped.1).trans clear)⟩
  · intro _ n _ same
    have setting := setting_of_standing same
    cases (c.state Chart.root).initial with
    | none => exact ⟨setting, Or.inr ((effects_of_standing same).trans clear)⟩
    | some t =>
      refine Leads.bind ((enterStates_shell [t] n).leads.mono
        (fun _ k _ entered => (setting_of_shell entered).trans setting) ?_) ?_
      · intro i k stopped
        exact ⟨(setting_of_shell stopped.1).trans setting, Or.inl stopped.2⟩
      · intro _ k _ entered
        exact ⟨entered, trivial⟩

theorem start_tidy (clear : m.effects = []) : Tidy start m := by
  have begun := reach_standing m .started
  have clear' := (effects_of_standing begun).trans clear
  by_cases entered : m.context.initialized = true
  · have run := start_again entered
    by_cases done : m.context.done = true
    · rw [if_pos done] at run
      have ended := (reach_standing (m.reach .started) .completed).trans begun
      exact Leads.of_eq (y := pure (.exited .completed)) run
        ⟨setting_of_standing ended, (effects_of_standing ended).trans clear⟩
    · rw [if_neg done] at run
      exact Leads.of_eq (y := pure .macrostep) run ⟨setting_of_standing begun, clear'⟩
  · have run := start_first (by simpa using entered)
    exact Leads.of_eq run ((enterInitial_tidy m.chart clear').of_setting (setting_of_standing begun))

theorem pass_tidy (enabled : List TransitionIndex) (clear : m.effects = []) :
    Tidy (pass enabled) m := by
  refine Leads.pass (fun _ => ⟨rfl, Or.inr clear⟩) ⟨rfl, clear⟩ ?_
  refine (microstep_setting enabled { m with steps := m.steps + 1 }).mono ?_ ?_
  · exact fun _ k _ same => ⟨same, trivial⟩
  · exact fun i k stopped => ⟨stopped.1, Or.inl stopped.2⟩

theorem complete_tidy (m : Machine) : Tidy complete m := by
  refine (complete_leads m).mono ?_ ?_
  · rintro control n _ ⟨rfl,same⟩
    exact ⟨setting_of_shell same, trivial⟩
  · exact fun i n stopped => ⟨setting_of_shell stopped.2, Or.inl stopped.1⟩

theorem macrostep_tidy (clear : m.effects = []) : Tidy macrostep m := by
  rw [macrostep_eq]
  have looking := look_keeps (R := fun m m' : Machine => m'.standing = m.standing) fun _ _ => rfl
  refine Leads.bind ((looking m).leads.mono (fun _ n _ same => same) ?_) ?_
  · intro i n stopped
    exact ⟨setting_of_standing stopped.1,
      Or.inr ((effects_of_standing stopped.1).trans clear)⟩
  · intro found n run same
    have clear' := (effects_of_standing same).trans clear
    refine Tidy.of_setting ?_ (setting_of_standing same)
    cases found with
    | completion => exact complete_tidy n
    | destruction => exact ⟨rfl, trivial⟩
    | stability =>
      have done : n.context.done = m.context.done := congrArg Standing.done same
      exact ⟨rfl, clear', rfl, done.trans (look_going run nofun)⟩
    | transitions event enabled => exact pass_tidy enabled clear'

theorem goOn_nil_tidy (settled : m.Settled) : Tidy (goOn []) m := by
  have waits : ∀ n : Machine, n.setting = m.setting → n.Rested →
      (n.reach .waiting).setting = m.setting ∧
        Orderly { n.reach .waiting with control := .waiting } := by
    intro n same rested
    have after := rested.reach .waiting
    exact ⟨(setting_of_standing (reach_standing n .waiting)).trans same,
      ⟨after.effects, after.invokes, after.going⟩, after.queue⟩
  unfold Tidy
  rw [goOn]
  refine Leads.of_eq (get_bind _ m) ?_
  by_cases queued : (!m.context.internalQueue.isEmpty) = true
  · rw [if_pos queued]
    exact ⟨rfl, settled.effects⟩
  · rw [if_neg queued]
    have rested : m.Rested := ⟨settled, fun _ => by simpa using queued⟩
    by_cases first : (!m.accepted) = true
    · simp only [first, if_true]
      have accepted : Machine.Rested { m with accepted := true } :=
        ⟨⟨rested.effects, rested.invokes, rested.going⟩, rested.queue⟩
      have setting := setting_of_standing (reach_standing { m with accepted := true } .accepted)
      exact waits _ setting (accepted.reach .accepted)
    · simp only [first]
      exact waits m rfl rested

theorem goOn_cons_tidy (s : StateIndex) (node : Nat) (rest : List (StateIndex × Nat))
    (settled : m.Settled) : Tidy (goOn ((s, node) :: rest)) m := by
  have stays : ∀ n : Machine, n.standing = m.standing → ∀ control,
      control = .invoking rest ∨ (∃ data, control = .starts data rest) →
      n.setting = m.setting ∧ Orderly { n with control } := by
    intro n same control going
    have after := settled.of_standing same
    refine ⟨setting_of_standing same, ?_⟩
    rcases going with rfl | ⟨data,rfl⟩
    · exact ⟨after.effects, after.invokes, after.going⟩
    · exact ⟨after.effects, after.invokes, after.going⟩
  unfold Tidy Leads
  rw [goOn_run]
  cases (m.chart.state s).invokes[node]? with
  | none => exact stays m rfl _ (Or.inl rfl)
  | some i =>
    have kept := prepareInvoke_keeps (R := fun m m' : Machine => m'.standing = m.standing)
      s node i (fun _ _ _ => rfl) m
    unfold KeepsAt at kept
    simp only
    cases prepared : prepareInvoke s node i m with
    | ok data m' =>
      rw [prepared] at kept
      exact stays m' kept _ (Or.inr ⟨data, rfl⟩)
    | error stop m' =>
      rw [prepared] at kept
      obtain ⟨kept,f,rfl⟩ := kept
      exact stays (m'.raiseFailure f) kept _ (Or.inl rfl)

theorem afterEffects_tidy (next : AfterEffects) (clear : m.effects = []) :
    Tidy (afterEffects next) m := by
  cases next with
  | macrostep => exact ⟨rfl, clear⟩
  | exit status =>
    have reached := reach_standing m status.point
    exact ⟨setting_of_standing reached, (effects_of_standing reached).trans clear⟩

theorem afterStart_tidy (data : InvokeData) (pending : List (StateIndex × Nat))
    (failure : Option Failure) (settled : m.Settled) :
    Tidy (afterStart data pending failure) m := by
  cases failure with
  | none => exact ⟨rfl, settled.effects, settled.invokes, settled.going⟩
  | some f => exact ⟨rfl, settled.effects, settled.invokes, settled.going⟩

theorem suspend_tidy (clear : m.effects = []) : Tidy suspend m := by
  have suspended : ∀ n : Machine, n.standing = m.standing →
      (n.reach .suspended).setting = m.setting ∧ (n.reach .suspended).effects = [] := by
    intro n same
    have reached := (reach_standing n .suspended).trans same
    exact ⟨setting_of_standing reached, (effects_of_standing reached).trans clear⟩
  unfold Tidy suspend
  refine Leads.of_eq (get_bind _ m) ?_
  by_cases storing : m.options.storing = true
  · simp only [storing, if_true]
    cases m.snapshot with
    | ok b => exact suspended { m with saved := some b } rfl
    | error f => exact ⟨rfl, Or.inr clear⟩
  · simp only [storing]
    exact suspended m rfl

theorem announce_tidy (e : Event) (clear : m.effects = []) :
    Leads (announce e) m (fun _ n => n.setting = m.setting)
      (fun i n => n.setting = m.setting ∧ (i = .crash ∨ n.effects = [])) := by
  have bound : KeepsAt (fun m m' : Machine => m'.standing = m.standing) refused _ m :=
    bindEvent_frames e m
  refine Leads.bind (bound.leads.mono (fun _ n _ same => setting_of_standing same) ?_) ?_
  · intro i n stopped
    exact ⟨setting_of_standing stopped.1,
      Or.inr ((effects_of_standing stopped.1).trans clear)⟩
  · intro _ n _ same
    refine Leads.mono (KeepsAt.leads (R := fun m m' : Machine => m'.setting = m.setting)
      (P := onlyCrash) (keepsAt_bind
        (Same.of_frames (fun _ => rfl) (passToServices_frames e) n) fun _ k _ => ?_)) ?_ ?_
    · split
      · exact (rfl : Machine.setting _ = k.setting)
      · exact Keeps.pure _ k
    · exact fun _ k _ after => after.trans same
    · exact fun i k stopped => ⟨stopped.1.trans same, Or.inl stopped.2⟩

theorem respond_setting (enabled : List TransitionIndex) (m : Machine) :
    Leads (respond enabled) m
      (fun control n => n.setting = m.setting ∧ control = .effects .macrostep)
      (fun i n => n.setting = m.setting ∧ i = .crash) := by
  unfold respond
  split
  · refine Leads.bind (Q := fun _ n => n.setting = m.setting) rfl fun _ n _ same => ?_
    refine Leads.bind ((microstep_setting enabled n).mono
      (fun _ k _ after => after.trans same) ?_) ?_
    · exact fun i k stopped => ⟨stopped.1.trans same, stopped.2⟩
    · exact fun _ k _ after => ⟨after, rfl⟩
  · exact ⟨rfl, rfl⟩

theorem process_tidy (e : Event) (clear : m.effects = []) : Tidy (process e) m := by
  rw [process_eq]
  have announced := announce_tidy (m := { m with steps := 0 }) e clear
  have selecting : Same Machine.setting onlyCrash (selectTransitions (some e.name)) :=
    Same.of_frames (fun _ => rfl) (selectTransitions_frames _)
  refine Leads.bind (Q := fun _ n => n.setting = m.setting)
    (Leads.of_eq (receive_eq e m) (Leads.bind announced fun _ n _ same => ?_)) ?_
  · refine (selecting n).leads.mono ?_ ?_
    · exact fun _ k _ after => after.trans same
    · exact fun i k stopped => ⟨stopped.1.trans same, Or.inl stopped.2⟩
  · intro enabled n _ same
    refine (respond_setting enabled n).mono ?_ ?_
    · rintro control k _ ⟨after,rfl⟩
      exact ⟨after.trans same, trivial⟩
    · exact fun i k stopped => ⟨stopped.1.trans same, Or.inl stopped.2⟩

theorem takeInput_tidy (input : Input) (clear : m.effects = []) : Tidy (takeInput input) m := by
  cases input with
  | destroy => exact ⟨rfl, trivial⟩
  | suspend => exact suspend_tidy clear
  | closed =>
    have reached := reach_standing m .queueClosed
    exact ⟨setting_of_standing reached, (effects_of_standing reached).trans clear⟩
  | event e => exact process_tidy e clear

end MachineM

namespace Machine

open MachineM

variable {m m' : Machine}

theorem foldl_raiseFailure_standing (failures : List Failure) (m : Machine) :
    (failures.foldl raiseFailure m).standing = m.standing := by
  induction failures generalizing m with
  | nil => rfl
  | cons f rest ih =>
    rw [List.foldl_cons, ih]
    rfl

theorem worked_orderly (orderly : m.Orderly) (worked : Worked m m') :
    m'.setting = m.setting ∧ m'.Orderly := by
  unfold Orderly at orderly
  cases worked with
  | start control =>
    rw [control] at orderly
    exact (start_tidy orderly).orderly
  | macrostep control =>
    rw [control] at orderly
    exact (macrostep_tidy orderly).orderly
  | @goOn pending control =>
    rw [control] at orderly
    cases pending with
    | nil => exact (goOn_nil_tidy orderly).orderly
    | cons invoke rest => exact (goOn_cons_tidy invoke.1 invoke.2 rest orderly).orderly
  | @effects next control failures =>
    have raised := foldl_raiseFailure_standing failures { m with effects := [] }
    have after := (afterEffects_tidy next (effects_of_standing raised)).orderly
    have same : { m with effects := [] }.setting = m.setting := rfl
    exact ⟨after.1.trans ((setting_of_standing raised).trans same), after.2⟩
  | @started data pending control failure =>
    rw [control] at orderly
    exact (afterStart_tidy data pending failure orderly).orderly

theorem move_orderly (orderly : m.Orderly) (move : Move m m') :
    m'.setting = m.setting ∧ m'.Orderly := by
  cases move with
  | work work => exact worked_orderly orderly work.worked
  | take input =>
    by_cases waiting : m.control = .waiting
    · rw [take_waiting waiting]
      unfold Orderly at orderly
      rw [waiting] at orderly
      exact (takeInput_tidy input orderly.effects).orderly
    · rw [take_other waiting]
      exact ⟨rfl, orderly⟩
  | disturb memory destroyed reports =>
    refine ⟨rfl, ?_⟩
    unfold Orderly at orderly ⊢
    simp only [disturb]
    cases control : m.control with
    | invoking pending =>
      rw [control] at orderly
      exact ⟨orderly.effects, orderly.invokes, orderly.going⟩
    | starts data pending =>
      rw [control] at orderly
      exact ⟨orderly.effects, orderly.invokes, orderly.going⟩
    | waiting =>
      rw [control] at orderly
      exact ⟨⟨orderly.effects, orderly.invokes, orderly.going⟩, orderly.queue⟩
    | _ =>
      rw [control] at orderly
      exact orderly
  | restart status early ended =>
    unfold Orderly at orderly
    rw [ended] at orderly
    exact ⟨rfl, orderly⟩
  | retry fault ended =>
    unfold Orderly at orderly
    rw [ended] at orderly
    exact ⟨rfl, orderly⟩

/-- A machine before it runs: a new one, or one that takes up a run from a snapshot. -/
inductive Unstarted : Machine → Prop where
  | created (chart : Chart) (options : Options) (memory : Memory) :
      Unstarted (create chart options memory)
  | resumed {chart : Chart} {options : Options} {memory : Memory} {b : Bucket} {m : Machine}
      (resumed : resume chart options memory b = .ok m) : Unstarted m

theorem Unstarted.effects (unstarted : Unstarted m) : m.effects = [] := by
  cases unstarted with
  | created chart options memory => rfl
  | @resumed chart options memory b m resumed =>
    obtain ⟨h,context,_,ready⟩ := resume_ok resumed
    have kept := (setUp_frames (R := fun m m' => m'.standing = m.standing) chart _).of_ok ready
    exact effects_of_standing kept

/-- Every point of a run is orderly, and chart and options stay as they are. -/
theorem run_orderly {m₀ : Machine} (unstarted : Unstarted m₀) (run : Run m₀.start m) :
    m.setting = m₀.setting ∧ m.Orderly := by
  induction run with
  | refl => exact ⟨rfl, unstarted.effects⟩
  | next _ move ih =>
    obtain ⟨same,orderly⟩ := move_orderly ih.2 move
    exact ⟨same.trans ih.1, orderly⟩

end Machine

end Statechart

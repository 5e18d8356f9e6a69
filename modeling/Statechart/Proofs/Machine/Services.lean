import Statechart.Proofs.Machine.Parts

/- How the services that a machine has noted come and go.

   A service is noted when it is prepared. It is dropped, and an effect has it cancelled, when its
   state is left; without an effect it is dropped only when an external event says that it is done,
   or when it did not start. Both go by the invoke id, which a later service may bear as well. -/
namespace Statechart

namespace Machine

/-- Every service noted before is noted still, or is to be cancelled. -/
def Accounts (m m' : Machine) : Prop :=
  ∀ i ∈ m.context.invocations,
    i ∈ m'.context.invocations ∨ .cancelInvoke i.invokeId ∈ m'.effects

/-- No service is noted, and those that are dropped are to be cancelled. -/
structure Retains (m m' : Machine) : Prop where
  effects : ∀ e ∈ m.effects, e ∈ m'.effects
  kept : m.Accounts m'
  old : ∀ i ∈ m'.context.invocations, i ∈ m.context.invocations

variable {m m' m'' : Machine}

theorem Accounts.trans (first : m.Accounts m') (second : m'.Retains m'') : m.Accounts m'' := by
  intro i noted
  rcases first i noted with noted | cancelled
  · exact second.kept i noted
  · exact Or.inr (second.effects _ cancelled)

theorem accounts_of_noted (noted : ∀ i ∈ m.context.invocations, i ∈ m'.context.invocations) :
    m.Accounts m' := fun i before => Or.inl (noted i before)

theorem Retains.of_same (effects : m'.effects = m.effects)
    (services : m'.context.invocations = m.context.invocations) : m.Retains m' where
  effects := fun _ within => effects ▸ within
  kept := accounts_of_noted fun _ noted => services ▸ noted
  old := fun _ noted => services ▸ noted

theorem Retains.refl (m : Machine) : m.Retains m := .of_same rfl rfl

theorem Retains.trans (first : m.Retains m') (second : m'.Retains m'') : m.Retains m'' where
  effects := fun e within => second.effects e (first.effects e within)
  kept := first.kept.trans second
  old := fun i noted => first.old i (second.old i noted)

theorem services_of_frame (framed : m'.frame = m.frame) :
    m'.context.invocations = m.context.invocations := by
  have services : m'.frame.context.invocations = m.frame.context.invocations :=
    congrArg (fun m => m.context.invocations) framed
  exact services

theorem Drifts.retains (drifts : m.Drifts m') : m.Retains m' := by
  have services := services_of_frame drifts.frame
  obtain ⟨more,effects⟩ := drifts.effects
  refine ⟨fun e within => ?_, fun i noted => Or.inl (services ▸ noted), fun i noted => services ▸ noted⟩
  rw [effects]
  exact List.mem_append_left more within

theorem retains_left (m : Machine) (s : StateIndex) : m.Retains (MachineM.left m s) where
  effects := fun e within => List.mem_append_left _ within
  kept := by
    intro i noted
    by_cases own : i.state = s
    · refine Or.inr (List.mem_append_right _ (List.mem_map.mpr ⟨i, ?_, rfl⟩))
      exact List.mem_filter.mpr ⟨noted, by simpa using own⟩
    · exact Or.inl (List.mem_filter.mpr ⟨noted, by simpa using own⟩)
  old := fun i noted => (List.mem_filter.mp noted).1

end Machine

namespace MachineM

open Machine

variable {α β : Type} {P : Interrupt → Prop}

/-- The part notes no service, and has those cancelled that it drops. -/
abbrev Retaining (P : Interrupt → Prop) (x : MachineM α) : Prop := Keeps Machine.Retains P x

instance : Lasting Machine.Retains := ⟨.refl, .trans⟩

theorem Frames.retaining {x : MachineM α} (h : Frames P x) : Retaining P x := h.imp Drifts.retains

theorem exitStates_retaining (enabled : List TransitionIndex) :
    Retaining onlyCrash (exitStates enabled) := by
  intro m
  refine keepsAt_bind (Keeps.get m) ?_
  intro _ _ got
  cases got
  refine keepsAt_bind ?_ (fun _ n _ =>
    Keeps.forM (fun s _ => exitState_keeps Drifts.retains retains_left s) n)
  exact Retains.of_same rfl rfl

theorem enterStates_retaining (enabled : List TransitionIndex) :
    Retaining onlyCrash (enterStates enabled) :=
  enterStates_keeps Drifts.retains (fun _ _ => .of_same rfl rfl) (fun _ _ => .of_same rfl rfl) enabled

theorem microstep_retaining (enabled : List TransitionIndex) :
    Retaining onlyCrash (microstep enabled) := by
  unfold microstep
  refine .bind (exitStates_retaining enabled) fun _ => ?_
  exact .bind (performTransitions_frames enabled).retaining fun _ => enterStates_retaining enabled

theorem complete_retaining : Retaining onlyCrash complete := by
  unfold complete
  refine .bind .get fun m => .bind (.forM fun s _ => ?_) fun _ => ?_
  · refine .bind (executeBlock_frames _).retaining fun _ => ?_
    exact .bind (.update fun m => m.retains_left s) fun _ => (trace_frames _).retaining
  · exact .bind (.update fun m => .of_same rfl rfl) fun _ => .pure _

theorem Retaining.anyhow {x : MachineM α} (h : Retaining P x) : Retaining (fun _ => True) x :=
  h.mono fun _ _ => trivial

theorem enterInitial_retaining (c : Chart) : Retaining (fun _ => True) (enterInitial c) := by
  refine .bind (Frames.retaining (P := refused) initializeData_frames).anyhow fun _ => ?_
  split
  · exact fun m => ⟨.refl m, trivial⟩
  · refine .bind (enterStates_retaining _).anyhow fun _ => ?_
    exact .bind (.update fun m => .of_same rfl rfl) fun _ => .pure _

theorem respond_retaining (enabled : List TransitionIndex) :
    Retaining onlyCrash (respond enabled) := by
  unfold respond
  split
  · refine .bind (.update fun m => .of_same rfl rfl) fun _ => ?_
    exact .bind (microstep_retaining enabled) fun _ => .pure _
  · exact .pure _

/-- The event says that services of the invoke id are done. -/
def Dismisses (e : Event) (i : Invocation) : Prop := e.name.doneInvokeId? = some i.invokeId

instance (e : Event) (i : Invocation) : Decidable (Dismisses e i) :=
  inferInstanceAs (Decidable (_ = _))

/-- Of the services noted before, those that are not dismissed are noted still or are to be
    cancelled. -/
def Dismissing (e : Event) (m m' : Machine) : Prop :=
  ∀ i ∈ m.context.invocations, ¬ Dismisses e i →
    i ∈ m'.context.invocations ∨ .cancelInvoke i.invokeId ∈ m'.effects

theorem announce_eq (e : Event) :
    announce e = (do bindEvent e; passToServices e) >>= fun _ =>
      match e.name.doneInvokeId? with
      | some id => forget id
      | none => pure () := by
  cases done : e.name.doneInvokeId? with
  | none => simp only [announce, done, bind_assoc]
  | some id => simp only [announce, done, bind_assoc]

theorem announce_leads (e : Event) (m : Machine) :
    Leads (announce e) m
      (fun _ m' => m'.context.invocations = m.context.invocations.filter (fun i => !Dismisses e i))
      (fun _ m' => m.Retains m') := by
  have passing : Frames refused (do bindEvent e; passToServices e) :=
    Keeps.bind (bindEvent_frames e) fun _ => (passToServices_frames e).refused
  rw [announce_eq]
  refine Leads.bind ((passing m).leads.mono (fun _ _ _ drifts => drifts)
    fun _ _ stopped => stopped.1.retains) fun _ n _ drifts => ?_
  have same := services_of_frame drifts.frame
  cases done : e.name.doneInvokeId? with
  | none =>
    change n.context.invocations = _
    rw [same, List.filter_eq_self.mpr]
    intro i _
    simp [Dismisses, done]
  | some id =>
    change n.context.invocations.filter _ = _
    rw [same]
    refine List.filter_congr fun i _ => ?_
    simp [Dismisses, done, eq_comm]

theorem process_leads (e : Event) (m : Machine) :
    Leads (process e) m
      (fun _ m' => Dismissing e m m' ∧
        ∀ i ∈ m'.context.invocations, i ∈ m.context.invocations ∧ ¬ Dismisses e i)
      (fun _ m' => Dismissing e m m') := by
  have announced : Leads (announce e) { m with steps := 0 }
      (fun _ n => ∀ i, i ∈ n.context.invocations ↔ i ∈ m.context.invocations ∧ ¬ Dismisses e i)
      (fun _ n => Dismissing e m n) := by
    refine (announce_leads e _).mono (fun _ n _ left i => ?_) ?_
    · rw [left]
      simp
    · exact fun _ n retains i noted _ => retains.kept i noted
  have received : Leads (receive e) m
      (fun _ n => ∀ i, i ∈ n.context.invocations ↔ i ∈ m.context.invocations ∧ ¬ Dismisses e i)
      (fun _ n => Dismissing e m n) := by
    refine Leads.of_eq (receive_eq e m) (Leads.bind announced fun _ n _ noted => ?_)
    have selecting : Frames onlyCrash (selectTransitions (some e.name)) :=
      selectTransitions_frames _
    refine (selecting n).leads.mono (fun _ l run _ i => ?_) ?_
    · rw [services_of_frame (selecting.eq_of_ok run)]
      exact noted i
    · exact fun _ l stopped i before stays =>
        stopped.1.retains.kept i ((noted i).mpr ⟨before, stays⟩)
  rw [process_eq]
  refine Leads.bind received fun enabled n _ noted => ?_
  refine (respond_retaining enabled n).leads.mono (fun _ m' _ retains => ⟨?_, ?_⟩) ?_
  · exact fun i before stays => retains.kept i ((noted i).mpr ⟨before, stays⟩)
  · exact fun i after => (noted i).mp (retains.old i after)
  · exact fun _ m' stopped i before stays => stopped.1.kept i ((noted i).mpr ⟨before, stays⟩)

def Notes (m m' : Machine) : Prop :=
  ∀ i ∈ m.context.invocations, i ∈ m'.context.invocations

theorem Notes.trans {m m' m'' : Machine} (first : Notes m m') (second : Notes m' m'') :
    Notes m m'' := fun i noted => second i (first i noted)

instance : Lasting Notes := ⟨fun _ _ noted => noted, .trans⟩

theorem Notes.of_frame {m m' : Machine} (framed : m'.frame = m.frame) : Notes m m' :=
  fun _ noted => services_of_frame framed ▸ noted

theorem prepareInvoke_notes (s : StateIndex) (node : Nat) (i : InvokeNode) :
    Keeps Notes onlyFailure (prepareInvoke s node i) := by
  have framed : ∀ {γ : Type} {x : MachineM γ}, Frames onlyFailure x → Keeps Notes onlyFailure x :=
    fun h => h.imp fun drifts => .of_frame drifts.frame
  rw [prepareInvoke_eq]
  refine Keeps.bind (fun m => .of_frame rfl) fun m => ?_
  refine Keeps.bind (framed (invokeIdOf_frames _ i)) fun invokeId => ?_
  refine Keeps.bind (framed (invokeValues_frames i invokeId)) fun values => ?_
  refine Keeps.bind (framed freshId_frames) fun uniqueId => ?_
  exact fun m i noted => List.mem_append_left _ noted

theorem goOn_leads (pending : List (StateIndex × Nat)) (m : Machine) :
    Leads (goOn pending) m (fun _ m' => Notes m m') (fun _ m' => Notes m m') := by
  cases pending with
  | nil =>
    refine (goOn_nil m).mono (fun _ m' _ framed => ?_) (fun _ _ absurd => absurd.elim)
    have noted : Notes m { m' with accepted := m.accepted } := .of_frame framed.1
    exact noted
  | cons head rest =>
    obtain ⟨s,node⟩ := head
    unfold Leads
    rw [goOn_run]
    cases (m.chart.state s).invokes[node]? with
    | none => exact .of_frame rfl
    | some i =>
      have kept := prepareInvoke_notes s node i m
      unfold KeepsAt at kept
      simp only
      cases prepared : prepareInvoke s node i m with
      | ok data m' =>
        rw [prepared] at kept
        exact kept
      | error stop m' =>
        rw [prepared] at kept
        cases stop with
        | failure f => exact kept.1.trans (.of_frame rfl)
        | fault f => exact kept.1
        | crash => exact kept.1

theorem suspend_retaining : Retaining (fun _ => True) suspend :=
  suspend_keeps Drifts.retains fun _ _ => .of_same rfl rfl

theorem act_leads (found : Found) (m : Machine) :
    Leads (act found) m (fun _ m' => m.Accounts m') (fun _ m' => m.Accounts m') := by
  cases found with
  | completion =>
    exact (complete_retaining m).leads.mono (fun _ _ _ retains => retains.kept)
      fun _ _ stopped => stopped.1.kept
  | destruction =>
    exact fun i noted => Or.inr (List.mem_map.mpr ⟨i, noted, rfl⟩)
  | stability => exact accounts_of_noted fun _ noted => noted
  | transitions event enabled =>
    have taking : Retaining onlyCrash (do
        microstep enabled
        return Control.effects .macrostep) :=
      .bind (microstep_retaining enabled) fun _ => .pure _
    change Leads (pass enabled) m _ _
    unfold Leads
    rw [pass_run]
    by_cases beyond : m.options.maxMicrosteps < m.steps + 1
    · rw [if_pos beyond]
      exact (Retains.refl m).kept
    · rw [if_neg beyond]
      by_cases empty : enabled.isEmpty = true
      · rw [if_pos empty]
        exact (Retains.refl m).kept
      · rw [if_neg empty]
        exact (taking { m with steps := m.steps + 1 }).leads.mono (fun _ _ _ retains => retains.kept)
          fun _ _ stopped => stopped.1.kept

end MachineM

namespace Machine

variable {m : Machine}

theorem proceed_stays {part : MachineM Control} {Q : Machine → Prop}
    (leads : MachineM.Leads part m (fun _ m' => Q m') (fun _ m' => Q m'))
    (drifts : ∀ {n n' : Machine}, n.Drifts n' → Q n → Q n')
    (anywhere : ∀ (n : Machine) (control : Control), Q n → Q { n with control }) :
    Q (m.proceed part) := by
  refine proceed_leads leads (fun control n _ here => anywhere n control here) ?_ ?_
    (fun n here => anywhere n _ here)
  · exact fun f n here => anywhere _ _ (drifts (n.drifts_reach _) here)
  · exact fun f n here => anywhere _ _ (drifts (n.drifts_reach _) here)

theorem proceed_accounts {part : MachineM Control}
    (leads : MachineM.Leads part m (fun _ m' => m.Accounts m') (fun _ m' => m.Accounts m')) :
    m.Accounts (m.proceed part) :=
  proceed_stays leads
    (fun drifts accounts => accounts.trans drifts.retains) fun _ _ accounts => accounts

theorem afterEffects_accounts (next : AfterEffects) (m : Machine) :
    MachineM.Leads (MachineM.afterEffects next) m (fun _ m' => m.Accounts m')
      (fun _ m' => m.Accounts m') := by
  cases next with
  | macrostep => exact (Retains.refl m).kept
  | exit status => exact (m.drifts_reach _).retains.kept

theorem step_accounts (m : Machine) : m.Accounts m.step := by
  unfold step
  split
  · refine proceed_accounts ?_
    by_cases entered : m.context.initialized = true
    · unfold MachineM.Leads
      rw [MachineM.start_again entered]
      by_cases done : m.context.done = true
      · rw [if_pos done]
        exact ((m.drifts_reach _).trans (drifts_reach _ _)).retains.kept
      · rw [if_neg done]
        exact (m.drifts_reach _).retains.kept
    · have outside : m.context.initialized = false := by simpa using entered
      have begun := (m.drifts_reach .started).retains
      refine .of_eq (MachineM.start_first outside) ((MachineM.enterInitial_retaining _ _).leads.mono
        (fun _ _ _ retains => (begun.trans retains).kept) ?_)
      exact fun _ _ stopped => (begun.trans stopped.1).kept
  · refine proceed_accounts ?_
    rw [MachineM.macrostep_eq]
    refine .bind ((MachineM.look_same m).leads.mono (fun _ _ _ framed => framed) ?_) ?_
    · exact fun _ _ stopped => accounts_of_noted (MachineM.Notes.of_frame stopped.1)
    · intro found n _ framed
      have noted := MachineM.Notes.of_frame framed
      refine (MachineM.act_leads found n).mono (fun _ _ _ accounts i before => ?_) ?_
      · exact accounts i (noted i before)
      · exact fun _ _ accounts i before => accounts i (noted i before)
  · refine proceed_accounts ((MachineM.goOn_leads _ m).mono ?_ ?_)
    · exact fun _ _ _ noted => accounts_of_noted noted
    · exact fun _ _ noted => accounts_of_noted noted
  · split
    · exact proceed_accounts (afterEffects_accounts _ m)
    · exact (Retains.refl m).kept
  · exact (Retains.refl m).kept

theorem effectsDone_accounts (m : Machine) (failures : List Failure) :
    m.Accounts (m.effectsDone failures) := by
  unfold effectsDone
  split
  · rename_i next _
    have raised := MachineM.Notes.of_frame (foldl_raiseFailure_frame failures { m with effects := [] })
    have accounts := proceed_accounts (afterEffects_accounts next
      (failures.foldl raiseFailure { m with effects := [] }))
    exact fun i noted => accounts i (raised i noted)
  · exact (Retains.refl m).kept

theorem startDone_services {data : InvokeData} {pending : List (StateIndex × Nat)}
    (asked : m.control = .starts data pending) (failure : Option Failure) :
    (m.startDone failure).context.invocations =
      if failure.isSome then m.context.invocations.filter (·.invokeId ≠ data.invokeId)
      else m.context.invocations := by
  rw [startDone_eq asked]
  cases failure with
  | none => rfl
  | some f => rfl

theorem take_accounts (waiting : m.control = .waiting) (input : Input)
    (silent : ∀ e, input ≠ .event e) : m.Accounts (m.take input) := by
  rw [take_waiting waiting]
  refine proceed_accounts ?_
  cases input with
  | destroy => exact fun i noted => Or.inr (List.mem_map.mpr ⟨i, noted, rfl⟩)
  | suspend =>
    exact (MachineM.suspend_retaining m).leads.mono (fun _ _ _ retains => retains.kept)
      fun _ _ stopped => stopped.1.kept
  | closed => exact (m.drifts_reach _).retains.kept
  | event e => exact absurd rfl (silent e)

theorem take_event_dismissing (waiting : m.control = .waiting) (e : Event) :
    MachineM.Dismissing e m (m.take (.event e)) := by
  rw [take_waiting waiting]
  refine proceed_stays (Q := MachineM.Dismissing e m) ((MachineM.process_leads e m).mono
    (fun _ _ _ left => left.1) fun _ _ left => left) ?_ fun _ _ left => left
  intro n n' drifts left i noted stays
  rcases left i noted stays with noted | cancelled
  · exact drifts.retains.kept i noted
  · exact Or.inr (drifts.retains.effects _ cancelled)

/-- After an event that was taken in to the end, no service that it dismisses is noted. -/
theorem take_event_drops (waiting : m.control = .waiting) (e : Event)
    (whole : (m.take (.event e)).control = .effects .macrostep) {i : Invocation}
    (dismissed : MachineM.Dismisses e i) : i ∉ (m.take (.event e)).context.invocations := by
  rw [take_waiting waiting] at whole ⊢
  have leads := MachineM.process_leads e m
  revert whole
  refine proceed_leads (T := fun n => n.control = .effects .macrostep →
    i ∉ n.context.invocations) leads (fun control n _ left _ noted => ?_) ?_ ?_ ?_
  · exact (left.2 i noted).2 dismissed
  · exact fun f n _ absurd => by cases absurd
  · exact fun f n _ absurd => by cases absurd
  · exact fun n _ absurd => by cases absurd

end Machine

namespace MachineM

/-- The event comes from the service itself, not just from one of its invoke id. -/
def ComesFrom (e : Event) (i : Invocation) : Prop :=
  e.invokeId = some i.invokeId ∧ e.uniqueId = some i.uniqueId

instance (e : Event) (i : Invocation) : Decidable (ComesFrom e i) :=
  inferInstanceAs (Decidable (_ ∧ _))

/-- As `passToServices`, with services told apart by their unique ids. -/
def passToSender (e : Event) : MachineM Unit := do
  let m ← get
  m.context.invocations.forM fun i => do
    if ComesFrom e i then
      match (m.chart.state i.state).invokes[i.node]? with
      | some node => executeBlock node.finalize
      | none => throw .crash
    else if i.autoforward then update (·.emit (.forward i.invokeId e))

def forgetSender (e : Event) : MachineM Unit :=
  update fun m => { m with context := { m.context with
    invocations := m.context.invocations.filter fun i =>
      ¬ (Dismisses e i ∧ e.uniqueId = some i.uniqueId) } }

/-- As `process`, with services told apart by their unique ids. -/
def processApart (e : Event) : MachineM Control := do
  update fun m => { m with steps := 0 }
  bindEvent e
  passToSender e
  forgetSender e
  respond (← selectTransitions (some e.name))

/-- As `afterStart` for a service that did not start, with services told apart by their unique
    ids. -/
def afterFailureApart (data : InvokeData) (pending : List (StateIndex × Nat)) (f : Failure) :
    MachineM Control := do
  update fun m => { m with context := { m.context with
    invocations := m.context.invocations.filter fun i =>
      ¬ (i.invokeId = data.invokeId ∧ i.uniqueId = data.uniqueId) } }
  update (·.raiseFailure f)
  return .invoking pending

/-- Services that the event finds by its ids are those that it comes from. -/
def ToldApart (e : Event) (m : Machine) : Prop :=
  ∀ i ∈ m.context.invocations, e.invokeId = some i.invokeId ∨ Dismisses e i →
    e.uniqueId = some i.uniqueId

instance (e : Event) (m : Machine) : Decidable (ToldApart e m) :=
  inferInstanceAs (Decidable (∀ i ∈ m.context.invocations, _ → _))

theorem bind_congr_at {α β : Type} {x y : MachineM α} {f g : α → MachineM β} {m : Machine}
    (first : x m = y m) (rest : ∀ a n, x m = .ok a n → f a n = g a n) :
    (x >>= f) m = (y >>= g) m := by
  simp only [bind, EStateM.bind, ← first]
  cases run : x m with
  | ok a n => exact rest a n run
  | error i n => rfl

theorem forM_congr {β : Type} {l : List β} {f g : β → MachineM Unit} (same : ∀ b ∈ l, f b = g b) :
    l.forM f = l.forM g := by
  induction l with
  | nil => rfl
  | cons b rest ih =>
    change (f b >>= fun _ => rest.forM f) = g b >>= fun _ => rest.forM g
    rw [same b List.mem_cons_self, ih fun d within => same d (List.mem_cons_of_mem _ within)]

theorem passToSender_eq {e : Event} {m : Machine} (apart : ToldApart e m) :
    passToServices e m = passToSender e m := by
  rw [passToServices, passToSender, get_bind, get_bind]
  refine congrFun (forM_congr fun i noted => ?_) m
  have own : e.invokeId = some i.invokeId ↔ ComesFrom e i :=
    ⟨fun here => ⟨here, apart i noted (Or.inl here)⟩, fun sender => sender.1⟩
  cases (m.chart.state i.state).invokes[i.node]? with
  | none => simp only [own]
  | some node => simp only [own]

theorem forgetSender_eq {e : Event} {m : Machine} (apart : ToldApart e m) :
    (match e.name.doneInvokeId? with
      | some id => forget id
      | none => pure ()) m = forgetSender e m := by
  have same : m.context.invocations.filter
        (fun i => decide ¬ (Dismisses e i ∧ e.uniqueId = some i.uniqueId)) =
      m.context.invocations.filter (fun i => !Dismisses e i) := by
    refine List.filter_congr fun i noted => ?_
    by_cases dismissed : Dismisses e i
    · simp [dismissed, apart i noted (Or.inr dismissed)]
    · simp [dismissed]
  have run : forgetSender e m = .ok () { m with context := { m.context with
      invocations := m.context.invocations.filter (fun i => !Dismisses e i) } } := by
    rw [← same]
    rfl
  rw [run]
  cases done : e.name.doneInvokeId? with
  | none =>
    have all : m.context.invocations.filter (fun i => !Dismisses e i) = m.context.invocations :=
      List.filter_eq_self.mpr fun i _ => by simp [Dismisses, done]
    rw [all]
    rfl
  | some id =>
    have those : m.context.invocations.filter (fun i => !Dismisses e i) =
        m.context.invocations.filter (·.invokeId ≠ id) :=
      List.filter_congr fun i _ => by simp [Dismisses, done, eq_comm]
    rw [those]
    rfl

theorem process_run (e : Event) : process e = (do
    update fun m => { m with steps := 0 }
    bindEvent e
    passToServices e
    (match e.name.doneInvokeId? with
      | some id => forget id
      | none => pure () : MachineM Unit)
    respond (← selectTransitions (some e.name))) := by
  cases done : e.name.doneInvokeId? with
  | none => simp only [process_eq, receive, done, bind_assoc, pure_bind]
  | some id => simp only [process_eq, receive, done, bind_assoc]

/-- Services that an event finds by its ids are rightly found if it comes from them. -/
theorem process_eq_apart {e : Event} {m : Machine} (apart : ToldApart e m) :
    process e m = processApart e m := by
  rw [process_run]
  refine bind_congr_at rfl fun _ n begun => ?_
  cases begun
  refine bind_congr_at rfl fun _ n bound => ?_
  have kept := Machine.services_of_frame (Frames.eq_of_ok (P := refused) (bindEvent_frames e) bound)
  have apart' : ToldApart e n := fun i noted => apart i (kept ▸ noted)
  refine bind_congr_at (passToSender_eq apart') fun _ l passed => ?_
  have kept' := Machine.services_of_frame ((passToServices_frames e).eq_of_ok passed)
  have apart'' : ToldApart e l := fun i noted => apart' i (kept' ▸ noted)
  exact bind_congr_at (forgetSender_eq apart'') fun _ _ _ => rfl

end MachineM

namespace Machine

variable {m : Machine}

theorem take_event_apart (waiting : m.control = .waiting) {e : Event}
    (apart : MachineM.ToldApart e m) :
    m.take (.event e) = m.proceed (MachineM.processApart e) := by
  rw [take_waiting waiting]
  exact proceed_of_eq (MachineM.process_eq_apart apart)

theorem startDone_apart {data : InvokeData} {pending : List (StateIndex × Nat)}
    (asked : m.control = .starts data pending) (f : Failure)
    (apart : ∀ i ∈ m.context.invocations, i.invokeId = data.invokeId → i.uniqueId = data.uniqueId) :
    m.startDone (some f) = m.proceed (MachineM.afterFailureApart data pending f) := by
  have same : m.context.invocations.filter (·.invokeId ≠ data.invokeId) =
      m.context.invocations.filter fun i =>
        decide ¬ (i.invokeId = data.invokeId ∧ i.uniqueId = data.uniqueId) := by
    refine List.filter_congr fun i noted => ?_
    by_cases here : i.invokeId = data.invokeId
    · simp [here, apart i noted here]
    · simp [here]
  have run : MachineM.afterStart data pending (some f) m =
      MachineM.afterFailureApart data pending f m := by
    change (MachineM.forget data.invokeId >>= _) m = _
    refine MachineM.bind_congr_at ?_ fun _ _ _ => rfl
    change EStateM.Result.ok () { m with context := { m.context with
      invocations := m.context.invocations.filter (·.invokeId ≠ data.invokeId) } } = _
    rw [same]
    rfl
  rw [startDone_eq asked]
  exact proceed_of_eq run

end Machine

end Statechart

import Statechart.Proofs.Router.Integrity
import Statechart.Proofs.Machine.Services

/- How the services that a session has noted come and go while tasks take turns.

   A session drops a service without having it cancelled only in its own turn: when it takes in an
   event that says the service is done, or when a service did not start. Both find the service by
   its invoke id. They find the right one if those with the same invoke id also have the unique id
   that the event or the start was made for. -/
namespace Statechart

/-- The machine once its reports have been passed on. -/
def Machine.unburdened (m : Machine) : Machine := { m with reports := [] }

namespace Router

variable {Q : Machine → Prop} {r r' : Router} {id : SessionId}

def Active (r : Router) (id : SessionId) (m : Machine) : Prop :=
  ∃ s, r.session? id = some s ∧ s.phase = .active m

/-- The session has put its machine away. -/
def LaidDown (r : Router) (id : SessionId) : Prop :=
  ∃ s, r.session? id = some s ∧ (s.phase = .asleep ∨ s.phase = .ended)

/-- The session has a machine with the property, or has put it away. -/
def Stands (Q : Machine → Prop) (r : Router) (id : SessionId) : Prop :=
  (∃ m, r.Active id m ∧ Q m) ∨ r.LaidDown id

/-- Every session that was there is there still, with the phase it had if it had begun. -/
def Unmoved (r r' : Router) (id : SessionId) : Prop :=
  ∀ s, r.session? id = some s → ∃ s', r'.session? id = some s' ∧ s.Rests s'

theorem Unmoved.phase (unmoved : r.Unmoved r' id) {s : Session} (found : r.session? id = some s)
    (begun : s.phase ≠ .fresh) : ∃ s', r'.session? id = some s' ∧ s'.phase = s.phase := by
  obtain ⟨s',found',rests⟩ := unmoved s found
  exact ⟨s', found', rests.phase.resolve_right begun⟩

theorem Active.unmoved {m : Machine} (active : r.Active id m) (unmoved : r.Unmoved r' id) :
    r'.Active id m := by
  obtain ⟨s,found,phase⟩ := active
  obtain ⟨s',found',same⟩ := unmoved.phase found (by rw [phase]; nofun)
  exact ⟨s', found', same.trans phase⟩

theorem LaidDown.unmoved (down : r.LaidDown id) (unmoved : r.Unmoved r' id) : r'.LaidDown id := by
  obtain ⟨s,found,phase⟩ := down
  have begun : s.phase ≠ .fresh := by
    rcases phase with asleep | ended
    · rw [asleep]; nofun
    · rw [ended]; nofun
  obtain ⟨s',found',same⟩ := unmoved.phase found begun
  exact ⟨s', found', same ▸ phase⟩

theorem Stands.unmoved (stands : r.Stands Q id) (unmoved : r.Unmoved r' id) : r'.Stands Q id := by
  rcases stands with ⟨m,active,holds⟩ | down
  · exact Or.inl ⟨m, active.unmoved unmoved, holds⟩
  · exact Or.inr (down.unmoved unmoved)

theorem Stands.finish (stands : r.Stands Q id) (ending : SessionId) (o : Outcome) :
    (RouterM.finish ending o r).2.Stands Q id := by
  by_cases going : ∃ t, r.session? ending = some t ∧ t.outcome = none
  · obtain ⟨t,found,going⟩ := going
    by_cases own : id = ending
    · subst own
      obtain ⟨s',found',_,_,ended⟩ := RouterM.finish_own found going o
      exact Or.inr ⟨s', found', Or.inr ended⟩
    · exact stands.unmoved fun s there => RouterM.finish_others found going o own there
  · rw [RouterM.finish_idle going]
    exact stands

/-- Only a move of its own machine changes how a session stands. -/
theorem Does.stands {d : Deed} (does : Does r d r') (still : d ≠ .move id)
    (stands : r.Stands Q id) : r'.Stands Q id := by
  cases does with
  | aside rested => exact stands.unmoved (rested.sessions id)
  | move moved =>
    exact stands.unmoved fun s found => moved.others id s (fun own => still (own ▸ rfl)) found
  | begin parent data =>
    rcases RouterM.beginInvoke_spec r parent data with ⟨_,same⟩ | ⟨_,q,kept,_,rested⟩
    · rw [same]
      exact stands
    · exact stands.unmoved fun s found => rested.sessions id s (kept id s found)
  | cancel parent invoke =>
    cases entry : r.childOf parent invoke with
    | none =>
      rw [RouterM.cancelInvoke_none entry]
      exact stands
    | some child =>
      rcases RouterM.cancelInvoke_spec entry with ⟨_,rested⟩ | ends
      · exact stands.unmoved (rested.sessions id)
      · obtain ⟨c,c',q,_,_,rested,there,_,going,run⟩ := ends
        rw [run]
        exact (stands.unmoved (rested.sessions id)).finish _ _
  | giveUp parent invoke found failed => exact stands
  | finish outcome found going => exact stands.finish _ outcome

theorem Reaches.stands {moving : SessionId → Prop} (reaches : Reaches moving r r')
    (still : ¬ moving id) (stands : r.Stands Q id) : r'.Stands Q id := by
  obtain ⟨history,happens,moves,rfl⟩ := reaches
  induction history generalizing r with
  | nil => exact stands
  | cons step rest ih =>
    have here : step.1 ≠ .move id := fun own => still (moves step List.mem_cons_self id own)
    exact ih (happens.1.stands here stands) happens.2
      fun other within => moves other (List.mem_cons_of_mem _ within)

theorem Reaches.session {moving : SessionId → Prop} (reaches : Reaches moving r r') {s : Session}
    (found : r.session? id = some s) : ∃ s', r'.session? id = some s' := by
  obtain ⟨history,happens,moves,rfl⟩ := reaches
  induction history generalizing r s with
  | nil => exact ⟨s, found⟩
  | cons step rest ih =>
    obtain ⟨s',found',_⟩ := happens.1.keeps found
    exact ih found' happens.2 fun other within => moves other (List.mem_cons_of_mem _ within)

end Router

namespace RouterM

open Router

variable {r : Router} {s : Session}

theorem keep_active {id : SessionId} (found : r.session? id = some s) (m : Machine) :
    (keep id m r).2.Active id m.unburdened := by
  have told : Restful (m.reports.reverse.forM (passOn id m.chart)) :=
    .forM fun report _ => passOn_rests id m.chart report
  let hold : Session → Session := fun s => { s with phase := .active m.unburdened }
  have kept : Router.Active (Router.alter { r with memory := m.memory } id hold) id m.unburdened := by
    refine ⟨hold s, ?_, rfl⟩
    rw [session?_alter (f := hold) _ (fun _ here => here), if_pos rfl]
    exact congrArg (Option.map hold) found
  exact kept.unmoved ((told _).sessions id)

/-- Why the router did not get the service to start that a session asks for. -/
def refusal? (r : Router) (s : Session) (data : InvokeData) : Option RouterError :=
  match s.awaited with
  | none =>
    match ((beginInvoke s.id data).run r).1 with
    | .error e => some e
    | .ok _ => none
  | some child =>
    match (r.session? child).bind startResult? with
    | some (.error e) => some e
    | _ => none

/-- Tells a machine how the start of its service turned out. -/
def answer (id : SessionId) (m : Machine) (failure : Option Failure) : RouterM Bool := do
  updateSession id fun s => { s with awaited := none }
  keep id ({ m with memory := (← get).memory }.startDone failure)
  return true

theorem answer_active {id : SessionId} (found : r.session? id = some s) (m : Machine)
    (failure : Option Failure) : (answer id m failure r).2.Active id
      ({ m with memory := r.memory }.startDone failure).unburdened := by
  have freed : r.Rested (r.alter id fun s => { s with awaited := none }) :=
    .alter (fun _ here => here) fun _ _ => .of_gist rfl
  obtain ⟨s',found',_⟩ := freed.sessions id s found
  exact keep_active found' ({ m with memory := r.memory }.startDone failure)

theorem serveInvoke_first (first : s.awaited = none) (m : Machine) (data : InvokeData) :
    serveInvoke s m data = (beginInvoke s.id data).run >>= fun result =>
      match result with
      | .error e => answer s.id m (some e.toFailure)
      | .ok child => do
        updateSession s.id fun s => { s with awaited := some child }
        return false := by
  unfold serveInvoke
  rw [first]
  rfl

theorem serveInvoke_again {child : SessionId} (awaited : s.awaited = some child) (m : Machine)
    (data : InvokeData) (r : Router) :
    serveInvoke s m data r =
      match (r.session? child).bind startResult? with
      | none => (false, r)
      | some (.ok _) => answer s.id m none r
      | some (.error e) =>
        answer s.id m (some e.toFailure) (endInvoke s.id data.invokeId (.error e) r).2 := by
  unfold serveInvoke
  rw [awaited]
  simp only [get_bind]
  cases (r.session? child).bind startResult? with
  | none => rfl
  | some result =>
    cases result with
    | ok status => rfl
    | error e => rfl

theorem serveInvoke_refused (found : r.session? s.id = some s) (m : Machine) {data : InvokeData}
    {e : RouterError} (refused : refusal? r s data = some e) :
    ∃ memory, (serveInvoke s m data r).2.Active s.id
      ({ m with memory }.startDone (some e.toFailure)).unburdened := by
  unfold refusal? at refused
  cases awaited : s.awaited with
  | none =>
    have begun : Reaches (fun _ => False) r ((beginInvoke s.id data).run r).2 :=
      (Does.begin r s.id data).reaches fun _ other => by cases other
    obtain ⟨s',found'⟩ := begun.session found
    refine ⟨((beginInvoke s.id data).run r).2.memory, ?_⟩
    rw [serveInvoke_first awaited, bind_run]
    cases result : ((beginInvoke s.id data).run r).1 with
    | ok child =>
      simp only [awaited, result] at refused
      cases refused
    | error f =>
      simp only [awaited, result, Option.some.injEq] at refused
      exact refused ▸ answer_active found' m (some f.toFailure)
  | some child =>
    refine ⟨r.memory, ?_⟩
    rw [serveInvoke_again awaited]
    cases result : (r.session? child).bind startResult? with
    | none =>
      simp only [awaited, result] at refused
      cases refused
    | some outcome =>
      cases outcome with
      | ok status =>
        simp only [awaited, result] at refused
        cases refused
      | error f =>
        simp only [awaited, result, Option.some.injEq] at refused
        exact refused ▸ answer_active (r := (endInvoke s.id data.invokeId (.error f) r).2) found m
          (some f.toFailure)

theorem serveInvoke_served {Q : Machine → Prop} {m : Machine} {data : InvokeData}
    (found : r.session? s.id = some s) (served : refusal? r s data = none) (before : r.Stands Q s.id)
    (afterwards : ∀ memory, Q ({ m with memory }.startDone none).unburdened) :
    (serveInvoke s m data r).2.Stands Q s.id := by
  unfold refusal? at served
  cases awaited : s.awaited with
  | none =>
    have begun : (((beginInvoke s.id data).run r).2).Stands Q s.id :=
      (Does.begin r s.id data).stands nofun before
    rw [serveInvoke_first awaited, bind_run]
    cases result : ((beginInvoke s.id data).run r).1 with
    | error e =>
      simp only [awaited, result] at served
      cases served
    | ok child =>
      have noted : Restful (do
          updateSession s.id fun s => { s with awaited := some child }
          return false) := .bind (updateSession_rests fun _ _ => .of_gist rfl) fun _ => .pure _
      exact begun.unmoved ((noted _).sessions s.id)
  | some child =>
    rw [serveInvoke_again awaited]
    cases result : (r.session? child).bind startResult? with
    | none => exact before
    | some outcome =>
      cases outcome with
      | ok status => exact Or.inl ⟨_, answer_active found m none, afterwards _⟩
      | error e =>
        simp only [awaited, result] at served
        cases served

theorem performs_active (found : r.session? s.id = some s) (m : Machine) : ∃ memory failures,
    ((do
      let failures ← performAll s m.effects
      keep s.id ({ m with memory := (← get).memory }.effectsDone failures)
      return true : RouterM Bool) r).2.Active s.id
        ({ m with memory }.effectsDone failures).unburdened := by
  have made : Reaches (fun _ => False) r (performAll s m.effects r).2 :=
    performAll_made s m.effects r
  obtain ⟨s',found'⟩ := made.session found
  exact ⟨(performAll s m.effects r).2.memory, (performAll s m.effects r).1, keep_active found' _⟩

theorem adopt_session {taken : Session} (found : r.session? s.id = some s)
    (named : taken.id = s.id) : (adopt s taken r).2.session? s.id = some taken := by
  have took : ∀ q : Router, q.sessions = r.sessions →
      (q.alter s.id fun _ => taken).session? s.id = some taken := by
    intro q same
    have there : q.session? s.id = some s := by
      rw [session?, same]
      exact found
    rw [session?_alter (f := fun _ => taken) _ (fun _ _ => named), if_pos rfl, there]
    rfl
  have shown : ∀ q : Router, q.session? s.id = some taken →
      ((if taken.status ≠ s.status then setStatus s.id taken.status
        else pure () : RouterM Unit) q).2.session? s.id = some taken := by
    intro q there
    split
    · rw [setStatus_session, if_pos rfl, there]
      rfl
    · exact there
  by_cases fewer : taken.mailbox.length < s.mailbox.length
  · unfold adopt
    rw [if_pos fewer]
    exact shown _ (took (r.countOut s.id) rfl)
  · unfold adopt
    rw [if_neg fewer]
    exact shown _ (took r rfl)

theorem takes_active (found : r.session? s.id = some s) (m : Machine) {input : Input}
    {taken : Session} (next : input? s = some (input, taken)) : ((do
      adopt s taken
      keep s.id (m.take input)
      return true : RouterM Bool) r).2.Active s.id (m.take input).unburdened :=
  keep_active (adopt_session found (input?_rests next).1.id) (m.take input)

theorem leave_stands {Q : Machine → Prop} (found : r.session? s.id = some s) (m : Machine)
    (before : r.Stands Q s.id) (status : ExitStatus) : (leave s m status r).2.Stands Q s.id := by
  cases status with
  | completed => exact before.finish s.id _
  | destroyed => exact before.finish s.id _
  | queueClosed => exact before.finish s.id _
  | suspended =>
    obtain ⟨storage,_,run⟩ := leave_suspended s m r
    let q : Router := { r with storage }
    let lull : Session → Session := fun s =>
      { s with phase := .asleep, drowsy := false, idleDeadline := none }
    have here : q.session? s.id = some s := found
    rw [run]
    refine Or.inr ⟨{ lull s with status := .suspended }, ?_, Or.inl rfl⟩
    rw [setStatus_session, if_pos rfl, session?_alter (f := lull) q (fun _ here => here), if_pos rfl,
      here]
    rfl

/-- The service is noted, or is to be cancelled. -/
def Minded (i : Invocation) (m : Machine) : Prop :=
  i ∈ m.context.invocations ∨ .cancelInvoke i.invokeId ∈ m.effects

/-- A session that goes on drops a service unminded only if an event that it takes in dismisses it
    or if a service was refused. -/
theorem goOn_minds {m n : Machine} (found : r.session? s.id = some s) (phase : s.phase = .active n)
    (same : m = current r s n) {i : Invocation} (noted : i ∈ n.context.invocations) :
    (goOn s m r).2.Stands (Minded i) s.id ∨
    (m.control = .waiting ∧ ∃ e taken, input? s = some (.event e, taken) ∧ MachineM.Dismisses e i) ∨
    ∃ data pending e, m.control = .starts data pending ∧ refusal? r s data = some e ∧
      i.invokeId = data.invokeId := by
  have within : i ∈ m.context.invocations := same ▸ noted
  have before : r.Stands (Minded i) s.id := Or.inl ⟨n, ⟨s, found, phase⟩, Or.inl noted⟩
  have turn := goOn_turn s m
  generalize goOn s m = x at turn ⊢
  cases turn with
  | steps => exact Or.inl (Or.inl ⟨_, keep_active found m.step, m.step_accounts i within⟩)
  | performs =>
    obtain ⟨memory,failures,active⟩ := performs_active found m
    exact Or.inl (Or.inl ⟨_, active, Machine.effectsDone_accounts _ failures i within⟩)
  | serves data pending control =>
    cases refused : refusal? r s data with
    | none =>
      refine Or.inl (serveInvoke_served found refused before fun memory => Or.inl ?_)
      change i ∈ ({ m with memory }.startDone none).context.invocations
      rw [Machine.startDone_services (m := { m with memory }) control]
      exact within
    | some e =>
      by_cases own : i.invokeId = data.invokeId
      · exact Or.inr (Or.inr ⟨data, pending, e, control, refused, own⟩)
      · obtain ⟨memory,active⟩ := serveInvoke_refused found m refused
        refine Or.inl (Or.inl ⟨_, active, Or.inl ?_⟩)
        change i ∈ ({ m with memory }.startDone (some e.toFailure)).context.invocations
        rw [Machine.startDone_services (m := { m with memory }) control]
        exact List.mem_filter.mpr ⟨within, by simpa using own⟩
  | takes input taken control next =>
    have active := takes_active found m next
    by_cases told : ∃ e, input = .event e
    · obtain ⟨e,rfl⟩ := told
      by_cases dismissed : MachineM.Dismisses e i
      · exact Or.inr (Or.inl ⟨control, e, taken, next, dismissed⟩)
      · exact Or.inl (Or.inl ⟨_, active, Machine.take_event_dismissing control e i within dismissed⟩)
    · refine Or.inl (Or.inl ⟨_, active, Machine.take_accounts control input ?_ i within⟩)
      exact fun e event => told ⟨e, event⟩
  | leaves status => exact Or.inl (leave_stands found m before status)
  | aborts => exact Or.inl (before.finish s.id _)
  | breaks =>
    have shut : Restful (do
        updateSession s.id fun s => { s with isOpen := false }
        wake (.aftermath s.id)) :=
      .bind (updateSession_rests fun _ _ => .of_gist rfl) fun _ => wake_rests _
    exact Or.inl (before.unmoved ((shut r).sessions s.id))
  | rests => exact Or.inl before

end RouterM

namespace Router

variable {r r' : Router} {id : SessionId} {m : Machine} {e : Event} {data : InvokeData}
  {pending : List (StateIndex × Nat)} {f : Failure} {i : Invocation}

/-- The event that a session takes in when its turn comes, with the machine that takes it. -/
def received? (r : Router) (id : SessionId) : Option (Machine × Event) :=
  match r.session? id with
  | none => none
  | some s =>
    match s.phase, RouterM.input? s with
    | .active n, some (.event e, _) =>
      match n.control with
      | .waiting => some (RouterM.current r s n, e)
      | _ => none
    | _, _ => none

/-- The service that a session learns did not start when its turn comes, with the machine that
    asked for it. -/
def denied? (r : Router) (id : SessionId) :
    Option (Machine × InvokeData × List (StateIndex × Nat) × Failure) :=
  match r.session? id with
  | none => none
  | some s =>
    match s.phase with
    | .active n =>
      match n.control with
      | .starts data pending =>
        (RouterM.refusal? r s data).map fun e => (RouterM.current r s n, data, pending, e.toFailure)
      | _ => none
    | _ => none

theorem turn_active {s : Session} (found : r.session? id = some s) {n : Machine}
    (phase : s.phase = .active n) :
    RouterM.turn (.session id) r = RouterM.goOn s (RouterM.current r s n) r := by
  unfold RouterM.turn
  simp only [RouterM.get_bind, found, phase]

theorem received?_parts (receives : r.received? id = some (m, e)) :
    ∃ s n taken, r.session? id = some s ∧ s.phase = .active n ∧ n.control = .waiting ∧
      RouterM.input? s = some (.event e, taken) ∧ m = RouterM.current r s n := by
  unfold received? at receives
  cases found : r.session? id with
  | none =>
    simp only [found] at receives
    cases receives
  | some s =>
    simp only [found] at receives
    split at receives
    · rename_i n e' taken phase next
      split at receives
      · rename_i waiting
        cases receives
        exact ⟨s, n, taken, rfl, phase, waiting, next, rfl⟩
      · cases receives
    · cases receives

theorem received?_turn (receives : r.received? id = some (m, e)) :
    m.control = .waiting ∧
      (RouterM.turn (.session id) r).2.Active id (m.take (.event e)).unburdened := by
  obtain ⟨s,n,taken,found,phase,waiting,next,rfl⟩ := received?_parts receives
  have named := session?_id found
  have here : r.session? s.id = some s := by rw [named, found]
  have control : (RouterM.current r s n).control = .waiting := waiting
  rw [turn_active found phase, ← named, RouterM.goOn_input control next]
  exact ⟨control, RouterM.takes_active here _ next⟩

theorem denied?_turn (denied : r.denied? id = some (m, data, pending, f)) :
    m.control = .starts data pending ∧ ∃ memory, (RouterM.turn (.session id) r).2.Active id
      ({ m with memory }.startDone (some f)).unburdened := by
  unfold denied? at denied
  cases found : r.session? id with
  | none =>
    simp only [found] at denied
    cases denied
  | some s =>
    simp only [found] at denied
    split at denied
    · rename_i n phase
      split at denied
      · rename_i data' pending' asked
        obtain ⟨e,refused,same⟩ := Option.map_eq_some_iff.mp denied
        cases same
        have named := session?_id found
        have here : r.session? s.id = some s := by rw [named, found]
        have asked' : (RouterM.current r s n).control = .starts data pending := asked
        rw [turn_active found phase, ← named, RouterM.goOn_starts asked']
        exact ⟨asked', RouterM.serveInvoke_refused here _ refused⟩
      · cases denied
    · cases denied

def Noted (r : Router) (id : SessionId) (i : Invocation) : Prop :=
  ∃ m, r.Active id m ∧ i ∈ m.context.invocations

theorem Active.unique {m' : Machine} (active : r.Active id m) (active' : r.Active id m') :
    m = m' := by
  obtain ⟨s,found,phase⟩ := active
  obtain ⟨s',found',phase'⟩ := active'
  cases found.symm.trans found'
  exact Phase.active.inj (phase.symm.trans phase')

theorem Active.noted_iff (active : r.Active id m) :
    r.Noted id i ↔ i ∈ m.context.invocations := by
  constructor
  · rintro ⟨m',active',noted⟩
    exact active.unique active' ▸ noted
  · exact fun noted => ⟨m, active, noted⟩

/-- Where a session finds services by invoke id in its turn, it finds those of one unique id. -/
structure TellsApart (r : Router) (id : SessionId) : Prop where
  event : ∀ m e, r.received? id = some (m, e) → MachineM.ToldApart e m
  start : ∀ m data pending f, r.denied? id = some (m, data, pending, f) →
    ∀ i ∈ m.context.invocations, i.invokeId = data.invokeId → i.uniqueId = data.uniqueId

/-- What goes on at a time: the turn of a task, or work from outside in which no machine moves. -/
def Takes (r : Router) (work : Option Task) (r' : Router) : Prop :=
  match work with
  | some task => r' = (RouterM.turn task r).2
  | none => Reaches (fun _ => False) r r'

/-- How a service that was noted ceases to be. -/
inductive LetGo (r : Router) (work : Option Task) (r' : Router) (id : SessionId) (i : Invocation) :
    Prop where
  | cancelled {m : Machine} (active : r'.Active id m)
      (effect : .cancelInvoke i.invokeId ∈ m.effects)
  | laidDown (down : r'.LaidDown id)
  /-- An event is taken in that says the service is done. -/
  | dismissed {m : Machine} {e : Event} (own : work = some (.session id))
      (receives : r.received? id = some (m, e)) (done : MachineM.Dismisses e i)
      (whose : r.TellsApart id → e.uniqueId = some i.uniqueId)
  /-- A service is said not to have started. -/
  | denied {m : Machine} {data : InvokeData} {pending : List (StateIndex × Nat)} {f : Failure}
      (own : work = some (.session id)) (denied : r.denied? id = some (m, data, pending, f))
      (same : i.invokeId = data.invokeId) (whose : r.TellsApart id → i.uniqueId = data.uniqueId)

theorem Stands.noted {work : Option Task} (stands : r'.Stands (RouterM.Minded i) id) :
    r'.Noted id i ∨ r.LetGo work r' id i := by
  rcases stands with ⟨m,active,noted | effect⟩ | down
  · exact Or.inl ⟨m, active, noted⟩
  · exact Or.inr (.cancelled active effect)
  · exact Or.inr (.laidDown down)

theorem Takes.noted {work : Option Task} (takes : r.Takes work r') (noted : r.Noted id i) :
    r'.Noted id i ∨ r.LetGo work r' id i := by
  obtain ⟨n,⟨s,found,phase⟩,within⟩ := noted
  have before : r.Stands (RouterM.Minded i) id := Or.inl ⟨n, ⟨s, found, phase⟩, Or.inl within⟩
  by_cases own : work = some (.session id)
  · subst own
    cases takes
    have named := session?_id found
    have here : r.session? s.id = some s := by rw [named, found]
    have run := turn_active found phase
    rcases RouterM.goOn_minds here phase rfl within with stands | ⟨waiting,e,taken,next,done⟩ | denied
    · rw [run]
      exact Stands.noted (named ▸ stands)
    · have receives : r.received? id = some (RouterM.current r s n, e) := by
        unfold received?
        simp only [found, phase, next, show n.control = .waiting from waiting]
      refine Or.inr (.dismissed rfl receives done fun apart => ?_)
      exact apart.event _ e receives i within (Or.inr done)
    · obtain ⟨data,pending,e,asked,refused,same⟩ := denied
      have denied : r.denied? id = some (RouterM.current r s n, data, pending, e.toFailure) := by
        unfold denied?
        simp only [found, phase, show n.control = .starts data pending from asked, refused,
          Option.map_some]
      refine Or.inr (.denied rfl denied same fun apart => ?_)
      exact apart.start _ data pending _ denied i within same
  · cases work with
    | none => exact Stands.noted (Reaches.stands takes (fun moves => moves) before)
    | some task =>
      cases takes
      refine Stands.noted ((RouterM.turn_made task r).stands (fun moves => ?_) before)
      cases task with
      | session other =>
        cases show id = other from moves
        exact own rfl
      | _ => exact moves

theorem noted_throughout {run : List (Option Task × Router)} (happens : Throughout Takes r run)
    (noted : r.Noted id i) : (after r run).Noted id i ∨
      ∃ before work r' later, run = before ++ (work, r') :: later ∧
        (after r before).LetGo work r' id i := by
  induction run generalizing r with
  | nil => exact Or.inl noted
  | cons step rest ih =>
    obtain ⟨work,r'⟩ := step
    rcases happens.1.noted noted with noted | gone
    · rcases ih happens.2 noted with noted | ⟨before,work',r'',later,rfl,gone⟩
      · exact Or.inl noted
      · exact Or.inr ⟨(work, r') :: before, work', r'', later, rfl, gone⟩
    · exact Or.inr ⟨[], work, r', rest, rfl, gone⟩

/-- Whatever tasks take turns and whatever comes from outside, a service that was noted is noted
    still, or was cancelled, or its session put its machine away, or a done event or a start that
    failed was taken for its own. With services told apart it was its own, and the session went on
    as if it had compared unique ids: also in what it finalizes. Without, what was taken in goes by
    the invoke id: all services that bear it are dropped. -/
theorem reinvocations_apart {run : List (Option Task × Router)} (happens : Throughout Takes r run) :
    (∀ id i, r.Noted id i → (after r run).Noted id i ∨
      ∃ before work r' later, run = before ++ (work, r') :: later ∧
        (after r before).LetGo work r' id i) ∧
    ∀ before id r' later, run = before ++ (some (.session id), r') :: later →
      (∀ m e, (after r before).received? id = some (m, e) →
        (MachineM.ToldApart e m → r'.Active id (m.proceed (MachineM.processApart e)).unburdened) ∧
        ((m.take (.event e)).control = .effects .macrostep →
          ∀ i, MachineM.Dismisses e i → ¬ r'.Noted id i)) ∧
      ∀ m data pending f, (after r before).denied? id = some (m, data, pending, f) →
        ((∀ i ∈ m.context.invocations, i.invokeId = data.invokeId → i.uniqueId = data.uniqueId) →
          ∃ memory, r'.Active id
            ({ m with memory }.proceed (MachineM.afterFailureApart data pending f)).unburdened) ∧
        ∀ i : Invocation, i.invokeId = data.invokeId → ¬ r'.Noted id i := by
  refine ⟨fun id i noted => noted_throughout happens noted, ?_⟩
  rintro before id r' later rfl
  obtain ⟨-,rfl,-⟩ := throughout_append.mp happens
  constructor
  · intro m e receives
    obtain ⟨waiting,active⟩ := received?_turn receives
    refine ⟨fun apart => ?_, fun whole i dismissed noted => ?_⟩
    · rw [← Machine.take_event_apart waiting apart]
      exact active
    · exact Machine.take_event_drops waiting e whole dismissed (active.noted_iff.mp noted)
  · intro m data pending f denied
    obtain ⟨asked,memory,active⟩ := denied?_turn denied
    refine ⟨fun apart => ⟨memory, ?_⟩, fun i same noted => ?_⟩
    · rw [← Machine.startDone_apart (m := { m with memory }) asked f apart]
      exact active
    · have kept : i ∈ ({ m with memory }.startDone (some f)).context.invocations :=
        active.noted_iff.mp noted
      rw [Machine.startDone_services (m := { m with memory }) asked] at kept
      simpa [same] using (List.mem_filter.mp kept).2

end Router

namespace Reentry

open Source Router

def told : Router := ((do tell first "finish"; RouterM.settle 5) invoked).2

def isThrough (m : Machine) : Bool :=
  match m.control with
  | .effects .macrostep => true
  | _ => false

theorem control_of_isThrough {m : Machine} (through : isThrough m = true) :
    m.control = .effects .macrostep := by
  unfold isThrough at through
  split at through
  · assumption
  · cases through

/-- The end of a service that was invoked once is its own: the client goes on as if it had compared
    unique ids, and drops it. -/
theorem own_end_retires :
    ∃ m e, told.received? parent = some (m, e) ∧ MachineM.ToldApart e m ∧
      (RouterM.turn (.session parent) told).2.Active parent
        (m.proceed (MachineM.processApart e)).unburdened ∧
      ∀ i : Invocation, i.invokeId = "kid" →
        ¬ (RouterM.turn (.session parent) told).2.Noted parent i := by
  have checked : (told.received? parent).any (fun p => MachineM.ToldApart p.2 p.1 &&
      p.2.name.doneInvokeId? == some "kid" && isThrough (p.1.take (.event p.2))) = true := by
    decide +kernel
  obtain ⟨⟨m,e⟩,receives,checks⟩ := (Option.any_eq_true _ _).mp checked
  simp only [Bool.and_eq_true, decide_eq_true_eq, beq_iff_eq] at checks
  obtain ⟨⟨apart,done⟩,whole⟩ := checks
  have happens : Throughout Takes told
      [(some (.session parent), (RouterM.turn (.session parent) told).2)] := ⟨rfl, trivial⟩
  obtain ⟨same,drops⟩ := ((reinvocations_apart happens).2 [] parent _ [] rfl).1 m e receives
  exact ⟨m, e, receives, apart, same apart, fun i named =>
    drops (control_of_isThrough whole) i (done.trans (congrArg some named.symm))⟩

/-- A service that asks its client to begin again as it completes. -/
def chatty : ChartDef where
  name := none
  initial := none
  data := []
  extra := none
  states :=
    [.mk (.simple "work" .state [⟨some ["finish"], none, some ["end"], .external,
       [.send ⟨some "again", none, some "#_parent", none, none, none, none, none, none, [], none⟩]⟩]) [],
     .mk (.simple "end" .final []) []]

/-- A state that invokes the service under a fixed id and logs what it hears from it. -/
def listener : ChartDef where
  name := none
  initial := none
  data := []
  extra := none
  states :=
    [.mk { StateInfo.simple "busy" .state [⟨some ["again"], none, some ["busy"], .external, []⟩] with
        invokes := [⟨none, some "service", none, some "kid", none, [], none, false,
          [.log none (some "_event.name")]⟩] } []]

def machine? (r : Router) (id : SessionId) : Option Machine :=
  (r.session? id).bind fun s =>
    match s.phase with
    | .active m => some m
    | _ => none

/-- The first service has completed, and the state has been left and entered again. -/
def stale : Router := ((do
  discard (RouterM.startSession (← RouterM.createSession (Chart.compiled [] listener) none none)).run
  RouterM.settle 100
  tell first "finish"
  RouterM.settle 18)
  { settings := {}, charts := [("service", Chart.compiled [] chatty)] }).2

/-- The end of the first service, which has the unique id 1, retires the second, which has the
    unique id 3, and is logged as heard from it. The second service works on. -/
theorem late_end_retires_other :
    (stale.received? parent).map (fun p => (p.2.name.text, p.2.uniqueId,
      p.1.context.invocations.map fun i => (i.invokeId, i.uniqueId))) =
        some ("done.invoke.kid", some (idText 1), [("kid", idText 3)]) ∧
    (machine? (RouterM.turn (.session parent) stale).2 parent).map (fun m =>
      (m.context.invocations.length, m.effects.length)) = some (0, 0) ∧
    (RouterM.turn (.session parent) stale).2.log.map (·.2) =
      ["INFO log: done.invoke.kid", "INFO log: again"] ∧
    (RouterM.turn (.session parent) stale).2.childOf parent "kid" = some second ∧
    ((RouterM.turn (.session parent) stale).2.session? second).map (·.status) = some .waiting := by
  refine ⟨?_, ?_, ?_, ?_, ?_⟩ <;> decide +kernel

end Reentry

end Statechart

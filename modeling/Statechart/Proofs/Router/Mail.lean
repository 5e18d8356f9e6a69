import Statechart.Proofs.Machine.Mail
import Statechart.Proofs.Router.Services
import Statechart.Proofs.Router.Timers

/- The letters that are underway among sessions.

   The router moves letters about and makes none of its own but reports: of failures and of services
   that are done. So a letter that is underway after the turn of a task was underway before, is a
   report, or is with the machine that has just moved. -/
namespace Statechart

/-- The letter tells of a failure or of a service that is done. -/
def Letter.IsReport (l : Letter) : Prop :=
  (∃ kind, l.name = .error kind) ∨ ∃ id, l.name = .doneInvoke id

/-- The places where a session may have a letter. -/
inductive Session.Holds (s : Session) : Letter → Prop where
  | woken (e : Event) (own : s.wakeEvent = some e) : Holds s e.letter
  | mailbox (e : Event) (own : e ∈ s.mailbox) : Holds s e.letter
  | timer (t : Timer) (own : t ∈ s.scheduler.timers) : Holds s t.event.letter
  | machine (m : Machine) (own : s.phase = .active m) (l : Letter) (within : l ∈ m.letters) :
      Holds s l

/-- A letter is underway. -/
def Router.Holds (r : Router) (l : Letter) : Prop := ∃ s ∈ r.sessions, s.Holds l

/-- The session has none but the letters allowed, unless they are with a machine that moves. -/
structure Session.Bears (allowed : Letter → Prop) (moving : SessionId → Prop) (s : Session) :
    Prop where
  woken : ∀ e, s.wakeEvent = some e → allowed e.letter
  mailbox : ∀ e ∈ s.mailbox, allowed e.letter
  timers : ∀ t ∈ s.scheduler.timers, allowed t.event.letter
  machine : ¬ moving s.id → ∀ m, s.phase = .active m → ∀ l ∈ m.letters, allowed l

section Bears

variable {allowed : Letter → Prop} {moving : SessionId → Prop} {s s' : Session}

theorem Session.bears_of_holds (holds : ∀ l, s.Holds l → allowed l) : s.Bears allowed moving where
  woken e own := holds _ (.woken e own)
  mailbox e own := holds _ (.mailbox e own)
  timers t own := holds _ (.timer t own)
  machine _ m own l within := holds l (.machine m own l within)

theorem Session.Bears.holds (bears : s.Bears allowed moving) {l : Letter} (held : s.Holds l) :
    allowed l ∨ (moving s.id ∧ ∃ m, s.phase = .active m ∧ l ∈ m.letters) := by
  cases held with
  | woken e own => exact Or.inl (bears.woken e own)
  | mailbox e own => exact Or.inl (bears.mailbox e own)
  | timer t own => exact Or.inl (bears.timers t own)
  | machine m own l within =>
    by_cases moves : moving s.id
    · exact Or.inr ⟨moves, m, own, within⟩
    · exact Or.inl (bears.machine moves m own l within)

/-- What of a session decides which letters it has. -/
def Session.luggage (s : Session) : SessionId × Option Event × List Event × List Timer × Phase :=
  (s.id, s.wakeEvent, s.mailbox, s.scheduler.timers, s.phase)

theorem Session.Bears.of_luggage (bears : s.Bears allowed moving) (same : s'.luggage = s.luggage) :
    s'.Bears allowed moving := by
  simp only [luggage, Prod.mk.injEq] at same
  obtain ⟨id,woken,mailbox,timers,phase⟩ := same
  exact ⟨woken ▸ bears.woken, mailbox ▸ bears.mailbox, timers ▸ bears.timers,
    phase ▸ id ▸ bears.machine⟩

end Bears

/-- All sessions have none but the letters allowed, unless they are with a machine that moves. -/
def Router.Bears (allowed : Letter → Prop) (moving : SessionId → Prop) (r : Router) : Prop :=
  ∀ s ∈ r.sessions, s.Bears allowed moving

namespace RouterM

variable {α : Type} {allowed : Letter → Prop} {moving : SessionId → Prop}

/-- The work brings no letters that are not allowed. -/
abbrev Bearing (allowed : Letter → Prop) (moving : SessionId → Prop) (x : RouterM α) : Prop :=
  Leads (fun r r' => r.Bears allowed moving → r'.Bears allowed moving) x

instance : Indifferent (fun r r' : Router => r.Bears allowed moving → r'.Bears allowed moving) where
  refl _ bears := bears
  trans first second bears := second (first bears)
  alike _ sessions bears s within := bears s (sessions ▸ within)

theorem updateSession_bearing {id : SessionId} {f : Session → Session}
    (each : ∀ s : Session, s.Bears allowed moving → s.id = id → (f s).Bears allowed moving) :
    Bearing allowed moving (updateSession id f) := by
  intro r bears s' within
  obtain ⟨s,there,rfl⟩ := List.mem_map.mp within
  split
  · rename_i own
    exact each s (bears s there) (by simpa using own)
  · exact bears s there

theorem aside_bearing {id : SessionId} {f : Session → Session}
    (same : ∀ s, (f s).luggage = s.luggage) : Bearing allowed moving (updateSession id f) :=
  updateSession_bearing fun s bears _ => bears.of_luggage (same s)

theorem setStatus_bearing (id : SessionId) (status : SessionStatus) :
    Bearing allowed moving (setStatus id status) :=
  setStatus_leads (aside_bearing fun _ => rfl)

theorem post_bearing {e : Event} (may : allowed e.letter) :
    Posting (fun r r' : Router => r.Bears allowed moving → r'.Bears allowed moving) e := by
  refine posting_of_mailbox fun id => updateSession_bearing fun s bears _ => ?_
  refine ⟨bears.woken, fun f own => ?_, bears.timers, bears.machine⟩
  rcases List.mem_append.mp own with before | last
  · exact bears.mailbox f before
  · cases List.mem_singleton.mp last
    exact may

theorem dispatch_bearing {o : OutgoingEvent} (source : SessionId) (cancelled : Bool)
    (may : allowed o.letter) : Bearing allowed moving (dispatch source o cancelled).run := by
  refine dispatch_leads (fun e name data => post_bearing ?_) source cancelled
  rwa [Event.letter, name, data]

theorem scheduleSend_bearing (s : Session) {o : OutgoingEvent} (may : allowed o.letter) :
    Bearing allowed moving (scheduleSend s o).run := by
  refine scheduleSend_leads s fun now => updateSession_bearing fun s bears _ => ?_
  refine ⟨bears.woken, bears.mailbox, fun t own => ?_, bears.machine⟩
  rcases List.mem_append.mp own with before | last
  · exact bears.timers t before
  · cases List.mem_singleton.mp last
    exact may

theorem cancelSend_bearing (id : SessionId) (sendId : SendId) :
    Bearing allowed moving (cancelSend id sendId) := by
  unfold cancelSend
  refine .look fun r bears => ?_
  cases found : r.session? id with
  | none => exact bears
  | some s =>
    have mine := bears s (List.mem_of_find?_eq_some found)
    refine updateSession_bearing (fun s' bears' _ => ?_) r bears
    refine ⟨bears'.woken, bears'.mailbox, fun t own => ?_, bears'.machine⟩
    obtain ⟨t',before,same⟩ := Scheduler.disposeEach_events own
    exact same ▸ mine.timers t' before

theorem closing_bears {r : Router} (bears : r.Bears allowed moving) (id : SessionId) (o : Outcome) :
    (closing id o r).Bears allowed moving := by
  have shut : Bearing allowed moving (updateSession id (closed o)) := by
    refine updateSession_bearing fun s bears _ => ?_
    refine ⟨bears.woken, bears.mailbox, fun t own => ?_, fun _ m active => by cases active⟩
    obtain ⟨t',before,same⟩ := Scheduler.disposeEach_events own
    exact same ▸ bears.timers t' before
  exact shut r bears

theorem close_bearing (id : SessionId) : Bearing allowed moving (close id) :=
  .bind (aside_bearing fun _ => rfl) fun _ => wake_leads _

theorem doom_bearing (id : SessionId) : Bearing allowed moving (doom id) :=
  .bind (aside_bearing fun _ => rfl) fun _ => wake_leads _

theorem createSession_bearing (chart : Chart) (parent : Option ParentLink)
    (arguments : Option Ref) : Bearing allowed moving (createSession chart parent arguments) := by
  intro r bears s within
  rcases List.mem_append.mp within with before | new
  · exact bears s before
  · cases List.mem_singleton.mp new
    refine ⟨fun e woken => ?_, fun e sent => ?_, fun t timed => ?_, fun _ m active => ?_⟩
    · cases woken
    · cases sent
    · cases timed
    · cases active

theorem startSession_bearing (id : SessionId) : Bearing allowed moving (startSession id).run := by
  refine startSession_leads (R := fun r r' => r.Bears allowed moving → r'.Bears allowed moving)
    fun r s m _ _ _ made bears => ?_
  have silent : m.start.letters = [] := by
    rw [made]
    rfl
  have begun : Bearing allowed moving
      (updateSession id fun s => { s with phase := .active m.start }) := by
    refine updateSession_bearing fun s bears _ => ?_
    refine ⟨bears.woken, bears.mailbox, bears.timers, fun _ m' active l within => ?_⟩
    cases active
    rw [silent] at within
    cases within
  exact setStatus_bearing id .starting _ (begun { r with memory := m.memory } bears)

theorem beginInvoke_bearing (parent : SessionId) (data : InvokeData) :
    Bearing allowed moving (beginInvoke parent data).run := by
  intro r bears
  rcases beginInvoke_run r parent data with ⟨_,same⟩ | ⟨chart,_,_,run⟩
  · rw [same]
    exact bears
  · rw [run]
    refine startSession_bearing _ (enrolled r parent data chart) ?_
    exact createSession_bearing chart _ _ { r with memory := _ } bears

theorem endInvoke_bearing (parent : SessionId) (invoke : InvokeId)
    (result : Except RouterError SessionStatus) :
    Bearing allowed moving (endInvoke parent invoke result) := by
  cases result with
  | ok status => exact .pure _
  | error e => exact fun _ bears => bears

section Reports

variable (own : ∀ l : Letter, l.IsReport → allowed l)
include own

theorem fire_bearing (id : SessionId) (index : Nat) : Bearing allowed moving (fire id index) := by
  unfold fire
  refine .look fun r bears => ?_
  cases found : r.session? id with
  | none => exact bears
  | some s =>
    have mine := bears s (List.mem_of_find?_eq_some found)
    have ran : Bearing allowed moving (updateSession id fun s =>
        { s with scheduler := (s.scheduler.expire r.clock index).1 }) := by
      refine updateSession_bearing fun s bears _ => ?_
      refine ⟨bears.woken, bears.mailbox, fun t own => ?_, bears.machine⟩
      obtain ⟨t',before,same⟩ := Scheduler.expire_events own
      exact same ▸ bears.timers t' before
    simp only
    cases fires : (s.scheduler.expire r.clock index).2 with
    | none => exact Leads.bind ran (fun _ => .pure _) r bears
    | some event =>
      obtain ⟨t,armed,-,-,same⟩ := Scheduler.expire_fires.mp fires
      have has := List.mem_of_getElem? armed
      refine Leads.bind ran (fun _ => ?_) r bears
      refine .bind (dispatch_bearing _ _ (same ▸ mine.timers t has)) fun result => ?_
      cases result with
      | ok _ => exact .pure _
      | error e =>
        exact deliverFailure_leads id _ fun _ => post_bearing (own _ (Or.inl ⟨_, rfl⟩))

theorem reportDone_bearing (link : ParentLink) (status : SessionStatus) (result : Value) :
    Bearing allowed moving (reportDone link status result) := by
  unfold reportDone
  refine .look fun r bears => ?_
  simp only
  split
  · exact deliver_leads link.session (post_bearing (own _ (Or.inr ⟨link.invokeId, rfl⟩))) _ bears
  · exact bears

theorem finish_bearing (id : SessionId) (o : Outcome) : Bearing allowed moving (finish id o) := by
  intro r bears
  by_cases ends : ∃ s, r.session? id = some s ∧ s.outcome = none
  · obtain ⟨s,found,going⟩ := ends
    have shut := closing_bears bears id o
    rw [finish_eq found going]
    refine setStatus_bearing id o.status _ ?_
    cases s.parent with
    | none => exact shut
    | some link => exact reportDone_bearing own link o.status o.result _ shut
  · rw [finish_idle ends]
    exact bears

theorem destroy_bearing (id : SessionId) : Bearing allowed moving (destroy id) := by
  unfold destroy
  refine .bind (doom_bearing id) fun _ => .bind (close_bearing id) fun _ => .bind .get fun r => ?_
  split
  · exact finish_bearing own id _
  · exact .pure _

theorem cancelInvoke_bearing (parent : SessionId) (invoke : InvokeId) :
    Bearing allowed moving (cancelInvoke parent invoke) := by
  unfold cancelInvoke
  refine .look fun r bears => ?_
  cases r.childOf parent invoke with
  | none => exact bears
  | some child =>
    by_cases registered : (r.registered? child).isSome = true
    · simp only [registered, if_true]
      exact destroy_bearing own child (r.without parent invoke) bears
    · simp only [registered]
      exact bears

end Reports

theorem passOn_bearing (id : SessionId) (chart : Chart) (report : Report) :
    Bearing allowed moving (passOn id chart report) :=
  passOn_leads id chart report (fun _ _ => aside_bearing fun _ => rfl)
    fun _ => aside_bearing fun _ => rfl

theorem keep_bearing {id : SessionId} (mine : moving id) (m : Machine) :
    Bearing allowed moving (keep id m) := by
  refine .bind (fun _ bears => bears) fun _ => ?_
  refine .bind (updateSession_bearing fun s bears here => ?_) fun _ => ?_
  · exact ⟨bears.woken, bears.mailbox, bears.timers, fun still => absurd (here ▸ mine) still⟩
  · exact .forM fun report _ => passOn_bearing id _ report

section Turns

variable (own : ∀ l : Letter, l.IsReport → allowed l)
include own

theorem perform_bearing (s : Session) {effect : Effect}
    (may : ∀ l, effect.letter? = some l → allowed l) :
    Bearing allowed moving (perform s effect).run := by
  cases effect with
  | send o =>
    rw [perform]
    split
    · exact .attempt (.lift .get) fun r => dispatch_bearing _ _ (may _ rfl)
    · refine .attempt (.lift .get) fun r => ?_
      split
      · exact .attempt (scheduleSend_bearing _ (may _ rfl)) fun _ => .done _
      · exact .throw _
  | cancel sendId => exact .attempt (.lift (cancelSend_bearing s.id sendId)) fun _ => .done _
  | cancelInvoke invoke => exact .lift (cancelInvoke_bearing own s.id invoke)
  | forward invoke e => exact forward_leads s.id invoke (post_bearing (may _ rfl))

theorem performAll_bearing (s : Session) {effects : List Effect}
    (may : ∀ l ∈ effects.filterMap Effect.letter?, allowed l) :
    Bearing allowed moving (performAll s effects) := by
  refine .filterMapM fun effect within => .bind (perform_bearing own s fun l carried => ?_)
    fun result => ?_
  · exact may l (List.mem_filterMap.mpr ⟨effect, within, carried⟩)
  · cases result with
    | ok _ => exact .pure _
    | error e => exact .pure _

omit own in
theorem serveInvoke_bearing {s : Session} (mine : moving s.id) (m : Machine) (data : InvokeData) :
    Bearing allowed moving (serveInvoke s m data) := by
  have answer : ∀ failure, Bearing allowed moving (answer s.id m failure) := fun failure =>
    .bind (aside_bearing fun _ => rfl) fun _ =>
      .bind .get fun r => .bind (keep_bearing mine _) fun _ => .pure _
  cases awaited : s.awaited with
  | none =>
    rw [serveInvoke_first awaited]
    refine .bind (beginInvoke_bearing s.id data) fun result => ?_
    cases result with
    | error e => exact answer _
    | ok child => exact .bind (aside_bearing fun _ => rfl) fun _ => .pure _
  | some child =>
    intro r bears
    rw [serveInvoke_again awaited]
    cases (r.session? child).bind startResult? with
    | none => exact bears
    | some result =>
      cases result with
      | ok status => exact answer none r bears
      | error e => exact answer _ _ (endInvoke_bearing s.id data.invokeId (.error e) r bears)

theorem leave_bearing {s : Session} (m : Machine) (status : ExitStatus) :
    Bearing allowed moving (leave s m status) := by
  cases status with
  | completed => exact finish_bearing own s.id _
  | destroyed => exact finish_bearing own s.id _
  | queueClosed => exact finish_bearing own s.id _
  | suspended =>
    refine suspended_leads (R := fun r r' => r.Bears allowed moving → r'.Bears allowed moving)
      (fun _ _ bears => bears) (updateSession_bearing fun s bears _ => ?_) (setStatus_bearing s.id _)
    exact ⟨bears.woken, bears.mailbox, bears.timers, fun _ m active => by cases active⟩

omit own in
theorem nextEvent?_bears {s taken : Session} {e : Event} (next : nextEvent? s = some (e, taken))
    (bears : s.Bears allowed moving) : allowed e.letter ∧ taken.Bears allowed moving := by
  rcases nextEvent?_eq_some next with ⟨woken,rfl⟩ | ⟨rest,_,sent,rfl⟩
  · exact ⟨bears.woken e woken, fun _ none => (by cases none), bears.mailbox, bears.timers,
      bears.machine⟩
  · refine ⟨bears.mailbox e (sent ▸ List.mem_cons_self), fun f woken => bears.woken f woken,
      fun f within => ?_, bears.timers, bears.machine⟩
    exact bears.mailbox f (sent ▸ List.mem_cons_of_mem e within)

omit own in
theorem input?_bears {s taken : Session} {input : Input} (next : input? s = some (input, taken))
    (bears : s.Bears allowed moving) : taken.Bears allowed moving := by
  rcases input?_eq_some next with ⟨e,_,found⟩ | ⟨_,rfl⟩
  · exact (nextEvent?_bears found bears).2
  · exact bears

omit own in
theorem adopt_bears {r : Router} {s taken : Session} (bears : r.Bears allowed moving)
    (held : taken.Bears allowed moving) : (adopt s taken r).2.Bears allowed moving := by
  have took : ∀ q : Router, q.sessions = r.sessions → q.Bears allowed moving →
      (q.alter s.id fun _ => taken).Bears allowed moving := fun q _ =>
    updateSession_bearing (f := fun _ => taken) (fun _ _ _ => held) q
  exact adopt_leads (R := fun r r' => r.Bears allowed moving → r'.Bears allowed moving)
    (fun _ bears => bears) took (fun _ => setStatus_bearing s.id _) bears

theorem goOn_bears {r : Router} {s : Session} (bears : r.Bears allowed moving) (mine : moving s.id)
    (found : r.session? s.id = some s) (m : Machine)
    (may : ∀ l ∈ m.effects.filterMap Effect.letter?, allowed l) :
    (goOn s m r).2.Bears allowed moving := by
  have turn := goOn_turn s m
  generalize goOn s m = x at turn ⊢
  cases turn with
  | steps => exact keep_bearing mine m.step r bears
  | performs =>
    refine Leads.bind (performAll_bearing own s may) (fun failures => ?_) r bears
    exact .bind .get fun r => .bind (keep_bearing mine _) fun _ => .pure _
  | serves data => exact serveInvoke_bearing mine m data r bears
  | takes input taken _ next =>
    have took := adopt_bears (s := s) bears
      (input?_bears next (bears s (List.mem_of_find?_eq_some found)))
    have going : Bearing allowed moving (do
        keep s.id (m.take input)
        return true) := .bind (keep_bearing mine _) fun _ => .pure _
    exact going _ took
  | leaves status => exact Leads.bind (leave_bearing own m status) (fun _ => .pure true) r bears
  | aborts => exact Leads.bind (finish_bearing own s.id _) (fun _ => .pure false) r bears
  | breaks =>
    have shut : Bearing allowed moving (updateSession s.id fun s => { s with isOpen := false }) :=
      aside_bearing fun _ => rfl
    exact Leads.bind shut (fun _ => .bind (wake_leads _) fun _ => .pure _) r bears
  | rests => exact bears

theorem rouse_bearing {s : Session} (mine : moving s.id) {e : Event} (may : allowed e.letter) :
    Bearing allowed moving (rouse s e) := by
  refine .bind (resume_leads fun _ _ _ _ bears => bears) fun result => ?_
  cases result with
  | ok m =>
    refine .bind (updateSession_bearing fun s' bears' here => ?_) fun _ => .pure _
    refine ⟨fun f woken => ?_, bears'.mailbox, bears'.timers, fun still => ?_⟩
    · cases woken
      exact may
    · exact absurd (here ▸ mine) still
  | error e => exact .bind (finish_bearing own s.id _) fun _ => .pure _

theorem awake_bears {r : Router} {s : Session} (bears : r.Bears allowed moving) (mine : moving s.id)
    (found : r.session? s.id = some s) : (awake s r).2.Bears allowed moving := by
  have held := bears s (List.mem_of_find?_eq_some found)
  have waking := awake_waking s
  generalize awake s = x at waking ⊢
  cases waking with
  | ends => exact Leads.bind (finish_bearing own s.id _) (fun _ => .pure _) r bears
  | wakes e taken _ next =>
    obtain ⟨may,mild⟩ := nextEvent?_bears next held
    exact rouse_bearing own mine may _ (adopt_bears (s := s) bears mild)
  | rests => exact bears

end Turns

theorem turn_holds {r : Router} {task : Task} {l : Letter} (holds : (turn task r).2.Holds l) :
    (r.Holds l ∨ l.IsReport) ∨
      ∃ s ∈ (turn task r).2.sessions, movesIn task s.id ∧
        ∃ m, s.phase = .active m ∧ l ∈ m.letters := by
  let allowed : Letter → Prop := fun l => r.Holds l ∨ l.IsReport
  have own : ∀ l : Letter, l.IsReport → allowed l := fun _ report => Or.inr report
  have bears : r.Bears allowed (movesIn task) := fun s within =>
    Session.bears_of_holds fun l held => Or.inl ⟨s, within, held⟩
  have kept : (turn task r).2.Bears allowed (movesIn task) := by
    cases task with
    | timer id index => exact Leads.bind (fire_bearing own id index) (fun _ => .pure _) r bears
    | aftermath id => exact Leads.bind (finish_bearing own id _) (fun _ => .pure _) r bears
    | session id =>
      have turned := turn_turned id r
      generalize (turn (.session id) r).2 = q at turned ⊢
      cases turned with
      | goes s n named found phase =>
        refine goOn_bears own bears named found _ fun l carried => Or.inl ?_
        exact ⟨s, List.mem_of_find?_eq_some found,
          .machine n phase l (List.mem_append_right _ carried)⟩
      | wakes s named found => exact awake_bears own bears named found
      | rests => exact bears
  obtain ⟨s,within,held⟩ := holds
  rcases (kept s within).holds held with known | ⟨moves,m,active,carried⟩
  · exact Or.inl known
  · exact Or.inr ⟨s, within, moves, m, active, carried⟩

end RouterM

namespace Router

variable {r q : Router} {work : Option Task} {l : Letter}

/-- Why a letter is underway that was not: it came from outside, is a report, or came out of the
    machine whose turn it was. -/
inductive Arises (work : Option Task) (q : Router) (l : Letter) : Prop where
  | outside (none : work = none)
  | report (told : l.IsReport)
  | machine {s : Session} {m : Machine} (turn : work = some (.session s.id))
      (within : s ∈ q.sessions) (active : s.phase = .active m) (carried : l ∈ m.letters)

/-- A letter has been underway without a break, since the beginning of a run or since it arose. -/
def Traced (r : Router) (run : List (Option Task × Router)) (l : Letter) : Prop :=
  (∀ first rest, run = first ++ rest → (after r first).Holds l) ∨
  ∃ first work q rest, run = first ++ (work, q) :: rest ∧ ¬ (after r first).Holds l ∧
    Arises work q l ∧ ∀ more later, rest = more ++ later → (after q more).Holds l

theorem Takes.arises (takes : r.Takes work q) (holds : q.Holds l) (new : ¬ r.Holds l) :
    Arises work q l := by
  cases work with
  | none => exact .outside rfl
  | some task =>
    cases takes
    rcases RouterM.turn_holds holds with (old | report) | ⟨s,within,moves,m,active,carried⟩
    · exact absurd old new
    · exact .report report
    · cases task with
      | session id =>
        cases show s.id = id from moves
        exact .machine rfl within active carried
      | _ => exact moves.elim

theorem traced {run : List (Option Task × Router)} (happens : Throughout Takes r run)
    (holds : (after r run).Holds l) : r.Traced run l := by
  induction run generalizing r with
  | nil =>
    refine Or.inl fun first rest split => ?_
    rw [(List.append_eq_nil_iff.mp split.symm).1]
    exact holds
  | cons step rest ih =>
    obtain ⟨work,q⟩ := step
    rcases ih happens.2 holds with always | ⟨first,work',q',later,rfl,new,arises,since⟩
    · have now : q.Holds l := always [] rest rfl
      by_cases old : r.Holds l
      · refine Or.inl fun first later split => ?_
        cases first with
        | nil => exact old
        | cons step first =>
          obtain ⟨rfl,same⟩ := List.cons.inj split
          exact always first later same
      · exact Or.inr ⟨[], work, q, rest, rfl, old, happens.1.arises now old, always⟩
    · exact Or.inr ⟨(work, q) :: first, work', q', later, rfl, new, arises, since⟩

end Router

end Statechart

import Statechart.Proofs.Router.Native
import Statechart.Proofs.Router.Services

/- What happens to the mail of a session.

   An event comes into a mailbox when `send` accepts it. It goes out when the session takes it: a
   machine that waits is handed the next event, and a session that is asleep fetches the next event
   from its mailbox to wake up with it. All else that a router does leaves mailboxes, and the counts
   that are kept of them, alone. -/
namespace Statechart

/-- The mail of a session stays the same, and so does its end. -/
structure Session.Silent (s s' : Session) : Prop where
  mailbox : s'.mailbox = s.mailbox
  wakeEvent : s'.wakeEvent = s.wakeEvent
  past : s.phase = .ended → s'.phase = .ended
  final : (s.outcome.isSome = true → s.phase = .ended) →
    s'.outcome.isSome = true → s'.phase = .ended

/-- What of a session decides whether it is silent. -/
def Session.mail (s : Session) : List Event × Option Event × Option Outcome × Phase :=
  (s.mailbox, s.wakeEvent, s.outcome, s.phase)

theorem Session.Silent.of_mail {s s' : Session} (same : s'.mail = s.mail) : s.Silent s' := by
  simp only [Session.mail, Prod.mk.injEq] at same
  obtain ⟨mailbox,wakeEvent,outcome,phase⟩ := same
  exact ⟨mailbox, wakeEvent, fun ended => phase ▸ ended, fun final => outcome ▸ phase ▸ final⟩

/-- A session with a machine, or one that sleeps, goes on with another machine or goes to sleep. -/
theorem Session.Silent.phase {s s' : Session} (mailbox : s'.mailbox = s.mailbox)
    (wakeEvent : s'.wakeEvent = s.wakeEvent) (outcome : s'.outcome = s.outcome)
    (going : s.phase ≠ .ended) : s.Silent s' where
  mailbox := mailbox
  wakeEvent := wakeEvent
  past ended := absurd ended going
  final final concluded := absurd (final (outcome ▸ concluded)) going

namespace Router

variable {r r' r'' : Router} {id : SessionId} {e : Event}

def mailbox (r : Router) (id : SessionId) : List Event :=
  match r.session? id with
  | some s => s.mailbox
  | none => []

/-- The event that has woken a session, until its machine is handed it. -/
def woken (r : Router) (id : SessionId) : List Event :=
  match r.session? id with
  | some s => s.wakeEvent.toList
  | none => []

def Over (r : Router) (id : SessionId) : Prop := ∃ s, r.session? id = some s ∧ s.phase = .ended

/-- The session has ended if it has an outcome. -/
def Final (r : Router) (id : SessionId) : Prop :=
  ∀ s, r.session? id = some s → s.outcome.isSome = true → s.phase = .ended

/-- No event comes or goes. -/
structure Quiet (r r' : Router) : Prop where
  mailboxes : ∀ id, r'.mailbox id = r.mailbox id
  woken : ∀ id, r'.woken id = r.woken id
  depths : ∀ id, r'.depth id = r.depth id
  past : ∀ id, r.Over id → r'.Over id
  final : ∀ id, r.Final id → r'.Final id

theorem mailbox_of_found {s : Session} (found : r.session? id = some s) :
    r.mailbox id = s.mailbox := by
  simp only [mailbox, found]

theorem woken_of_found {s : Session} (found : r.session? id = some s) :
    r.woken id = s.wakeEvent.toList := by
  simp only [Router.woken, found]

theorem not_over_of_found {s : Session} (found : r.session? id = some s)
    (going : s.phase ≠ .ended) : ¬ r.Over id := by
  rintro ⟨s',found',ended⟩
  cases found.symm.trans found'
  exact going ended

theorem Quiet.refl (r : Router) : r.Quiet r :=
  ⟨fun _ => rfl, fun _ => rfl, fun _ => rfl, fun _ past => past, fun _ final => final⟩

theorem Quiet.trans (first : r.Quiet r') (second : r'.Quiet r'') : r.Quiet r'' where
  mailboxes id := (second.mailboxes id).trans (first.mailboxes id)
  woken id := (second.woken id).trans (first.woken id)
  depths id := (second.depths id).trans (first.depths id)
  past id := second.past id ∘ first.past id
  final id := second.final id ∘ first.final id

theorem Quiet.of_sessions
    (kept : ∀ id s, r.session? id = some s → ∃ s', r'.session? id = some s' ∧ s.Silent s')
    (fresh : ∀ id s', r.session? id = none → r'.session? id = some s' →
      s'.mailbox = [] ∧ s'.wakeEvent = none ∧ s'.outcome = none)
    (depths : r'.depths = r.depths) : r.Quiet r' where
  mailboxes id := by
    cases found : r.session? id with
    | some s =>
      obtain ⟨s',found',silent⟩ := kept id s found
      rw [mailbox_of_found found, mailbox_of_found found', silent.mailbox]
    | none =>
      cases found' : r'.session? id with
      | some s' => simp only [mailbox, found, found', (fresh id s' found found').1]
      | none => simp only [mailbox, found, found']
  woken id := by
    cases found : r.session? id with
    | some s =>
      obtain ⟨s',found',silent⟩ := kept id s found
      rw [woken_of_found found, woken_of_found found', silent.wakeEvent]
    | none =>
      cases found' : r'.session? id with
      | some s' => simp only [Router.woken, found, found', (fresh id s' found found').2.1,
          Option.toList_none]
      | none => simp only [Router.woken, found, found']
  depths id := by rw [depth, depths, depth]
  past := by
    rintro id ⟨s,found,ended⟩
    obtain ⟨s',found',silent⟩ := kept id s found
    exact ⟨s', found', silent.past ended⟩
  final := by
    intro id final s' found' concluded
    cases found : r.session? id with
    | some s =>
      obtain ⟨s'',found'',silent⟩ := kept id s found
      cases found'.symm.trans found''
      exact silent.final (final s found) concluded
    | none =>
      rw [(fresh id s' found found').2.2] at concluded
      cases concluded

theorem Quiet.of_same (sessions : r'.sessions = r.sessions) (depths : r'.depths = r.depths) :
    r.Quiet r' := by
  have same : ∀ id, r'.session? id = r.session? id := fun id => by rw [session?, sessions, session?]
  refine .of_sessions (fun id s found => ⟨s, (same id).trans found, .of_mail rfl⟩) ?_ depths
  intro id s none some
  rw [same, none] at some
  cases some

theorem Quiet.alter {f : Session → Session} (named : ∀ s, s.id = id → (f s).id = id)
    (silent : ∀ s, r.session? id = some s → s.Silent (f s)) : r.Quiet (r.alter id f) := by
  refine .of_sessions (fun other s found => ?_) (fun other s none some => ?_) rfl
  · rw [session?_alter r named]
    split
    · rename_i same
      subst same
      exact ⟨f s, by rw [found]; rfl, silent s found⟩
    · exact ⟨s, found, .of_mail rfl⟩
  · rw [session?_alter r named] at some
    split at some
    · rename_i same
      subst same
      rw [none] at some
      cases some
    · rw [none] at some
      cases some

/-- What can happen to mail. -/
inductive Post where
  | aside
  /-- Sending an event to the session has been answered with success. -/
  | accept (session : SessionId) (event : Event)
  | hand (session : SessionId) (event : Event)
  /-- The session, asleep, takes an event from its mailbox. -/
  | fetch (session : SessionId) (event : Event)

/-- An event goes out. -/
def Post.Draws : Post → Prop
  | .aside | .accept .. => False
  | .hand .. | .fetch .. => True

/-- The event that a session which is asleep wakes up with when its turn comes. -/
def fetched? (r : Router) (id : SessionId) : Option Event :=
  match r.session? id with
  | none => none
  | some s =>
    match s.phase with
    | .asleep => if s.doomed then none else (RouterM.nextEvent? s).map (·.1)
    | _ => none

/-- What becomes of a router when something happens to mail. Events are drawn in the turns of
    their sessions. -/
inductive Posts : Router → Post → Router → Prop where
  | aside {r r' : Router} (quiet : r.Quiet r') : Posts r .aside r'
  | accept {r : Router} {s : Session} {e : Event} (found : r.session? s.id = some s)
      (accepted : ((RouterM.send s e).run r).1 = .ok ()) :
      Posts r (.accept s.id e) ((RouterM.send s e).run r).2
  | hand {r : Router} {id : SessionId} {m : Machine} {e : Event}
      (receives : r.received? id = some (m, e)) :
      Posts r (.hand id e) (RouterM.turn (.session id) r).2
  | fetch {r : Router} {id : SessionId} {e : Event} (fetches : r.fetched? id = some e) :
      Posts r (.fetch id e) (RouterM.turn (.session id) r).2

/-- A history of posts, of those kinds only, leads from one router to the other. -/
def Goes (kinds : Post → Prop) (r r' : Router) : Prop :=
  ∃ history, Throughout Posts r history ∧ (∀ step ∈ history, kinds step.1) ∧ after r history = r'

/-- Events may come in, and none goes out. -/
abbrev Fills (r r' : Router) : Prop := r.Goes (¬ ·.Draws) r'

section Goes

variable {kinds : Post → Prop}

theorem Posts.goes {p : Post} (posts : Posts r p r') (kind : kinds p) : r.Goes kinds r' :=
  ⟨[(p, r')], ⟨posts, trivial⟩, fun step within => by cases List.mem_singleton.mp within; exact kind,
    rfl⟩

theorem Goes.refl (r : Router) : r.Goes kinds r := ⟨[], trivial, fun _ => nofun, rfl⟩

theorem Goes.trans (first : r.Goes kinds r') (second : r'.Goes kinds r'') : r.Goes kinds r'' := by
  obtain ⟨history,posts,only,rfl⟩ := first
  obtain ⟨later,posts',only',rfl⟩ := second
  refine ⟨history ++ later, throughout_append.mpr ⟨posts, posts'⟩, fun step within => ?_,
    after_append r history later⟩
  rcases List.mem_append.mp within with within | within
  · exact only step within
  · exact only' step within

theorem Goes.mono {more : Post → Prop} (goes : r.Goes kinds r') (weaker : ∀ p, kinds p → more p) :
    r.Goes more r' := by
  obtain ⟨history,posts,only,ends⟩ := goes
  exact ⟨history, posts, fun step within => weaker _ (only step within), ends⟩

theorem Quiet.fills (quiet : r.Quiet r') : r.Fills r' := (Posts.aside quiet).goes nofun

end Goes

instance : RouterM.Aloof Quiet where
  refl := .refl
  trans := .trans
  aside _ sessions depths _ _ := .of_same sessions depths
  litter _ := .of_same rfl rfl

instance : RouterM.Lasting Fills := ⟨.refl, .trans⟩

/-- A session that has begun goes on as the same, with its machine left alone. -/
def Steady (id : SessionId) (r r' : Router) : Prop :=
  ∀ s, r.session? id = some s → s.phase ≠ .fresh → ∃ s', r'.session? id = some s' ∧ s.Rests s'

instance : RouterM.Lasting (Steady id) where
  refl _ s found _ := ⟨s, found, .refl s⟩
  trans first second s found begun := by
    obtain ⟨s',found',rests⟩ := first s found begun
    obtain ⟨s'',found'',rests'⟩ := second s' found' (rests.phase.resolve_right begun ▸ begun)
    exact ⟨s'', found'', rests.trans rests'⟩

theorem Rested.steady (rested : r.Rested r') : r.Steady id r' := fun s found _ =>
  rested.sessions id s found

theorem Steady.going (steady : Steady id r r') {s : Session} (found : r.session? id = some s)
    {m : Machine} (active : s.phase = .active m) :
    ∀ s', r'.session? id = some s' → s'.phase ≠ .ended := by
  intro s' found'
  have begun : s.phase ≠ .fresh := by rw [active]; nofun
  obtain ⟨s'',found'',rests⟩ := steady s found begun
  cases found'.symm.trans found''
  rw [rests.phase.resolve_right begun, active]
  nofun

end Router

namespace RouterM

open Router

/-- The work takes in mail at most. -/
abbrev Filling {α : Type} (x : RouterM α) : Prop := Leads Fills x

variable {r : Router} {s : Session} {id : SessionId} {m : Machine}

theorem updateSession_quiet {f : Session → Session} (named : ∀ s, s.id = id → (f s).id = id)
    (same : ∀ s, (f s).mail = s.mail) : Leads Quiet (updateSession id f) := fun _ =>
  Quiet.alter named fun s _ => .of_mail (same s)

theorem setStatus_quiet (id : SessionId) (status : SessionStatus) :
    Leads Quiet (setStatus id status) :=
  setStatus_leads (updateSession_quiet (fun _ here => here) fun _ => rfl)

theorem passOn_quiet (id : SessionId) (chart : Chart) (report : Report) :
    Leads Quiet (passOn id chart report) :=
  passOn_leads id chart report (fun _ _ => updateSession_quiet (fun _ here => here) fun _ => rfl)
    fun _ => updateSession_quiet (fun _ here => here) fun _ => rfl

theorem closing_quiet (id : SessionId) (o : Outcome) (r : Router) : r.Quiet (closing id o r) :=
  (Quiet.alter (f := closed o) (fun _ here => here) fun _ _ =>
    ⟨rfl, rfl, fun _ => rfl, fun _ _ => rfl⟩).trans (.of_same rfl rfl)

instance : Carefree Fills where
  aside _ sessions depths _ _ := (Quiet.of_same sessions depths).fills
  litter _ := Quiet.fills (.of_same rfl rfl)
  touch {r id f} same := by
    have stem : ∀ s : Session, (f s).stem = s.stem := same
    have named : ∀ s, s.id = id → (f s).id = id := fun s here =>
      (congrArg Session.Stem.id (stem s)).trans here
    refine Quiet.fills (.alter named fun s _ => .of_mail ?_)
    exact congrArg (fun s : Session.Stem => (s.mailbox, s.wakeEvent, s.outcome, s.phase)) (stem s)
  post {r s e} found := by
    by_cases isOpen : s.isOpen = true
    · refine (Posts.accept found ?_).goes nofun
      unfold send
      rw [if_pos isOpen]
      rfl
    · unfold send
      rw [if_neg isOpen]
      exact .refl r
  doom := Quiet.fills (.alter (fun _ here => here) fun _ _ => .of_mail rfl)
  registry sessions depths _ := (Quiet.of_same sessions depths).fills
  closing {r id o} := (closing_quiet id o r).fills

theorem createSession_fills (chart : Chart) (parent : Option ParentLink) (arguments : Option Ref) :
    Filling (createSession chart parent arguments) := by
  intro r
  refine (Quiet.of_sessions (fun id s found => ⟨s, createSession_session chart parent arguments found,
    .of_mail rfl⟩) (fun id s none some => ?_) rfl).fills
  have there : s ∈ r.sessions ∨ s.mailbox = [] ∧ s.wakeEvent = Option.none ∧ s.outcome = Option.none := by
    rcases List.mem_append.mp (List.mem_of_find?_eq_some some) with before | new
    · exact Or.inl before
    · cases List.mem_singleton.mp new
      exact Or.inr ⟨rfl, rfl, rfl⟩
  rcases there with before | empty
  · have other := List.find?_eq_none.mp none s before
    exact absurd (List.find?_some some) other
  · exact empty

/-- A session that has not ended goes on with another machine. -/
theorem hold_quiet (r : Router) {k : Session → Phase}
    (going : ∀ s, r.session? id = some s → s.phase ≠ .ended) :
    r.Quiet (r.alter id fun s => { s with phase := k s }) :=
  .alter (fun _ here => here) fun s found => .phase rfl rfl rfl (going s found)

theorem startSession_fills (id : SessionId) : Filling (startSession id).run := by
  refine startSession_leads fun r s m found _ phase _ => ?_
  have noted : r.Fills { r with memory := m.memory } := Quiet.fills (.of_same rfl rfl)
  have begun : Fills { r with memory := m.memory }
      (Router.alter { r with memory := m.memory } id
        fun s => { s with phase := .active m.start }) := by
    refine (hold_quiet (k := fun _ => .active m.start) _ fun s' found' => ?_).fills
    cases found.symm.trans found'
    rw [phase]
    nofun
  exact (noted.trans begun).trans (setStatus_native id .starting _)

theorem beginInvoke_fills (parent : SessionId) (data : InvokeData) :
    Filling (beginInvoke parent data).run := by
  refine beginInvoke_native (fun r chart => ?_) startSession_fills
  have entered : r.Fills (createSession chart (some ⟨parent, data.invokeId, data.uniqueId⟩)
      (argumentsOf r.memory.heap data.parameters).2 { r with memory := _ }).2 :=
    createSession_fills chart _ _ { r with memory := _ }
  exact entered.trans (Quiet.fills (.of_same rfl rfl))

theorem cancelInvoke_steady (parent : SessionId) (invoke : InvokeId) :
    Leads (Steady id) (cancelInvoke parent invoke) := by
  intro r
  cases entry : r.childOf parent invoke with
  | none =>
    rw [cancelInvoke_none entry]
    exact Lasting.refl r
  | some child =>
    rcases cancelInvoke_spec entry with ⟨_,rested⟩ | ends
    · exact rested.steady
    · obtain ⟨c,c',q,registered,unstarted,rested,there,_,going,run⟩ := ends
      rw [run]
      intro s found begun
      by_cases own : id = child
      · subst own
        cases (registered?_session registered).1.symm.trans found
        exact absurd unstarted.1 begun
      · obtain ⟨s',found',rests⟩ := rested.sessions id s found
        obtain ⟨s'',found'',rests'⟩ := finish_others there going _ own found'
        exact ⟨s'', found'', rests.trans rests'⟩

theorem perform_steady (s : Session) (effect : Effect) : Leads (Steady id) (perform s effect).run := by
  have steady : ∀ {α : Type} {x : RouterM α}, Restful x → Leads (Steady id) x := fun rests r =>
    (rests r).steady
  cases effect with
  | send o =>
    rw [perform]
    split
    · exact .attempt (.lift .get) fun r => steady (dispatch_rests _ _ _)
    · refine .attempt (.lift .get) fun r => ?_
      split
      · exact .attempt (steady (scheduleSend_rests _ o)) fun _ => .done _
      · exact .throw _
  | cancel sendId => exact .attempt (.lift (steady (cancelSend_rests s.id sendId))) fun _ => .done _
  | cancelInvoke invoke => exact .lift (cancelInvoke_steady s.id invoke)
  | forward invoke e => exact steady (forward_rests s.id invoke e)

theorem performAll_steady (s : Session) (effects : List Effect) :
    Leads (Steady id) (performAll s effects) := by
  refine .filterMapM fun effect _ => .bind (perform_steady s effect) fun result => ?_
  cases result with
  | ok _ => exact .pure _
  | error e => exact .pure _

theorem beginInvoke_steady (parent : SessionId) (data : InvokeData) :
    Leads (Steady id) (beginInvoke parent data).run := by
  intro r
  rcases beginInvoke_spec r parent data with ⟨_,same⟩ | ⟨_,q,kept,_,rested⟩
  · rw [same]
    exact Lasting.refl r
  · exact fun s found _ => rested.sessions id s (kept id s found)

theorem keep_quiet (m : Machine) (going : ∀ s, r.session? id = some s → s.phase ≠ .ended) :
    r.Quiet (keep id m r).2 := by
  have told : Leads Quiet (m.reports.reverse.forM (passOn id m.chart)) :=
    .forM fun report _ => passOn_quiet id m.chart report
  have noted : r.Quiet { r with memory := m.memory } := .of_same rfl rfl
  exact (noted.trans (hold_quiet (k := fun _ => .active m.unburdened) _ going)).trans (told _)

theorem keep_fills (m : Machine) (going : ∀ s, r.session? id = some s → s.phase ≠ .ended) :
    r.Fills (keep id m r).2 := (keep_quiet m going).fills

theorem answer_fills (m : Machine) (failure : Option Failure)
    (going : ∀ s, r.session? id = some s → s.phase ≠ .ended) :
    r.Fills (answer id m failure r).2 := by
  have freed : r.Quiet (r.alter id fun s => { s with awaited := none }) :=
    .alter (fun _ here => here) fun _ _ => .of_mail rfl
  refine freed.fills.trans (keep_fills (r := r.alter id _) _ fun s found => ?_)
  rw [session?_alter (f := fun s => { s with awaited := none }) _ (fun _ here => here), if_pos rfl]
    at found
  obtain ⟨s',found',rfl⟩ := Option.map_eq_some_iff.mp found
  exact going s' found'

theorem serveInvoke_fills (found : r.session? s.id = some s) {n : Machine}
    (active : s.phase = .active n) (m : Machine) (data : InvokeData) :
    r.Fills (serveInvoke s m data r).2 := by
  cases awaited : s.awaited with
  | none =>
    rw [serveInvoke_first awaited, bind_run]
    have going := (beginInvoke_steady s.id data r).going found active
    refine (beginInvoke_fills s.id data r).trans ?_
    cases ((beginInvoke s.id data).run r).1 with
    | error e => exact answer_fills m _ going
    | ok child =>
      have awaits : Filling (updateSession s.id fun s => { s with awaited := some child }) :=
        touch_native fun _ => rfl
      exact awaits _
  | some child =>
    rw [serveInvoke_again awaited]
    have going := (Rested.refl r).steady.going found active
    cases (r.session? child).bind startResult? with
    | none => exact .refl r
    | some result =>
      cases result with
      | ok status => exact answer_fills m none going
      | error e =>
        exact (endInvoke_native (R := Fills) s.id data.invokeId (.error e) r).trans (answer_fills m _ going)

theorem leave_fills (found : r.session? s.id = some s) (going : s.phase ≠ .ended) (m : Machine)
    (status : ExitStatus) : r.Fills (leave s m status r).2 := by
  cases status with
  | completed => exact finish_native s.id _ r
  | destroyed => exact finish_native s.id _ r
  | queueClosed => exact finish_native s.id _ r
  | suspended =>
    obtain ⟨storage,_,run⟩ := leave_suspended s m r
    have saved : r.Quiet { r with storage } := .of_same rfl rfl
    have lulled : Router.Quiet { r with storage } (Router.alter { r with storage } s.id
        fun s => { s with phase := .asleep, drowsy := false, idleDeadline := none }) := by
      refine .alter (fun _ here => here) fun s' found' => ?_
      cases found.symm.trans found'
      exact .phase rfl rfl rfl going
    rw [run]
    exact (saved.trans lulled).fills.trans (setStatus_native s.id .suspended _)

theorem input?_event {e : Event} {taken : Session} (next : input? s = some (.event e, taken)) :
    nextEvent? s = some (e, taken) := by
  rcases input?_eq_some next with ⟨e',same,found⟩ | ⟨other,_⟩
  · cases same
    exact found
  · exact absurd rfl (other e)

theorem goOn_fills (found : r.session? s.id = some s) {n : Machine} (active : s.phase = .active n)
    (m : Machine) (idle : m.control = .waiting → ∀ e taken, input? s ≠ some (.event e, taken)) :
    r.Fills (goOn s m r).2 := by
  have going := (Rested.refl r).steady.going found active
  have turn := goOn_turn s m
  generalize goOn s m = x at turn ⊢
  cases turn with
  | steps => exact keep_fills m.step going
  | performs =>
    have going' := (performAll_steady s m.effects r).going found active
    exact (performAll_native cancelInvoke_native s m.effects r : r.Fills _).trans (keep_fills _ going')
  | serves data => exact serveInvoke_fills found active m data
  | takes input taken control next =>
    rcases input?_eq_some next with ⟨e,rfl,_⟩ | ⟨_,rfl⟩
    · exact absurd next (idle control e taken)
    have kept : r.Quiet (r.alter taken.id fun _ => taken) := by
      refine .alter (fun _ _ => rfl) fun s' found' => ?_
      cases found.symm.trans found'
      exact .of_mail rfl
    have run : adopt taken taken r = ((), r.alter taken.id fun _ => taken) := by
      unfold adopt
      rw [if_neg (Nat.lt_irrefl _)]
      simp only [ne_eq, not_true_eq_false, if_false]
      rfl
    simp only [bind_run, run]
    refine kept.fills.trans (keep_fills _ fun s' found' => ?_)
    rw [session?_alter (f := fun _ => taken) _ (fun _ _ => rfl), if_pos rfl, found] at found'
    cases found'
    exact going _ found
  | leaves status => exact leave_fills found (going s found) m status
  | aborts => exact finish_native s.id _ r
  | breaks => exact breakDown_native (R := Fills) s.id r
  | rests => exact .refl r

/-- Without an event to wake up with, the turn of a session that is asleep only fills mailboxes. -/
theorem awake_fills (idle : s.doomed = false → nextEvent? s = none) : Filling (awake s) := by
  have waking := awake_waking s
  generalize awake s = x at waking ⊢
  cases waking with
  | ends => exact .bind (finish_native s.id _) fun _ => .pure _
  | wakes e taken alive next =>
    rw [idle alive] at next
    cases next
  | rests => exact .pure _

theorem turn_posts (task : Task) (r : Router) :
    (∃ p, p.Draws ∧ Posts r p (turn task r).2) ∨ r.Fills (turn task r).2 := by
  cases task with
  | timer id index => exact Or.inr (Leads.bind (fire_native id index) (fun _ => .pure _) r)
  | aftermath id => exact Or.inr (Leads.bind (finish_native id _) (fun _ => .pure _) r)
  | session id =>
    by_cases received : ∃ m e, r.received? id = some (m, e)
    · obtain ⟨m,e,receives⟩ := received
      exact Or.inl ⟨.hand id e, trivial, .hand receives⟩
    by_cases fetched : ∃ e, r.fetched? id = some e
    · obtain ⟨e,fetches⟩ := fetched
      exact Or.inl ⟨.fetch id e, trivial, .fetch fetches⟩
    right
    have turned := turn_turned id r
    generalize (turn (.session id) r).2 = q at turned ⊢
    cases turned with
    | goes s n named found phase =>
      subst named
      refine goOn_fills found phase _ fun waiting e taken next =>
        received ⟨current r s n, e, ?_⟩
      unfold received?
      simp only [found, phase, next, show n.control = .waiting from waiting]
    | wakes s named found phase =>
      subst named
      refine awake_fills (fun spared => ?_) r
      cases next : nextEvent? s with
      | none => rfl
      | some pair =>
        refine absurd ⟨pair.1, ?_⟩ fetched
        unfold fetched?
        simp only [found, phase, spared, next, Bool.false_eq_true, if_false, Option.map_some]
    | rests => exact .refl r

/-- The work is made of posts. -/
abbrev Posted {α : Type} (x : RouterM α) : Prop := Leads (Goes fun _ => True) x

instance : Native (Goes fun _ => True) where
  refl := .refl
  trans := .trans
  aside registry sessions depths memory backdrop :=
    Goes.mono (Aside.aside (R := Fills) registry sessions depths memory backdrop) fun _ _ => trivial
  litter t := Goes.mono (Aloof.litter (R := Fills) t) fun _ _ => trivial
  touch same := Goes.mono (Native.touch (R := Fills) same) fun _ _ => trivial
  post found := Goes.mono (Watchful.post (R := Fills) found) fun _ _ => trivial
  doom := Goes.mono (Marking.doom (R := Fills)) fun _ _ => trivial

theorem turn_posted (task : Task) : Posted (turn task) := by
  intro r
  rcases turn_posts task r with ⟨p,_,posts⟩ | fills
  · exact posts.goes trivial
  · exact fills.mono fun _ _ => trivial

end RouterM

end Statechart

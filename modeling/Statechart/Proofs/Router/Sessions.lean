import Statechart.Proofs.Machine.Supply
import Statechart.Router.Run

/- What the router's work leaves of its sessions and its registry of services.

   Most of the work is done aside: it fills mailboxes, sets statuses and makes tasks ready. A
   session stays who it is, its outcome stays open or as it is, and the registry stays the same. -/
namespace Statechart

/-- A session goes on as the same, however its machine fares. -/
structure Session.Lives (s s' : Session) : Prop where
  id : s'.id = s.id
  parent : s'.parent = s.parent
  outcome : s'.outcome = s.outcome
  alive : s'.status.isTerminal = true → s.status.isTerminal = true

/-- A session goes on as the same, and its machine is left alone. It may be started. -/
structure Session.Rests (s s' : Session) : Prop extends s.Lives s' where
  phase : s'.phase = s.phase ∨ s.phase = .fresh

namespace Session

theorem Lives.refl (s : Session) : s.Lives s := ⟨rfl, rfl, rfl, fun ended => ended⟩

theorem Lives.trans {s s' s'' : Session} (first : s.Lives s') (second : s'.Lives s'') :
    s.Lives s'' where
  id := second.id.trans first.id
  parent := second.parent.trans first.parent
  outcome := second.outcome.trans first.outcome
  alive := first.alive ∘ second.alive

/-- What of a session decides whether it rests. -/
def gist (s : Session) : SessionId × Option ParentLink × Option Outcome × SessionStatus × Phase :=
  (s.id, s.parent, s.outcome, s.status, s.phase)

theorem Rests.of_gist {s s' : Session} (same : s'.gist = s.gist) : s.Rests s' := by
  simp only [gist, Prod.mk.injEq] at same
  obtain ⟨id,parent,outcome,status,phase⟩ := same
  exact ⟨⟨id, parent, outcome, fun ended => status ▸ ended⟩, Or.inl phase⟩

theorem Rests.refl (s : Session) : s.Rests s := .of_gist rfl

theorem Rests.trans {s s' s'' : Session} (first : s.Rests s') (second : s'.Rests s'') :
    s.Rests s'' where
  toLives := first.toLives.trans second.toLives
  phase := by
    rcases first.phase with same | fresh
    · rw [← same]
      exact second.phase
    · exact Or.inr fresh

end Session

namespace Router

/-- How many sessions have been made, and how many of them have ended. -/
def counts (r : Router) : Nat × Nat := (r.stats.created, r.stats.finished)

/-- What only the coming and going of sessions, charts and snapshots changes. -/
def backdrop (r : Router) : (Nat × Nat) × List (String × Chart) × Storage :=
  (r.counts, r.charts, r.storage)

def alter (r : Router) (id : SessionId) (f : Session → Session) : Router :=
  { r with sessions := r.sessions.map fun s => if s.id == id then f s else s }

theorem session?_id {r : Router} {id : SessionId} {s : Session} (found : r.session? id = some s) :
    s.id = id := by
  simpa using List.find?_some found

theorem session?_alter (r : Router) {id : SessionId} {f : Session → Session}
    (named : ∀ s, s.id = id → (f s).id = id) (other : SessionId) :
    (r.alter id f).session? other =
      if other = id then (r.session? id).map f else r.session? other := by
  have matched : ∀ s : Session, ((if s.id == id then f s else s).id == other) = (s.id == other) := by
    intro s
    by_cases here : s.id = id
    · rw [if_pos (by simpa using here), named s here, here]
    · rw [if_neg (by simpa using here)]
  have asked : (r.alter id f).session? other =
      (r.session? other).map fun s => if s.id == id then f s else s := by
    unfold session? alter
    rw [List.find?_map]
    congr 2
    funext s
    exact matched s
  rw [asked]
  split
  · rename_i same
    subst same
    cases found : r.session? other with
    | none => rfl
    | some s =>
      have here := session?_id found
      simp [here]
  · rename_i elsewhere
    cases found : r.session? other with
    | none => rfl
    | some s =>
      have there := session?_id found
      simp [there, elsewhere]

/-- The router goes on with the same registry and its machines left alone. -/
structure Rested (r r' : Router) : Prop where
  registry : r'.invocations = r.invocations
  sessions : ∀ id s, r.session? id = some s → ∃ s', r'.session? id = some s' ∧ s.Rests s'

theorem Rested.refl (r : Router) : r.Rested r := ⟨rfl, fun _ s found => ⟨s, found, .refl s⟩⟩

theorem Rested.trans {r r' r'' : Router} (first : r.Rested r') (second : r'.Rested r'') :
    r.Rested r'' where
  registry := second.registry.trans first.registry
  sessions := by
    intro id s found
    obtain ⟨s',found',rests⟩ := first.sessions id s found
    obtain ⟨s'',found'',rests'⟩ := second.sessions id s' found'
    exact ⟨s'', found'', rests.trans rests'⟩

theorem Rested.of_same {r r' : Router} (registry : r'.invocations = r.invocations)
    (sessions : r'.sessions = r.sessions) : r.Rested r' where
  registry := registry
  sessions := by
    intro id s found
    refine ⟨s, ?_, .refl s⟩
    unfold session? at found ⊢
    rw [sessions]
    exact found

theorem Rested.alter {r : Router} {id : SessionId} {f : Session → Session}
    (named : ∀ s, s.id = id → (f s).id = id)
    (rests : ∀ s, r.session? id = some s → s.Rests (f s)) : r.Rested (r.alter id f) where
  registry := rfl
  sessions := by
    intro other s found
    rw [session?_alter r named]
    split
    · rename_i same
      subst same
      exact ⟨f s, by rw [found]; rfl, rests s found⟩
    · exact ⟨s, found, .refl s⟩

end Router

namespace RouterM

variable {α β : Type}

/-- Whatever the router is like, the work leads to one related to it. -/
def Leads (R : Router → Router → Prop) (x : RouterM α) : Prop := ∀ r, R r (x r).2

theorem bind_run (x : RouterM α) (f : α → RouterM β) (r : Router) :
    (x >>= f) r = f (x r).1 (x r).2 := rfl

theorem get_attempt (f : Router → RouterE α) (r : Router) :
    ((get : RouterE Router) >>= f).run r = (f r).run r := rfl

/-- Taking up a snapshot fails and leaves the router alone, or makes a machine of it. -/
theorem resume_run (s : Session) (r : Router) :
    (∃ e, (resume s).run r = (.error e, r)) ∨
    ∃ b m, Machine.resume s.chart (machineOptions r.settings s) r.memory b = .ok m ∧
      (resume s).run r =
        (.ok m, { r with storage := r.storage.remove s.id, memory := m.memory }) := by
  unfold resume
  rw [get_attempt]
  simp only
  cases r.storage.loadBucket s.id with
  | error fault => exact Or.inl ⟨_, rfl⟩
  | ok stored =>
    cases stored with
    | none => exact Or.inl ⟨_, rfl⟩
    | some b =>
      simp only [pure_bind]
      cases resumed : Machine.resume s.chart (machineOptions r.settings s) r.memory b with
      | error fault => exact Or.inl ⟨_, rfl⟩
      | ok m => exact Or.inr ⟨b, m, resumed, rfl⟩

/-- Steps that can be done in a row or left out. -/
class Lasting (R : Router → Router → Prop) : Prop where
  refl : ∀ r, R r r
  trans : ∀ {a b c}, R a b → R b c → R a c

instance : Lasting Router.Rested := ⟨.refl, .trans⟩

section Leads

variable {R : Router → Router → Prop} [Lasting R]

theorem Leads.pure (a : α) : Leads R (Pure.pure a : RouterM α) := fun r => Lasting.refl r

theorem Leads.get : Leads R (MonadState.get : RouterM Router) := fun r => Lasting.refl r

theorem Leads.bind {x : RouterM α} {f : α → RouterM β} (first : Leads R x)
    (rest : ∀ a, Leads R (f a)) : Leads R (x >>= f) := fun r =>
  Lasting.trans (first r) (rest (x r).1 (x r).2)

omit [Lasting R] in
theorem Leads.look {f : Router → RouterM α} (rest : ∀ r, R r (f r r).2) :
    Leads R (MonadState.get >>= f) := rest

omit [Lasting R] in
theorem Leads.lookUp {f : Router → RouterE α} (rest : ∀ r, R r ((f r).run r).2) :
    Leads R (MonadState.get >>= f).run := rest

theorem Leads.forM {l : List β} {f : β → RouterM Unit} (each : ∀ b ∈ l, Leads R (f b)) :
    Leads R (l.forM f) := by
  induction l with
  | nil => exact .pure ()
  | cons b rest ih =>
    exact .bind (each b List.mem_cons_self)
      (fun _ => ih fun d within => each d (List.mem_cons_of_mem _ within))

theorem Leads.filterMapM {l : List α} {f : α → RouterM (Option β)} (each : ∀ a ∈ l, Leads R (f a)) :
    Leads R (l.filterMapM f) := by
  suffices loop : ∀ done, Leads R (List.filterMapM.loop f l done) from loop []
  induction l with
  | nil => exact fun done => .pure _
  | cons a rest ih =>
    intro done
    refine .bind (each a List.mem_cons_self) fun found => ?_
    have later := ih fun d within => each d (List.mem_cons_of_mem _ within)
    cases found with
    | none => exact later done
    | some b => exact later (b :: done)

theorem Leads.attempt {x : RouterE α} {f : α → RouterE β} (first : Leads R x.run)
    (rest : ∀ a, Leads R (f a).run) : Leads R (x >>= f).run := by
  rw [ExceptT.run_bind]
  refine .bind first fun result => ?_
  cases result with
  | ok a => exact rest a
  | error e => exact .pure _

/-- The first part need only lead on from the router that it meets. -/
theorem Leads.attemptAt {x : RouterE α} {f : α → RouterE β} {r : Router} (first : R r (x.run r).2)
    (rest : ∀ a, Leads R (f a).run) : R r ((x >>= f).run r).2 := by
  rw [ExceptT.run_bind, bind_run]
  refine Lasting.trans first ?_
  cases (x.run r).1 with
  | ok a => exact rest a _
  | error e => exact Lasting.refl _

theorem Leads.done (a : α) : Leads R (Pure.pure a : RouterE α).run := .pure _

theorem Leads.throw (e : RouterError) : Leads R (MonadExcept.throw e : RouterE α).run :=
  .pure _

theorem Leads.lift {x : RouterM α} (h : Leads R x) : Leads R (liftM x : RouterE α).run :=
  .bind h fun a => .pure (Except.ok a)

theorem Leads.ofExcept (x : Except RouterError α) :
    Leads R (MonadExcept.ofExcept x : RouterE α).run := by
  cases x with
  | ok a => exact .done a
  | error e => exact .throw e

end Leads

/-- Relations that do not mind what is done without touching sessions, registry, charts, counts,
    snapshots and memory. -/
class Aside (R : Router → Router → Prop) : Prop extends Lasting R where
  aside : ∀ {r r' : Router}, r'.invocations = r.invocations → r'.sessions = r.sessions →
    r'.depths = r.depths → r'.memory = r.memory → r'.backdrop = r.backdrop → R r r'

/-- Relations that do not mind that values are built either. -/
class Aloof (R : Router → Router → Prop) : Prop extends Aside R where
  litter : ∀ {r : Router} (t : Tree),
    R r { r with memory := { r.memory with heap := (r.memory.heap.build t).1 } }

/-- Relations that do not mind how mailboxes are counted and what becomes of memory either. -/
class Indifferent (R : Router → Router → Prop) : Prop extends Aloof R where
  alike : ∀ {r r' : Router}, r'.invocations = r.invocations → r'.sessions = r.sessions → R r r'
  aside registry sessions _ _ _ := alike registry sessions
  litter _ := alike rfl rfl

instance : Indifferent Router.Rested where
  alike := .of_same

section Aside

variable {R : Router → Router → Prop} [Aside R]

theorem modify_leads {f : Router → Router} (registry : ∀ r, (f r).invocations = r.invocations)
    (sessions : ∀ r, (f r).sessions = r.sessions) (depths : ∀ r, (f r).depths = r.depths)
    (memory : ∀ r, (f r).memory = r.memory) (backdrop : ∀ r, (f r).backdrop = r.backdrop) :
    Leads R (modify f) := fun r =>
  Aside.aside (registry r) (sessions r) (depths r) (memory r) (backdrop r)

theorem wake_leads (t : Task) : Leads R (wake t) := by
  have same : ∀ {β : Type} (f : Router → β) (r : Router),
      f { r with ready := r.ready ++ [t] } = f r →
        f (if r.ready.contains t then r else { r with ready := r.ready ++ [t] }) = f r := by
    intro β f r same
    split
    · rfl
    · exact same
  exact modify_leads (fun r => same Router.invocations r rfl) (fun r => same Router.sessions r rfl)
    (fun r => same Router.depths r rfl) (fun r => same Router.memory r rfl)
    fun r => same Router.backdrop r rfl

/-- The event may be sent to any session. -/
abbrev Posting (R : Router → Router → Prop) (e : Event) : Prop :=
  ∀ (r : Router) (s : Session), r.session? s.id = some s → R r ((send s e).run r).2

theorem setStatus_leads {id : SessionId} {status : SessionStatus}
    (marks : Leads R (updateSession id fun s => { s with status })) :
    Leads R (setStatus id status) :=
  .bind marks fun _ => .bind .get fun _ => .forM fun _ _ => wake_leads _

theorem deliver_leads (id : SessionId) {e : Event} (posts : Posting R e) :
    Leads R (deliver id e).run := by
  unfold deliver
  refine .lookUp fun r => ?_
  cases registered : r.registered? id with
  | none => exact Lasting.refl r
  | some s =>
    have found : r.session? id = some s := (Option.filter_eq_some_iff.mp registered).1
    have own : r.session? s.id = some s := by rw [Router.session?_id found, found]
    exact Leads.attemptAt (posts r s own) fun _ =>
      .lift (modify_leads (fun _ => rfl) (fun _ => rfl) (fun _ => rfl) (fun _ => rfl) fun _ => rfl)

theorem resolve_leads (source : SessionId) (target : String) :
    Leads R (resolve source target).run := by
  unfold resolve
  split
  · exact .done _
  · split
    · exact .done _
    · refine .attempt (.lift .get) fun r => ?_
      split
      · exact .done _
      · exact .throw _
    · exact .throw _

section Outgoing

variable {o : OutgoingEvent} (posts : ∀ e : Event, e.name = o.name → e.data = o.data → Posting R e)
include posts

theorem dispatchToSession_leads (source : SessionId) :
    Leads R (dispatchToSession source o).run := by
  unfold dispatchToSession
  simp only
  split
  · refine .attempt (.ofExcept _) fun _ => .attempt (.lift .get) fun r => ?_
    split
    · exact deliver_leads _ (posts _ rfl rfl)
    · exact .throw _
  · exact .attempt (resolve_leads source _) fun _ => deliver_leads _ (posts _ rfl rfl)

theorem dispatch_leads (source : SessionId) (cancelled : Bool) :
    Leads R (dispatch source o cancelled).run := by
  have counting : Leads R (modify fun r : Router =>
      { r with stats := { r.stats with dispatched := r.stats.dispatched + 1 } }) :=
    modify_leads (fun _ => rfl) (fun _ => rfl) (fun _ => rfl) (fun _ => rfl) fun _ => rfl
  unfold dispatch
  split
  · exact .done _
  · refine .attempt (.lift .get) fun r => ?_
    simp only
    split
    · refine .attempt (.lift counting) fun _ => ?_
      split
      · exact .throw _
      · exact .lift (modify_leads (fun _ => rfl) (fun _ => rfl) (fun _ => rfl) (fun _ => rfl) fun _ => rfl)
    · split
      · exact .attempt (.lift counting) fun _ => dispatchToSession_leads posts source
      · exact .throw _

end Outgoing

theorem scheduleSend_leads (s : Session) {o : OutgoingEvent} (arms : ∀ now, Leads R
    (updateSession s.id fun s => { s with scheduler := s.scheduler.schedule now o })) :
    Leads R (scheduleSend s o).run := by
  have arming : Leads R (do
      let now := (← get).clock
      let index := s.scheduler.timers.length
      updateSession s.id fun s => { s with scheduler := s.scheduler.schedule now o }
      if o.delay = 0 then wake (.timer s.id index)
      return index : RouterE Nat).run := by
    refine .attempt (.lift .get) fun r => .attempt (.lift (arms r.clock)) fun _ => ?_
    split
    · exact .attempt (.lift (wake_leads _)) fun _ => .done _
    · exact .done _
  unfold scheduleSend
  by_cases ended : s.status.isTerminal = true
  · simp only [ended, if_true]
    exact .throw _
  · by_cases upward : o.target = some Address.parentTarget
    · simp only [ended, upward, if_true]
      exact .attempt (.ofExcept _) fun _ => arming
    · simp only [ended, upward, if_false]
      exact arming

theorem forward_leads (parent : SessionId) (invoke : InvokeId) {e : Event} (posts : Posting R e) :
    Leads R (forward parent invoke e).run := by
  unfold forward
  refine .attempt (.lift .get) fun r => ?_
  split
  · exact deliver_leads _ posts
  · exact .throw _

theorem adopt_leads {r : Router} {s taken : Session}
    (counts : taken.mailbox.length < s.mailbox.length → R r (r.countOut s.id))
    (keeps : ∀ q : Router, q.sessions = r.sessions → R q (q.alter s.id fun _ => taken))
    (marks : taken.status ≠ s.status → Leads R (setStatus s.id taken.status)) :
    R r (adopt s taken r).2 := by
  have shown : Leads R (if taken.status ≠ s.status then setStatus s.id taken.status
      else Pure.pure () : RouterM Unit) := by
    split
    · exact marks ‹_›
    · exact .pure _
  by_cases fewer : taken.mailbox.length < s.mailbox.length
  · have run : adopt s taken r = (if taken.status ≠ s.status then setStatus s.id taken.status
        else Pure.pure ()) ((r.countOut s.id).alter s.id fun _ => taken) := by
      unfold adopt
      rw [if_pos fewer]
      rfl
    rw [run]
    exact Lasting.trans (Lasting.trans (counts fewer) (keeps (r.countOut s.id) rfl)) (shown _)
  · have run : adopt s taken r = (if taken.status ≠ s.status then setStatus s.id taken.status
        else Pure.pure ()) (r.alter s.id fun _ => taken) := by
      unfold adopt
      rw [if_neg fewer]
      rfl
    rw [run]
    exact Lasting.trans (keeps r rfl) (shown _)

instance : Aside fun r r' : Router => r'.memory = r.memory where
  refl _ := rfl
  trans first second := second.trans first
  aside _ _ _ memory _ := memory

/-- Taking an event leaves memory alone. -/
theorem adopt_memory (s taken : Session) (r : Router) :
    (adopt s taken r).2.memory = r.memory :=
  adopt_leads (R := fun r r' => r'.memory = r.memory) (fun _ => rfl) (fun _ _ => rfl)
    fun _ => setStatus_leads fun _ => rfl

theorem passOn_leads (id : SessionId) (chart : Chart) (report : Report)
    (marks : ∀ status : SessionStatus, status.isTerminal = false →
      Leads R (updateSession id fun s => { s with status }))
    (awaits : ∀ deadline, Leads R (updateSession id fun s => { s with idleDeadline := deadline })) :
    Leads R (passOn id chart report) := by
  have waiting : Leads R (do
      let r ← get
      let deadline := r.settings.idleTimeout?.map (r.clock + ·)
      updateSession id fun s => { s with idleDeadline := deadline }
      setStatus id .waiting) :=
    .bind .get fun _ => .bind (awaits _) fun _ => setStatus_leads (marks _ rfl)
  have noted : ∀ line, Leads R (modify fun r : Router => { r with log := line :: r.log }) :=
    fun _ => modify_leads (fun _ => rfl) (fun _ => rfl) (fun _ => rfl) (fun _ => rfl) fun _ => rfl
  unfold passOn
  split
  · split
    · exact .bind (noted _) fun _ => setStatus_leads (marks _ rfl)
    · exact setStatus_leads (marks _ rfl)
  · split
    · exact .bind (noted _) fun _ => waiting
    · exact waiting
  · split
    · exact noted _
    · exact .pure _

theorem resume_leads {s : Session} (takes : ∀ (r : Router) (storage : Storage) (memory : Memory),
    r.memory.supply ≤ memory.supply → R r { r with storage, memory }) :
    Leads R (resume s).run := by
  intro r
  rcases resume_run s r with ⟨_,run⟩ | ⟨_,m,resumed,run⟩
  · rw [run]
    exact Lasting.refl r
  · rw [run]
    exact takes r _ _ (Machine.resume_spends resumed)

/-- Starting a session fails and leaves the router alone, or gives the session its machine. -/
theorem startSession_leads {id : SessionId} (starts : ∀ (r : Router) (s : Session) (m : Machine),
    r.session? id = some s → s.status.isTerminal = false → s.phase = .fresh →
    m = Machine.create s.chart (machineOptions r.settings s) r.memory →
    R r (setStatus id .starting (Router.alter { r with memory := m.memory } id
      fun s => { s with phase := .active m.start })).2) :
    Leads R (startSession id).run := by
  unfold startSession
  refine .lookUp fun r => ?_
  cases found : r.session? id with
  | none => exact Lasting.refl r
  | some s =>
    by_cases ended : s.status.isTerminal = true
    · simp only [ended, if_true]
      exact Lasting.refl r
    · simp only [ended, Bool.false_eq_true, if_false]
      cases phase : s.phase with
      | fresh =>
        have begun := starts r s _ found (by simpa using ended) phase rfl
        exact Lasting.trans begun (wake_leads (.session id) _)
      | _ => exact Lasting.refl r

end Aside

/-- A session that is suspended falls asleep, and its snapshot is stored if it can be. -/
theorem leave_suspended (s : Session) (m : Machine) (r : Router) : ∃ storage : Storage,
    (storage = r.storage ∨ ∃ b, r.storage.saveBucket s.id b = .ok storage) ∧
    leave s m .suspended r = setStatus s.id .suspended (Router.alter { r with storage } s.id
      fun s => { s with phase := .asleep, drowsy := false, idleDeadline := none }) := by
  rw [leave]
  cases m.saved with
  | none => exact ⟨r.storage, Or.inl rfl, rfl⟩
  | some b =>
    refine ⟨(r.storage.saveBucket s.id b).toOption.getD r.storage, ?_, rfl⟩
    cases saved : r.storage.saveBucket s.id b with
    | ok storage => exact Or.inr ⟨b, saved⟩
    | error fault => exact Or.inl rfl

theorem suspended_leads {R : Router → Router → Prop} [Lasting R] {s : Session} {m : Machine}
    (stores : ∀ (r : Router) (storage : Storage), R r { r with storage })
    (lulls : Leads R (updateSession s.id fun s =>
      { s with phase := .asleep, drowsy := false, idleDeadline := none }))
    (marks : Leads R (setStatus s.id .suspended)) : Leads R (leave s m .suspended) := by
  intro r
  obtain ⟨storage,_,run⟩ := leave_suspended s m r
  rw [run]
  exact Lasting.trans (Lasting.trans (stores r storage) (lulls _)) (marks _)

theorem deliverFailure_leads {R : Router → Router → Prop} [Aloof R] (id : SessionId) (failure : Failure)
    (posts : ∀ h, Posting R (Event.ofFailure h failure).2) : Leads R (do
      let r ← get
      set { r with memory := { r.memory with heap := (Event.ofFailure r.memory.heap failure).1 } }
      discard (deliver id (Event.ofFailure r.memory.heap failure).2).run) := by
  refine .look fun r => ?_
  let q : Router := { r with memory := { r.memory with
    heap := (Event.ofFailure r.memory.heap failure).1 } }
  have noted : R r q := Aloof.litter (.object [("message", .string failure.message)])
  exact Lasting.trans noted (deliver_leads id (posts r.memory.heap) q)

theorem posting_of_counted {R : Router → Router → Prop} [Aside R] {e : Event}
    (counts : ∀ id, Leads R (modify (·.countIn id)))
    (fills : ∀ id, Leads R (updateSession id fun s => { s with mailbox := s.mailbox ++ [e] })) :
    Posting R e := by
  intro r s _
  unfold send
  by_cases isOpen : s.isOpen = true
  · rw [if_pos isOpen]
    exact Leads.attempt (.lift (counts s.id)) (fun _ => .attempt (.lift (fills s.id))
      fun _ => .lift (wake_leads _)) r
  · rw [if_neg isOpen]
    exact Lasting.refl r

theorem posting_of_mailbox {R : Router → Router → Prop} [Indifferent R] {e : Event}
    (fills : ∀ id, Leads R (updateSession id fun s => { s with mailbox := s.mailbox ++ [e] })) :
    Posting R e :=
  posting_of_counted (fun _ _ => Indifferent.alike rfl rfl) fills

abbrev Restful (x : RouterM α) : Prop := Leads Router.Rested x

theorem updateSession_rests {id : SessionId} {f : Session → Session}
    (rests : ∀ s : Session, s.id = id → s.Rests (f s)) : Restful (updateSession id f) := fun _ =>
  .alter (fun s here => (rests s here).id.trans here)
    fun s found => rests s (Router.session?_id found)

theorem aside_rests {id : SessionId} {f : Session → Session}
    (same : ∀ s, (f s).gist = s.gist) : Restful (updateSession id f) :=
  updateSession_rests fun s _ => .of_gist (same s)

theorem mark_rests (id : SessionId) {status : SessionStatus} (going : status.isTerminal = false) :
    Restful (updateSession id fun s => { s with status }) :=
  updateSession_rests fun _ _ =>
    ⟨⟨rfl, rfl, rfl, fun ended => by simp [going] at ended⟩, Or.inl rfl⟩

theorem post_rests (e : Event) : Posting Router.Rested e :=
  posting_of_mailbox fun _ => aside_rests fun _ => rfl

theorem wake_rests (t : Task) : Restful (wake t) := wake_leads t

theorem setStatus_rests (id : SessionId) {status : SessionStatus}
    (going : status.isTerminal = false) : Restful (setStatus id status) :=
  setStatus_leads (mark_rests id going)

theorem deliver_rests (id : SessionId) (e : Event) : Restful (deliver id e).run :=
  deliver_leads id (post_rests e)

theorem dispatch_rests (source : SessionId) (e : OutgoingEvent) (cancelled : Bool) :
    Restful (dispatch source e cancelled).run :=
  dispatch_leads (fun f _ _ => post_rests f) source cancelled

theorem scheduleSend_rests (s : Session) (e : OutgoingEvent) : Restful (scheduleSend s e).run :=
  scheduleSend_leads s fun _ => aside_rests fun _ => rfl

theorem cancelSend_rests (id : SessionId) (sendId : SendId) : Restful (cancelSend id sendId) := by
  unfold cancelSend
  refine .bind .get fun r => ?_
  split
  · exact .pure _
  · exact .bind (aside_rests fun _ => rfl) fun _ => .pure _

theorem fire_rests (id : SessionId) (index : Nat) : Restful (fire id index) := by
  unfold fire
  refine .bind .get fun r => ?_
  split
  · exact .pure _
  · split
    · exact .bind (aside_rests fun _ => rfl) fun _ => .pure _
    · refine .bind (aside_rests fun _ => rfl) fun _ => ?_
      refine .bind (dispatch_rests _ _ _) fun result => ?_
      cases result with
      | ok _ => exact .pure _
      | error e => exact deliverFailure_leads id _ fun _ => post_rests _

theorem forward_rests (parent : SessionId) (invoke : InvokeId) (e : Event) :
    Restful (forward parent invoke e).run := forward_leads parent invoke (post_rests e)

theorem close_rests (id : SessionId) : Restful (close id) :=
  .bind (aside_rests fun _ => rfl) fun _ => wake_rests _

theorem doom_rests (id : SessionId) : Restful (doom id) :=
  .bind (aside_rests fun _ => rfl) fun _ => wake_rests _

theorem createSession_session (chart : Chart) (parent : Option ParentLink) (arguments : Option Ref)
    {r : Router} {id : SessionId} {s : Session} (found : r.session? id = some s) :
    (createSession chart parent arguments r).2.session? id = some s := by
  refine (List.find?_append ..).trans ?_
  rw [show List.find? _ _ = _ from found]
  rfl

theorem startSession_rests (id : SessionId) : Restful (startSession id).run := by
  refine startSession_leads fun r s m found _ phase _ => ?_
  have noted : r.Rested { r with memory := m.memory } := .of_same rfl rfl
  have begun : Router.Rested { r with memory := m.memory }
      (Router.alter { r with memory := m.memory } id
        fun s => { s with phase := .active m.start }) := by
    refine .alter (fun _ here => here) fun s' found' => ?_
    cases found.symm.trans found'
    exact ⟨⟨rfl, rfl, rfl, fun ended => ended⟩, Or.inr phase⟩
  exact (noted.trans begun).trans (setStatus_rests id rfl _)

theorem passOn_rests (id : SessionId) (chart : Chart) (report : Report) :
    Restful (passOn id chart report) :=
  passOn_leads id chart report (fun _ going => mark_rests id going)
    fun _ => aside_rests fun _ => rfl

theorem resume_rests (s : Session) : Restful (resume s).run := resume_leads fun _ _ _ _ => .of_same rfl rfl

end RouterM

end Statechart

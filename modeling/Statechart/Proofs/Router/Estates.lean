import Statechart.Proofs.Machine.Customs
import Statechart.Proofs.Router.Calls
import Statechart.Proofs.Router.Mail
import Statechart.Proofs.Snapshot.Realm
import Statechart.Proofs.Value.Sharing

/- What belongs to which session. A session starts from what it was given and from the data of its
   machine. Whatever the router does, what two sessions reach is constant; and besides its machines
   the router only builds, so all that a session reaches stays as it is while another's machine is
   on the move. Values that are merely sent need not belong to anybody. -/
namespace Statechart

open Heap (Confines Divided Owns Spares)

/-- The values that a session starts from. -/
inductive Session.Starts (s : Session) : Value → Prop where
  | given {x : Ref} (own : s.arguments = some x) : Starts s (.object x)
  | data {m : Machine} (active : s.phase = .active m) : Starts s (.object m.context.dataModel)
  | options {m : Machine} {x : Ref} (active : s.phase = .active m)
      (own : m.options.arguments = some x) : Starts s (.object x)

namespace Session

variable {h h' : Heap} {s s' : Session} {v : Value}

def letters (s : Session) : List Value :=
  (s.wakeEvent.toList ++ s.mailbox).map (·.data) ++ s.scheduler.timers.map (·.event.data)

/-- All values that a session has are in the heap, and the host's actions in its charts are neat. -/
structure Proper (h : Heap) (s : Session) : Prop where
  mail : ∀ v ∈ s.letters, h.Finds v
  chart : s.chart.Neat
  machine : ∀ m, s.phase = .active m → m.chart.Neat ∧ ∀ v ∈ m.holdings, h.Finds v

/-- A session has come to no more than it started from. -/
structure Follows (h : Heap) (s s' : Session) : Prop where
  id : s'.id = s.id
  chart : s'.chart = s.chart
  arguments : s'.arguments = s.arguments
  phase : ∀ m, s'.phase = .active m → s.phase = .active m
  mail : ∀ v ∈ s'.letters, h.Finds v

theorem Follows.starts (follows : s.Follows h s') (starts : s'.Starts v) : s.Starts v := by
  cases starts with
  | given own => exact .given (follows.arguments ▸ own)
  | data active => exact .data (follows.phase _ active)
  | options active own => exact .options (follows.phase _ active) own

theorem Follows.proper (follows : s.Follows h s') (proper : s.Proper h)
    (matures : h.Matures h') : s'.Proper h' where
  mail v held := matures.finds (follows.mail v held)
  chart := follows.chart ▸ proper.chart
  machine m active := by
    obtain ⟨neat,found⟩ := proper.machine m (follows.phase m active)
    exact ⟨neat, fun v held => matures.finds (found v held)⟩

theorem Proper.follows (proper : s.Proper h) : s.Follows h s :=
  ⟨rfl, rfl, rfl, fun _ active => active, proper.mail⟩

/-- What of a session decides what it has. -/
def kit (s : Session) : SessionId × Chart × Option Ref × Phase × List Value :=
  (s.id, s.chart, s.arguments, s.phase, s.letters)

theorem Proper.of_kit (proper : s.Proper h) (same : s'.kit = s.kit) : s.Follows h s' := by
  simp only [kit, Prod.mk.injEq] at same
  obtain ⟨id,chart,arguments,phase,mail⟩ := same
  exact ⟨id, chart, arguments, fun _ active => phase ▸ active, mail ▸ proper.mail⟩

end Session

namespace Router

variable {G : SessionId → Value → Prop} {held : Value → Prop} {moving : SessionId → Prop}
  {r r' r'' : Router} {id : SessionId} {f : Session → Session} {v : Value}

/-- What the sessions start from that have an id. -/
def Belongs (r : Router) (id : SessionId) (v : Value) : Prop :=
  ∃ s ∈ r.sessions, s.id = id ∧ s.Starts v

/-- What belongs to an id. Some may have been set down for it. -/
def estate (r : Router) (G : SessionId → Value → Prop) (id : SessionId) (v : Value) : Prop :=
  G id v ∨ r.Belongs id v

/-- What belongs to different ids leads to nothing in common but what is constant. Some values are
    held besides. -/
structure Parted (G : SessionId → Value → Prop) (held : Value → Prop) (r : Router) : Prop where
  divided : r.memory.heap.Divided (r.estate G)
  held : ∀ v, held v → r.memory.heap.Finds v
  sessions : ∀ s ∈ r.sessions, s.Proper r.memory.heap
  charts : ∀ e ∈ r.charts, e.2.Neat

/-- It stays parted, and what was set down is left alone, but for that of sessions on the move. -/
def Parts (G : SessionId → Value → Prop) (held : Value → Prop) (moving : SessionId → Prop)
    (r r' : Router) : Prop :=
  r.Parted G held → r'.Parted G held ∧
    ∀ id, ¬ moving id → Spares (G id) r.memory.heap r'.memory.heap

abbrev realm (r : Router) (G : SessionId → Value → Prop) (id : SessionId) : Realm :=
  r.memory.heap.home (r.estate G id)

theorem Parted.sound (parted : r.Parted G held) : r.memory.heap.Sound := parted.divided.sound

/-- One id goes on: what its sessions have come by is in its realm. The others follow. -/
theorem Parted.move (id : SessionId) (parted : r.Parted G held)
    (confines : Confines (r.realm G id) r.memory.heap r'.memory.heap)
    (charts : r'.charts = r.charts)
    (each : ∀ s' ∈ r'.sessions, (∃ s ∈ r.sessions, s.Follows r.memory.heap s') ∨
      (s'.id = id ∧ (∀ v, s'.Starts v → Owns (r.realm G id) r'.memory.heap v) ∧
        s'.Proper r'.memory.heap)) : r'.Parted G held where
  divided := by
    refine parted.divided.move confines (fun j other v own => ?_) fun v own => ?_
    · rcases own with set | ⟨s',within,named,starts⟩
      · exact Or.inl set
      · rcases each s' within with ⟨s,there,follows⟩ | ⟨mine,-⟩
        · exact Or.inr ⟨s, there, follows.id.symm.trans named, follows.starts starts⟩
        · exact absurd (named.symm.trans mine) other
    · have old (held : r.estate G id v) : Owns (r.realm G id) r'.memory.heap v :=
        ((parted.divided.finds id v held).owned held).mono confines.matures
      rcases own with set | ⟨s',within,named,starts⟩
      · exact old (Or.inl set)
      · rcases each s' within with ⟨s,there,follows⟩ | ⟨-,owns,-⟩
        · exact old (Or.inr ⟨s, there, follows.id.symm.trans named, follows.starts starts⟩)
        · exact owns v starts
  held v own := confines.matures.finds (parted.held v own)
  sessions s' within := by
    rcases each s' within with ⟨s,there,follows⟩ | ⟨-,-,proper⟩
    · exact follows.proper (parted.sessions s there) confines.matures
    · exact proper
  charts e within := parted.charts e (charts ▸ within)

/-- The sessions with an id get a machine that keeps to their realm. One may have been woken. -/
theorem Parted.activate {m : Machine} (wakes : Session → Option Event) (parted : r.Parted G held)
    (confines : Confines (r.realm G id) r.memory.heap m.heap) (abides : m.Abides (r.realm G id))
    (neat : m.chart.Neat) (storage : Storage)
    (woken : ∀ s e, wakes s = some e → s.wakeEvent = some e ∨ held e.data) :
    (Router.alter { r with storage, memory := m.memory } id fun s =>
      { s with phase := .active m, wakeEvent := wakes s }).Parted G held := by
  refine parted.move id confines rfl fun s' within => ?_
  obtain ⟨s,there,rfl⟩ := List.mem_map.mp within
  have proper := parted.sessions s there
  split
  · rename_i here
    have here : s.id = id := by simpa using here
    refine Or.inr ⟨here, fun v starts => ?_, ⟨fun v sent => ?_, proper.chart, ?_⟩⟩
    · cases starts with
      | given own =>
        have mine : r.estate G id (.object _) := Or.inr ⟨s, there, here, .given own⟩
        exact ((parted.divided.finds id _ mine).owned mine).mono confines.matures
      | data active =>
        cases active
        exact abides.data
      | options active own =>
        cases active
        exact abides.arguments _ own
    · apply confines.matures.finds
      have old := proper.mail v
      simp only [Session.letters, List.map_append, List.mem_append, List.mem_map,
        Option.mem_toList] at sent old
      rcases sent with (⟨e,own,rfl⟩ | boxed) | timed
      · rcases woken s e own with same | given
        · exact old (Or.inl (Or.inl ⟨e, same, rfl⟩))
        · exact parted.held _ given
      · exact old (Or.inl (Or.inr boxed))
      · exact old (Or.inr timed)
    · intro m' active
      cases active
      exact ⟨neat, fun v own => (abides.holdings v own).finds⟩
  · exact Or.inl ⟨s, there, proper.follows⟩

theorem Parts.of_follows (heap : r'.memory.heap = r.memory.heap) (charts : r'.charts = r.charts)
    (each : r.Parted G held → ∀ s' ∈ r'.sessions, ∃ s ∈ r.sessions, s.Follows r.memory.heap s') :
    Parts G held moving r r' := by
  intro parted
  refine ⟨parted.move "" ?_ charts fun s' within => Or.inl (each parted s' within), ?_⟩
  · rw [heap]
    exact .refl (parted.sound.home_closes _)
  · intro id _
    rw [heap]
    exact .refl _ _

theorem Parts.of_same (heap : r'.memory.heap = r.memory.heap) (sessions : r'.sessions = r.sessions)
    (charts : r'.charts = r.charts) : Parts G held moving r r' := by
  refine .of_follows heap charts fun parted s within => ?_
  rw [sessions] at within
  exact ⟨s, within, (parted.sessions s within).follows⟩

theorem Parts.alter (follows : r.Parted G held → ∀ s ∈ r.sessions, s.id = id →
    ∃ t ∈ r.sessions, t.Follows r.memory.heap (f s)) : Parts G held moving r (r.alter id f) := by
  refine .of_follows rfl rfl fun parted s' within => ?_
  obtain ⟨s,there,rfl⟩ := List.mem_map.mp within
  split
  · rename_i here
    exact follows parted s there (by simpa using here)
  · exact ⟨s, there, (parted.sessions s there).follows⟩

theorem Parts.alter_kit (same : ∀ s, (f s).kit = s.kit) :
    Parts G held moving r (r.alter id f) :=
  .alter fun parted s there _ => ⟨s, there, (parted.sessions s there).of_kit (same s)⟩

theorem Parts.refl (r : Router) : Parts G held moving r r := fun parted =>
  ⟨parted, fun _ _ => .refl _ _⟩

theorem Parts.trans (first : Parts G held moving r r') (second : Parts G held moving r' r'') :
    Parts G held moving r r'' := by
  intro parted
  obtain ⟨parted',spares⟩ := first parted
  obtain ⟨parted'',spares'⟩ := second parted'
  exact ⟨parted'', fun id still => (spares id still).trans (spares' id still)⟩

theorem Parts.lend {v : Value} (found : r.Parted G held → r.memory.heap.Finds v)
    (rest : Parts G (fun w => held w ∨ w = v) moving r r') : Parts G held moving r r' := by
  intro parted
  have holding : r.Parted G (fun w => held w ∨ w = v) :=
    ⟨parted.divided, fun w own => own.elim (parted.held w) fun here => here ▸ found parted,
      parted.sessions, parted.charts⟩
  obtain ⟨done,spares⟩ := rest holding
  exact ⟨⟨done.divided, fun w own => done.held w (Or.inl own), done.sessions, done.charts⟩, spares⟩

/-- What is built in a realm is nobody else's. -/
theorem Parts.grow (id : SessionId) {h : Heap} (grown : r.memory.heap.Extends h)
    (confines : r.Parted G held → Confines (r.realm G id) r.memory.heap h)
    (memory : r'.memory.heap = h) (sessions : r'.sessions = r.sessions)
    (charts : r'.charts = r.charts) : Parts G held moving r r' := by
  subst memory
  intro parted
  refine ⟨parted.move id (confines parted) charts fun s within => Or.inl ?_, fun id _ => ?_⟩
  · rw [sessions] at within
    exact ⟨s, within, (parted.sessions s within).follows⟩
  · exact .extend grown parted.sound fun v set => parted.divided.finds id v (Or.inl set)

instance : RouterM.Marking (Parts G held moving) where
  refl := .refl
  trans := .trans
  aside _ sessions _ memory backdrop :=
    .of_same (congrArg Memory.heap memory) sessions (congrArg (·.2.1) backdrop)
  litter t := .grow "" (Heap.extends_build _ t)
    (fun parted => ((parted.sound.home_closes _).build t).1) rfl rfl rfl
  note same := .alter_kit fun s => by
    have bole := same s
    simp only [Session.bole, Session.trunk, Session.stem, Prod.mk.injEq,
      Session.Stem.mk.injEq] at bole
    obtain ⟨scheduler,-,id,chart,-,arguments,mailbox,woken,-,-,phase,-⟩ := bole
    simp only [Session.kit, Session.letters, scheduler, id, chart, arguments, mailbox, woken, phase]
  doom := .alter_kit fun _ => rfl

end Router

namespace RouterM

open Router

variable {α : Type} {G : SessionId → Value → Prop} {held : Value → Prop}
  {moving : SessionId → Prop}

/-- The work leaves sessions parted. -/
abbrev Parting (G : SessionId → Value → Prop) (held : Value → Prop) (moving : SessionId → Prop)
    (x : RouterM α) : Prop := Leads (Parts G held moving) x

/-- The value is found wherever sessions are parted in this way. -/
def Known (G : SessionId → Value → Prop) (held : Value → Prop) (v : Value) : Prop :=
  ∀ r : Router, r.Parted G held → r.memory.heap.Finds v

theorem known_of_held {v : Value} (own : held v) : Known G held v := fun _ parted =>
  parted.held v own

theorem known_undefined : Known G held .undefined := fun _ _ => trivial

theorem mail_of_timers {r : Router} (parted : r.Parted G held) {s : Session} (there : s ∈ r.sessions)
    {t : Timer} (timed : t ∈ s.scheduler.timers) : r.memory.heap.Finds t.event.data :=
  (parted.sessions s there).mail _
    (List.mem_append_right _ (List.mem_map.mpr ⟨t, timed, rfl⟩))

theorem reschedule_parts {r : Router} {id : SessionId} {f : Session → Scheduler}
    (found : r.Parted G held → ∀ s ∈ r.sessions, s.id = id → ∀ t ∈ (f s).timers,
      r.memory.heap.Finds t.event.data) :
    Parts G held moving r (r.alter id fun s => { s with scheduler := f s }) := by
  refine .alter fun parted s there here => ⟨s, there, rfl, rfl, rfl, fun _ active => active, ?_⟩
  intro v within
  rcases List.mem_append.mp within with sent | timed
  · exact (parted.sessions s there).mail v (List.mem_append_left _ sent)
  · obtain ⟨t,own,rfl⟩ := List.mem_map.mp timed
    exact found parted s there here t own

section Mail

theorem kit_parts {id : SessionId} {f : Session → Session} (same : ∀ s, (f s).kit = s.kit) :
    Parting G held moving (updateSession id f) := fun _ => .alter_kit same

theorem setStatus_parts (id : SessionId) (status : SessionStatus) :
    Parting G held moving (setStatus id status) := setStatus_leads (kit_parts fun _ => rfl)

theorem post_parts {e : Event} (known : Known G held e.data) :
    Posting (Parts G held moving) e := by
  refine posting_of_counted (fun _ _ => .of_same rfl rfl rfl) fun id r => ?_
  refine .alter fun parted s there _ => ⟨s, there, rfl, rfl, rfl, fun _ active => active, ?_⟩
  intro v within
  have old := (parted.sessions s there).mail v
  simp only [Session.letters, List.map_append, List.map_cons, List.map_nil, List.mem_append,
    List.mem_singleton] at within old
  rcases within with (woken | sent | rfl) | timed
  · exact old (Or.inl (Or.inl woken))
  · exact old (Or.inl (Or.inr sent))
  · exact known r parted
  · exact old (Or.inr timed)

theorem deliver_parts (id : SessionId) {e : Event} (known : Known G held e.data) :
    Parting G held moving (deliver id e).run := deliver_leads id (post_parts known)

theorem dispatch_parts (source : SessionId) {o : OutgoingEvent} (cancelled : Bool)
    (known : Known G held o.data) : Parting G held moving (dispatch source o cancelled).run :=
  dispatch_leads (fun _ _ data => post_parts (data ▸ known)) source cancelled

theorem scheduleSend_parts (s : Session) {o : OutgoingEvent} (known : Known G held o.data) :
    Parting G held moving (scheduleSend s o).run := by
  refine scheduleSend_leads s fun now r => reschedule_parts fun parted s there _ t timed => ?_
  rcases List.mem_append.mp timed with old | new
  · exact mail_of_timers parted there old
  · cases List.mem_singleton.mp new
    exact known r parted

theorem cancelSend_parts (id : SessionId) (sendId : SendId) :
    Parting G held moving (cancelSend id sendId) := by
  unfold cancelSend
  refine .look fun r => ?_
  cases found : r.session? id with
  | none => exact .refl r
  | some s =>
    refine reschedule_parts fun parted _ _ _ t timed => ?_
    obtain ⟨t',before,same⟩ := Scheduler.disposeEach_events timed
    exact same ▸ mail_of_timers parted (List.mem_of_find?_eq_some found) before

theorem forward_parts (parent : SessionId) (invoke : InvokeId) {e : Event}
    (known : Known G held e.data) : Parting G held moving (forward parent invoke e).run :=
  forward_leads parent invoke (post_parts known)

/-- A report of a failure is built before it is sent. -/
theorem deliverFailure_parts (id : SessionId) (failure : Failure) : Parting G held moving (do
      let r ← get
      set { r with memory := { r.memory with heap := (Event.ofFailure r.memory.heap failure).1 } }
      discard (deliver id (Event.ofFailure r.memory.heap failure).2).run) := by
  refine .look fun r => ?_
  let report : Tree := .object [("message", .string failure.message)]
  let q : Router := { r with memory := { r.memory with heap := (r.memory.heap.build report).1 } }
  have built : Parts G held moving r q := Aloof.litter report
  intro parted
  have found := ((parted.sound.home_closes (r.estate G id)).build report).2.finds
  refine built.trans (.lend (fun _ => found) ?_) parted
  exact deliver_parts id (e := (Event.ofFailure r.memory.heap failure).2)
    (known_of_held (Or.inr rfl)) q

theorem fire_parts (id : SessionId) (index : Nat) : Parting G held moving (fire id index) := by
  unfold fire
  refine .look fun r => ?_
  cases found : r.session? id with
  | none => exact .refl r
  | some s =>
    have there := List.mem_of_find?_eq_some found
    have ran {held : Value → Prop} : Parting G held moving (updateSession id fun s' =>
        { s' with scheduler := (s'.scheduler.expire r.clock index).1 }) := by
      refine fun q => reschedule_parts fun parted s' there' _ t timed => ?_
      obtain ⟨t',before,same⟩ := Scheduler.expire_events timed
      exact same ▸ mail_of_timers parted there' before
    simp only
    cases fires : (s.scheduler.expire r.clock index).2 with
    | none => exact Leads.bind ran (fun _ => .pure _) r
    | some event =>
      obtain ⟨t,armed,-,-,same⟩ := Scheduler.expire_fires.mp fires
      refine .lend (v := event.data)
        (fun parted => same ▸ mail_of_timers parted there (List.mem_of_getElem? armed)) ?_
      refine Leads.bind ran (fun _ => ?_) r
      refine .bind (dispatch_parts _ _ (known_of_held (Or.inr rfl))) fun result => ?_
      cases result with
      | ok _ => exact .pure _
      | error e => exact deliverFailure_parts id _

end Mail

section Ending

theorem closing_parts (id : SessionId) (o : Outcome) (r : Router) :
    Parts G held moving r (closing id o r) := by
  have shut : Parts G held moving r (r.alter id (closed o)) := by
    refine .alter fun parted s there _ => ⟨s, there, rfl, rfl, rfl, fun _ => nofun, ?_⟩
    intro v within
    rcases List.mem_append.mp within with sent | timed
    · exact (parted.sessions s there).mail v (List.mem_append_left _ sent)
    · obtain ⟨t,own,rfl⟩ := List.mem_map.mp timed
      obtain ⟨t',before,same⟩ := Scheduler.disposeEach_events own
      exact same ▸ mail_of_timers parted there before
  exact shut.trans (.of_same rfl rfl rfl)

theorem finish_parts (id : SessionId) {o : Outcome} (known : Known G held o.result) :
    Parting G held moving (finish id o) :=
  finish_leads id o (closing_parts id o)
    (fun link => reportDone_leads (fun _ _ _ => .of_same rfl rfl rfl) link _ _ (post_parts known))
    (setStatus_parts id o.status)

theorem destroy_parts (id : SessionId) : Parting G held moving (destroy id) := by
  unfold destroy
  refine .bind (doom_native id) fun _ => .bind (close_native id) fun _ => .bind .get fun r => ?_
  split
  · exact finish_parts id known_undefined
  · exact .pure _

theorem cancelInvoke_parts (parent : SessionId) (invoke : InvokeId) :
    Parting G held moving (cancelInvoke parent invoke) :=
  cancelInvoke_leads (fun _ _ _ => .of_same rfl rfl rfl) destroy_parts parent invoke

theorem endInvoke_parts (parent : SessionId) (invoke : InvokeId)
    (result : Except RouterError SessionStatus) :
    Parting G held moving (endInvoke parent invoke result) :=
  endInvoke_leads (fun _ _ _ => .of_same rfl rfl rfl) parent invoke result

end Ending

section Beginning

/-- A new session has none but arguments that have been made for it. -/
theorem enter_parts {r r' : Router} {s : Session}
    (grown : r.Parted G held → r.memory.heap.Extends r'.memory.heap)
    (confines : r.Parted G held → Confines (r.realm G s.id) r.memory.heap r'.memory.heap)
    (owns : r.Parted G held → ∀ x, s.arguments = some x →
      Owns (r.realm G s.id) r'.memory.heap (.object x))
    (sessions : r'.sessions = r.sessions ++ [s]) (charts : r'.charts = r.charts)
    (fresh : s.phase = .fresh) (quiet : s.letters = []) (neat : s.chart.Neat) :
    Parts G held moving r r' := by
  have idle {m : Machine} (active : s.phase = .active m) : False := by
    rw [fresh] at active
    cases active
  intro parted
  refine ⟨parted.move s.id (confines parted) charts fun s' within => ?_, fun id _ => ?_⟩
  · rw [sessions] at within
    rcases List.mem_append.mp within with old | new
    · exact Or.inl ⟨s', old, (parted.sessions s' old).follows⟩
    · cases List.mem_singleton.mp new
      refine Or.inr ⟨rfl, fun v starts => ?_, ⟨?_, neat, fun m active => (idle active).elim⟩⟩
      · cases starts with
        | given own => exact owns parted _ own
        | data active => exact (idle active).elim
        | options active own => exact (idle active).elim
      · rw [quiet]
        exact fun v none => by cases none
  · exact .extend (grown parted) parted.sound fun v set => parted.divided.finds id v (Or.inl set)

theorem createSession_parts {chart : Chart} (neat : chart.Neat) (parent : Option ParentLink) :
    Parting G held moving (createSession chart parent none) := fun r =>
  enter_parts (fun _ => .refl _) (fun parted => .refl (parted.sound.home_closes _))
    (fun _ x none => by cases none) rfl rfl rfl rfl neat

theorem startSession_parts (id : SessionId) : Parting G held moving (startSession id).run := by
  refine startSession_leads fun r s m found _ _ made => ?_
  have begun : Parts G held moving r (Router.alter { r with memory := m.memory } id
      fun s => { s with phase := .active m.start }) := by
    intro parted
    have there := List.mem_of_find?_eq_some found
    obtain ⟨confines,owns⟩ := (parted.sound.home_closes (r.estate G id)).newObject
    subst made
    have abides : (Machine.create s.chart (machineOptions r.settings s) r.memory).start.Abides
        (r.realm G id) := by
      refine ⟨confines.closes, owns, fun x given => ?_, fun v own => ?_⟩
      · have mine : r.estate G id (.object x) :=
          Or.inr ⟨s, there, Router.session?_id found, .given given⟩
        exact ((parted.divided.finds id _ mine).owned mine).mono confines.matures
      · rw [List.mem_singleton.mp own]
        exact (Heap.Owns.of_bare rfl).toMeets
    refine ⟨parted.activate (·.wakeEvent) confines abides
      (parted.sessions s there).chart r.storage fun _ _ same => Or.inl same, fun id _ => ?_⟩
    exact .extend (Heap.extends_alloc _ _) parted.sound fun v set =>
      parted.divided.finds id v (Or.inl set)
  exact begun.trans (setStatus_parts id .starting _)

/-- The arguments of a service are copied for it. -/
theorem argumentsOf_confines {D : Realm} {h : Heap} {v : Value} (closes : h.Closes D)
    (finds : h.Finds v) (near : ∀ x, v.ref? = some x → D.near x) :
    h.Extends (argumentsOf h v).1 ∧ Confines D h (argumentsOf h v).1 ∧
      ∀ x, (argumentsOf h v).2 = some x → Owns D (argumentsOf h v).1 (.object x) := by
  cases v with
  | object ref =>
    have grown : h.Extends (h.deepClone (.object ref) .writable).1 :=
      (Heap.deepClone_carries closes.sound finds .writable).grown
    obtain ⟨confines,owns⟩ := closes.deepClone ⟨finds, near⟩ .writable
    generalize copy : h.deepClone (.object ref) .writable = made at grown confines owns
    obtain ⟨k,w⟩ := made
    simp only [argumentsOf, copy]
    cases w with
    | object copy =>
      refine ⟨grown, confines, fun x given => ?_⟩
      cases given
      exact owns
    | _ => exact ⟨grown, confines, fun x none => by cases none⟩
  | _ => exact ⟨.refl h, .refl closes, fun x none => by cases none⟩

theorem compile_neat {source : Source.ChartDef} {c : Chart}
    (compiled : Chart.compile [] source = .ok c) : c.Neat :=
  Chart.compile_customs (fun _ _ known => by cases known) compiled

/-- The chart of a service is known, or none of it is the host's. -/
theorem invokedChart_neat {r : Router} (charts : ∀ e ∈ r.charts, e.2.Neat) {data : InvokeData}
    {chart : Chart} (chosen : ((invokedChart data).run r).1 = .ok chart) : chart.Neat := by
  unfold invokedChart at chosen
  rw [get_attempt] at chosen
  simp only at chosen
  split at chosen
  · split at chosen
    · rename_i name _ _ c known
      cases chosen
      obtain ⟨before,after,split,_⟩ := List.lookup_eq_some_iff.mp known
      exact charts (name, chart) (split ▸ List.mem_append_right _ List.mem_cons_self)
    · cases chosen
  · split at chosen
    · simp only [pure_bind] at chosen
      split at chosen
      · cases chosen
      · split at chosen
        · rename_i compiled
          cases chosen
          exact compile_neat compiled
        · cases chosen
    · cases chosen
  · cases chosen

theorem enrolled_parts {data : InvokeData} {chart : Chart} (neat : chart.Neat)
    (known : Known G held data.parameters) (parent : SessionId) (r : Router) :
    Parts G held moving r (enrolled r parent data chart) := by
  have copied (parted : r.Parted G held) :=
    argumentsOf_confines (parted.sound.home_closes (r.estate G (idText r.memory.supply)))
      (known r parted) fun _ _ => trivial
  unfold enrolled
  generalize argumentsOf r.memory.heap data.parameters = made at copied
  obtain ⟨h,arguments⟩ := made
  exact enter_parts (fun parted => (copied parted).1) (fun parted => (copied parted).2.1)
    (fun parted x given => (copied parted).2.2 x given) rfl rfl rfl rfl neat

theorem beginInvoke_parts {data : InvokeData} (known : Known G held data.parameters)
    (parent : SessionId) : Parting G held moving (beginInvoke parent data).run := by
  intro r parted
  rcases beginInvoke_run r parent data with ⟨_,same⟩ | ⟨chart,chosen,_,run⟩
  · rw [same]
    exact Parts.refl r parted
  · rw [run]
    have neat := invokedChart_neat parted.charts chosen
    exact (enrolled_parts neat known parent r).trans (startSession_parts _ _) parted

end Beginning

end RouterM

end Statechart

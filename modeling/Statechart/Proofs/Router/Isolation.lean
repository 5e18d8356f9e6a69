import Statechart.Proofs.Router.Estates
import Statechart.Proofs.Router.Orphans
import Statechart.Proofs.Router.Outcomes

/- Sessions share nothing that can change. A machine in its turn keeps to what belongs to its session
   and to what it makes; its effects are copied where they are taken in. -/
namespace Statechart

open Heap (Confines Divided Owns Spares)

/-- What a machine works on is set down for an id, and the values that it has besides are held. -/
structure Machine.Lodged (G : SessionId → Value → Prop) (held : Value → Prop) (id : SessionId)
    (m : Machine) : Prop where
  data : G id (.object m.context.dataModel)
  arguments : ∀ x, m.options.arguments = some x → G id (.object x)
  holdings : ∀ v ∈ m.holdings, held v
  neat : m.chart.Neat

theorem Machine.Lodged.mono {G : SessionId → Value → Prop} {held held' : Value → Prop}
    {id : SessionId} {m : Machine} (lodged : m.Lodged G held id)
    (wider : ∀ v, held v → held' v) : m.Lodged G held' id :=
  ⟨lodged.data, lodged.arguments, fun v own => wider v (lodged.holdings v own), lodged.neat⟩

/-- What a session starts from is set down for it, and the values of its machine are held. -/
structure Session.Lodged (G : SessionId → Value → Prop) (held : Value → Prop) (s : Session) :
    Prop where
  starts : ∀ v, s.Starts v → G s.id v
  holdings : ∀ m, s.phase = .active m → ∀ v ∈ m.holdings, held v

theorem Session.Lodged.mono {G : SessionId → Value → Prop} {held held' : Value → Prop} {s : Session}
    (lodged : s.Lodged G held) (wider : ∀ v, held v → held' v) : s.Lodged G held' :=
  ⟨lodged.starts, fun m active v own => wider v (lodged.holdings m active v own)⟩

namespace RouterM

open Router Machine

variable {G : SessionId → Value → Prop} {held : Value → Prop} {moving : SessionId → Prop}
  {r : Router} {s taken : Session} {m n : Machine} {id : SessionId} {h : Heap}

section Machines

theorem lodged_active (lodged : s.Lodged G held) (parted : r.Parted G held) (there : s ∈ r.sessions)
    (phase : s.phase = .active m) : m.Lodged G held s.id where
  data := lodged.starts _ (.data phase)
  arguments _ own := lodged.starts _ (.options phase own)
  holdings := lodged.holdings m phase
  neat := ((parted.sessions s there).machine m phase).1

theorem lodged_abides (lodged : m.Lodged G held id) (parted : r.Parted G held)
    (memory : m.memory = r.memory) : m.Abides (r.realm G id) := by
  have heap : m.heap = r.memory.heap := congrArg Memory.heap memory
  have owned (v : Value) (own : G id v) : Owns (r.realm G id) m.heap v := by
    rw [heap]
    exact (parted.divided.finds id v (Or.inl own)).owned (Or.inl own)
  refine ⟨?_, owned _ lodged.data, fun x own => owned _ (lodged.arguments x own), ?_⟩
  · rw [heap]
    exact parted.sound.home_closes _
  · intro v own
    rw [heap]
    exact (parted.held v (lodged.holdings v own)).meets

/-- What the machine comes to keeps to the realm of its id. -/
abbrev Keeps (G : SessionId → Value → Prop) (held : Value → Prop) (id : SessionId) (r : Router)
    (m n : Machine) : Prop :=
  r.Parted G held → Minds (r.realm G id) (fun _ _ => False) m n

theorem work_keeps (lodged : m.Lodged G held id) (memory : m.memory = r.memory) (work : Work m n) :
    Keeps G held id r m n := fun parted =>
  work.minds (lodged_abides lodged parted memory) lodged.neat.behaves ⟨nofun, nofun⟩ nofun

theorem take_keeps (lodged : m.Lodged G held id) (memory : m.memory = r.memory) {input : Input}
    (known : ∀ e, input = .event e → held e.data) : Keeps G held id r m (m.take input) := by
  intro parted
  refine take_minds (lodged_abides lodged parted memory) lodged.neat.behaves (fun e own => ?_) nofun
  have heap : m.heap = r.memory.heap := congrArg Memory.heap memory
  rw [heap]
  exact (parted.held _ (known e own)).meets

theorem passOn_parts (id : SessionId) (chart : Chart) (report : Report) :
    Parting G held moving (passOn id chart report) :=
  passOn_leads id chart report (fun _ _ => kit_parts fun _ => rfl) fun _ => kit_parts fun _ => rfl

/-- A machine goes on, and no other session finds anything changed. -/
theorem keep_parts (mine : moving id) (lodged : m.Lodged G held id) (memory : m.memory = r.memory)
    (keeps : Keeps G held id r m n) : Parts G held moving r (keep id n r).2 := by
  have kept : Parts G held moving r (Router.alter { r with memory := n.memory } id
      fun s => { s with phase := .active { n with reports := [] } }) := by
    intro parted
    have minds := keeps parted
    have abides := minds.abides (lodged_abides lodged parted memory)
    have confines : Confines (r.realm G id) r.memory.heap n.heap := by
      have confined := minds.confines
      rwa [show m.heap = r.memory.heap from congrArg Memory.heap memory] at confined
    have neat : n.chart.Neat := minds.chart ▸ lodged.neat
    refine ⟨parted.activate (m := { n with reports := [] }) (·.wakeEvent) confines
      ⟨abides.closes, abides.data, abides.arguments, abides.holdings⟩ neat r.storage
      fun _ _ same => Or.inl same, fun other still => ?_⟩
    have elsewhere : other ≠ id := fun same => still (same ▸ mine)
    exact (parted.divided.spares confines elsewhere).mono fun _ => Or.inl
  exact kept.trans (Leads.forM (fun report _ => passOn_parts id _ report) _)

end Machines

section Turns

theorem perform_parts (s : Session) {effect : Effect}
    (known : ∀ v ∈ effect.values, Known G held v) : Parting G held moving (perform s effect).run := by
  cases effect with
  | send o =>
    have known : Known G held o.data := known _ List.mem_cons_self
    rw [perform]
    split
    · exact .attempt (.lift .get) fun r => dispatch_parts _ _ known
    · refine .attempt (.lift .get) fun r => ?_
      split
      · exact .attempt (scheduleSend_parts _ known) fun _ => .done _
      · exact .throw _
  | cancel sendId => exact .attempt (.lift (cancelSend_parts s.id sendId)) fun _ => .done _
  | cancelInvoke invoke => exact .lift (cancelInvoke_parts s.id invoke)
  | forward invoke e => exact forward_parts s.id invoke (known _ List.mem_cons_self)

theorem performAll_parts (s : Session) {effects : List Effect}
    (known : ∀ effect ∈ effects, ∀ v ∈ effect.values, Known G held v) :
    Parting G held moving (performAll s effects) := by
  refine .filterMapM fun effect within => ?_
  refine .bind (perform_parts s (known effect within)) fun result => ?_
  cases result with
  | ok _ => exact .pure _
  | error e => exact .pure _

theorem nextEvent?_follows (proper : s.Proper h) {e : Event}
    (next : nextEvent? s = some (e, taken)) : s.Follows h taken ∧ h.Finds e.data := by
  have mail := proper.mail
  rcases nextEvent?_eq_some next with ⟨woken,rfl⟩ | ⟨rest,none,sent,rfl⟩
  · simp only [Session.letters, woken, Option.toList_some, List.cons_append, List.map_cons,
      List.mem_cons, List.nil_append] at mail
    refine ⟨⟨rfl, rfl, rfl, fun _ active => active, fun v held => mail v (Or.inr held)⟩, ?_⟩
    exact mail _ (Or.inl rfl)
  · simp only [Session.letters, none, sent, Option.toList_none, List.nil_append, List.map_cons,
      List.cons_append, List.mem_cons] at mail
    refine ⟨⟨rfl, rfl, rfl, fun _ active => active, fun v held => mail v (Or.inr ?_)⟩,
      mail _ (Or.inl rfl)⟩
    simpa only [Session.letters, none, Option.toList_none, List.nil_append] using held

theorem input?_follows (proper : s.Proper h) {input : Input}
    (next : input? s = some (input, taken)) :
    s.Follows h taken ∧ ∀ e, input = .event e → h.Finds e.data := by
  rcases input?_eq_some next with ⟨e,rfl,found⟩ | ⟨other,rfl⟩
  · obtain ⟨follows,known⟩ := nextEvent?_follows proper found
    refine ⟨follows, fun e' own => ?_⟩
    cases own
    exact known
  · exact ⟨proper.follows, fun e own => absurd own (other e)⟩

theorem adopt_parts (there : s ∈ r.sessions) (follows : ∀ h, s.Proper h → s.Follows h taken) :
    Parts G held moving r (adopt s taken r).2 := by
  refine adopt_leads (fun _ => .of_same rfl rfl rfl) (fun q same => ?_) fun _ => setStatus_parts _ _
  refine .alter fun parted _ _ _ => ?_
  have within : s ∈ q.sessions := same ▸ there
  exact ⟨s, within, follows _ (parted.sessions s within)⟩

theorem answer_parts (mine : moving id) (lodged : m.Lodged G held id) {data : InvokeData}
    {pending : List (StateIndex × Nat)} (asked : m.control = .starts data pending)
    (failure : Option Failure) : Parting G held moving (answer id m failure) := by
  refine .bind (kit_parts fun _ => rfl) fun _ => .look fun q => ?_
  have remembering : Machine.Lodged G held id { m with memory := q.memory } :=
    ⟨lodged.data, lodged.arguments, lodged.holdings, lodged.neat⟩
  exact keep_parts mine remembering rfl
    (work_keeps remembering rfl (.startDone _ data pending failure asked))

theorem serveInvoke_parts (mine : moving s.id) (lodged : m.Lodged G held s.id) {data : InvokeData}
    {pending : List (StateIndex × Nat)} (asked : m.control = .starts data pending) :
    Parting G held moving (serveInvoke s m data) := by
  intro r
  have own : held data.parameters := by
    apply lodged.holdings
    simp [Machine.holdings, asked, Control.values]
  cases awaited : s.awaited with
  | none =>
    rw [serveInvoke_first awaited]
    refine Leads.bind (beginInvoke_parts (known_of_held own) s.id) (fun result => ?_) r
    cases result with
    | error e => exact answer_parts mine lodged asked _
    | ok child => exact .bind (kit_parts fun _ => rfl) fun _ => .pure _
  | some child =>
    rw [serveInvoke_again awaited]
    cases (r.session? child).bind startResult? with
    | none => exact .refl r
    | some result =>
      cases result with
      | ok status => exact answer_parts mine lodged asked none r
      | error e =>
        exact (endInvoke_parts s.id data.invokeId (.error e) r).trans
          (answer_parts mine lodged asked _ _)

theorem leave_parts (known : held m.context.result) (status : ExitStatus) :
    Parting G held moving (leave s m status) := by
  have ends (status : SessionStatus) : Parting G held moving (finish s.id { status }) :=
    finish_parts s.id known_undefined
  cases status with
  | completed =>
    exact finish_parts (o := { status := .completed, result := m.context.result }) s.id
      (known_of_held known)
  | destroyed => exact ends .destroyed
  | queueClosed => exact ends .queueClosed
  | suspended =>
    have lulled : Parting G held moving (updateSession s.id fun s =>
        { s with phase := .asleep, drowsy := false, idleDeadline := none }) := fun r => by
      refine .alter fun parted t there _ => ⟨t, there, rfl, rfl, rfl, fun _ => nofun, ?_⟩
      exact (parted.sessions t there).mail
    exact suspended_leads (fun _ _ => .of_same rfl rfl rfl) lulled (setStatus_parts _ _)

theorem take_parts (mine : moving s.id) (there : s ∈ r.sessions) (lodged : m.Lodged G held s.id)
    (memory : m.memory = r.memory) {input : Input} (next : input? s = some (input, taken))
    (known : ∀ e, input = .event e → held e.data) : Parts G held moving r ((do
      adopt s taken
      keep s.id (m.take input)
      return true : RouterM Bool) r).2 := by
  have adopted : Parts G held moving r (adopt s taken r).2 :=
    adopt_parts there fun _ proper => (input?_follows proper next).1
  have memory' : m.memory = (adopt s taken r).2.memory := by rw [adopt_memory, memory]
  exact adopted.trans (keep_parts mine lodged memory' (take_keeps lodged memory' known))

/-- A session goes on with its machine. -/
theorem goOn_parts (mine : moving s.id) (there : s ∈ r.sessions) (lodged : m.Lodged G held s.id)
    (memory : m.memory = r.memory) : Parts G held moving r (goOn s m r).2 := by
  have turn := goOn_turn s m
  generalize goOn s m = x at turn ⊢
  cases turn with
  | steps running => exact keep_parts mine lodged memory (work_keeps lodged memory (.step m running))
  | performs next _ control =>
    have held_effects (effect : Effect) (within : effect ∈ m.effects) (v : Value)
        (own : v ∈ effect.values) : held v := by
      apply lodged.holdings
      simp only [Machine.holdings, List.mem_append, List.mem_flatMap]
      exact Or.inl (Or.inr ⟨effect, within, own⟩)
    refine Leads.bind (performAll_parts s fun effect within v own =>
      known_of_held (held_effects effect within v own)) (fun failures => .look fun q => ?_) r
    have remembering : Machine.Lodged G held s.id { m with memory := q.memory } :=
      ⟨lodged.data, lodged.arguments, lodged.holdings, lodged.neat⟩
    exact keep_parts mine remembering rfl
      (work_keeps remembering rfl (.effectsDone _ next failures control))
  | serves data pending control => exact serveInvoke_parts mine lodged control r
  | takes input taken _ next =>
    cases input with
    | event e =>
      -- The event has left the mailbox, so nobody else vouches for its data.
      refine .lend (v := e.data)
        (fun parted => (input?_follows (parted.sessions s there) next).2 e rfl) ?_
      refine take_parts mine there (lodged.mono fun _ => Or.inl) memory next fun e' own => ?_
      cases own
      exact Or.inr rfl
    | _ => exact take_parts mine there lodged memory next fun _ own => by cases own
  | leaves status control =>
    refine Leads.bind (leave_parts (lodged.holdings _ ?_) status) (fun _ => .pure true) r
    simp [Machine.holdings]
  | aborts => exact Leads.bind (finish_parts s.id known_undefined) (fun _ => .pure false) r
  | breaks => exact breakDown_native s.id r
  | rests => exact .refl r

/-- A sleeping session is taken up from its snapshot, in a realm of its own. -/
theorem rouse_parts (mine : moving s.id) (lodged : s.Lodged G held) (neat : s.chart.Neat) {e : Event}
    (known : held e.data) : Parting G held moving (rouse s e) := by
  intro r
  unfold rouse
  rw [bind_run]
  rcases resume_run s r with ⟨error,run⟩ | ⟨b,m,resumed,run⟩
  · rw [run]
    exact Leads.bind (finish_parts s.id known_undefined) (fun _ => .pure false) r
  · rw [run]
    have taken : Parts G held moving r (Router.alter
        { r with storage := r.storage.remove s.id, memory := m.memory } s.id
        fun s => { s with phase := .active m.start, wakeEvent := some e }) := by
      intro parted
      obtain ⟨confines,abides,chart⟩ := Machine.resume_abides
        (parted.sound.home_closes (r.estate G s.id)) (fun x given => by
          have mine : r.estate G s.id (.object x) := Or.inl (lodged.starts _ (.given given))
          exact (parted.divided.finds s.id _ mine).owned mine) resumed
      refine ⟨parted.activate (m := m.start) (fun _ => some e) confines abides
        (chart ▸ neat) _ fun _ e' same => ?_, fun other still => ?_⟩
      · cases same
        exact Or.inr known
      · have elsewhere : other ≠ s.id := fun same => still (same ▸ mine)
        exact (parted.divided.spares confines elsewhere).mono fun _ => Or.inl
    exact taken

/-- A sleeping session is woken by an event, or ends. -/
theorem awake_parts (mine : moving s.id) (there : s ∈ r.sessions) (lodged : s.Lodged G held) :
    Parts G held moving r (awake s r).2 := by
  have waking := awake_waking s
  generalize awake s = x at waking ⊢
  cases waking with
  | ends => exact Leads.bind (finish_parts s.id known_undefined) (fun _ => .pure false) r
  | wakes e taken _ next =>
    intro parted
    have proper := parted.sessions s there
    have adopted {held : Value → Prop} : Parts G held moving r (adopt s taken r).2 :=
      adopt_parts there fun _ proper => (nextEvent?_follows proper next).1
    refine Parts.lend (v := e.data) (fun _ => (nextEvent?_follows proper next).2) ?_ parted
    have roused : Parting G (fun v => held v ∨ v = e.data) moving (rouse s e) :=
      rouse_parts mine (lodged.mono fun _ => Or.inl) proper.chart (Or.inr rfl)
    exact adopted.trans (roused _)
  | rests => exact .refl r

theorem turn_parts (lodged : ∀ s ∈ r.sessions, s.Lodged G held) (task : Task) :
    Parts G held (stirs task) r (turn task r).2 := by
  cases task with
  | timer id index => exact Leads.bind (fire_parts id index) (fun _ => .pure false) r
  | aftermath id => exact Leads.bind (finish_parts id known_undefined) (fun _ => .pure false) r
  | session id =>
    have turned := turn_turned id r
    generalize (turn (.session id) r).2 = q at turned ⊢
    cases turned with
    | goes s n named found phase =>
      have there := List.mem_of_find?_eq_some found
      intro parted
      have lodges := lodged_active (lodged s there) parted there phase
      exact goOn_parts named there (m := current r s n)
        ⟨lodges.data, lodges.arguments, lodges.holdings, lodges.neat⟩ rfl parted
    | wakes s named found =>
      have there := List.mem_of_find?_eq_some found
      exact awake_parts named there (lodged s there)
    | rests => exact .refl r

end Turns

end RouterM

namespace Router

open RouterM

variable {G : SessionId → Value → Prop} {held : Value → Prop} {moving : SessionId → Prop}
  {r r' : Router} {calls : List Call}

/-- What different sessions start from leads to nothing in common but what is constant. -/
abbrev Separate (r : Router) : Prop := r.Parted (fun _ _ => False) fun _ => False

/-- Sessions stay separate, and what belongs to those that do not move is left alone. -/
def Secludes (moving : SessionId → Prop) (r r' : Router) : Prop :=
  r.Separate → r'.Separate ∧
    ∀ id, ¬ moving id → Spares (r.Belongs id) r.memory.heap r'.memory.heap

/-- What belongs to the sessions can be set down for them, and all that is found can be held. -/
theorem Parts.secludes (parts : Parts r.Belongs r.memory.heap.Finds moving r r') :
    Secludes moving r r' := by
  intro separate
  have settled : r.Parted r.Belongs r.memory.heap.Finds :=
    ⟨separate.divided.mono fun _ _ own => Or.inr (own.elim id id), fun _ found => found,
      separate.sessions, separate.charts⟩
  obtain ⟨parted,spares⟩ := parts settled
  exact ⟨⟨parted.divided.mono fun _ _ own => own.elim False.elim Or.inr, fun _ => False.elim,
    parted.sessions, parted.charts⟩, spares⟩

theorem turn_secludes (task : Task) (r : Router) : Secludes (stirs task) r (turn task r).2 := by
  intro separate
  refine Parts.secludes (turn_parts (fun s there => ⟨fun v starts => ⟨s, there, rfl, starts⟩, ?_⟩)
    task) separate
  exact fun m active => ((separate.sessions s there).machine m active).2

/-- The sessions that move in a call: those that have a turn. -/
def Call.Stirs : Call → SessionId → Prop
  | .turn task => RouterM.stirs task
  | .settle _ | .advance .. => fun _ => True
  | _ => fun _ => False

/-- What a host is asked for. It gives new sessions no arguments, its actions are neat, and it sends
    what there is. Whatever it does to values, it leaves alone what the sessions have. -/
def Call.Fair (r : Router) : Call → Prop
  | .register _ chart => chart.Neat
  | .furnish h => r.memory.heap.Matures h ∧ ∀ id, Spares (r.Belongs id) r.memory.heap h
  | .create chart _ arguments => chart.Neat ∧ arguments = none
  | .send _ e | .deliver _ e | .forward _ _ e => r.memory.heap.Finds e.data
  | .dispatch _ o _ | .schedule _ o => r.memory.heap.Finds o.data
  | .serve _ data => r.memory.heap.Finds data.parameters
  | _ => True

def Fairly : Router → List Call → Prop
  | _, [] => True
  | r, call :: rest => call.Fair r ∧ Fairly (call.run r).2 rest

theorem Call.parts (call : Call) (still : ¬ call.TakesTurns) (fair : call.Fair r) :
    Parts r.Belongs r.memory.heap.Finds moving r (call.run r).2 := by
  cases call with
  | register name chart =>
    intro parted
    refine ⟨⟨parted.divided, parted.held, parted.sessions, fun e within => ?_⟩, fun _ _ => .refl _ _⟩
    rcases List.mem_cons.mp within with rfl | old
    · exact fair
    · exact parted.charts e (List.mem_filter.mp old).1
  | install p => exact .of_same rfl rfl rfl
  | furnish h =>
    obtain ⟨matures,spares⟩ := fair
    intro parted
    refine ⟨⟨parted.divided.stay matures fun id => ?_, fun v found => matures.finds found,
      fun s there => ?_, parted.charts⟩, fun id _ => spares id⟩
    · exact (spares id).mono fun _ own => or_self_iff.mp own
    · exact (parted.sessions s there).follows.proper (parted.sessions s there) matures
  | create chart parent arguments =>
    obtain ⟨neat,rfl⟩ := fair
    exact createSession_parts neat parent r
  | start id => exact startSession_parts id r
  | send id e =>
    refine sessionOf_leads (R := Parts r.Belongs r.memory.heap.Finds moving) id ?_ r
    exact fun q s found => post_parts (known_of_held fair) q s found
  | deliver id e => exact deliver_parts id (known_of_held fair) r
  | dispatch source o cancelled => exact dispatch_parts source cancelled (known_of_held fair) r
  | schedule id o =>
    refine sessionOf_leads (R := Parts r.Belongs r.memory.heap.Finds moving) id ?_ r
    exact fun q s _ => scheduleSend_parts s (known_of_held fair) q
  | cancelSend id sendId => exact cancelSend_parts id sendId r
  | forward parent invoke e => exact forward_parts parent invoke (known_of_held fair) r
  | serve parent data => exact beginInvoke_parts (known_of_held fair) parent r
  | served parent invoke result => exact endInvoke_parts parent invoke result r
  | cancelInvoke parent invoke => exact cancelInvoke_parts parent invoke r
  | close id => exact close_native id r
  | doom id => exact doom_native id r
  | destroy id => exact destroy_parts id r
  | shutdown => exact shutdown_native destroy_parts r
  | _ => exact absurd trivial still

theorem Call.secludes (call : Call) (fair : call.Fair r) :
    Secludes call.Stirs r (call.run r).2 := by
  by_cases turns : call.TakesTurns
  · have each : ∀ task, Parting (fun _ _ => False) (fun _ => False) (fun _ => True)
        (RouterM.turn task) :=
      fun task r separate => ⟨(turn_secludes task r separate).1, fun _ still => absurd trivial still⟩
    cases call with
    | turn task => exact turn_secludes task r
    | settle fuel =>
      exact fun separate => ⟨(settle_native each fuel r separate).1, fun _ still => absurd trivial still⟩
    | advance fuel millis =>
      exact fun separate =>
        ⟨(advance_native each fuel millis r separate).1, fun _ still => absurd trivial still⟩
    | _ => exact turns.elim
  · exact (call.parts turns fair).secludes

theorem calls_separate (separate : r.Separate) (fairly : Fairly r calls) :
    (calls.forM Call.run r).2.Separate := by
  induction calls generalizing r with
  | nil => exact separate
  | cons call rest ih =>
    obtain ⟨fair,later⟩ := fairly
    exact ih (call.secludes fair separate).1 later

theorem separate_created (settings : Settings) (storage : Storage) :
    Separate { settings, storage } := by
  have nothing {id : SessionId} {v : Value} :
      ¬ Router.estate { settings, storage } (fun _ _ => False) id v := by
    rintro (none | ⟨s,within,-⟩)
    · exact none
    · cases within
  refine ⟨⟨Heap.initial_sound, fun _ _ own => (nothing own).elim, fun _ _ _ _ reached => ?_⟩,
    fun _ => False.elim, fun _ within => ?_, fun _ within => ?_⟩
  · exact absurd reached (Heap.not_reached_of_none fun _ => nothing)
  · cases within
  · cases within

theorem Call.active {id : SessionId} {m : Machine} (call : Call) (still : ¬ call.Stirs id)
    (active : r.Active id m) : (call.run r).2.Active id m := by
  by_cases turns : call.TakesTurns
  · cases call with
    | turn task => exact active.tended (turn_tends task r) still
    | settle fuel => exact absurd trivial still
    | advance fuel millis => exact absurd trivial still
    | _ => exact turns.elim
  · exact active.tended (call.tends turns r) fun no => no

/-- Sessions share nothing that can change. Whatever a fair host does with a router, and whatever
    turns its tasks have taken: what the data models of two sessions lead to is constant, and what a
    literal makes is led to by none of them. Whatever is done next, each session that does not have a
    turn goes on with its machine, and over its data all expressions evaluate as before. -/
theorem sessions_share_nothing {settings : Settings} {storage : Storage} {calls : List Call}
    (fairly : Fairly { settings, storage } calls) :
    let r := (calls.forM Call.run { settings, storage }).2
    let h := r.memory.heap
    (∀ (i j : Nat) (s s' : Session) (m m' : Machine) (x : Ref), i ≠ j →
      r.sessions[i]? = some s → s.phase = .active m →
      r.sessions[j]? = some s' → s'.phase = .active m' →
      h.Reached (· = .object m.context.dataModel) x →
      h.Reached (· = .object m'.context.dataModel) x → h.access x = .constant) ∧
    (∀ (t : Tree) (scope : Scope), ∃ h' v, (Expr.literal t).eval scope h = .ok (h', v) ∧
      ∀ (s : Session) (m : Machine) (x : Ref), s ∈ r.sessions → s.phase = .active m →
        h'.Reached (· = v) x → ¬ h'.Reached (· = .object m.context.dataModel) x) ∧
    ∀ (call : Call) (s : Session) (m : Machine), call.Fair r → s ∈ r.sessions →
      s.phase = .active m → ¬ call.Stirs s.id →
      (call.run r).2.Active s.id m ∧ ∀ (e : Expr) (inState : String → Bool),
        Expr.Alike (h.itself (· = .object m.context.dataModel)) h (call.run r).2.memory.heap
          (e.eval ⟨m.context.dataModel, inState⟩ h)
          (e.eval ⟨m.context.dataModel, inState⟩ (call.run r).2.memory.heap) := by
  intro r h
  have separate : r.Separate := calls_separate (separate_created settings storage) fairly
  obtain ⟨agreed,-,-⟩ := calls_upholds calls _ (agreed_created settings storage) nofun
  have data {s : Session} {m : Machine} (there : s ∈ r.sessions) (phase : s.phase = .active m)
      (v : Value) (own : v = .object m.context.dataModel) : r.Belongs s.id v :=
    ⟨s, there, rfl, own ▸ .data phase⟩
  have finds {s : Session} {m : Machine} (there : s ∈ r.sessions) (phase : s.phase = .active m)
      (v : Value) (own : v = .object m.context.dataModel) : h.Finds v :=
    separate.divided.finds s.id v (Or.inr (data there phase v own))
  refine ⟨fun i j s s' m m' x other here phase here' phase' reached reached' => ?_,
    fun t scope => ⟨_, _, rfl, fun s m x there phase made => ?_⟩,
    fun call s m fair there phase still => ⟨?_, fun e inState => ?_⟩⟩
  · have there := List.mem_of_getElem? here
    have there' := List.mem_of_getElem? here'
    have differ : s.id ≠ s'.id := agreed.id_ne other here here'
    exact separate.divided.apart s.id s'.id x differ
      (reached.mono fun v own => Or.inr (data there phase v own))
      (reached'.mono fun v own => Or.inr (data there' phase' v own))
  · exact Heap.literal_apart separate.sound (finds there phase) t made
  · exact call.active still ⟨s, agreed.session? there, phase⟩
  · have spares := (call.secludes fair separate).2 s.id still
    exact (spares.mono (data there phase)).eval_alike separate.sound (finds there phase _ rfl) e inState

end Router

namespace Relayed

open Source Router

def post (event target value : String) : ActionDef :=
  .send ⟨some event, none, some target, none, none, none, none, none, none, [], some ⟨some value, none⟩⟩

/-- Told to go, it sends itself an object of its own, and passes on what it is shown of it. -/
def relay (next : SessionId) : ChartDef where
  name := none
  initial := none
  data := [⟨"order", ⟨none, some (.object [("size", .string "big")])⟩⟩]
  extra := none
  states := [.mk (.simple "a" .state
    [⟨some ["go"], none, none, .external, [post "note" "#_internal" "order"]⟩,
     ⟨some ["note"], none, none, .external, [post "pass" ("#_scxml_" ++ next) "_event.data"]⟩]) []]

def first : SessionId := idText 0

def second : SessionId := idText 1

def chart : Chart := Chart.compiled [] (relay second)

def calls : List Call :=
  [.create chart none none, .create chart none none, .start first, .start second, .settle 50,
   .send first (.external ⟨["go"]⟩), .settle 50]

def visited : Router := (calls.forM Call.run { settings := {}, storage := .memory [] }).2

def property? (h : Heap) (key : String) (x : Ref) : Option Ref :=
  (h.slot? x key).bind (·.value.ref?)

theorem reached_of_property {h : Heap} {A : Value → Prop} {key : String} {x y : Ref}
    (reached : h.Reached A x) (own : property? h key x = some y) : h.Reached A y := by
  obtain ⟨slot,there,leads⟩ := Option.bind_eq_some_iff.mp own
  exact reached.slot there leads

/-- Where the data of the event is that the session at a place has bound. -/
def shown? (r : Router) (i : Nat) : Option Ref :=
  (r.sessions[i]?).bind fun s =>
    match s.phase with
    | .active m =>
      (property? r.memory.heap "_event" m.context.dataModel).bind (property? r.memory.heap "data")
    | _ => none

theorem reached_of_shown {r : Router} {i : Nat} {x : Ref} (shown : shown? r i = some x) : ∃ s m,
    r.sessions[i]? = some s ∧ s.phase = .active m ∧
      r.memory.heap.Reached (· = .object m.context.dataModel) x := by
  obtain ⟨s,here,shown⟩ := Option.bind_eq_some_iff.mp shown
  split at shown
  · rename_i m active
    obtain ⟨bound,event,data⟩ := Option.bind_eq_some_iff.mp shown
    exact ⟨s, m, here, active, reached_of_property (reached_of_property (.root rfl rfl) event) data⟩
  · cases shown

/-- What has been passed on is in both sessions, and nobody can change it. -/
theorem relayed_constant : Fairly { settings := {}, storage := .memory [] } calls ∧ ∃ x,
    (∃ s m s' m', visited.sessions[0]? = some s ∧ s.phase = .active m ∧
      visited.sessions[1]? = some s' ∧ s'.phase = .active m' ∧
      visited.memory.heap.Reached (· = .object m.context.dataModel) x ∧
      visited.memory.heap.Reached (· = .object m'.context.dataModel) x) ∧
    visited.memory.heap.access x = .constant := by
  have neat : chart.Neat := RouterM.compile_neat (Chart.compile_eq_compiled (by decide +kernel))
  have fairly : Fairly { settings := {}, storage := .memory [] } calls :=
    ⟨⟨neat, rfl⟩, ⟨neat, rfl⟩, trivial, trivial, trivial, trivial, trivial, trivial⟩
  have both : (shown? visited 0).isSome = true ∧ shown? visited 0 = shown? visited 1 := by
    decide +kernel
  obtain ⟨x,shown⟩ := Option.isSome_iff_exists.mp both.1
  obtain ⟨s,m,here,active,reached⟩ := reached_of_shown shown
  obtain ⟨s',m',here',active',reached'⟩ := reached_of_shown (both.2.symm.trans shown)
  have ends : (calls.forM Call.run { settings := {}, storage := .memory [] }).2 = visited := rfl
  have separate := sessions_share_nothing fairly
  rw [ends] at separate
  generalize visited = r at *
  exact ⟨fairly, x, ⟨s, m, s', m', here, active, here', active', reached, reached'⟩,
    separate.1 0 1 s s' m m' x (by decide) here active here' active' reached reached'⟩

end Relayed

end Statechart

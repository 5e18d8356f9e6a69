import Statechart.Proofs.Router.Sessions

/- The deeds that a router's work is made of.

   Whatever tasks take turns, and in whatever order, the registry of services is touched by four
   operations only: a service is begun, cancelled, given up because it did not start, or its
   session finishes. Between them machines move and work is done aside. -/
namespace Statechart

namespace Router

inductive Deed where
  | aside
  /-- The machine of a session moves, is put to sleep or is woken. -/
  | move (session : SessionId)
  | begin (parent : SessionId) (data : InvokeData)
  | cancel (parent : SessionId) (invoke : InvokeId)
  /-- The service whose start was awaited did not start. -/
  | giveUp (parent : SessionId) (invoke : InvokeId) (child : SessionId)
  | finish (session : SessionId) (outcome : Outcome)

/-- The router goes on with the same registry and all machines but one left alone. -/
structure Moved (id : SessionId) (r r' : Router) : Prop where
  registry : r'.invocations = r.invocations
  own : ∀ s, r.session? id = some s → ∃ s', r'.session? id = some s' ∧ s.Lives s'
  others : ∀ other s, other ≠ id → r.session? other = some s →
    ∃ s', r'.session? other = some s' ∧ s.Rests s'

/-- What a deed makes of a router. Those that touch the registry are operations of the router. -/
inductive Does : Router → Deed → Router → Prop where
  | aside {r r' : Router} (rested : r.Rested r') : Does r .aside r'
  | move {r r' : Router} {id : SessionId} (moved : Moved id r r') : Does r (.move id) r'
  | begin (r : Router) (parent : SessionId) (data : InvokeData) :
      Does r (.begin parent data) ((RouterM.beginInvoke parent data).run r).2
  | cancel (r : Router) (parent : SessionId) (invoke : InvokeId) :
      Does r (.cancel parent invoke) (RouterM.cancelInvoke parent invoke r).2
  | giveUp {r : Router} (parent : SessionId) (invoke : InvokeId) {child : SessionId} {s : Session}
      {e : RouterError} (found : r.session? child = some s)
      (failed : RouterM.startResult? s = some (.error e)) :
      Does r (.giveUp parent invoke child) (RouterM.endInvoke parent invoke (.error e) r).2
  | finish {r : Router} {id : SessionId} {s : Session} (outcome : Outcome)
      (found : r.session? id = some s) (going : s.outcome = none) :
      Does r (.finish id outcome) (RouterM.finish id outcome r).2

section History

variable {ι : Type}

/-- Something holds of every step of a history, which lists the steps with the routers they lead
    to. -/
def Throughout (P : Router → ι → Router → Prop) : Router → List (ι × Router) → Prop
  | _, [] => True
  | r, (d, r') :: rest => P r d r' ∧ Throughout P r' rest

def after : Router → List (ι × Router) → Router
  | r, [] => r
  | _, (_, r') :: rest => after r' rest

theorem after_append (r : Router) (first second : List (ι × Router)) :
    after r (first ++ second) = after (after r first) second := by
  induction first generalizing r with
  | nil => rfl
  | cons step rest ih => exact ih step.2

theorem throughout_append {P : Router → ι → Router → Prop} {r : Router}
    {first second : List (ι × Router)} :
    Throughout P r (first ++ second) ↔
      Throughout P r first ∧ Throughout P (after r first) second := by
  induction first generalizing r with
  | nil => simp [Throughout, after]
  | cons step rest ih => simp [Throughout, after, ih, and_assoc]

end History

/-- A history leads from one router to the other in which only some machines move. -/
def Reaches (moving : SessionId → Prop) (r r' : Router) : Prop :=
  ∃ history, Throughout Does r history ∧ (∀ step ∈ history, ∀ id, step.1 = .move id → moving id) ∧
    after r history = r'

section Reaches

variable {moving : SessionId → Prop} {r r' r'' : Router}

theorem Does.reaches {d : Deed} (does : Does r d r') (moves : ∀ id, d = .move id → moving id) :
    Reaches moving r r' := by
  refine ⟨[(d, r')], ⟨does, trivial⟩, fun step within id moved => ?_, rfl⟩
  cases List.mem_singleton.mp within
  exact moves id moved

theorem Rested.reaches (rested : r.Rested r') : Reaches moving r r' :=
  (Does.aside rested).reaches fun _ other => by cases other

theorem Reaches.refl (r : Router) : Reaches moving r r := ⟨[], trivial, fun _ => nofun, rfl⟩

theorem Reaches.trans (first : Reaches moving r r') (second : Reaches moving r' r'') :
    Reaches moving r r'' := by
  obtain ⟨history,does,moves,rfl⟩ := first
  obtain ⟨later,does',moves',rfl⟩ := second
  refine ⟨history ++ later, throughout_append.mpr ⟨does, does'⟩, fun step within => ?_,
    after_append r history later⟩
  rcases List.mem_append.mp within with within | within
  · exact moves step within
  · exact moves' step within

theorem Reaches.mono {others : SessionId → Prop} (reaches : Reaches moving r r')
    (more : ∀ id, moving id → others id) : Reaches others r r' := by
  obtain ⟨history,does,moves,ends⟩ := reaches
  exact ⟨history, does, fun step within id moved => more id (moves step within id moved), ends⟩

instance : RouterM.Lasting (Reaches moving) := ⟨.refl, .trans⟩

end Reaches

theorem Moved.alter {r : Router} {id : SessionId} {f : Session → Session}
    (lives : ∀ s : Session, s.id = id → s.Lives (f s)) : Moved id r (r.alter id f) where
  registry := rfl
  own := by
    intro s found
    rw [session?_alter r (fun s here => (lives s here).id.trans here), if_pos rfl, found]
    exact ⟨f s, rfl, lives s (session?_id found)⟩
  others := by
    intro other s elsewhere found
    rw [session?_alter r (fun s here => (lives s here).id.trans here), if_neg elsewhere]
    exact ⟨s, found, .refl s⟩

end Router

namespace RouterM

variable {α : Type} {moving : SessionId → Prop}

/-- The work is made of deeds, and only some machines move. -/
abbrev Made (moving : SessionId → Prop) (x : RouterM α) : Prop := Leads (Router.Reaches moving) x

theorem Leads.made {x : RouterM α} (rests : Restful x) : Made moving x := fun r =>
  (rests r).reaches

theorem updateSession_made {id : SessionId} {f : Session → Session} (mine : moving id)
    (lives : ∀ s : Session, s.id = id → s.Lives (f s)) : Made moving (updateSession id f) := fun _ =>
  (Router.Does.move (.alter lives)).reaches fun _ own => by cases own; exact mine

theorem get_bind (f : Router → RouterM α) (r : Router) :
    ((get : RouterM Router) >>= f) r = f r r := rfl

theorem finish_idle {r : Router} {id : SessionId}
    (ended : ¬ ∃ s, r.session? id = some s ∧ s.outcome = none) (o : Outcome) :
    finish id o r = ((), r) := by
  rw [finish, get_bind]
  cases found : r.session? id with
  | none => rfl
  | some s =>
    cases concluded : s.outcome with
    | none => exact absurd ⟨s, found, concluded⟩ ended
    | some o => simp only [concluded, Option.isSome_some, if_true]; rfl

theorem finish_made (id : SessionId) (o : Outcome) : Made moving (finish id o) := by
  intro r
  by_cases ends : ∃ s, r.session? id = some s ∧ s.outcome = none
  · obtain ⟨s,found,going⟩ := ends
    exact (Router.Does.finish o found going).reaches fun _ other => by cases other
  · rw [finish_idle ends]
    exact .refl r

theorem keep_made {id : SessionId} (mine : moving id) (m : Machine) : Made moving (keep id m) := by
  refine .bind (fun r => Router.Rested.reaches (.of_same rfl rfl)) fun _ => ?_
  refine .bind (updateSession_made mine fun s _ => ⟨rfl, rfl, rfl, fun ended => ended⟩) fun _ => ?_
  exact .forM fun report _ => (passOn_rests id _ report).made

theorem perform_made (s : Session) (effect : Effect) : Made moving (perform s effect).run := by
  cases effect with
  | send e =>
    rw [perform]
    split
    · exact .attempt (.lift .get) fun r => (dispatch_rests _ _ _).made
    · refine .attempt (.lift .get) fun r => ?_
      split
      · exact .attempt (scheduleSend_rests _ e).made fun _ => .done _
      · exact .throw _
  | cancel sendId => exact .attempt (.lift (cancelSend_rests s.id sendId).made) fun _ => .done _
  | cancelInvoke invoke => exact .lift fun r =>
    (Router.Does.cancel r s.id invoke).reaches fun _ other => by cases other
  | forward invoke e => exact (forward_rests s.id invoke e).made

theorem performAll_made (s : Session) (effects : List Effect) :
    Made moving (performAll s effects) := by
  refine .filterMapM fun effect _ => .bind (perform_made s effect) fun result => ?_
  cases result with
  | ok _ => exact .pure _
  | error e => exact .pure _

theorem serveInvoke_made {s : Session} (mine : moving s.id) (m : Machine) (data : InvokeData) :
    Made moving (serveInvoke s m data) := by
  have answer : ∀ failure, Made moving (do
      updateSession s.id fun s => { s with awaited := none }
      keep s.id ({ m with memory := (← get).memory }.startDone failure)
      return true) := by
    intro failure
    refine .bind (Leads.made (updateSession_rests fun _ _ => .of_gist rfl)) fun _ => ?_
    exact .bind .get fun r => .bind (keep_made mine _) fun _ => .pure _
  unfold serveInvoke
  simp only
  split
  · have begun : Made moving (beginInvoke s.id data).run := fun r =>
      (Router.Does.begin r s.id data).reaches fun _ other => by cases other
    refine .bind begun fun result => ?_
    cases result with
    | error e => exact answer _
    | ok child => exact .bind (Leads.made (updateSession_rests fun _ _ => .of_gist rfl)) fun _ => .pure _
  · rename_i child awaited
    refine .look fun r => ?_
    cases found : r.session? child with
    | none => exact .refl r
    | some c =>
      simp only [Option.bind_some]
      cases started : startResult? c with
      | none => exact .refl r
      | some result =>
        cases result with
        | ok status => exact answer none r
        | error e =>
          have given : Router.Reaches moving r _ :=
            (Router.Does.giveUp s.id data.invokeId found started).reaches fun _ other => by cases other
          exact given.trans (answer _ _)

theorem nextEvent?_eq_some {s taken : Session} {e : Event} (next : nextEvent? s = some (e, taken)) :
    s.wakeEvent = some e ∧ taken = { s with wakeEvent := none } ∨
    ∃ rest, s.wakeEvent = none ∧ s.mailbox = e :: rest ∧ taken = { s with
      mailbox := rest, status := if s.status = .waiting then .running else s.status } := by
  unfold nextEvent? at next
  split at next
  · cases next
    exact Or.inl ⟨‹_›, rfl⟩
  · cases next
    exact Or.inr ⟨_, ‹_›, ‹_›, rfl⟩
  · cases next

/-- A session is changed by what ends its waiting only if that is an event. -/
theorem input?_eq_some {s taken : Session} {input : Input} (next : input? s = some (input, taken)) :
    (∃ e, input = .event e ∧ nextEvent? s = some (e, taken)) ∨
      (∀ e, input ≠ .event e) ∧ taken = s := by
  unfold input? at next
  split at next
  · cases next
    exact Or.inr ⟨fun _ own => (by cases own), rfl⟩
  · split at next
    · cases next
      exact Or.inr ⟨fun _ own => (by cases own), rfl⟩
    · split at next
      · rename_i found
        cases next
        exact Or.inl ⟨_, rfl, found⟩
      · split at next
        · cases next
        · cases next
          exact Or.inr ⟨fun _ own => (by cases own), rfl⟩

theorem nextEvent?_rests {s taken : Session} {e : Event}
    (next : nextEvent? s = some (e, taken)) :
    s.Rests taken ∧ (taken.status = s.status ∨ taken.status = .running) := by
  rcases nextEvent?_eq_some next with ⟨_,rfl⟩ | ⟨rest,_,_,rfl⟩
  · exact ⟨.of_gist rfl, Or.inl rfl⟩
  · by_cases waited : s.status = .waiting
    · rw [if_pos waited]
      exact ⟨⟨⟨rfl, rfl, rfl, fun ended => by cases ended⟩, Or.inl rfl⟩, Or.inr rfl⟩
    · rw [if_neg waited]
      exact ⟨.of_gist rfl, Or.inl rfl⟩

theorem input?_rests {s taken : Session} {input : Input} (next : input? s = some (input, taken)) :
    s.Rests taken ∧ (taken.status = s.status ∨ taken.status = .running) := by
  rcases input?_eq_some next with ⟨_,_,found⟩ | ⟨_,rfl⟩
  · exact nextEvent?_rests found
  · exact ⟨.refl taken, Or.inl rfl⟩

theorem adopt_rested {r : Router} {s taken : Session} (found : r.session? s.id = some s)
    (rests : s.Rests taken) (status : taken.status = s.status ∨ taken.status = .running) :
    r.Rested (adopt s taken r).2 := by
  refine adopt_leads (fun _ => .of_same rfl rfl) (fun q same => ?_) fun changed => ?_
  · refine .alter (fun _ _ => rests.id) fun s' found' => ?_
    have there : q.session? s.id = some s := by
      rw [Router.session?, same]
      exact found
    cases there.symm.trans found'
    exact rests
  · exact setStatus_rests s.id (by rw [status.resolve_left changed]; rfl)

theorem leave_made {s : Session} (mine : moving s.id) (m : Machine) (status : ExitStatus) :
    Made moving (leave s m status) := by
  cases status with
  | completed => exact finish_made s.id _
  | destroyed => exact finish_made s.id _
  | queueClosed => exact finish_made s.id _
  | suspended =>
    exact suspended_leads (fun _ _ => Router.Rested.reaches (.of_same rfl rfl))
      (updateSession_made mine fun _ _ => ⟨rfl, rfl, rfl, fun ended => ended⟩)
      (setStatus_rests s.id rfl).made

section Turn

variable {s : Session} {m : Machine}

theorem goOn_running (running : m.isBlocked = false) : goOn s m = do
    keep s.id m.step
    return true := by
  unfold goOn
  simp only [running, Bool.not_false, if_true]

theorem goOn_effects {next : AfterEffects} (blocked : m.isBlocked = true)
    (control : m.control = .effects next) : goOn s m = do
      let failures ← performAll s m.effects
      keep s.id ({ m with memory := (← get).memory }.effectsDone failures)
      return true := by
  unfold goOn
  simp only [blocked, control, Bool.not_true, Bool.false_eq_true, if_false]

theorem goOn_starts {data : InvokeData} {pending : List (StateIndex × Nat)}
    (control : m.control = .starts data pending) : goOn s m = serveInvoke s m data := by
  unfold goOn Machine.isBlocked
  simp only [control, Bool.not_true, Bool.false_eq_true, if_false]

theorem goOn_input {input : Input} {taken : Session} (control : m.control = .waiting)
    (next : input? s = some (input, taken)) : goOn s m = do
      adopt s taken
      keep s.id (m.take input)
      return true := by
  unfold goOn Machine.isBlocked
  simp only [control, next, Bool.not_true, Bool.false_eq_true, if_false]

theorem goOn_exited {status : ExitStatus} (control : m.control = .exited status) : goOn s m = do
    leave s m status
    return true := by
  unfold goOn Machine.isBlocked
  simp only [control, Bool.not_true, Bool.false_eq_true, if_false]

theorem goOn_aborted {fault : Fault} (control : m.control = .aborted fault) : goOn s m = do
    failed s.id fault
    return false := by
  unfold goOn Machine.isBlocked
  simp only [control, Bool.not_true, Bool.false_eq_true, if_false]

theorem goOn_crashed (control : m.control = .crashed) : goOn s m = do
    updateSession s.id fun s => { s with isOpen := false }
    wake (.aftermath s.id)
    return false := by
  unfold goOn Machine.isBlocked
  simp only [control, Bool.not_true, Bool.false_eq_true, if_false]

theorem goOn_nothing (idle : m.control = .idle ∨ m.control = .waiting ∧ input? s = none) :
    goOn s m = pure false := by
  unfold goOn Machine.isBlocked
  rcases idle with control | ⟨control,next⟩
  · simp only [control, Bool.not_true, Bool.false_eq_true, if_false]
  · simp only [control, next, Bool.not_true, Bool.false_eq_true, if_false]

/-- All that a session with a machine can do in its turn, by what the machine waits for. -/
inductive Turn (s : Session) (m : Machine) : RouterM Bool → Prop where
  | steps (running : m.isBlocked = false) : Turn s m (do
      keep s.id m.step
      return true)
  | performs (next : AfterEffects) (blocked : m.isBlocked = true)
      (control : m.control = .effects next) : Turn s m (do
        let failures ← performAll s m.effects
        keep s.id ({ m with memory := (← get).memory }.effectsDone failures)
        return true)
  | serves (data : InvokeData) (pending : List (StateIndex × Nat))
      (control : m.control = .starts data pending) : Turn s m (serveInvoke s m data)
  | takes (input : Input) (taken : Session) (control : m.control = .waiting)
      (next : input? s = some (input, taken)) : Turn s m (do
        adopt s taken
        keep s.id (m.take input)
        return true)
  | leaves (status : ExitStatus) (control : m.control = .exited status) : Turn s m (do
      leave s m status
      return true)
  | aborts (fault : Fault) (control : m.control = .aborted fault) : Turn s m (do
      failed s.id fault
      return false)
  | breaks (control : m.control = .crashed) : Turn s m (do
      updateSession s.id fun s => { s with isOpen := false }
      wake (.aftermath s.id)
      return false)
  | rests (idle : m.control = .idle ∨ m.control = .waiting ∧ input? s = none) :
      Turn s m (pure false)

theorem goOn_turn (s : Session) (m : Machine) : Turn s m (goOn s m) := by
  by_cases running : m.isBlocked = false
  · rw [goOn_running running]
    exact .steps running
  have blocked : m.isBlocked = true := by simpa using running
  cases control : m.control with
  | idle =>
    rw [goOn_nothing (Or.inl control)]
    exact .rests (Or.inl control)
  | starting | macrostep | invoking =>
    rw [Machine.isBlocked, control] at blocked
    cases blocked
  | effects next =>
    rw [goOn_effects blocked control]
    exact .performs next blocked control
  | starts data pending =>
    rw [goOn_starts control]
    exact .serves data pending control
  | waiting =>
    cases next : input? s with
    | none =>
      rw [goOn_nothing (Or.inr ⟨control, next⟩)]
      exact .rests (Or.inr ⟨control, next⟩)
    | some pair =>
      rw [goOn_input control next]
      exact .takes pair.1 pair.2 control next
  | exited status =>
    rw [goOn_exited control]
    exact .leaves status control
  | aborted fault =>
    rw [goOn_aborted control]
    exact .aborts fault control
  | crashed =>
    rw [goOn_crashed control]
    exact .breaks control

end Turn

theorem goOn_reaches {r : Router} {s : Session} (mine : moving s.id) (m : Machine)
    (found : r.session? s.id = some s) : Router.Reaches moving r (goOn s m r).2 := by
  have turn := goOn_turn s m
  generalize goOn s m = x at turn ⊢
  cases turn with
  | steps => exact Leads.bind (keep_made mine m.step) (fun _ => .pure true) r
  | performs =>
    refine Leads.bind (performAll_made s m.effects) (fun failures => ?_) r
    exact .bind .get fun r => .bind (keep_made mine _) fun _ => .pure _
  | serves data => exact serveInvoke_made mine m data r
  | takes input taken _ next =>
    obtain ⟨rests,status⟩ := input?_rests next
    have took := adopt_rested found rests status
    have going : Made moving (do
        keep s.id (m.take input)
        return true) := .bind (keep_made mine _) fun _ => .pure _
    exact took.reaches.trans (going _)
  | leaves status => exact Leads.bind (leave_made mine m status) (fun _ => .pure true) r
  | aborts => exact Leads.bind (finish_made s.id _) (fun _ => .pure false) r
  | breaks =>
    have shut : Restful (updateSession s.id fun s => { s with isOpen := false }) :=
      updateSession_rests fun _ _ => .of_gist rfl
    exact Leads.bind shut.made (fun _ => .bind (wake_rests _).made fun _ => .pure _) r
  | rests => exact .refl r

theorem rouse_made {s : Session} (mine : moving s.id) (e : Event) : Made moving (rouse s e) := by
  refine .bind (resume_rests s).made fun result => ?_
  cases result with
  | ok m =>
    exact .bind (updateSession_made mine fun _ _ => ⟨rfl, rfl, rfl, fun ended => ended⟩)
      fun _ => .pure _
  | error e => exact .bind (finish_made s.id _) fun _ => .pure _

/-- All that a session that is asleep can do in its turn. -/
inductive Waking (s : Session) : RouterM Bool → Prop where
  | ends (status : SessionStatus) (final : status = .destroyed ∨ status = .queueClosed) :
      Waking s (do
        finish s.id { status }
        return false)
  | wakes (e : Event) (taken : Session) (alive : s.doomed = false)
      (next : nextEvent? s = some (e, taken)) : Waking s (do
        adopt s taken
        rouse s e)
  | rests : Waking s (pure false)

theorem awake_waking (s : Session) : Waking s (awake s) := by
  unfold awake
  split
  · exact .ends .destroyed (Or.inl rfl)
  · rename_i alive
    cases next : nextEvent? s with
    | some pair => exact .wakes pair.1 pair.2 (by simpa using alive) next
    | none =>
      simp only
      split
      · exact .rests
      · exact .ends .queueClosed (Or.inr rfl)

theorem awake_reaches {r : Router} {s : Session} (mine : moving s.id)
    (found : r.session? s.id = some s) : Router.Reaches moving r (awake s r).2 := by
  have waking := awake_waking s
  generalize awake s = x at waking ⊢
  cases waking with
  | ends => exact Leads.bind (finish_made s.id _) (fun _ => .pure false) r
  | wakes e taken _ next =>
    obtain ⟨rests,status⟩ := nextEvent?_rests next
    exact (adopt_rested found rests status).reaches.trans (rouse_made mine e _)
  | rests => exact .refl r

def movesIn : Task → SessionId → Prop
  | .session id => (· = id)
  | _ => fun _ => False

/-- What the turn of a session comes to: with a machine it goes on, asleep it may wake up. -/
inductive Turned (r : Router) (id : SessionId) : Router → Prop where
  | goes (s : Session) (m : Machine) (named : s.id = id) (found : r.session? s.id = some s)
      (phase : s.phase = .active m) : Turned r id (goOn s (current r s m) r).2
  | wakes (s : Session) (named : s.id = id) (found : r.session? s.id = some s)
      (phase : s.phase = .asleep) : Turned r id (awake s r).2
  | rests : Turned r id r

theorem turn_turned (id : SessionId) (r : Router) : Turned r id (turn (.session id) r).2 := by
  cases found : r.session? id with
  | none =>
    simp only [turn, get_bind, found]
    exact .rests
  | some s =>
    have named := Router.session?_id found
    have here : r.session? s.id = some s := by rw [named, found]
    cases phase : s.phase with
    | active m =>
      simp only [turn, get_bind, found, phase]
      exact .goes s m named here phase
    | asleep =>
      simp only [turn, get_bind, found, phase]
      exact .wakes s named here phase
    | _ =>
      simp only [turn, get_bind, found, phase]
      exact .rests

theorem turn_made (task : Task) : Made (movesIn task) (turn task) := by
  cases task with
  | timer id index => exact .bind (fire_rests id index).made fun _ => .pure _
  | aftermath id => exact .bind (finish_made id _) fun _ => .pure _
  | session id =>
    intro r
    have turned := turn_turned id r
    generalize (turn (.session id) r).2 = q at turned ⊢
    cases turned with
    | goes s m named found => exact goOn_reaches named (current r s m) found
    | wakes s named found => exact awake_reaches named found
    | rests => exact .refl r

theorem settle_made (fuel : Nat) : Made (fun _ => True) (settle fuel) := by
  induction fuel with
  | zero => exact .pure _
  | succ fuel ih =>
    rw [settle]
    refine .bind .get fun r => ?_
    split
    · exact .pure _
    · refine .bind (fun r => (turn_made _ r).mono fun _ _ => trivial) fun goes => ?_
      split
      · exact .bind (fun r => Router.Rested.reaches (.of_same rfl rfl)) fun _ => ih
      · exact ih

end RouterM

end Statechart

import Statechart.Proofs.Chart.Bounds
import Statechart.Proofs.Router.Deeds

/- What becomes of the registry of services.

   An entry says which session serves an invoke of a parent. Operations of the router find it by
   the parent and the invoke id alone, so a deed can take away the entry of a service that it is
   not about. -/
namespace Statechart

namespace Router

def without (r : Router) (parent : SessionId) (invoke : InvokeId) : Router :=
  { r with invocations := r.invocations.filter (·.1 ≠ (parent, invoke)) }

theorem childOf_without (r : Router) (parent p : SessionId) (invoke i : InvokeId) :
    (r.without parent invoke).childOf p i =
      if (p, i) = (parent, invoke) then none else r.childOf p i :=
  lookup_filter r.invocations (parent, invoke) (p, i)

theorem registered?_session {r : Router} {id : SessionId} {s : Session}
    (registered : r.registered? id = some s) : r.session? id = some s ∧ s.isRegistered = true := by
  simpa [registered?, Option.filter_eq_some_iff] using registered

/-- Sessions and registry are the same. -/
def Alike (r r' : Router) : Prop := r'.sessions = r.sessions ∧ r'.invocations = r.invocations

instance : RouterM.Indifferent Alike where
  refl _ := ⟨rfl, rfl⟩
  trans first second := ⟨second.1.trans first.1, second.2.trans first.2⟩
  alike registry sessions := ⟨sessions, registry⟩

theorem Alike.session? {r r' : Router} (alike : r.Alike r') (id : SessionId) :
    r'.session? id = r.session? id := by
  unfold Router.session?
  rw [alike.1]

theorem Alike.childOf {r r' : Router} (alike : r.Alike r') (parent : SessionId)
    (invoke : InvokeId) : r'.childOf parent invoke = r.childOf parent invoke := by
  unfold Router.childOf
  rw [alike.2]

end Router

namespace RouterM

open Router

theorem wake_alike (t : Task) : Leads Alike (wake t) := wake_leads t

theorem setStatus_alike (id : SessionId) (status : SessionStatus) (r : Router) :
    (r.alter id fun s => { s with status }).Alike (setStatus id status r).2 :=
  Leads.bind .get (fun _ => .forM fun s _ => wake_alike (.session s.id)) _

theorem setStatus_session (id : SessionId) (status : SessionStatus) (r : Router)
    (other : SessionId) :
    (setStatus id status r).2.session? other =
      if other = id then (r.session? id).map fun s => { s with status } else r.session? other := by
  rw [(setStatus_alike id status r).session?]
  exact session?_alter (f := fun s => { s with status }) r (fun _ here => here) other

/-- What finishing makes of the session that finishes. -/
def closed (o : Outcome) (s : Session) : Session :=
  { s with
    outcome := some o, isOpen := false, scheduler := s.scheduler.disposeAll
    phase := .ended, isRegistered := false, idleDeadline := none }

/-- The router when a session has been closed and before its parent is told. -/
def closing (id : SessionId) (o : Outcome) (r : Router) : Router :=
  { r.alter id (closed o) with stats := { r.stats with finished := r.stats.finished + 1 } }

theorem closing_session (id : SessionId) (o : Outcome) (r : Router) (other : SessionId) :
    (closing id o r).session? other =
      if other = id then (r.session? id).map (closed o) else r.session? other :=
  session?_alter (f := closed o) r (fun _ here => here) other

theorem finish_eq {r : Router} {id : SessionId} {s : Session} (found : r.session? id = some s)
    (going : s.outcome = none) (o : Outcome) :
    finish id o r = setStatus id o.status
      (match s.parent with
        | some link => (reportDone link o.status o.result (closing id o r)).2
        | none => closing id o r) := by
  rw [finish, get_bind]
  simp only [found, going, Option.isSome_none, Bool.false_eq_true, if_false]
  cases s.parent with
  | none => rfl
  | some link => rfl

theorem reportDone_rests (link : ParentLink) (status : SessionStatus) (result : Value)
    (r : Router) :
    (r.without link.session link.invokeId).Rested (reportDone link status result r).2 := by
  unfold reportDone
  rw [get_bind]
  by_cases told : ((r.invocations.lookup (link.session, link.invokeId)).isSome &&
      decide (status = .completed)) = true
  · simp only [told, if_true]
    exact deliver_rests link.session _ (r.without link.session link.invokeId)
  · simp only [told]
    exact .refl _

theorem finish_registry {r : Router} {id : SessionId} {s : Session}
    (found : r.session? id = some s) (going : s.outcome = none) (o : Outcome)
    (parent : SessionId) (invoke : InvokeId) :
    (finish id o r).2.childOf parent invoke =
      match s.parent with
      | some link => (r.without link.session link.invokeId).childOf parent invoke
      | none => r.childOf parent invoke := by
  rw [finish_eq found going, (setStatus_alike _ _ _).childOf]
  cases s.parent with
  | none => rfl
  | some link =>
    have same := (reportDone_rests link o.status o.result (closing id o r)).registry
    unfold Router.childOf
    exact congrArg (List.lookup (parent, invoke)) same

theorem finish_others {r : Router} {id : SessionId} {s : Session}
    (found : r.session? id = some s) (going : s.outcome = none) (o : Outcome)
    {other : SessionId} (elsewhere : other ≠ id) {t : Session} (there : r.session? other = some t) :
    ∃ t', (finish id o r).2.session? other = some t' ∧ t.Rests t' := by
  have kept : (closing id o r).session? other = some t := by
    rw [closing_session, if_neg elsewhere, there]
  rw [finish_eq found going, setStatus_session, if_neg elsewhere]
  cases s.parent with
  | none => exact ⟨t, kept, .refl t⟩
  | some link => exact (reportDone_rests link o.status o.result _).sessions other t kept

theorem finish_own {r : Router} {id : SessionId} {s : Session}
    (found : r.session? id = some s) (going : s.outcome = none) (o : Outcome) :
    ∃ s', (finish id o r).2.session? id = some s' ∧ s'.parent = s.parent ∧ s'.outcome = some o ∧
      s'.phase = .ended := by
  have kept : (closing id o r).session? id = some (closed o s) := by
    rw [closing_session, if_pos rfl, found]
    rfl
  have told : ∃ s', (match s.parent with
      | some link => (reportDone link o.status o.result (closing id o r)).2
      | none => closing id o r).session? id = some s' ∧ (closed o s).Rests s' := by
    cases s.parent with
    | none => exact ⟨_, kept, .refl _⟩
    | some link => exact (reportDone_rests link o.status o.result _).sessions id _ kept
  obtain ⟨s',found',rests⟩ := told
  rw [finish_eq found going, setStatus_session, if_pos rfl, found']
  exact ⟨_, rfl, rests.parent, rests.outcome, rests.phase.resolve_right nofun⟩

theorem deliver_alike {r : Router} {id : SessionId} {p : Session} (e : Event)
    (registered : r.registered? id = some p) (isOpen : p.isOpen = true) :
    (r.alter p.id fun s => { s with mailbox := s.mailbox ++ [e] }).Alike
      ((deliver id e).run r).2 := by
  rw [deliver, get_attempt, registered]
  unfold send
  simp only [isOpen, if_true]
  have woken := wake_alike (.session p.id)
    ((r.countIn p.id).alter p.id fun s => { s with mailbox := s.mailbox ++ [e] })
  exact ⟨woken.1, woken.2⟩

theorem finish_report {r : Router} {id : SessionId} {s p : Session} {link : ParentLink} {o : Outcome}
    (found : r.session? id = some s) (going : s.outcome = none) (linked : s.parent = some link)
    (completed : o.status = .completed) (elsewhere : link.session ≠ id)
    (registered : r.registered? link.session = some p) (isOpen : p.isOpen = true) :
    (finish id o r).2.session? link.session = some { p with
      mailbox := p.mailbox ++
        if (r.childOf link.session link.invokeId).isSome then
          [link.deliver (.doneInvoke link.invokeId) o.result Address.sessionType]
        else [] } := by
  have present := registered?_session registered
  let q := (closing id o r).without link.session link.invokeId
  have kept : q.session? link.session = some p := by
    change (closing id o r).session? link.session = some p
    rw [closing_session, if_neg elsewhere, present.1]
  have there : q.registered? link.session = some p := by
    rw [registered?, kept]
    simp [present.2]
  rw [finish_eq found going, linked, setStatus_session, if_neg elsewhere]
  simp only
  rw [reportDone, get_bind, completed]
  have entry : (closing id o r).invocations.lookup (link.session, link.invokeId) =
      r.childOf link.session link.invokeId := rfl
  rw [entry]
  cases r.childOf link.session link.invokeId with
  | none =>
    refine Eq.trans kept ?_
    simp
  | some child =>
    have told := deliver_alike (link.deliver (.doneInvoke link.invokeId) o.result
      Address.sessionType) there isOpen
    have named : p.id = link.session := session?_id kept
    have kept' : q.session? p.id = some p := by
      rw [named]
      exact kept
    refine Eq.trans (told.session? link.session) ?_
    refine Eq.trans (session?_alter (f := fun s => { s with mailbox := s.mailbox ++ [_] }) q
      (fun _ here => here) _) ?_
    rw [if_pos named.symm, kept']
    rfl

/-- A session that would end at once if it were destroyed. -/
def neverStarted (s : Session) : Prop := s.phase = .fresh ∧ s.outcome = none

theorem destroy_run (id : SessionId) (r : Router) :
    destroy id r = (match (close id (doom id r).2).2.session? id with
      | some { phase := .fresh, .. } => finish id { status := .destroyed }
      | _ => pure ()) (close id (doom id r).2).2 := rfl

theorem destroy_found {r : Router} {id : SessionId} {s : Session}
    (found : (close id (doom id r).2).2.session? id = some s) :
    destroy id r = (match s.phase with
      | .fresh => finish id { status := .destroyed }
      | _ => pure ()) (close id (doom id r).2).2 := by
  rw [destroy_run, found]
  obtain ⟨_,_,_,_,_,_,_,_,_,_,_,_,_,_,phase,_⟩ := s
  cases phase with
  | fresh => rfl
  | active m => rfl
  | asleep => rfl
  | ended => rfl

theorem destroy_eq {r : Router} {id : SessionId} {s : Session} (found : r.session? id = some s) :
    ∃ q, r.Rested q ∧ q.session? id = some { s with doomed := true, isOpen := false } ∧
      destroy id r = (match s.phase with
        | .fresh => finish id { status := .destroyed }
        | _ => pure ()) q := by
  let q := (close id (doom id r).2).2
  have doomed : (doom id r).2.session? id = some { s with doomed := true } := by
    refine Eq.trans ((wake_alike (.session id) _).session? id) ?_
    refine Eq.trans (session?_alter (f := fun s => { s with doomed := true }) r
      (fun _ here => here) id) ?_
    rw [if_pos rfl, found]
    rfl
  have closed : q.session? id = some { s with doomed := true, isOpen := false } := by
    refine Eq.trans ((wake_alike (.session id) _).session? id) ?_
    refine Eq.trans (session?_alter (f := fun s => { s with isOpen := false }) (doom id r).2
      (fun _ here => here) id) ?_
    rw [if_pos rfl, doomed]
    rfl
  have run := destroy_found closed
  exact ⟨q, (doom_rests id r).trans (close_rests id _), closed, run⟩

theorem cancelInvoke_none {r : Router} {parent : SessionId} {invoke : InvokeId}
    (entry : r.childOf parent invoke = none) : cancelInvoke parent invoke r = ((), r) := by
  rw [cancelInvoke, get_bind, entry]
  rfl

/-- Cancelling takes out the entry; the session that it named is destroyed, and ends at once if it
    was never started. -/
theorem cancelInvoke_spec {r : Router} {parent child : SessionId} {invoke : InvokeId}
    (entry : r.childOf parent invoke = some child) :
    ((∀ c, r.registered? child = some c → ¬ neverStarted c) ∧
      (r.without parent invoke).Rested (cancelInvoke parent invoke r).2) ∨
    ∃ c c' q, r.registered? child = some c ∧ neverStarted c ∧ (r.without parent invoke).Rested q ∧
      q.session? child = some c' ∧ c'.parent = c.parent ∧ c'.outcome = none ∧
      (cancelInvoke parent invoke r).2 = (finish child { status := .destroyed } q).2 := by
  have run : cancelInvoke parent invoke r =
      (if (r.registered? child).isSome then destroy child else pure ()) (r.without parent invoke) := by
    rw [cancelInvoke, get_bind, entry]
    rfl
  rw [run]
  cases registered : r.registered? child with
  | none => exact Or.inl ⟨fun _ absurd => (by cases absurd), .refl _⟩
  | some c =>
    have found : (r.without parent invoke).session? child = some c :=
      (registered?_session registered).1
    obtain ⟨q,rested,found',destroyed⟩ := destroy_eq found
    simp only [Option.isSome_some, if_true]
    rw [destroyed]
    by_cases unstarted : neverStarted c
    · right
      refine ⟨c, _, q, rfl, unstarted, rested, found', rfl, unstarted.2, ?_⟩
      rw [unstarted.1]
    · left
      refine ⟨fun c' same => (by cases same; exact unstarted), ?_⟩
      cases phase : c.phase with
      | fresh =>
        have concluded : ¬ ∃ s, q.session? child = some s ∧ s.outcome = none := by
          rintro ⟨s,here,going⟩
          cases found'.symm.trans here
          exact unstarted ⟨phase, going⟩
        simp only [finish_idle concluded]
        exact rested
      | active m => exact rested
      | asleep => exact rested
      | ended => exact rested

instance : Lasting fun r r' : Router => r' = r := ⟨fun _ => rfl, fun first second => second.trans first⟩

theorem compiledChart_same (json : Json) : Leads (fun r r' => r' = r)
    (match (Manuscript.ofJson json).read Source.readChart with
    | none => throw (.core .json)
    | some source =>
      match Chart.compile [] source with
      | .ok c => return c
      | .error f => throw (.core f) : RouterE Chart).run := by
  split
  · exact .throw _
  · split
    · exact .done _
    · exact .throw _

theorem invokedChart_same (data : InvokeData) :
    Leads (fun r r' => r' = r) (invokedChart data).run := by
  unfold invokedChart
  refine .attempt (.lift .get) fun r => ?_
  split
  · split
    · exact .done _
    · exact .throw _
  · split
    · exact .attempt (.done _) compiledChart_same
    · exact .throw _
  · exact .throw _

theorem attempt_ok {α β : Type} {x : RouterE α} {f : α → RouterE β} {r r' : Router} {a : α}
    (run : x.run r = (.ok a, r')) : (x >>= f).run r = (f a).run r' := by
  rw [ExceptT.run_bind, bind_run, run]

theorem attempt_error {α β : Type} {x : RouterE α} {f : α → RouterE β} {r r' : Router}
    {e : RouterError} (run : x.run r = (.error e, r')) : (x >>= f).run r = (.error e, r') := by
  rw [ExceptT.run_bind, bind_run, run]
  rfl

end RouterM

namespace Router

/-- The router can begin the service: it is one of its own kind, and there is a chart for it. -/
def Admits (r : Router) (data : InvokeData) : Prop :=
  Address.isSessionType data.type = true ∧ ∃ c, ((RouterM.invokedChart data).run r).1 = .ok c

end Router

namespace RouterM

open Router

/-- The arguments that a service is given: a copy of the parameters. -/
def argumentsOf (h : Heap) : Value → Heap × Option Ref
  | .object ref =>
    match h.deepClone (.object ref) .writable with
    | (h, .object copy) => (h, some copy)
    | (h, _) => (h, none)
  | _ => (h, none)

/-- The session of a service is entered in the place of whatever was there. It is not started. -/
def enrolled (r : Router) (parent : SessionId) (data : InvokeData) (chart : Chart) : Router :=
  let (h, arguments) := argumentsOf r.memory.heap data.parameters
  let link : ParentLink :=
    { session := parent, invokeId := data.invokeId, uniqueId := data.uniqueId }
  let n := (createSession chart (some link) arguments
    { r with memory := { r.memory with heap := h } }).2
  { n with
    invocations := ((parent, data.invokeId), idText r.memory.supply) ::
      n.invocations.filter (·.1 ≠ (parent, data.invokeId))
    stats := { n.stats with invokes := n.stats.invokes + 1 } }

theorem beginInvoke_run (r : Router) (parent : SessionId) (data : InvokeData) :
    (¬ r.Admits data ∧ ((beginInvoke parent data).run r).2 = r) ∨
    ∃ chart, ((invokedChart data).run r).1 = .ok chart ∧ r.Admits data ∧
      ((beginInvoke parent data).run r).2 =
        ((startSession (idText r.memory.supply)).run (enrolled r parent data chart)).2 := by
  by_cases kind : Address.isSessionType data.type = true
  · obtain ⟨result,chosen⟩ : ∃ result, (invokedChart data).run r = (result, r) :=
      ⟨_, Prod.ext rfl (invokedChart_same data r)⟩
    unfold beginInvoke
    simp only [kind, Bool.not_true, Bool.false_eq_true, if_false]
    cases result with
    | error e =>
      left
      rw [attempt_error chosen]
      refine ⟨?_, rfl⟩
      rintro ⟨_,c,some⟩
      rw [chosen] at some
      cases some
    | ok chart =>
      right
      rw [attempt_ok chosen]
      refine ⟨chart, by rw [chosen], ⟨kind, chart, by rw [chosen]⟩, ?_⟩
      have started : ∀ q : Router, ((do
          startSession (idText r.memory.supply)
          return idText r.memory.supply : RouterE SessionId).run q).2 =
          ((startSession (idText r.memory.supply)).run q).2 := by
        intro q
        rw [ExceptT.run_bind, bind_run]
        cases ((startSession (idText r.memory.supply)).run q).1 with
        | ok _ => rfl
        | error e => rfl
      exact started (enrolled r parent data chart)
  · left
    refine ⟨fun admitted => kind admitted.1, ?_⟩
    unfold beginInvoke
    simp only [kind, Bool.not_false, if_true]
    rfl

theorem beginInvoke_spec (r : Router) (parent : SessionId) (data : InvokeData) :
    (¬ r.Admits data ∧ ((beginInvoke parent data).run r).2 = r) ∨
    (r.Admits data ∧ ∃ q : Router, (∀ id s, r.session? id = some s → q.session? id = some s) ∧
      q.invocations = ((parent, data.invokeId), idText r.memory.supply) ::
        (r.without parent data.invokeId).invocations ∧
      q.Rested ((beginInvoke parent data).run r).2) := by
  rcases beginInvoke_run r parent data with refused | ⟨chart,_,admitted,run⟩
  · exact Or.inl refused
  · refine Or.inr ⟨admitted, enrolled r parent data chart, fun id s found => ?_, rfl, ?_⟩
    · exact createSession_session (r := { r with memory := _ }) chart _ _ found
    · rw [run]
      exact startSession_rests _ _

end RouterM

end Statechart

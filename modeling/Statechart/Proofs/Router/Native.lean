import Statechart.Proofs.Router.Registry

/- What the router does of its own accord, for whatever it leaves alone.

   Most of its work marks sessions, fills mailboxes and dooms. A relation that minds none of these
   holds wherever the work is made of them; one that minds the statuses that sessions show holds
   where no status is set, one that minds mail and timers where none are sent and set. One that does
   not mind the registry either, and how sessions end, holds wherever machines are left alone. -/
namespace Statechart

/-- What the router marks no session in. -/
structure Session.Stem where
  id : SessionId
  chart : Chart
  parent : Option ParentLink
  arguments : Option Ref
  mailbox : List Event
  wakeEvent : Option Event
  doomed : Bool
  outcome : Option Outcome
  phase : Phase
  isRegistered : Bool

def Session.stem (s : Session) : Session.Stem :=
  ⟨s.id, s.chart, s.parent, s.arguments, s.mailbox, s.wakeEvent, s.doomed, s.outcome, s.phase,
    s.isRegistered⟩

/-- What a session shows, and what the router marks no session in. -/
def Session.trunk (s : Session) : SessionStatus × Session.Stem := (s.status, s.stem)

/-- The timers besides. -/
def Session.bole (s : Session) : Scheduler × SessionStatus × Session.Stem := (s.scheduler, s.trunk)

namespace RouterM

open Router

variable {R : Router → Router → Prop}

/-- Relations that do not mind marks and doom, and may mind statuses, mail and timers. -/
class Marking (R : Router → Router → Prop) : Prop extends Aloof R where
  note : ∀ {r : Router} {id : SessionId} {f : Session → Session},
    (∀ s, (f s).bole = s.bole) → R r (r.alter id f)
  doom : ∀ {r : Router} {id : SessionId}, R r (r.alter id fun s => { s with doomed := true })

/-- Relations that do not mind marks, mail and doom, and may mind the statuses of sessions. -/
class Watchful (R : Router → Router → Prop) : Prop extends Marking R where
  mark : ∀ {r : Router} {id : SessionId} {f : Session → Session},
    (∀ s, (f s).trunk = s.trunk) → R r (r.alter id f)
  post : ∀ {r : Router} {s : Session} {e : Event}, r.session? s.id = some s →
    R r ((send s e).run r).2
  note same := mark fun s => congrArg Prod.snd (same s)

/-- Relations that do not mind marks, mail and doom. -/
class Native (R : Router → Router → Prop) : Prop extends Watchful R where
  touch : ∀ {r : Router} {id : SessionId} {f : Session → Session},
    (∀ s, (f s).stem = s.stem) → R r (r.alter id f)
  mark same := touch fun s => congrArg Prod.snd (same s)

/-- Relations that do not mind the registry and the end of sessions either. -/
class Carefree (R : Router → Router → Prop) : Prop extends Native R where
  registry : ∀ {r r' : Router}, r'.sessions = r.sessions → r'.depths = r.depths →
    r'.memory = r.memory → R r r'
  closing : ∀ {r : Router} {id : SessionId} {o : Outcome}, R r (closing id o r)

section Marking

variable [Marking R]

theorem note_marking {id : SessionId} {f : Session → Session}
    (same : ∀ s, (f s).bole = s.bole) : Leads R (updateSession id f) := fun _ =>
  Marking.note same

theorem close_native (id : SessionId) : Leads R (close id) :=
  .bind (note_marking fun _ => rfl) fun _ => wake_leads _

theorem doom_native (id : SessionId) : Leads R (doom id) :=
  .bind (fun _ => Marking.doom) fun _ => wake_leads _

/-- What a session does whose machine broke down. -/
theorem breakDown_native (id : SessionId) : Leads R (do
    updateSession id fun s => { s with isOpen := false }
    wake (.aftermath id)
    return false) :=
  .bind (note_marking fun _ => rfl) fun _ => .bind (wake_leads _) fun _ => .pure _

theorem ring_native (now : Nat) (s : Session) : Leads R (ring now s) := by
  unfold ring
  refine .bind (.forM fun timer _ => ?_) fun _ => ?_
  · obtain ⟨t,index⟩ := timer
    simp only
    split
    · exact wake_leads _
    · exact .pure _
  · split
    · exact .bind (note_marking fun _ => rfl) fun _ => wake_leads _
    · exact .pure _

theorem destroy_native (ends : ∀ id o, Leads R (finish id o)) (id : SessionId) :
    Leads R (destroy id) := by
  unfold destroy
  refine .bind (doom_native id) fun _ => .bind (close_native id) fun _ => .bind .get fun r => ?_
  split
  · exact ends id _
  · exact .pure _

theorem shutdown_native (destroys : ∀ id, Leads R (destroy id)) : Leads R shutdown := by
  unfold shutdown
  exact .bind .get fun r => .forM fun s _ => destroys s.id

section Registry

variable (forgets : ∀ (r : Router) (parent : SessionId) (invoke : InvokeId),
  R r (r.without parent invoke))
include forgets

theorem reportDone_leads (link : ParentLink) (status : SessionStatus) (result : Value)
    (posts : Posting R (link.deliver (.doneInvoke link.invokeId) result Address.sessionType)) :
    Leads R (reportDone link status result) := by
  intro r
  unfold reportDone
  rw [get_bind]
  have forgotten := forgets r link.session link.invokeId
  by_cases told : ((r.invocations.lookup (link.session, link.invokeId)).isSome &&
      decide (status = .completed)) = true
  · simp only [told, if_true]
    exact Lasting.trans forgotten
      (deliver_leads link.session posts (r.without link.session link.invokeId))
  · simp only [told]
    exact forgotten

theorem cancelInvoke_leads (destroys : ∀ id, Leads R (destroy id)) (parent : SessionId)
    (invoke : InvokeId) : Leads R (cancelInvoke parent invoke) := by
  intro r
  rw [cancelInvoke, get_bind]
  cases r.childOf parent invoke with
  | none => exact Lasting.refl r
  | some child =>
    refine Lasting.trans (forgets r parent invoke) ?_
    change R _ ((if (r.registered? child).isSome then destroy child else pure () : RouterM Unit)
      (r.without parent invoke)).2
    split
    · exact destroys child _
    · exact Lasting.refl _

theorem endInvoke_leads (parent : SessionId) (invoke : InvokeId)
    (result : Except RouterError SessionStatus) : Leads R (endInvoke parent invoke result) := by
  cases result with
  | ok status => exact .pure _
  | error e => exact fun r => forgets r parent invoke

end Registry

/-- A session ends, is told of where it was invoked, and shows it. -/
theorem finish_leads (id : SessionId) (o : Outcome) (shuts : ∀ r, R r (closing id o r))
    (reports : ∀ link, Leads R (reportDone link o.status o.result))
    (shows : Leads R (setStatus id o.status)) : Leads R (finish id o) := by
  intro r
  by_cases ends : ∃ s, r.session? id = some s ∧ s.outcome = none
  · obtain ⟨s,found,going⟩ := ends
    rw [finish_eq found going]
    cases s.parent with
    | none => exact Lasting.trans (shuts r) (shows _)
    | some link => exact Lasting.trans (Lasting.trans (shuts r) (reports link _)) (shows _)
  · rw [finish_idle ends]
    exact Lasting.refl r

theorem beginInvoke_native {parent : SessionId} {data : InvokeData}
    (enters : ∀ r chart, R r (enrolled r parent data chart))
    (starts : ∀ id, Leads R (startSession id).run) : Leads R (beginInvoke parent data).run := by
  intro r
  rcases beginInvoke_run r parent data with ⟨_,same⟩ | ⟨chart,_,_,run⟩
  · rw [same]
    exact Lasting.refl r
  · rw [run]
    exact Lasting.trans (enters r chart) (starts _ _)

theorem settle_native (turns : ∀ task, Leads R (turn task)) (fuel : Nat) :
    Leads R (settle fuel) := by
  induction fuel with
  | zero => exact .pure _
  | succ fuel ih =>
    rw [settle]
    refine .bind .get fun r => ?_
    split
    · exact .pure _
    · refine .bind (turns _) fun goes => ?_
      split
      · exact .bind (modify_leads (fun _ => rfl) (fun _ => rfl) (fun _ => rfl) (fun _ => rfl)
          fun _ => rfl) fun _ => ih
      · exact ih

theorem advanceTo_native (turns : ∀ task, Leads R (turn task)) (fuel target stops : Nat) :
    Leads R (advanceTo fuel target stops) := by
  have timed : ∀ (r : Router) (time : Nat), R r { r with clock := time } := fun r time =>
    Aside.aside rfl rfl rfl rfl rfl
  induction stops with
  | zero => exact fun r => timed r target
  | succ stops ih =>
    rw [advanceTo]
    refine .look fun r => ?_
    cases nextTime? r with
    | none => exact timed r target
    | some time =>
      simp only
      split
      · have rung : Leads R (do
            r.sessions.forM (ring (max time r.clock))
            settle fuel
            advanceTo fuel target stops) :=
          .bind (.forM fun s _ => ring_native _ s) fun _ =>
            .bind (settle_native turns fuel) fun _ => ih
        exact Lasting.trans (timed r (max time r.clock)) (rung _)
      · exact timed r target

theorem advance_native (turns : ∀ task, Leads R (turn task)) (fuel millis : Nat) :
    Leads R (advance fuel millis) := by
  unfold advance
  exact .bind .get fun r => advanceTo_native turns fuel _ _

end Marking

section Watchful

variable [Watchful R]

theorem mark_watchful {id : SessionId} {f : Session → Session}
    (same : ∀ s, (f s).trunk = s.trunk) : Leads R (updateSession id f) := fun _ =>
  Watchful.mark same

theorem post_native (e : Event) : Posting R e := fun _ _ found => Watchful.post found

theorem deliver_native (id : SessionId) (e : Event) : Leads R (deliver id e).run :=
  deliver_leads id (post_native e)

theorem dispatch_native (source : SessionId) (o : OutgoingEvent) (cancelled : Bool) :
    Leads R (dispatch source o cancelled).run :=
  dispatch_leads (fun e _ _ => post_native e) source cancelled

theorem scheduleSend_native (s : Session) (o : OutgoingEvent) : Leads R (scheduleSend s o).run :=
  scheduleSend_leads s fun _ => mark_watchful fun _ => rfl

theorem forward_native (parent : SessionId) (invoke : InvokeId) (e : Event) :
    Leads R (forward parent invoke e).run := forward_leads parent invoke (post_native e)

theorem cancelSend_native (id : SessionId) (sendId : SendId) : Leads R (cancelSend id sendId) := by
  unfold cancelSend
  refine .bind .get fun r => ?_
  split
  · exact .pure _
  · exact .bind (mark_watchful fun _ => rfl) fun _ => .pure _

theorem fire_native (id : SessionId) (index : Nat) : Leads R (fire id index) := by
  unfold fire
  refine .bind .get fun r => ?_
  split
  · exact .pure _
  · split
    · exact .bind (mark_watchful fun _ => rfl) fun _ => .pure _
    · refine .bind (mark_watchful fun _ => rfl) fun _ => ?_
      refine .bind (dispatch_native _ _ _) fun result => ?_
      cases result with
      | ok _ => exact .pure _
      | error e => exact deliverFailure_leads id _ fun _ => post_native _

section Effects

variable (cancels : ∀ parent invoke, Leads R (cancelInvoke parent invoke))
include cancels

theorem perform_native (s : Session) (effect : Effect) : Leads R (perform s effect).run := by
  cases effect with
  | send o =>
    rw [perform]
    split
    · exact .attempt (.lift .get) fun r => dispatch_native _ _ _
    · refine .attempt (.lift .get) fun r => ?_
      split
      · exact .attempt (scheduleSend_native _ o) fun _ => .done _
      · exact .throw _
  | cancel sendId => exact .attempt (.lift (cancelSend_native s.id sendId)) fun _ => .done _
  | cancelInvoke invoke => exact .lift (cancels s.id invoke)
  | forward invoke e => exact forward_native s.id invoke e

theorem performAll_native (s : Session) (effects : List Effect) :
    Leads R (performAll s effects) := by
  refine .filterMapM fun effect _ => .bind (perform_native cancels s effect) fun result => ?_
  cases result with
  | ok _ => exact .pure _
  | error e => exact .pure _

end Effects

end Watchful

section Native

variable [Native R]

theorem touch_native {id : SessionId} {f : Session → Session} (same : ∀ s, (f s).stem = s.stem) :
    Leads R (updateSession id f) := fun _ => Native.touch same

theorem setStatus_native (id : SessionId) (status : SessionStatus) :
    Leads R (setStatus id status) := setStatus_leads (touch_native fun _ => rfl)

theorem passOn_native (id : SessionId) (chart : Chart) (report : Report) :
    Leads R (passOn id chart report) :=
  passOn_leads id chart report (fun _ _ => touch_native fun _ => rfl)
    fun _ => touch_native fun _ => rfl

end Native

section Carefree

variable [Carefree R]

theorem finish_native (id : SessionId) (o : Outcome) : Leads R (finish id o) :=
  finish_leads id o (fun _ => Carefree.closing)
    (fun link => reportDone_leads (fun _ _ _ => Carefree.registry rfl rfl rfl) link _ _
      (post_native _)) (setStatus_native id o.status)

theorem cancelInvoke_native (parent : SessionId) (invoke : InvokeId) :
    Leads R (cancelInvoke parent invoke) :=
  cancelInvoke_leads (fun _ _ _ => Carefree.registry rfl rfl rfl)
    (destroy_native finish_native) parent invoke

theorem endInvoke_native (parent : SessionId) (invoke : InvokeId)
    (result : Except RouterError SessionStatus) : Leads R (endInvoke parent invoke result) :=
  endInvoke_leads (fun _ _ _ => Carefree.registry rfl rfl rfl) parent invoke result

end Carefree

end RouterM

end Statechart

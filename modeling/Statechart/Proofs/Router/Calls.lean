import Statechart.Proofs.Router.Native

/- What can be done with a router from outside, and what it is made of.

   A call from outside is one operation. The router does its own work in turns: it settles, and
   settles again as time passes. -/
namespace Statechart.Router

open RouterM

/-- What a host can do with a router, and what the router does by itself. -/
inductive Call where
  | register (name : String) (chart : Chart)
  | install (p : Processor)
  /-- Values are built or changed. -/
  | furnish (h : Heap)
  | create (chart : Chart) (parent : Option ParentLink) (arguments : Option Ref)
  | start (id : SessionId)
  | send (id : SessionId) (e : Event)
  | deliver (id : SessionId) (e : Event)
  | dispatch (source : SessionId) (o : OutgoingEvent) (cancelled : Bool)
  | schedule (id : SessionId) (o : OutgoingEvent)
  | cancelSend (id : SessionId) (sendId : SendId)
  | forward (parent : SessionId) (invoke : InvokeId) (e : Event)
  | serve (parent : SessionId) (data : InvokeData)
  | served (parent : SessionId) (invoke : InvokeId) (result : Except RouterError SessionStatus)
  | cancelInvoke (parent : SessionId) (invoke : InvokeId)
  | close (id : SessionId)
  | doom (id : SessionId)
  | destroy (id : SessionId)
  | shutdown
  | turn (task : Task)
  | settle (fuel : Nat)
  | advance (fuel millis : Nat)

def Call.run : Call → RouterM Unit
  | .register name chart => modify (·.register name chart)
  | .install p => modify fun r => { r with processors := p :: r.processors }
  | .furnish h => modify fun r => { r with memory := { r.memory with heap := h } }
  | .create chart parent arguments => discard (createSession chart parent arguments)
  | .start id => discard (startSession id).run
  | .send id e => discard (do RouterM.send (← sessionOf id) e).run
  | .deliver id e => discard (RouterM.deliver id e).run
  | .dispatch source o cancelled => discard (RouterM.dispatch source o cancelled).run
  | .schedule id o => discard (do scheduleSend (← sessionOf id) o).run
  | .cancelSend id sendId => discard (RouterM.cancelSend id sendId)
  | .forward parent invoke e => discard (RouterM.forward parent invoke e).run
  | .serve parent data => discard (beginInvoke parent data).run
  | .served parent invoke result => endInvoke parent invoke result
  | .cancelInvoke parent invoke => RouterM.cancelInvoke parent invoke
  | .close id => RouterM.close id
  | .doom id => RouterM.doom id
  | .destroy id => RouterM.destroy id
  | .shutdown => RouterM.shutdown
  | .turn task => discard (RouterM.turn task)
  | .settle fuel => RouterM.settle fuel
  | .advance fuel millis => RouterM.advance fuel millis

def Call.TakesTurns : Call → Prop
  | .turn _ | .settle _ | .advance .. => True
  | _ => False

section Leads

variable {R : Router → Router → Prop}

theorem sessionOf_leads [Lasting R] {α : Type} (id : SessionId) {f : Session → RouterE α}
    (each : ∀ (r : Router) (s : Session), r.session? s.id = some s → R r ((f s).run r).2) :
    Leads R (discard (do f (← sessionOf id)).run : RouterM Unit) := by
  refine .bind (fun r => ?_) fun _ => .pure _
  cases found : r.session? id with
  | none =>
    have run : (sessionOf id).run r = (.error (.sessionNotFound id), r) := by
      unfold sessionOf
      rw [get_attempt, found]
      rfl
    rw [attempt_error run]
    exact Lasting.refl r
  | some s =>
    have run : (sessionOf id).run r = (.ok s, r) := by
      unfold sessionOf
      rw [get_attempt, found]
      rfl
    rw [attempt_ok run]
    exact each r s (by rw [session?_id found, found])

theorem Call.leads [Watchful R] (call : Call) (still : ¬ call.TakesTurns)
    (registers : ∀ name chart, call = .register name chart →
      Leads R (modify (·.register name chart)))
    (furnishes : ∀ h, call = .furnish h → Leads R (modify fun r : Router =>
      { r with memory := { r.memory with heap := h } }))
    (creates : ∀ chart parent arguments, call = .create chart parent arguments →
      Leads R (createSession chart parent arguments))
    (starts : ∀ id, Leads R (startSession id).run)
    (begins : ∀ parent data, call = .serve parent data → Leads R (beginInvoke parent data).run)
    (gives : ∀ parent invoke result, call = .served parent invoke result →
      Leads R (endInvoke parent invoke result))
    (cancels : ∀ parent invoke, Leads R (RouterM.cancelInvoke parent invoke))
    (destroys : ∀ id, Leads R (RouterM.destroy id)) : Leads R call.run := by
  cases call with
  | register name chart => exact registers name chart rfl
  | install p =>
    exact modify_leads (fun _ => rfl) (fun _ => rfl) (fun _ => rfl) (fun _ => rfl) fun _ => rfl
  | furnish h => exact furnishes h rfl
  | create chart parent arguments => exact .bind (creates _ _ _ rfl) fun _ => .pure _
  | start id => exact .bind (starts id) fun _ => .pure _
  | send id e => exact sessionOf_leads id fun r s found => post_native e r s found
  | deliver id e => exact .bind (deliver_native id e) fun _ => .pure _
  | dispatch source o cancelled => exact .bind (dispatch_native source o cancelled) fun _ => .pure _
  | schedule id o => exact sessionOf_leads id fun r s _ => scheduleSend_native s o r
  | cancelSend id sendId => exact .bind (cancelSend_native id sendId) fun _ => .pure _
  | forward parent invoke e => exact .bind (forward_native parent invoke e) fun _ => .pure _
  | serve parent data => exact .bind (begins _ _ rfl) fun _ => .pure _
  | served parent invoke result => exact gives _ _ _ rfl
  | cancelInvoke parent invoke => exact cancels parent invoke
  | close id => exact close_native id
  | doom id => exact doom_native id
  | destroy id => exact destroys id
  | shutdown => exact shutdown_native destroys
  | turn task => exact absurd trivial still
  | settle fuel => exact absurd trivial still
  | advance fuel millis => exact absurd trivial still

theorem Call.leads_turning [Marking R] (call : Call) (turns : call.TakesTurns)
    (each : ∀ task, Leads R (RouterM.turn task)) : Leads R call.run := by
  cases call with
  | turn task => exact .bind (each task) fun _ => .pure _
  | settle fuel => exact settle_native each fuel
  | advance fuel millis => exact advance_native each fuel millis
  | _ => exact turns.elim

end Leads

end Statechart.Router

import Statechart.Proofs.Router.Replies

/- Dispatching an event.

   An event gets to one session or to none. The address decides which; the type, the checks for events
   to the parent, the registry and the mailbox can each refuse it, and then nothing has happened. -/
namespace Statechart

theorem OutgoingEvent.checkToParent_eq_ok {o : OutgoingEvent}
    (upward : o.target = some Address.parentTarget) :
    o.checkToParent = .ok () ↔ o.type = none ∧ o.sendId = none ∧ o.delay = 0 := by
  unfold OutgoingEvent.checkToParent
  rw [upward]
  cases o.type with
  | some type => simp
  | none =>
    cases o.sendId with
    | some id => simp
    | none =>
      by_cases late : o.delay = 0
      · simp [late]
      · simp [late]

theorem Address.isForSession_iff {type target : Option String} :
    Address.isForSession type target = true ↔ Address.isSessionType type = true ∧
      (target = none ∨ target = some "" ∨ ∃ invoke, target = some (Address.ofService invoke)) := by
  unfold Address.isForSession
  rw [Bool.and_eq_true]
  refine and_congr_right fun _ => ?_
  cases target with
  | none => simp
  | some place =>
    simp [Option.isSome_iff_exists, Text.dropHead?_eq_some, Address.ofService]

namespace Router

/-- The event is taken up for delivery. -/
def taken (r : Router) : Router :=
  { r with stats := { r.stats with dispatched := r.stats.dispatched + 1 } }

/-- The session that an event is for. An event to the parent has nothing but a name and data. -/
inductive Addressed (r : Router) (source : SessionId) (o : OutgoingEvent) : SessionId → Prop where
  | own (target : o.target = none ∨ o.target = some "") : Addressed r source o source
  | parent {s : Session} {link : ParentLink} (target : o.target = some Address.parentTarget)
      (untyped : o.type = none) (unnamed : o.sendId = none) (immediate : o.delay = 0)
      (registered : r.registered? source = some s) (linked : s.parent = some link) :
      Addressed r source o link.session
  | session {id : SessionId} (target : o.target = some (Address.ofSession id)) : Addressed r source o id
  | service {invoke : InvokeId} {id : SessionId} (target : o.target = some (Address.ofService invoke))
      (unreserved : Address.Unreserved invoke) (child : r.childOf source invoke = some id) :
      Addressed r source o id

/-- One event has been put at the end of one mailbox, and counted. -/
structure Gains (r : Router) (id : SessionId) (e : Event) (r' : Router) : Prop where
  mailbox : ∀ other, r'.mailbox other =
    if other = id then r.mailbox other ++ [e] else r.mailbox other
  depth : ∀ other, r'.depth other = if other = id then r.depth id + 1 else r.depth other
  delivered : r'.stats.delivered = r.stats.delivered + 1

variable {r r' : Router} {source b : SessionId} {o : OutgoingEvent} {e : Event}

theorem addressed_parent (upward : o.target = some Address.parentTarget) :
    r.Addressed source o b ↔
      r.meant? source Address.parentTarget = some b ∧ o.checkToParent = .ok () := by
  rw [meant?_parent, OutgoingEvent.checkToParent_eq_ok upward]
  constructor
  · intro addressed
    cases addressed with
    | own target =>
      rw [upward] at target
      rcases target with none | empty
      · cases none
      · exact absurd (Option.some.inj empty) (Address.ofService_ne_empty "parent")
    | parent _ untyped unnamed immediate registered linked =>
      rw [registered, Option.bind_some, linked]
      exact ⟨rfl, untyped, unnamed, immediate⟩
    | session target =>
      exact absurd (Option.some.inj (target.symm.trans upward)) (Address.ofSession_ne_parent _)
    | service target unreserved =>
      have same := Option.some.inj (target.symm.trans upward)
      rw [Address.ofService_parent, Address.ofService_inj] at same
      exact absurd same unreserved.notParent
  · rintro ⟨meaning,untyped,unnamed,immediate⟩
    obtain ⟨link,known,rfl⟩ := Option.map_eq_some_iff.mp meaning
    obtain ⟨s,registered,linked⟩ := Option.bind_eq_some_iff.mp known
    exact .parent upward untyped unnamed immediate registered linked

/-- Who is reached is who is meant, as long as nothing speaks against it. -/
theorem addressed_iff : Address.isSessionType o.type = true ∧ r.Addressed source o b ↔
    Address.isForSession o.type o.target = true ∧ r.meant? source (o.target.getD "") = some b ∧
      (o.target = some Address.parentTarget → o.checkToParent = .ok ()) := by
  rw [Address.isForSession_iff, and_assoc]
  refine and_congr_right fun _ => ?_
  by_cases upward : o.target = some Address.parentTarget
  · rw [addressed_parent upward, upward]
    simp only [Option.getD_some, true_implies]
    exact (and_iff_right (Or.inr (Or.inr ⟨"parent", rfl⟩))).symm
  constructor
  · intro addressed
    refine ⟨?_, ?_, fun here => absurd here upward⟩
    · cases addressed with
      | own target => exact target.imp_right Or.inl
      | parent target => exact absurd target upward
      | session target => exact Or.inr (Or.inr ⟨_, Address.ofSession_eq _ ▸ target⟩)
      | service target => exact Or.inr (Or.inr ⟨_, target⟩)
    · cases addressed with
      | own target =>
        rcases target with target | target
        · rw [target]
          rfl
        · rw [target]
          rfl
      | parent target => exact absurd target upward
      | session target => rw [target, Option.getD_some, meant?_ofSession]
      | service target unreserved child =>
        rw [target, Option.getD_some, meant?_ofService unreserved, child]
  · rintro ⟨target | target | ⟨invoke,target⟩,meaning,-⟩
    · rw [target] at meaning
      cases meaning
      exact .own (Or.inl target)
    · rw [target] at meaning
      cases meaning
      exact .own (Or.inr target)
    · rw [target, Option.getD_some] at meaning
      by_cases reserved : ∃ id, invoke = Address.sessionStem ++ id
      · obtain ⟨id,rfl⟩ := reserved
        rw [← Address.ofSession_eq] at target meaning
        rw [meant?_ofSession] at meaning
        cases meaning
        exact .session target
      · have unreserved : Address.Unreserved invoke :=
          ⟨fun same => upward (by rw [target, same]; rfl), fun id same => reserved ⟨id, same⟩⟩
        rw [meant?_ofService unreserved] at meaning
        exact .service target unreserved meaning

end Router

namespace RouterM

open Router

variable {r r' : Router} {source b : SessionId} {o : OutgoingEvent} {e : Event}

theorem wake_books (t : Task) (r : Router) :
    (wake t r).2.depths = r.depths ∧ (wake t r).2.stats = r.stats := by
  simp only [wake, modify, modifyGet, MonadStateOf.modifyGet, StateT.modifyGet]
  split
  · exact ⟨rfl, rfl⟩
  · exact ⟨rfl, rfl⟩

/-- A session that takes events gains the one that it is sent. -/
theorem deliver_gains (live : r.Live b) (e : Event) :
    ∃ r', (deliver b e).run r = (.ok (), r') ∧ r.Gains b e r' := by
  obtain ⟨r',run,boxes⟩ := deliver_live live e
  obtain ⟨s,registered,isOpen⟩ := live
  obtain rfl : s.id = b := session?_id (Option.filter_eq_some_iff.mp registered).1
  have books : r'.depths = (r.countIn s.id).depths ∧
      r'.stats.delivered = r.stats.delivered + 1 := by
    unfold deliver at run
    rw [get_attempt, registered] at run
    simp only [send, isOpen, if_true] at run
    obtain ⟨depths,stats⟩ := wake_books (.session s.id)
      ((r.countIn s.id).alter s.id fun s => { s with mailbox := s.mailbox ++ [e] })
    cases run
    exact ⟨depths, congrArg (·.delivered + 1) stats⟩
  refine ⟨r', run, boxes, fun other => ?_, books.2⟩
  rw [depth, books.1]
  exact depth_setDepth r s.id other _

/-- Where no processor of the host accepts an event, the router looks for the session itself. -/
theorem dispatch_taken (native : ∀ p ∈ r.processors, p.accepts o.type o.target = false)
    (source : SessionId) : (dispatch source o false).run r =
      if Address.isForSession o.type o.target then (dispatchToSession source o).run r.taken
      else (.error (.noProcessor (o.type.getD Address.sessionType) (o.target.getD "")), r) := by
  have unasked : r.processors.find? (·.accepts o.type o.target) = none := by
    simpa using native
  unfold dispatch
  simp only [Bool.false_eq_true, if_false]
  rw [get_attempt, unasked]
  simp only
  split
  · rfl
  · rfl

/-- An event of a session is delivered once or not at all. If it is refused, or its session is
    cancelled, nothing is changed but the count of events taken up. Otherwise it has been put at the
    end of one mailbox, with its name and data, and all other mailboxes are as they were; and it is,
    exactly if it has the type of events between sessions and is for a session that takes events. -/
theorem delivered_once_or_not {answer : Except RouterError Unit} {cancelled : Bool}
    (native : ∀ p ∈ r.processors, p.accepts o.type o.target = false)
    (run : (dispatch source o cancelled).run r = (answer, r')) :
    ((cancelled = true ∨ ∃ error, answer = .error error) → r' = r ∨ r' = r.taken) ∧
    (cancelled = false → answer = .ok () → ∃ b e, r.Addressed source o b ∧ r.Live b ∧
      r.Gains b e r' ∧ e.name = o.name ∧ e.data = o.data) ∧
    (cancelled = false → (answer = .ok () ↔
      Address.isSessionType o.type = true ∧ ∃ b, r.Addressed source o b ∧ r.Live b)) := by
  cases cancelled with
  | true =>
    cases run
    exact ⟨fun _ => Or.inl rfl, nofun, nofun⟩
  | false =>
    rw [dispatch_taken native] at run
    by_cases sent : Address.isForSession o.type o.target = true
    · rw [if_pos sent] at run
      rcases dispatchToSession_run r.taken source o with
        ⟨error,failed,lost⟩ | ⟨b,meaning,checked,onward⟩
      · rw [failed] at run
        cases run
        -- The target means nobody, or the parent may not be sent such an event.
        refine ⟨fun _ => Or.inr rfl, nofun, fun _ => ⟨nofun, ?_⟩⟩
        rintro ⟨own,b,addressed,-⟩
        obtain ⟨-,meaning,checked⟩ := addressed_iff.mp ⟨own, addressed⟩
        rcases lost with astray | ⟨upward,refused⟩
        · cases astray.symm.trans meaning
        · exact absurd (checked upward) refused
      · obtain ⟨own,addressed⟩ := (addressed_iff (r := r)).mpr ⟨sent, meaning, checked⟩
        rw [onward] at run
        by_cases live : r.Live b
        · obtain ⟨q,delivered,gains⟩ := deliver_gains (r := r.taken) live (r.taken.handed source o)
          rw [delivered] at run
          cases run
          have gained : r.Gains b (r.taken.handed source o) r' :=
            ⟨gains.mailbox, gains.depth, gains.delivered⟩
          exact ⟨fun failed => failed.elim nofun nofun,
            fun _ _ => ⟨b, _, addressed, live, gained, handed_name _ _ _, handed_data _ _ _⟩,
            fun _ => ⟨fun _ => ⟨own, b, addressed, live⟩, fun _ => rfl⟩⟩
        · obtain ⟨error,dead⟩ := deliver_dead (r := r.taken) live (r.taken.handed source o)
          rw [dead] at run
          cases run
          refine ⟨fun _ => Or.inr rfl, nofun, fun _ => ⟨nofun, ?_⟩⟩
          rintro ⟨own,b',addressed',alive⟩
          obtain ⟨-,meaning',-⟩ := addressed_iff.mp ⟨own, addressed'⟩
          cases meaning.symm.trans meaning'
          exact absurd alive live
    · rw [if_neg sent] at run
      cases run
      refine ⟨fun _ => Or.inl rfl, nofun, fun _ => ⟨nofun, ?_⟩⟩
      rintro ⟨own,b,addressed,-⟩
      exact absurd (addressed_iff.mp ⟨own, addressed⟩).1 sent

end RouterM

namespace Answered

open Router RouterM

/-- What a service sends to its parent gets there once, and not at all if it is to be delayed. -/
theorem greeting_once : (∃ r' b e, (dispatch child greeting false).run (started "kid") = (.ok (), r') ∧
      (started "kid").Addressed child greeting b ∧ (started "kid").Gains b e r' ∧
      e.name = greeting.name) ∧
    ∃ error r', (dispatch child { greeting with delay := 5 } false).run (started "kid") =
      (.error error, r') ∧ ∀ id, r'.mailbox id = (started "kid").mailbox id := by
  have native : (started "kid").processors = [] := List.eq_nil_of_length_eq_zero (by decide +kernel)
  have checks : (((dispatch child greeting false).run (started "kid")).1.isOk &&
      !((dispatch child { greeting with delay := 5 } false).run (started "kid")).1.isOk) = true := by
    decide +kernel
  generalize started "kid" = r at *
  rw [Bool.and_eq_true, Bool.not_eq_true'] at checks
  have unasked (o : OutgoingEvent) : ∀ p ∈ r.processors, p.accepts o.type o.target = false := by
    simp [native]
  constructor
  · cases run : (dispatch child greeting false).run r with
    | mk answer r' =>
      rw [run] at checks
      cases answer with
      | error error => exact absurd checks.1 nofun
      | ok _ =>
        obtain ⟨-,delivered,-⟩ := delivered_once_or_not (unasked greeting) run
        obtain ⟨b,e,addressed,-,gains,name,-⟩ := delivered rfl rfl
        exact ⟨r', b, e, rfl, addressed, gains, name⟩
  · cases run : (dispatch child { greeting with delay := 5 } false).run r with
    | mk answer r' =>
      rw [run] at checks
      cases answer with
      | ok _ => exact absurd checks.2 nofun
      | error error =>
        obtain ⟨refused,-,-⟩ := delivered_once_or_not (unasked { greeting with delay := 5 }) run
        refine ⟨error, r', rfl, fun id => ?_⟩
        rcases refused (Or.inr ⟨error, rfl⟩) with rfl | rfl
        · rfl
        · rfl

end Answered

end Statechart

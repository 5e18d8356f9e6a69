import Statechart.Proofs.Machine.Mail
import Statechart.Proofs.Router.Fifo

/- Replying to events.

   An event from another session says where it comes from, and an event that is sent to that place
   is a reply. Places are texts. A session's is read back as that session, whatever its id; a
   service's is read as that service by its parent, unless the invoke id makes it look like a place
   of another kind. -/
namespace Statechart

theorem Text.dropHead?_eq_some {head s rest : String} :
    Text.dropHead? head s = some rest ↔ s = head ++ rest := by
  simp only [Text.dropHead?, Option.ite_none_right_eq_some, Option.some.injEq,
    List.isPrefixOf_iff_prefix]
  constructor
  · rintro ⟨⟨tail,same⟩,rfl⟩
    apply String.toList_injective
    rw [← same, String.toList_append, String.toList_ofList, ← String.length_toList,
      List.drop_left]
  · rintro rfl
    rw [String.toList_append, ← String.length_toList, List.drop_left, String.ofList_toList]
    exact ⟨List.prefix_append _ _, rfl⟩

namespace Address

/-- After the mark of services, this begins the place of a session. -/
def sessionStem : String := "scxml_"

/-- The place of a service of this id cannot be taken for anything else. -/
structure Unreserved (invoke : InvokeId) : Prop where
  notParent : invoke ≠ "parent"
  notSession : ∀ id, invoke ≠ sessionStem ++ id

variable {id : SessionId} {invoke : InvokeId}

theorem ofService_inj {other : InvokeId} : ofService invoke = ofService other ↔ invoke = other :=
  String.append_right_inj serviceMark

theorem ofSession_eq (id : SessionId) : ofSession id = ofService (sessionStem ++ id) := by
  rw [ofSession, ofService, ← String.append_assoc]
  rfl

theorem ofService_parent : parentTarget = ofService "parent" := rfl

theorem ofService_ne_empty (invoke : InvokeId) : ofService invoke ≠ "" := by
  intro same
  have letters := congrArg String.toList same
  simp [ofService, serviceMark] at letters

theorem ofSession_ne_parent (id : SessionId) : ofSession id ≠ parentTarget := by
  intro same
  have letters := congrArg String.toList same
  simp [ofSession, sessionMark, parentTarget] at letters

theorem generated_unreserved {state text : String} :
    Unreserved (state ++ "." ++ text) ↔ ∀ rest, state ≠ sessionStem ++ rest := by
  constructor
  · rintro unreserved rest rfl
    exact unreserved.notSession (rest ++ "." ++ text) (by simp only [String.append_assoc])
  · refine fun other => ⟨fun same => ?_, fun id same => ?_⟩
    · have letters : '.' ∈ (state ++ "." ++ text).toList := by simp
      rw [same] at letters
      exact absurd letters (by decide)
    · have letters := congrArg String.toList same
      simp only [String.toList_append, List.append_assoc] at letters
      rcases List.append_eq_append_iff.mp letters with ⟨tail,stem,rest⟩ | ⟨rest,longer,-⟩
      · -- The point would stand inside of the stem.
        cases tail with
        | nil =>
          refine other "" (String.toList_injective ?_)
          rw [String.toList_append, stem]
          simp
        | cons c tail =>
          obtain rfl : '.' = c := by simpa using congrArg List.head? rest
          have within : '.' ∈ sessionStem.toList := by simp [stem]
          exact absurd within (by decide)
      · refine other (String.ofList rest) (String.toList_injective ?_)
        rw [String.toList_append, String.toList_ofList, longer]

theorem isForSession_of_service {type : Option String} (own : isSessionType type = true)
    (invoke : InvokeId) : isForSession type (some (ofService invoke)) = true := by
  have marked : Text.dropHead? serviceMark (ofService invoke) = some invoke :=
    Text.dropHead?_eq_some.mpr rfl
  simp [isForSession, own, marked]

end Address

/-- The text that a send action gives as its target. -/
def SendAction.Aims (s : SendAction) (m : Machine) (place : String) : Prop :=
  ∃ name n k, MachineM.sendName s m = .ok name n ∧
    MachineM.textOf "targetexpr" s.target s.targetExpr n = .ok (some place) k

section Sending

open MachineM

instance : Tolerant (fun m m' : Machine => m'.effects = m.effects) where
  withHeap _ _ := rfl
  freshId _ := rfl
  enqueue _ _ := rfl
  tell _ _ := rfl

/-- A send action lets an event out, except to the machine itself. -/
theorem send_aimed {s : SendAction} {m m' : Machine} {place : String} (aims : s.Aims m place)
    (run : send s m = .ok () m') : (place = internalTarget ∧ m'.effects = m.effects) ∨
      (place ≠ internalTarget ∧ ∃ o, m'.effects = m.effects ++ [.send o] ∧ o.target = some place ∧
        o.type = s.type) := by
  have still {β : Type} {x : MachineM β} {a b : Machine} {v : β}
      (part : KeepsAt (fun m m' : Machine => m'.effects = m.effects) onlyFailure x a)
      (run : x a = .ok v b) : b.effects = a.effects := part.of_ok run
  obtain ⟨name,n,k,named,aimed⟩ := aims
  rw [send, bind_of_ok _ named, bind_of_ok _ aimed] at run
  obtain ⟨delay,n₃,delayed,run⟩ := bind_eq_ok run
  obtain ⟨data,n₄,paid,run⟩ := bind_eq_ok run
  obtain ⟨sendId,n₅,identified,run⟩ := bind_eq_ok run
  have kept : n₅.effects = m.effects :=
    (still (sendIdOf_frames s delay n₄) identified).trans
      ((still (payload_frames _ _ n₃) paid).trans ((still (sendDelay_frames s k) delayed).trans
        ((still (textOf_frames _ _ _ n) aimed).trans (still (sendName_frames s m) named))))
  have leaving {l : Machine} (same : l.effects = m.effects)
      (left : (if some place = some internalTarget then
          if delay ≠ 0 then fail (.execution "delayed send to #_internal is not supported")
          else update fun m => m.enqueue { name, type := .internal, sendId, data }
        else update fun m =>
          m.emit (.send { name, sendId, target := some place, type := s.type, delay, data }) :
        MachineM Unit) l = .ok () m') : (place = internalTarget ∧ m'.effects = m.effects) ∨
      (place ≠ internalTarget ∧ ∃ o, m'.effects = m.effects ++ [.send o] ∧ o.target = some place ∧
        o.type = s.type) := by
    split at left
    · rename_i inside
      split at left
      · cases left
      · cases left
        exact Or.inl ⟨Option.some.inj inside, same⟩
    · rename_i outside
      cases left
      exact Or.inr ⟨fun here => outside (congrArg some here), _, congrArg (· ++ _) same, rfl, rfl⟩
  cases stored : s.idLocation with
  | none =>
    rw [stored] at run
    exact leaving kept run
  | some location =>
    rw [stored] at run
    cases sendId with
    | none => exact leaving kept run
    | some id =>
      obtain ⟨_,l,assigned,run⟩ := bind_eq_ok run
      exact leaving ((still (assign_frames _ _ n₅) assigned).trans kept) run

end Sending

namespace Router

variable {r r' : Router} {a b : SessionId} {o : OutgoingEvent} {e : Event}

/-- A session that takes events. -/
def Live (r : Router) (id : SessionId) : Prop := ∃ s, r.registered? id = some s ∧ s.isOpen = true

/-- The session that a place means to another. -/
def meant? (r : Router) (source : SessionId) (place : String) : Option SessionId :=
  if place = "" then some source
  else if place = Address.parentTarget then
    ((r.registered? source).bind (·.parent)).map (·.session)
  else
    match Text.dropHead? Address.sessionMark place with
    | some id => some id
    | none => (Text.dropHead? Address.serviceMark place).bind (r.childOf source)

/-- The link that an event is sent along, if it is sent to the parent. -/
def linkFor (r : Router) (source : SessionId) (o : OutgoingEvent) : Option ParentLink :=
  if o.target = some Address.parentTarget then (r.registered? source).bind (·.parent) else none

/-- What a session is handed of an event that another one sends. -/
def handed (r : Router) (source : SessionId) (o : OutgoingEvent) : Event :=
  match r.linkFor source o with
  | some link => link.deliver o.name o.data Address.sessionType
  | none =>
    { name := o.name, type := .external, data := o.data, sendId := o.sendId
      origin := some (Address.ofSession source), originType := some Address.sessionType }

/-- The router itself brings an event to the mailbox of a session, and to no other. -/
structure Carries (r : Router) (source : SessionId) (o : OutgoingEvent) (destination : SessionId)
    (e : Event) (r' : Router) : Prop where
  native : r.processors.find? (·.accepts o.type o.target) = none
  run : (RouterM.dispatch source o false).run r = (.ok (), r')
  mailbox : ∀ id, r'.mailbox id = if id = destination then r.mailbox id ++ [e] else r.mailbox id

theorem mailbox_congr (same : r'.sessions = r.sessions) (id : SessionId) :
    r'.mailbox id = r.mailbox id := by
  simp only [mailbox, session?, same]

theorem meant?_ofSession (r : Router) (source id : SessionId) :
    r.meant? source (Address.ofSession id) = some id := by
  have read : Text.dropHead? Address.sessionMark (Address.ofSession id) = some id :=
    Text.dropHead?_eq_some.mpr rfl
  have filled : Address.ofSession id ≠ "" := by
    rw [Address.ofSession_eq]
    exact Address.ofService_ne_empty _
  simp only [meant?, if_neg filled, if_neg (Address.ofSession_ne_parent id), read]

theorem meant?_parent (r : Router) (source : SessionId) : r.meant? source Address.parentTarget =
    ((r.registered? source).bind (·.parent)).map (·.session) := rfl

theorem meant?_ofService {invoke : InvokeId} (unreserved : Address.Unreserved invoke)
    (source : SessionId) : r.meant? source (Address.ofService invoke) = r.childOf source invoke := by
  have notParent : Address.ofService invoke ≠ Address.parentTarget := by
    rw [Address.ofService_parent, Ne, Address.ofService_inj]
    exact unreserved.notParent
  have notSession : Text.dropHead? Address.sessionMark (Address.ofService invoke) = none := by
    refine Option.eq_none_iff_forall_ne_some.mpr fun id read => ?_
    have same : Address.ofService invoke = Address.ofSession id := Text.dropHead?_eq_some.mp read
    rw [Address.ofSession_eq, Address.ofService_inj] at same
    exact unreserved.notSession id same
  have read : Text.dropHead? Address.serviceMark (Address.ofService invoke) = some invoke :=
    Text.dropHead?_eq_some.mpr rfl
  simp only [meant?, if_neg (Address.ofService_ne_empty invoke), if_neg notParent, notSession,
    read, Option.bind_some]

end Router

namespace RouterM

open Router

variable {r r' : Router} {a b : SessionId} {o : OutgoingEvent} {e : Event}

theorem deliver_live (live : r.Live b) (e : Event) : ∃ r', (deliver b e).run r = (.ok (), r') ∧
    ∀ id, r'.mailbox id = if id = b then r.mailbox id ++ [e] else r.mailbox id := by
  obtain ⟨s,registered,isOpen⟩ := live
  have found : r.session? b = some s := (Option.filter_eq_some_iff.mp registered).1
  have named : s.id = b := session?_id found
  let fill : Session → Session := fun s => { s with mailbox := s.mailbox ++ [e] }
  let filled : Router := (r.countIn s.id).alter s.id fill
  let woken : Router := (wake (.session s.id) filled).2
  have sessions : woken.sessions = filled.sessions := by
    simp only [woken, wake, modify, modifyGet, MonadStateOf.modifyGet, StateT.modifyGet]
    split
    · rfl
    · rfl
  refine ⟨{ woken with stats := { woken.stats with delivered := woken.stats.delivered + 1 } }, ?_, ?_⟩
  · unfold deliver
    rw [get_attempt, registered]
    simp only [send, isOpen, if_true]
    rfl
  · intro id
    have asked : filled.session? id = if id = s.id then (r.session? s.id).map fill
        else r.session? id :=
      session?_alter (r.countIn s.id) (f := fill) (fun _ here => here) id
    refine (mailbox_congr (r := filled) sessions id).trans ?_
    rw [mailbox, asked, named, found]
    by_cases here : id = b
    · simp [here, mailbox_of_found found, fill]
    · simp [here, mailbox]

theorem deliver_dead (dead : ¬ r.Live b) (e : Event) :
    ∃ error, (deliver b e).run r = (.error error, r) := by
  unfold deliver
  rw [get_attempt]
  cases registered : r.registered? b with
  | none => exact ⟨_, rfl⟩
  | some s =>
    have shut : s.isOpen = false := by
      by_contra isOpen
      exact dead ⟨s, registered, by simpa using isOpen⟩
    refine ⟨.mailboxClosed s.id, ?_⟩
    simp only [send, shut, Bool.false_eq_true, if_false]
    rfl

theorem resolve_run (r : Router) (a : SessionId) {place : String}
    (sideways : place ≠ Address.parentTarget) : (resolve a place).run r =
      match r.meant? a place with
      | some b => (.ok b, r)
      | none => (.error (.unknownTarget place), r) := by
  unfold resolve meant?
  by_cases empty : place = ""
  · simp only [empty, beq_self_eq_true, if_true]
    rfl
  · simp only [beq_false_of_ne empty, Bool.false_eq_true, if_false, if_neg empty, if_neg sideways]
    cases Text.dropHead? Address.sessionMark place with
    | some id => rfl
    | none =>
      cases Text.dropHead? Address.serviceMark place with
      | none => rfl
      | some invoke =>
        simp only [Option.bind_some]
        rw [get_attempt]
        cases r.childOf a invoke with
        | some child => rfl
        | none => rfl

theorem dispatchToSession_run (r : Router) (a : SessionId) (o : OutgoingEvent) :
    (∃ error, (dispatchToSession a o).run r = (.error error, r) ∧
      (r.meant? a (o.target.getD "") = none ∨
        o.target = some Address.parentTarget ∧ o.checkToParent ≠ .ok ())) ∨
    ∃ b, r.meant? a (o.target.getD "") = some b ∧
      (o.target = some Address.parentTarget → o.checkToParent = .ok ()) ∧
      (dispatchToSession a o).run r = (deliver b (r.handed a o)).run r := by
  by_cases upward : o.target = some Address.parentTarget
  · have place : o.target.getD "" = Address.parentTarget := by rw [upward]; rfl
    have link : r.linkFor a o = (r.registered? a).bind (·.parent) := if_pos upward
    rw [place, meant?_parent]
    unfold dispatchToSession
    simp only [place, beq_self_eq_true, if_true]
    cases check : o.checkToParent with
    | error error => exact Or.inl ⟨error, rfl, Or.inr ⟨upward, nofun⟩⟩
    | ok _ =>
      have passed : (MonadExcept.ofExcept (.ok ()) : RouterE Unit).run r = (.ok (), r) := rfl
      cases known : (r.registered? a).bind (·.parent) with
      | none =>
        refine Or.inl ⟨.unknownTarget (Address.parentTarget ++ " (session " ++ a ++
          " was not invoked)"), ?_, Or.inl rfl⟩
        rw [attempt_ok passed, get_attempt, known]
        rfl
      | some l =>
        refine Or.inr ⟨l.session, rfl, fun _ => rfl, ?_⟩
        rw [attempt_ok passed, get_attempt, known, handed, link, known]
  · have sideways : (o.target.getD "" == Address.parentTarget) = false := by
      refine beq_false_of_ne fun same => upward ?_
      cases given : o.target with
      | none =>
        rw [given] at same
        exact absurd same.symm (Address.ofService_ne_empty "parent")
      | some target =>
        rw [given] at same
        exact congrArg some same
    have plain : r.handed a o =
        { name := o.name, type := .external, data := o.data, sendId := o.sendId
          origin := some (Address.ofSession a), originType := some Address.sessionType } := by
      rw [handed, linkFor, if_neg upward]
    unfold dispatchToSession
    simp only [sideways, Bool.false_eq_true, if_false]
    rw [plain]
    have resolved := resolve_run r a (ne_of_beq_false sideways)
    cases meaning : r.meant? a (o.target.getD "") with
    | some b =>
      rw [meaning] at resolved
      exact Or.inr ⟨b, rfl, fun same => absurd same upward, attempt_ok resolved⟩
    | none =>
      rw [meaning] at resolved
      exact Or.inl ⟨_, attempt_error resolved, Or.inl rfl⟩

end RouterM

namespace Router

open RouterM

variable {r r' : Router} {a b : SessionId} {o : OutgoingEvent} {e : Event} {place : String}

theorem handed_name (r : Router) (a : SessionId) (o : OutgoingEvent) :
    (r.handed a o).name = o.name := by
  unfold handed
  split
  · rfl
  · rfl

theorem handed_data (r : Router) (a : SessionId) (o : OutgoingEvent) :
    (r.handed a o).data = o.data := by
  unfold handed
  split
  · rfl
  · rfl

theorem dispatch_run (native : r.processors.find? (·.accepts o.type o.target) = none)
    (sent : Address.isForSession o.type o.target = true) (a : SessionId) :
    ∃ q : Router, (dispatch a o false).run r = (dispatchToSession a o).run q ∧
      q.sessions = r.sessions ∧ q.invocations = r.invocations := by
  refine ⟨{ r with stats := { r.stats with dispatched := r.stats.dispatched + 1 } }, ?_, rfl, rfl⟩
  unfold dispatch
  simp only [Bool.false_eq_true, if_false]
  rw [get_attempt, native]
  simp only [sent, if_true]
  rfl

theorem meant?_congr {q : Router} (sessions : q.sessions = r.sessions)
    (registry : q.invocations = r.invocations) (a : SessionId) (place : String) :
    q.meant? a place = r.meant? a place := by
  have children : q.childOf a = r.childOf a := funext fun _ => by rw [childOf, childOf, registry]
  simp only [meant?, registered?, session?, sessions, children]

theorem live_congr {q : Router} (sessions : q.sessions = r.sessions) : q.Live b ↔ r.Live b := by
  simp only [Live, registered?, session?, sessions]

theorem handed_congr {q : Router} (sessions : q.sessions = r.sessions) (a : SessionId)
    (o : OutgoingEvent) : q.handed a o = r.handed a o := by
  simp only [handed, linkFor, registered?, session?, sessions]

/-- An event is brought to whomever its target means, if that session takes events. -/
theorem carries_of_meant (native : r.processors.find? (·.accepts o.type o.target) = none)
    (sent : Address.isForSession o.type o.target = true)
    (meaning : r.meant? a (o.target.getD "") = some b) (live : r.Live b)
    (checked : o.target = some Address.parentTarget → o.checkToParent = .ok ()) :
    ∃ r', r.Carries a o b (r.handed a o) r' := by
  obtain ⟨q,run,sessions,registry⟩ := dispatch_run native sent a
  obtain ⟨r',delivered,boxes⟩ := deliver_live ((live_congr sessions).mpr live) (q.handed a o)
  refine ⟨r', native, ?_, fun id => ?_⟩
  · rcases dispatchToSession_run q a o with ⟨error,-,astray | refused⟩ | ⟨b',meaning',-,same⟩
    · rw [meant?_congr sessions registry, meaning] at astray
      cases astray
    · exact absurd (checked refused.1) refused.2
    · rw [meant?_congr sessions registry, meaning] at meaning'
      cases meaning'
      rw [run, same, delivered]
  · rw [boxes, handed_congr sessions, mailbox_congr sessions]

theorem Carries.meaning (carries : r.Carries a o b e r') :
    r.meant? a (o.target.getD "") = some b ∧ e = r.handed a o ∧
      (o.target = some Address.parentTarget → o.checkToParent = .ok ()) := by
  have run := carries.run
  have sent : Address.isForSession o.type o.target = true := by
    by_contra unsent
    unfold dispatch at run
    simp only [Bool.false_eq_true, if_false] at run
    rw [get_attempt, carries.native] at run
    simp only [unsent, if_false] at run
    cases run
  obtain ⟨q,same,sessions,registry⟩ := dispatch_run carries.native sent a
  rw [same] at run
  rcases dispatchToSession_run q a o with ⟨error,failed,-⟩ | ⟨b',meaning,checked,onward⟩
  · rw [failed] at run
    cases run
  · rw [onward] at run
    by_cases live : q.Live b'
    · obtain ⟨q',delivered,boxes⟩ := deliver_live live (q.handed a o)
      rw [delivered] at run
      cases run
      have box := carries.mailbox b'
      rw [boxes b', if_pos rfl, mailbox_congr sessions, handed_congr sessions] at box
      by_cases here : b' = b
      · rw [if_pos here] at box
        rw [meant?_congr sessions registry] at meaning
        exact ⟨here ▸ meaning, by simpa using (List.append_cancel_left box).symm, checked⟩
      · rw [if_neg here] at box
        simp at box
    · obtain ⟨error,failed⟩ := deliver_dead live (q.handed a o)
      rw [failed] at run
      cases run

/-- A reply gets to a session exactly if the place it is sent to means that session. -/
theorem replies_iff {reply : OutgoingEvent} {invoke : InvokeId}
    (target : reply.target = some (Address.ofService invoke))
    (own : Address.isSessionType reply.type = true)
    (native : r.processors.find? (·.accepts reply.type reply.target) = none) (live : r.Live a) :
    (∃ f r', r.Carries b reply a f r' ∧ f.name = reply.name ∧ f.data = reply.data) ↔
      r.meant? b (Address.ofService invoke) = some a ∧
        (invoke = "parent" → reply.checkToParent = .ok ()) := by
  have upward : reply.target = some Address.parentTarget ↔ invoke = "parent" := by
    rw [target, Address.ofService_parent, Option.some.injEq, Address.ofService_inj]
  have place : reply.target.getD "" = Address.ofService invoke := by rw [target]; rfl
  constructor
  · rintro ⟨f,r',carries,-,-⟩
    obtain ⟨meaning,-,checked⟩ := carries.meaning
    exact ⟨place ▸ meaning, fun here => checked (upward.mpr here)⟩
  · rintro ⟨meaning,checked⟩
    obtain ⟨r',carries⟩ := carries_of_meant native
      (target ▸ Address.isForSession_of_service own invoke) (place ▸ meaning) live
      fun here => checked (upward.mp here)
    exact ⟨_, r', carries, handed_name r b reply, handed_data r b reply⟩

theorem meant?_service_iff {invoke : InvokeId} (child : r.childOf b invoke = some a) :
    r.meant? b (Address.ofService invoke) = some a ↔
      Address.Unreserved invoke ∨ invoke = Address.sessionStem ++ a ∨
        invoke = "parent" ∧ r.meant? b Address.parentTarget = some a := by
  constructor
  · intro meaning
    by_cases upward : invoke = "parent"
    · rw [upward] at meaning
      exact Or.inr (Or.inr ⟨upward, meaning⟩)
    by_cases session : ∃ id, invoke = Address.sessionStem ++ id
    · obtain ⟨id,rfl⟩ := session
      rw [← Address.ofSession_eq, meant?_ofSession, Option.some.injEq] at meaning
      exact Or.inr (Or.inl (by rw [meaning]))
    · exact Or.inl ⟨upward, fun id same => session ⟨id, same⟩⟩
  · rintro (unreserved | rfl | ⟨rfl,meaning⟩)
    · rw [meant?_ofService unreserved, child]
    · rw [← Address.ofSession_eq, meant?_ofSession]
    · exact meaning

/-- An event that the router brings to a session says where it comes from, and a session that sends
    to that place reaches the one that the event came from, as long as that one takes events. For an
    event that was sent to the parent, it also has to be registered as a service of the session that
    replies, and then exactly those invoke ids do that cannot be taken for something else, or happen
    to mean the same. A send action lets out what it sends to that place, unless the invoke id makes
    it the name of the session's own queue. -/
theorem replies_reach_senders (carries : r.Carries a o b e r') :
    ∃ place, e.origin = some place ∧ e.originType = some Address.sessionType ∧
    (∀ (q : Router) (reply : OutgoingEvent), reply.target = some place →
      Address.isSessionType reply.type = true →
      q.processors.find? (·.accepts reply.type reply.target) = none → q.Live a →
      (r.linkFor a o = none →
        ∃ f q', q.Carries b reply a f q' ∧ f.name = reply.name ∧ f.data = reply.data) ∧
      ∀ link, r.linkFor a o = some link → q.childOf b link.invokeId = some a →
        ((∃ f q', q.Carries b reply a f q' ∧ f.name = reply.name ∧ f.data = reply.data) ↔
          Address.Unreserved link.invokeId ∨ link.invokeId = Address.sessionStem ++ a ∨
          link.invokeId = "parent" ∧ q.meant? b Address.parentTarget = some a ∧
            reply.checkToParent = .ok ())) ∧
    (∀ link, r.linkFor a o = some link → link.session = b ∧
      ∀ (state : String) (n : Nat), link.invokeId = state ++ "." ++ idText n →
        (Address.Unreserved link.invokeId ↔ ∀ rest, state ≠ Address.sessionStem ++ rest)) ∧
    ∀ (s : SendAction) (m m' : Machine), s.Aims m place → MachineM.send s m = .ok () m' →
      ((∃ out, m'.effects = m.effects ++ [.send out] ∧ out.target = some place) ↔
        ∀ link, r.linkFor a o = some link → link.invokeId ≠ "internal") := by
  obtain ⟨meaning,rfl,-⟩ := carries.meaning
  -- A send leaves the machine unless its place names the machine's own queue.
  have sends {place : String} (s : SendAction) (m m' : Machine) (aims : s.Aims m place)
      (run : MachineM.send s m = .ok () m') :
      (∃ out, m'.effects = m.effects ++ [.send out] ∧ out.target = some place) ↔
        place ≠ MachineM.internalTarget := by
    rcases send_aimed aims run with ⟨inside,same⟩ | ⟨outside,out,left,target,-⟩
    · refine ⟨fun ⟨out,left,_⟩ => ?_, fun outside => absurd inside outside⟩
      rw [same] at left
      simp at left
    · exact ⟨fun _ => outside, fun _ => ⟨out, left, target⟩⟩
  cases along : r.linkFor a o with
  | none =>
    -- The place is the sender's id, which means the sender to everybody.
    refine ⟨Address.ofSession a, by rw [handed, along], by rw [handed, along],
      fun q reply target own native live => ⟨fun _ => ?_, nofun⟩, nofun, fun s m m' aims run => ?_⟩
    · rw [Address.ofSession_eq] at target
      refine (replies_iff target own native live).mpr ⟨?_, fun upward => ?_⟩
      · rw [← Address.ofSession_eq, meant?_ofSession]
      · have other := Address.ofSession_ne_parent a
        rw [Address.ofSession_eq, upward] at other
        exact absurd rfl other
    · refine (sends s m m' aims run).trans ⟨fun _ => nofun, fun _ same => ?_⟩
      have letters := congrArg String.toList same
      simp [Address.ofSession, Address.sessionMark, MachineM.internalTarget] at letters
  | some link =>
    -- The event goes up, and the place is the invoke id, which only the parent can resolve.
    have upward : o.target = some Address.parentTarget := by
      by_contra sideways
      rw [linkFor, if_neg sideways] at along
      cases along
    refine ⟨Address.ofService link.invokeId, by rw [handed, along]; rfl, by rw [handed, along]; rfl,
      fun q reply target own native live => ⟨nofun, ?_⟩, ?_, fun s m m' aims run => ?_⟩
    · rintro _ ⟨⟩ child
      rw [replies_iff target own native live, meant?_service_iff child]
      constructor
      · rintro ⟨unreserved | same | ⟨here,meaning⟩,checked⟩
        · exact Or.inl unreserved
        · exact Or.inr (Or.inl same)
        · exact Or.inr (Or.inr ⟨here, meaning, checked here⟩)
      · rintro (unreserved | same | ⟨here,meaning,checked⟩)
        · exact ⟨Or.inl unreserved, fun here => absurd here unreserved.notParent⟩
        · refine ⟨Or.inr (Or.inl same), fun here => ?_⟩
          have other := Address.ofSession_ne_parent a
          rw [Address.ofSession_eq, ← same, here] at other
          exact absurd rfl other
        · exact ⟨Or.inr (Or.inr ⟨here, meaning⟩), fun _ => checked⟩
    · rintro _ ⟨⟩
      refine ⟨?_, fun state n named => ?_⟩
      · have known : (r.registered? a).bind (·.parent) = some link := by
          rw [linkFor, if_pos upward] at along
          exact along
        rw [upward, Option.getD_some, meant?_parent, known] at meaning
        exact Option.some.inj meaning
      · rw [named]
        exact Address.generated_unreserved
    · refine (sends s m m' aims run).trans ?_
      have same : Address.ofService link.invokeId = Address.ofService "internal" ↔
          link.invokeId = "internal" := Address.ofService_inj
      have inside : Address.ofService link.invokeId ≠ MachineM.internalTarget ↔
          link.invokeId ≠ "internal" := not_congr same
      rw [inside]
      exact ⟨fun other _ same => Option.some.inj same ▸ other, fun other => other link rfl⟩

end Router

namespace Answered

open Source Router RouterM

def service : ChartDef where
  name := none
  initial := none
  data := []
  extra := none
  states := [.mk (.simple "work" .state []) []]

def client (invoke : InvokeId) : ChartDef where
  name := none
  initial := none
  data := []
  extra := none
  states :=
    [.mk { StateInfo.simple "busy" .state [] with
        invokes := [⟨none, some "service", none, some invoke, none, [], none, false, []⟩] } []]

def parent : SessionId := idText 0

def child : SessionId := idText 2

/-- The client has started, and the service too. -/
def started (invoke : InvokeId) : Router :=
  ([.create (Chart.compiled [] (client invoke)) none none, .start parent, .settle 50].forM Call.run
    { settings := {}, charts := [("service", Chart.compiled [] service)] }).2

/-- What the service sends to its parent. -/
def greeting : OutgoingEvent :=
  ⟨⟨["hello"]⟩, none, some Address.parentTarget, none, 0, .undefined⟩

def reply (invoke : InvokeId) : OutgoingEvent :=
  ⟨⟨["reply"]⟩, none, some (Address.ofService invoke), none, 0, .undefined⟩

def isLive (r : Router) (id : SessionId) : Bool := (r.registered? id).any (·.isOpen)

def hasLink (r : Router) (invoke : InvokeId) : Bool :=
  ((r.registered? child).bind (·.parent)).any fun l =>
    l.session == parent && l.invokeId == invoke

theorem live_of_isLive {r : Router} {id : SessionId} (checked : isLive r id = true) : r.Live id :=
  (Option.any_eq_true _ _).mp checked

theorem link_of_hasLink {r : Router} {invoke : InvokeId} (checked : hasLink r invoke = true) :
    ∃ link, r.linkFor child greeting = some link ∧ link.session = parent ∧
      link.invokeId = invoke := by
  obtain ⟨link,known,same⟩ := (Option.any_eq_true _ _).mp checked
  rw [Bool.and_eq_true, beq_iff_eq, beq_iff_eq] at same
  exact ⟨link, (if_pos rfl).trans known, same⟩

theorem greeted {r : Router} {invoke : InvokeId} (native : r.processors = [])
    (live : isLive r parent = true) (linked : hasLink r invoke = true) :
    ∃ r', r.Carries child greeting parent (r.handed child greeting) r' := by
  obtain ⟨link,along,up,-⟩ := link_of_hasLink linked
  have known : (r.registered? child).bind (·.parent) = some link := (if_pos rfl).symm.trans along
  refine carries_of_meant (by rw [native]; rfl) (by decide) ?_ (live_of_isLive live) fun _ => rfl
  change r.meant? child Address.parentTarget = some parent
  rw [meant?_parent, known, ← up]
  rfl

theorem handed_origin {r : Router} {link : ParentLink}
    (along : r.linkFor child greeting = some link) :
    (r.handed child greeting).origin = some (Address.ofService link.invokeId) := by
  rw [handed, along]
  rfl

/-- A service that is invoked as "kid" is reached by a reply. -/
theorem kid_answered : ∃ e r', (started "kid").Carries child greeting parent e r' ∧
    e.origin = some "#_kid" ∧ (started "kid").Live child ∧
    ∃ f q', (started "kid").Carries parent (reply "kid") child f q' ∧
      f.name = (reply "kid").name := by
  have native : (started "kid").processors = [] := List.eq_nil_of_length_eq_zero (by decide +kernel)
  have checks : (isLive (started "kid") parent && isLive (started "kid") child &&
      hasLink (started "kid") "kid" && (started "kid").childOf parent "kid" == some child) = true := by
    decide +kernel
  generalize started "kid" = r at *
  simp only [Bool.and_eq_true, beq_iff_eq] at checks
  obtain ⟨⟨⟨up,down⟩,linked⟩,registered⟩ := checks
  obtain ⟨r',carries⟩ := greeted native up linked
  obtain ⟨link,along,-,named⟩ := link_of_hasLink linked
  obtain ⟨place,origin,-,answered,-⟩ := replies_reach_senders carries
  have sender := handed_origin along
  rw [named] at sender
  obtain rfl : place = Address.ofService "kid" := Option.some.inj (origin.symm.trans sender)
  have reaches := ((answered r (reply "kid") rfl rfl (by rw [native]; rfl)
    (live_of_isLive down)).2 link along (named ▸ registered)).mpr
  obtain ⟨f,q',replied,same,-⟩ := reaches (Or.inl (named ▸ ⟨by decide, fun id taken => by
    simpa [Address.sessionStem] using congrArg String.toList taken⟩))
  exact ⟨_, r', carries, sender, live_of_isLive down, f, q', replied, same⟩

/-- A reply to a service that is invoked as "scxml_kid" does not reach it: the place it is sent to
    reads as that of a session "kid". -/
theorem scxml_kid_unanswered : ∃ e r', (started "scxml_kid").Carries child greeting parent e r' ∧
    e.origin = some "#_scxml_kid" ∧ r'.Live child ∧
    r'.childOf parent "scxml_kid" = some child ∧
    ∀ (reply : OutgoingEvent) (f : Event) (q' : Router), reply.target = e.origin →
      ¬ r'.Carries parent reply child f q' := by
  have native : (started "scxml_kid").processors = [] :=
    List.eq_nil_of_length_eq_zero (by decide +kernel)
  have checks : (isLive (started "scxml_kid") parent && hasLink (started "scxml_kid") "scxml_kid" &&
      isLive ((dispatch child greeting false).run (started "scxml_kid")).2 child &&
      ((dispatch child greeting false).run (started "scxml_kid")).2.childOf parent "scxml_kid" ==
        some child) = true := by
    decide +kernel
  generalize started "scxml_kid" = r at *
  simp only [Bool.and_eq_true, beq_iff_eq] at checks
  obtain ⟨⟨⟨up,linked⟩,down⟩,registered⟩ := checks
  obtain ⟨r',carries⟩ := greeted native up linked
  rw [carries.run] at down registered
  obtain ⟨link,along,-,named⟩ := link_of_hasLink linked
  have sender := handed_origin along
  rw [named] at sender
  refine ⟨_, r', carries, sender, live_of_isLive down, registered, fun reply f q' target replied => ?_⟩
  have meaning := replied.meaning.1
  rw [target, sender] at meaning
  have other : r'.meant? parent (Address.ofService "scxml_kid") = some "kid" :=
    meant?_ofSession r' parent "kid"
  exact absurd (Option.some.inj (meaning.symm.trans other)) (by decide +kernel)

end Answered

end Statechart

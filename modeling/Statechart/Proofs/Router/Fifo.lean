import Statechart.Proofs.Router.Calls
import Statechart.Proofs.Router.Post

/- Mailboxes hand on what they take in: in order, once, and across suspensions.

   An event that woke a session has left the mailbox and waits apart until the machine is handed it.
   It comes before all that is still in the mailbox. The events of a mailbox that nobody takes any
   more, and one with which a session failed to wake up, are those accepted last. -/
namespace Statechart

namespace Router

variable {r r' r'' : Router} {id : SessionId} {e : Event} {s taken : Session}

theorem depth_setDepth (r : Router) (id other : SessionId) (depth : Int) :
    (r.setDepth id depth).depth other = if other = id then depth else r.depth other := by
  change (List.lookup other ((id, depth) :: r.depths.filter (·.1 ≠ id))).getD 0 = _
  rw [List.lookup_cons, lookup_filter]
  by_cases here : other = id
  · subst here
    simp
  · rw [if_neg here, if_neg here, beq_false_of_ne here]
    rfl

/-- A session that goes on has had an event taken from it. -/
structure Drawn (r : Router) (s taken : Session) (r' : Router) : Prop where
  mailboxes : ∀ id, r'.mailbox id = if id = s.id then taken.mailbox else r.mailbox id
  woken : ∀ id, r'.woken id = if id = s.id then taken.wakeEvent.toList else r.woken id
  depths : ∀ id, r'.depth id =
    if id = s.id then r.depth id - (s.mailbox.length - taken.mailbox.length) else r.depth id
  past : ∀ id, r.Over id → r'.Over id
  final : ∀ id, r.Final id → r'.Final id

theorem Drawn.quiet (drawn : Drawn r s taken r') (quiet : r'.Quiet r'') : Drawn r s taken r'' where
  mailboxes id := (quiet.mailboxes id).trans (drawn.mailboxes id)
  woken id := (quiet.woken id).trans (drawn.woken id)
  depths id := (quiet.depths id).trans (drawn.depths id)
  past id := quiet.past id ∘ drawn.past id
  final id := quiet.final id ∘ drawn.final id

/-- The session that went on is put in the place of the one it was. -/
theorem Drawn.alter {q : Router} (found : r.session? s.id = some s) (named : taken.id = s.id)
    (phase : taken.phase = s.phase) (outcome : taken.outcome = s.outcome)
    (sessions : q.sessions = r.sessions) (depths : ∀ id, q.depth id =
      if id = s.id then r.depth id - (s.mailbox.length - taken.mailbox.length) else r.depth id) :
    Drawn r s taken (q.alter s.id fun _ => taken) := by
  have same : ∀ id, q.session? id = r.session? id := fun id => by rw [session?, sessions, session?]
  have asked : ∀ id, (q.alter s.id fun _ => taken).session? id =
      if id = s.id then some taken else r.session? id := by
    intro id
    rw [session?_alter (f := fun _ => taken) q (fun _ _ => named), same, same, found]
    rfl
  refine ⟨fun id => ?_, fun id => ?_, depths, fun id past => ?_, fun id final => ?_⟩
  · by_cases here : id = s.id
    · simp only [mailbox, asked id, if_pos here]
    · simp only [mailbox, asked id, if_neg here]
  · by_cases here : id = s.id
    · simp only [Router.woken, asked id, if_pos here]
    · simp only [Router.woken, asked id, if_neg here]
  · obtain ⟨s',found',ended⟩ := past
    rw [Over, asked id]
    split
    · rename_i here
      rw [here, found] at found'
      cases found'
      exact ⟨taken, rfl, phase.trans ended⟩
    · exact ⟨s', found', ended⟩
  · intro s' found' concluded
    rw [asked id] at found'
    split at found'
    · rename_i here
      cases found'
      exact phase.trans (final s (here ▸ found) (outcome ▸ concluded))
    · exact final s' found' concluded

/-- The events accepted for a session are those handed to its machine, then those it has not been
    handed. With some it has ended; the others wait, apart or in the mailbox, which is counted. -/
structure Tally (r : Router) (id : SessionId) (accepted handed : List Event) : Prop where
  order : ∃ lost, accepted = handed ++ lost ++ r.woken id ++ r.mailbox id ∧
    (lost ≠ [] → r.Over id)
  depth : r.depth id = (r.mailbox id).length
  final : r.Final id

variable {accepted handed : List Event}

theorem Tally.quiet (tally : r.Tally id accepted handed) (quiet : r.Quiet r') :
    r'.Tally id accepted handed where
  order := by
    obtain ⟨lost,order,past⟩ := tally.order
    exact ⟨lost, by rw [quiet.woken, quiet.mailboxes, order], fun some => quiet.past id (past some)⟩
  depth := by rw [quiet.depths, quiet.mailboxes, tally.depth]
  final := quiet.final id tally.final

/-- Of another session nothing is taken. -/
theorem Tally.drawn_other (tally : r.Tally id accepted handed) (drawn : Drawn r s taken r')
    (other : id ≠ s.id) : r'.Tally id accepted handed where
  order := by
    obtain ⟨lost,order,past⟩ := tally.order
    refine ⟨lost, ?_, fun some => drawn.past id (past some)⟩
    rw [drawn.woken, drawn.mailboxes, if_neg other, if_neg other, order]
  depth := by rw [drawn.depths, drawn.mailboxes, if_neg other, if_neg other, tally.depth]
  final := drawn.final id tally.final

theorem Tally.elsewhere (tally : r.Tally id accepted handed) (same : r'.session? id = r.session? id)
    (depth : r'.depth id = r.depth id) : r'.Tally id accepted handed := by
  have box : r'.mailbox id = r.mailbox id := by rw [mailbox, same, mailbox]
  have apart : r'.woken id = r.woken id := by rw [Router.woken, same, Router.woken]
  refine ⟨?_, by rw [depth, box, tally.depth], fun s found => tally.final s (same ▸ found)⟩
  obtain ⟨lost,order,past⟩ := tally.order
  refine ⟨lost, by rw [box, apart, order], fun some => ?_⟩
  rw [Over, same]
  exact past some

/-- What has been lost of a session that goes on is nothing. -/
theorem Tally.order_of_going (tally : r.Tally id accepted handed) (going : ¬ r.Over id) :
    accepted = handed ++ r.woken id ++ r.mailbox id := by
  obtain ⟨lost,order,past⟩ := tally.order
  have none : lost = [] := by
    by_contra some
    exact going (past some)
  rw [order, none, List.append_nil]

end Router

namespace RouterM

open Router

variable {r : Router} {id : SessionId} {e : Event} {s taken : Session}

theorem nextEvent?_cases (next : nextEvent? s = some (e, taken)) :
    taken.wakeEvent = none ∧ taken.id = s.id ∧ taken.phase = s.phase ∧ taken.outcome = s.outcome ∧
    ((s.wakeEvent = some e ∧ taken.mailbox = s.mailbox) ∨
      (s.wakeEvent = none ∧ s.mailbox = e :: taken.mailbox)) := by
  rcases nextEvent?_eq_some next with ⟨woken,rfl⟩ | ⟨rest,woken,sent,rfl⟩
  · exact ⟨rfl, rfl, rfl, rfl, Or.inl ⟨woken, rfl⟩⟩
  · exact ⟨woken, rfl, rfl, rfl, Or.inr ⟨woken, sent⟩⟩

theorem nextEvent?_order (next : nextEvent? s = some (e, taken)) :
    s.wakeEvent.toList ++ s.mailbox = e :: taken.mailbox := by
  obtain ⟨-,-,-,-,⟨woken,same⟩ | ⟨woken,sent⟩⟩ := nextEvent?_cases next
  · rw [woken, same]
    rfl
  · rw [woken, sent]
    rfl

theorem adopt_drawn (found : r.session? s.id = some s) (next : nextEvent? s = some (e, taken)) :
    Drawn r s taken (adopt s taken r).2 := by
  obtain ⟨_,named,phase,outcome,source⟩ := nextEvent?_cases next
  have shown : Leads Quiet (if taken.status ≠ s.status then setStatus s.id taken.status
      else Pure.pure () : RouterM Unit) := by
    split
    · exact setStatus_quiet _ _
    · exact .pure _
  rcases source with ⟨_,same⟩ | ⟨_,sent⟩
  · have kept : Drawn r s taken (r.alter s.id fun _ => taken) := by
      refine .alter found named phase outcome rfl fun id => ?_
      rw [same]
      split
      · omega
      · rfl
    unfold adopt
    rw [if_neg (by rw [same]; omega)]
    exact kept.quiet (shown _)
  · have counted : Drawn r s taken ((r.countOut s.id).alter s.id fun _ => taken) := by
      refine .alter found named phase outcome rfl fun id => ?_
      rw [countOut, depth_setDepth, sent]
      split
      · rename_i here
        rw [here, List.length_cons]
        omega
      · rfl
    unfold adopt
    rw [if_pos (by rw [sent, List.length_cons]; omega)]
    exact counted.quiet (shown _)

/-- What a machine is handed is the event that was accepted first of those it had not been handed. -/
theorem hand_drawn {m : Machine} (receives : r.received? id = some (m, e)) :
    ∃ s taken, r.session? id = some s ∧ s.id = id ∧ s.phase ≠ .ended ∧
      nextEvent? s = some (e, taken) ∧ Drawn r s taken (turn (.session id) r).2 := by
  obtain ⟨s,n,taken,found,phase,waiting,input,rfl⟩ := received?_parts receives
  have named := session?_id found
  have here : r.session? s.id = some s := by rw [named, found]
  have begun : s.phase ≠ .ended := by rw [phase]; nofun
  have next := input?_event input
  have drawn := adopt_drawn here next
  refine ⟨s, taken, found, named, begun, next, ?_⟩
  have control : (current r s n).control = .waiting := waiting
  rw [turn_active found phase, goOn_input control input]
  refine drawn.quiet (keep_quiet _ fun s' found' => ?_)
  have took := adopt_session here (input?_rests input).1.id
  cases took.symm.trans found'
  rw [(nextEvent?_cases next).2.2.1]
  exact begun

theorem finish_quiet (found : r.session? id = some s) (going : s.outcome = none) {o : Outcome}
    (without : o.status ≠ .completed) : r.Quiet (finish id o r).2 ∧ (finish id o r).2.Over id := by
  constructor
  · have shut := closing_quiet id o r
    have shown := setStatus_quiet id o.status
    rw [finish_eq found going]
    cases s.parent with
    | none => exact shut.trans (shown _)
    | some link =>
      refine (shut.trans ?_).trans (shown _)
      unfold reportDone
      simp only [without, decide_false, Bool.and_false, Bool.false_eq_true, if_false]
      exact Quiet.of_same rfl rfl
  · obtain ⟨s',found',_,_,ended⟩ := finish_own found going o
    exact ⟨s', found', ended⟩

theorem send_accepted (accepted : ((send s e).run r).1 = .ok ()) :
    ((r.countIn s.id).alter s.id fun s => { s with mailbox := s.mailbox ++ [e] }).Quiet
      ((send s e).run r).2 := by
  unfold send at accepted ⊢
  by_cases isOpen : s.isOpen = true
  · rw [if_pos isOpen]
    exact wake_leads (R := Quiet) (.session s.id) _
  · rw [if_neg isOpen] at accepted
    cases accepted

end RouterM

namespace Router

open RouterM

variable {r r' : Router} {id : SessionId} {e : Event} {accepted handed : List Event}

theorem Tally.accept {s : Session} (tally : r.Tally id accepted handed)
    (found : r.session? s.id = some s) (ok : ((send s e).run r).1 = .ok ()) :
    ((send s e).run r).2.Tally id (if s.id = id then accepted ++ [e] else accepted) handed := by
  let fill : Session → Session := fun s => { s with mailbox := s.mailbox ++ [e] }
  let q := (r.countIn s.id).alter s.id fill
  have asked : ∀ id, q.session? id = if id = s.id then some (fill s) else r.session? id := by
    intro id
    rw [session?_alter (f := fill) _ (fun _ here => here)]
    change (if id = s.id then (r.session? s.id).map fill else r.session? id) = _
    rw [found]
    rfl
  have depths : ∀ id, q.depth id = if id = s.id then r.depth s.id + 1 else r.depth id :=
    fun other => depth_setDepth r s.id other _
  have past : r.Over id → q.Over id := by
    rintro ⟨s',found',ended⟩
    rw [Over, asked id]
    split
    · rename_i here
      rw [here, found] at found'
      cases found'
      exact ⟨_, rfl, ended⟩
    · exact ⟨s', found', ended⟩
  have final : q.Final id := by
    intro s' found' concluded
    rw [asked id] at found'
    split at found'
    · rename_i here
      cases found'
      exact tally.final s (here ▸ found) concluded
    · exact tally.final s' found' concluded
  refine Tally.quiet ?_ (send_accepted ok)
  obtain ⟨lost,order,ended⟩ := tally.order
  by_cases here : id = s.id
  · subst here
    have box : q.mailbox s.id = r.mailbox s.id ++ [e] := by
      rw [mailbox_of_found found]
      simp only [mailbox, asked, if_true]
      rfl
    have apart : q.woken s.id = r.woken s.id := by
      rw [woken_of_found found]
      simp only [Router.woken, asked, if_true]
      rfl
    refine ⟨⟨lost, ?_, fun some => past (ended some)⟩, ?_, final⟩
    · rw [if_pos rfl, box, apart, order, List.append_assoc _ (r.mailbox s.id)]
    · rw [depths, if_pos rfl, tally.depth, box, List.length_append, List.length_singleton]
      rfl
  · have box : q.mailbox id = r.mailbox id := by simp only [mailbox, asked, if_neg here]
    have apart : q.woken id = r.woken id := by simp only [Router.woken, asked, if_neg here]
    refine ⟨⟨lost, ?_, fun some => past (ended some)⟩, ?_, final⟩
    · rw [if_neg (Ne.symm here), box, apart, order]
    · rw [depths, if_neg here, tally.depth, box]

theorem Tally.hand {m : Machine} {own : SessionId} (tally : r.Tally id accepted handed)
    (receives : r.received? own = some (m, e)) :
    (turn (.session own) r).2.Tally id accepted (if own = id then handed ++ [e] else handed) := by
  obtain ⟨s,taken,found,named,going,next,drawn⟩ := hand_drawn receives
  by_cases here : id = s.id
  · have same : own = id := named.symm.trans here.symm
    subst same
    have apart := (nextEvent?_cases next).1
    have before : accepted = handed ++ (e :: taken.mailbox) := by
      have order := tally.order_of_going (not_over_of_found found going)
      rw [woken_of_found found, mailbox_of_found found, List.append_assoc,
        nextEvent?_order next] at order
      exact order
    refine ⟨⟨[], ?_, fun some => absurd rfl some⟩, ?_, drawn.final _ tally.final⟩
    · rw [drawn.woken, drawn.mailboxes, if_pos here, if_pos here, apart, before, if_pos rfl]
      simp
    · rw [drawn.depths, drawn.mailboxes, if_pos here, if_pos here, tally.depth,
        mailbox_of_found found]
      omega
  · rw [if_neg fun same => here (same.symm.trans named.symm)]
    exact tally.drawn_other drawn here

theorem fetched?_awake {own : SessionId} (fetches : r.fetched? own = some e) :
    ∃ s taken, r.session? s.id = some s ∧ s.id = own ∧ s.phase = .asleep ∧
      nextEvent? s = some (e, taken) ∧
      turn (.session own) r = rouse s e (adopt s taken r).2 := by
  unfold fetched? at fetches
  cases found : r.session? own with
  | none =>
    simp only [found] at fetches
    cases fetches
  | some s =>
    cases phase : s.phase with
    | asleep =>
      simp only [found, phase] at fetches
      split at fetches
      · cases fetches
      · rename_i spared
        obtain ⟨⟨e',taken⟩,next,same⟩ := Option.map_eq_some_iff.mp fetches
        cases same
        have named := session?_id found
        refine ⟨s, taken, by rw [named, found], named, phase, next, ?_⟩
        simp only [turn, get_bind, found, phase, awake, spared, next, Bool.false_eq_true, if_false]
        rfl
    | _ =>
      simp only [found, phase] at fetches
      cases fetches

/-- The event that wakes a session comes before what is left in its mailbox. If the session fails to
    wake up it ends, and the event is lost. -/
theorem Tally.fetch {own : SessionId} (tally : r.Tally id accepted handed)
    (ends : r.Final own) (fetches : r.fetched? own = some e) :
    (turn (.session own) r).2.Tally id accepted handed := by
  obtain ⟨s,taken,found,named,asleep,next,run⟩ := fetched?_awake fetches
  obtain ⟨apart,taken_id,taken_phase,taken_outcome,-⟩ := nextEvent?_cases next
  have drawn := adopt_drawn found next
  have took := adopt_session found taken_id
  let p := (adopt s taken r).2
  let q := ((resume s).run p).2
  have quiet : p.Quiet q := resume_leads (fun _ _ _ _ => .of_same rfl rfl) p
  have there : q.session? s.id = some taken := by
    rw [(resume_leads (R := Alike) (s := s) (fun _ _ _ _ => ⟨rfl, rfl⟩) p).session?, took]
  have drawn : Drawn r s taken q := drawn.quiet quiet
  have begun : s.phase ≠ .ended := by rw [asleep]; nofun
  have going : taken.outcome = none := by
    rw [taken_outcome, ← Option.not_isSome_iff_eq_none]
    exact fun concluded => begun (ends s (named ▸ found) concluded)
  have before : s.id = id → accepted = handed ++ (e :: taken.mailbox) := by
    rintro rfl
    have order := tally.order_of_going (not_over_of_found found begun)
    rw [woken_of_found found, mailbox_of_found found, List.append_assoc,
      nextEvent?_order next] at order
    exact order
  have depth : s.id = id → q.depth id = taken.mailbox.length := by
    rintro rfl
    rw [drawn.depths, if_pos rfl, tally.depth, mailbox_of_found found]
    omega
  rw [run, rouse, bind_run]
  cases ((resume s).run p).1 with
  | ok m =>
    let rouse : Session → Session := fun s =>
      { s with phase := .active m.start, wakeEvent := some e }
    have asked : ∀ id, (q.alter s.id rouse).session? id =
        if id = s.id then some (rouse taken) else q.session? id := by
      intro id
      rw [session?_alter (f := rouse) q (fun _ here => here), there]
      rfl
    change (q.alter s.id rouse).Tally id accepted handed
    by_cases here : s.id = id
    · have own : (q.alter s.id rouse).session? id = some (rouse taken) := by
        rw [asked, if_pos here.symm]
      refine ⟨⟨[], ?_, fun some => absurd rfl some⟩, ?_, fun s' found' concluded => ?_⟩
      · rw [woken_of_found own, mailbox_of_found own, before here]
        simp [rouse]
      · rw [mailbox_of_found own]
        exact depth here
      · cases own.symm.trans found'
        rw [show (rouse taken).outcome = none from going] at concluded
        cases concluded
    · refine (tally.drawn_other drawn (Ne.symm here)).elsewhere ?_ rfl
      rw [asked, if_neg (Ne.symm here)]
  | error error =>
    obtain ⟨silent,past⟩ := finish_quiet there going
      (o := { status := .failed, error := some error.message }) (by simp)
    change (finish s.id { status := .failed, error := some error.message } q).2.Tally id accepted
      handed
    by_cases here : s.id = id
    · refine ⟨⟨[e], ?_, fun _ => here ▸ past⟩, ?_, ?_⟩
      · rw [silent.woken, silent.mailboxes, drawn.woken, drawn.mailboxes, if_pos here.symm,
          if_pos here.symm, apart, before here]
        simp
      · rw [silent.depths, silent.mailboxes, drawn.mailboxes, if_pos here.symm, depth here]
      · exact silent.final id (drawn.final id tally.final)
    · exact (tally.drawn_other drawn (Ne.symm here)).quiet silent

def Post.acceptedBy (id : SessionId) : Post → List Event
  | .accept session e => if session = id then [e] else []
  | _ => []

def Post.handedTo (id : SessionId) : Post → List Event
  | .hand session e => if session = id then [e] else []
  | _ => []

def acceptedIn (id : SessionId) (history : List (Post × Router)) : List Event :=
  history.flatMap fun step => step.1.acceptedBy id

/-- The events that the machines of a session took in, in order. -/
def handedIn (id : SessionId) (history : List (Post × Router)) : List Event :=
  history.flatMap fun step => step.1.handedTo id

theorem Posts.tally {p : Post} (posts : Posts r p r') (tally : r.Tally id accepted handed)
    (final : ∀ id, r.Final id) :
    r'.Tally id (accepted ++ p.acceptedBy id) (handed ++ p.handedTo id) := by
  cases posts with
  | aside quiet => simpa [Post.acceptedBy, Post.handedTo] using tally.quiet quiet
  | @accept s e found ok =>
    have filled := tally.accept found ok
    by_cases here : s.id = id
    · simpa [Post.acceptedBy, Post.handedTo, here] using filled
    · simpa [Post.acceptedBy, Post.handedTo, here] using filled
  | @hand own m e receives =>
    have took := tally.hand receives
    by_cases here : own = id
    · simpa [Post.acceptedBy, Post.handedTo, here] using took
    · simpa [Post.acceptedBy, Post.handedTo, here] using took
  | fetch fetches =>
    simpa [Post.acceptedBy, Post.handedTo] using tally.fetch (final _) fetches

theorem Throughout.tally {history : List (Post × Router)} {accepted handed : SessionId → List Event}
    (happens : Throughout Posts r history) (tally : ∀ id, r.Tally id (accepted id) (handed id))
    (id : SessionId) :
    (after r history).Tally id (accepted id ++ acceptedIn id history)
      (handed id ++ handedIn id history) := by
  induction history generalizing r accepted handed with
  | nil => simpa [acceptedIn, handedIn, after] using tally id
  | cons step rest ih =>
    obtain ⟨p,r'⟩ := step
    have first : ∀ id, r'.Tally id (accepted id ++ p.acceptedBy id) (handed id ++ p.handedTo id) :=
      fun id => happens.1.tally (tally id) fun other => (tally other).final
    simpa [acceptedIn, handedIn, after, List.append_assoc] using ih happens.2 first

theorem Call.run_posted (call : Call) (r : Router) :
    r.Goes (fun p => p.Draws → call.TakesTurns) (call.run r).2 := by
  by_cases turns : call.TakesTurns
  · refine (call.leads_turning turns turn_posted r).mono fun _ _ _ => turns
  · have fills : Leads Fills call.run := call.leads turns
      (fun _ _ _ _ => Quiet.fills (.of_same rfl rfl)) (fun _ _ _ => Quiet.fills (.of_same rfl rfl))
      (fun chart parent arguments _ => createSession_fills chart parent arguments) startSession_fills
      (fun parent data _ => beginInvoke_fills parent data)
      (fun parent invoke result _ => endInvoke_native parent invoke result) cancelInvoke_native
      (destroy_native finish_native)
    exact (fills r).mono fun p still draws => absurd draws still

theorem calls_posted (calls : List Call) (r : Router) :
    r.Goes (fun p => p.Draws → ∃ call ∈ calls, call.TakesTurns) (calls.forM Call.run r).2 := by
  induction calls generalizing r with
  | nil => exact .refl r
  | cons call rest ih =>
    have first := (call.run_posted r).mono fun p turns draws =>
      (⟨call, List.mem_cons_self, turns draws⟩ : ∃ c ∈ call :: rest, c.TakesTurns)
    refine first.trans ((ih _).mono fun p turns draws => ?_)
    obtain ⟨later,within,takes⟩ := turns draws
    exact ⟨later, List.mem_cons_of_mem _ within, takes⟩

/-- Whatever a host does with a router that was created, and in whatever order tasks take turns:
    all is made of posts, in which a session is handed an event, or fetches one to wake up with, as
    the whole turn of its own. The machines of a session, one after the other, take in the events
    that were accepted for it, in the order of acceptance, each once. While the session has not
    ended, those that they have not taken in are the one that it woke up with and those in its
    mailbox; and of all that its mailbox took in it is counted to hold what nobody has taken. -/
theorem mailbox_fifo {settings : Settings} {storage : Storage} {r : Router}
    (created : Router.create settings storage = .ok r) :
    (∀ history, Throughout Posts r history → ∀ id,
      let q := after r history
      handedIn id history <+: acceptedIn id history ∧
      (¬ q.Over id → acceptedIn id history = handedIn id history ++ q.woken id ++ q.mailbox id) ∧
      q.mailbox id <:+ acceptedIn id history ∧ q.depth id = (q.mailbox id).length) ∧
    (∀ calls : List Call, ∃ history, Throughout Posts r history ∧
      after r history = (calls.forM Call.run r).2) ∧
    ∀ q : Router,
      (∀ id m e, q.received? id = some (m, e) →
        (turn (.session id) q).2.Active id (m.take (.event e)).unburdened) ∧
      (∀ task, (∃ p, p.Draws ∧ Posts q p (turn task q).2) ∨ q.Fills (turn task q).2) ∧
      ∀ call : Call, ¬ call.TakesTurns → q.Fills (call.run q).2 := by
  refine ⟨fun history happens id => ?_, fun calls => ?_, fun q => ⟨?_, ?_, ?_⟩⟩
  · have empty : r.sessions = [] ∧ r.depths = [] := by
      unfold Router.create at created
      split at created
      · cases created
        exact ⟨rfl, rfl⟩
      · cases created
    have none : ∀ id, r.session? id = none := fun id => by rw [session?, empty.1]; rfl
    -- Without sessions nothing has been accepted or handed over yet.
    have start : ∀ id, r.Tally id [] [] := by
      intro id
      refine ⟨⟨[], by simp only [Router.woken, mailbox, none, List.append_nil], absurd rfl⟩, ?_, ?_⟩
      · simp only [depth, empty.2, mailbox, none]
        rfl
      · intro s some
        rw [none] at some
        cases some
    have tally := happens.tally start id
    obtain ⟨lost,order,past⟩ := tally.order
    simp only [List.nil_append] at order tally
    refine ⟨?_, tally.order_of_going, ?_, tally.depth⟩
    · exact ⟨_, by rw [order, List.append_assoc, List.append_assoc]⟩
    · exact ⟨_, order.symm⟩
  · obtain ⟨history,happens,_,ends⟩ := calls_posted calls r
    exact ⟨history, happens, ends⟩
  · exact fun id m e receives => (received?_turn receives).2
  · exact fun task => turn_posts task q
  · exact fun call still => (call.run_posted q).mono fun p turns draws => still (turns draws)

end Router

namespace Sleeping

open Source Router

/-- A session that waits for ever. -/
def sleeper : ChartDef where
  name := none
  initial := none
  data := []
  extra := none
  states := [.mk (.simple "a" .state []) []]

def settings : Settings := { idleTimeoutMs := 10 }

def created : Router := { settings, storage := .memory [] }

def session : SessionId := idText 0

def letter (name : String) : Event := .external ⟨[name]⟩

/-- The session has been idle until it was suspended. Then two events are sent to it. -/
def calls : List Call :=
  [.create (Chart.compiled [] sleeper) none none, .start session, .settle 50, .advance 50 10,
   .send session (letter "first"), .send session (letter "second")]

def visited : Router := (calls.forM Call.run created).2

/-- The events that were sent to a session asleep are those that it has not been handed, and are
    counted. It will wake up with the first. -/
theorem sleeper_keeps_order : ∃ history, Throughout Posts created history ∧
    after created history = visited ∧ visited.depth session = 2 ∧
    (visited.fetched? session).map (·.name.text) = some "first" ∧
    (acceptedIn session history).map (·.name.text) =
      (handedIn session history).map (·.name.text) ++ ["first", "second"] := by
  obtain ⟨order,made,-⟩ := mailbox_fifo (show Router.create settings (.memory []) = .ok created from rfl)
  obtain ⟨history,happens,ends⟩ := made calls
  have ends : after created history = visited := ends
  obtain ⟨-,whole,-,counted⟩ := order history happens session
  rw [ends] at whole counted
  have state : (visited.session? session).any (fun s => s.wakeEvent.isNone &&
      s.mailbox.map (·.name.text) == ["first", "second"]) = true ∧
      (visited.fetched? session).map (·.name.text) = some "first" := by
    decide +kernel
  obtain ⟨s,found,checks⟩ := (Option.any_eq_true _ _).mp state.1
  simp only [Bool.and_eq_true, Option.isNone_iff_eq_none, beq_iff_eq] at checks
  obtain ⟨woken,waiting⟩ := checks
  obtain ⟨e,fetches,-⟩ := Option.map_eq_some_iff.mp state.2
  obtain ⟨s',_,found',named,asleep,_⟩ := fetched?_awake fetches
  have going : ¬ visited.Over session :=
    not_over_of_found (named ▸ found') (by rw [asleep]; nofun)
  rw [mailbox_of_found found] at whole counted
  refine ⟨history, happens, ends, ?_, state.2, ?_⟩
  · rw [counted, ← List.length_map (f := fun e : Event => e.name.text), waiting]
    rfl
  · rw [whole going, woken_of_found found, woken, List.map_append, List.map_append, waiting,
      List.append_assoc]
    rfl

end Sleeping

end Statechart

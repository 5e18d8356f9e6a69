import Statechart.Proofs.Machine.Asking
import Statechart.Proofs.Router.Tending

/- How sessions with a machine mind the services that they have invoked.

   What goes on is turns of tasks and work from outside. A session that minds a service, having noted
   it or having its cancellation among the effects, minds it until the service is stopped or the
   session abandons it: it goes to sleep, its mailbox is closed, its run is broken off, or it is told
   that the service is another or no more. -/
namespace Statechart

namespace Router

variable {r r' : Router} {id child : SessionId} {link : ParentLink} {i : Invocation} {c : Chart}

/-- What goes on at a time: the turn of a task, or work from outside, which may touch what has been
    invoked under some ids. -/
inductive Stir where
  | turn (task : Task)
  | outside (touched : SessionId → InvokeId → Prop)

inductive Stirs : Router → Stir → Router → Prop where
  | turn (r : Router) (task : Task) : Stirs r (.turn task) (RouterM.turn task r).2
  | outside {r r' : Router} {touched : SessionId → InvokeId → Prop}
      (tends : r.Tends (fun _ => False) touched r') : Stirs r (.outside touched) r'

/-- How a session gives up a service in one go without having it cancelled. -/
inductive Abandons (r : Router) (work : Stir) (id : SessionId) (i : Invocation) : Prop where
  /-- It goes to sleep, or its mailbox is closed and empty. -/
  | left {m : Machine} {status : ExitStatus} (own : work = .turn (.session id))
      (active : r.Active id m) (noted : i ∈ m.context.invocations)
      (exited : m.control = .exited status) (early : status = .suspended ∨ status = .queueClosed)
  /-- Its run is broken off. -/
  | aborted {m : Machine} {fault : Fault} (own : work = .turn (.session id))
      (active : r.Active id m) (noted : i ∈ m.context.invocations)
      (broken : m.control = .aborted fault)
  | brokeDown (own : work = .turn (.aftermath id))
  /-- It takes in an event that says the service is done. -/
  | dismissed {m : Machine} {e : Event} (own : work = .turn (.session id))
      (receives : r.received? id = some (m, e)) (done : MachineM.Dismisses e i)
  /-- It has another service begun under the invoke id, or learns that one did not start. -/
  | asked (own : work = .turn (.session id)) (asks : r.asks? id = some i.invokeId)
  | interfered {touched : SessionId → InvokeId → Prop} (outside : work = .outside touched)
      (own : touched id i.invokeId)

/-- A session of the chart has a machine that minds a service, and the service is served. -/
structure Tended (r : Router) (c : Chart) (link : ParentLink) (i : Invocation) (child : SessionId) :
    Prop where
  machine : ∃ m, r.Active link.session m ∧ Machine.Lived c m ∧ RouterM.Minded i m
  serves : r.Serves link child
  sole : r.Sole link child

theorem Active.tended {m : Machine} {moving : SessionId → Prop}
    {touched : SessionId → InvokeId → Prop} (active : r.Active id m)
    (tends : r.Tends moving touched r') (still : ¬ moving id) : r'.Active id m := by
  obtain ⟨s,found,phase⟩ := active
  obtain ⟨s',found',ages⟩ := tends.ages id s found
  refine ⟨s', found', ?_⟩
  rcases ages.phase with same | fresh | moves
  · exact same.trans phase
  · rw [phase] at fresh
    cases fresh
  · exact absurd moves still

theorem Active.not_laidDown {m : Machine} (active : r.Active id m) : ¬ r.LaidDown id := by
  obtain ⟨s,found,phase⟩ := active
  rintro ⟨s',found',down⟩
  cases found.symm.trans found'
  rw [phase] at down
  rcases down with asleep | ended
  · cases asleep
  · cases ended

end Router

namespace Machine

variable {c : Chart} {m : Machine}

theorem Lived.orderly (lived : Lived c m) : m.Orderly := by
  obtain ⟨m₀,unstarted,_,run⟩ := lived.run
  exact (run_orderly unstarted run).2

theorem Lived.unburdened (lived : Lived c m) : Lived c m.unburdened :=
  lived.moved (.disturb m m.memory m.destroyed [])

theorem Lived.remembering (lived : Lived c m) (memory : Memory) : Lived c { m with memory } :=
  lived.moved (.disturb m memory m.destroyed m.reports)

/-- Something is among the effects only while they are to be carried out. -/
theorem Orderly.of_effect (orderly : m.Orderly) {e : Effect} (within : e ∈ m.effects) :
    (∃ next, m.control = .effects next) ∨ m.control = .crashed := by
  have none : m.effects ≠ [] := List.ne_nil_of_mem within
  unfold Orderly at orderly
  split at orderly
  · rename_i next control
    exact Or.inl ⟨next, control⟩
  · rename_i control
    exact Or.inr control
  · exact absurd orderly.effects none
  · exact absurd orderly.effects none
  · exact absurd orderly.effects none
  · exact absurd orderly none

end Machine

namespace RouterM

open Router Machine

variable {r : Router} {s : Session} {n : Machine} {c : Chart} {i : Invocation} {link : ParentLink}
  {child : SessionId}

theorem answer_lives {id : SessionId} (found : r.session? id = some s) (lived : Lived c n)
    {data : InvokeData} {pending : List (StateIndex × Nat)}
    (asked : n.control = .starts data pending)
    (failure : Option Failure) : ∃ m, (answer id n failure r).2.Active id m ∧ Lived c m :=
  ⟨_, answer_active found n failure, ((lived.remembering r.memory).moved
    (.work (.startDone _ data pending failure asked))).unburdened⟩

theorem serveInvoke_lives (found : r.session? s.id = some s) (active : r.Active s.id n)
    (lived : Lived c n) {m : Machine} (same : m = current r s n) {data : InvokeData}
    {pending : List (StateIndex × Nat)} (asked : m.control = .starts data pending) :
    ∃ m', (serveInvoke s m data r).2.Active s.id m' ∧ Lived c m' := by
  have lived' : Lived c m := same ▸ lived.moved (.disturb n r.memory s.doomed n.reports)
  cases awaited : s.awaited with
  | none =>
    have begun : r.Tends (fun _ => False) (fun _ _ => True) ((beginInvoke s.id data).run r).2 :=
      beginInvoke_tends trivial r
    rw [serveInvoke_first awaited, bind_run]
    cases ((beginInvoke s.id data).run r).1 with
    | error e =>
      obtain ⟨s',found',ages⟩ := begun.ages s.id s found
      exact answer_lives found' lived' asked _
    | ok child =>
      have noted : Leads (Tends (fun _ => False) fun _ _ => True) (do
          updateSession s.id fun s => { s with awaited := some child }
          return false) := .bind (touch_native fun _ => rfl) fun _ => .pure _
      exact ⟨n, active.tended (begun.trans (noted _)) fun moves => moves, lived⟩
  | some child =>
    rw [serveInvoke_again awaited]
    cases (r.session? child).bind startResult? with
    | none => exact ⟨n, active, lived⟩
    | some outcome =>
      cases outcome with
      | ok status => exact answer_lives found lived' asked none
      | error e =>
        exact answer_lives (r := (endInvoke s.id data.invokeId (.error e) r).2) found lived' asked _

/-- A session goes on with its machine, unless that has come to an end. -/
theorem goOn_lives (found : r.session? s.id = some s) (phase : s.phase = .active n)
    (lived : Lived c n) : (∃ m, (goOn s (current r s n) r).2.Active s.id m ∧ Lived c m) ∨
      (∃ status, n.control = .exited status) ∨ ∃ fault, n.control = .aborted fault := by
  have lived' : Lived c (current r s n) := lived.moved (.disturb n r.memory s.doomed n.reports)
  have active : r.Active s.id n := ⟨s, found, phase⟩
  have turn := goOn_turn s (current r s n)
  generalize goOn s (current r s n) = x at turn ⊢
  cases turn with
  | steps running =>
    exact Or.inl ⟨_, keep_active found _, (lived'.moved (.work (.step _ running))).unburdened⟩
  | performs next _ control =>
    obtain ⟨memory,failures,went⟩ := performs_active found (current r s n)
    exact Or.inl ⟨_, went, ((lived'.remembering memory).moved
      (.work (.effectsDone _ next failures control))).unburdened⟩
  | serves data pending control => exact Or.inl (serveInvoke_lives found active lived rfl control)
  | takes input taken _ next =>
    exact Or.inl ⟨_, takes_active found _ next, (lived'.moved (.take _ input)).unburdened⟩
  | leaves status control => exact Or.inr (Or.inl ⟨status, control⟩)
  | aborts fault control => exact Or.inr (Or.inr ⟨fault, control⟩)
  | breaks =>
    have shut := breakDown_native (R := Tends (fun _ => False) fun _ _ => False) s.id r
    exact Or.inl ⟨n, active.tended shut fun moves => moves, lived⟩
  | rests => exact Or.inl ⟨n, active, lived⟩

theorem cancelInvoke_stops (serves : r.Serves link child) :
    (cancelInvoke link.session link.invokeId r).2.Stopped child := by
  obtain ⟨s,found,_⟩ := serves.session
  rw [cancelInvoke_run _ _ serves.entry, if_pos serves.registered]
  let q := r.without link.session link.invokeId
  have doomed : (doom child q).2.Stopped child := doom_stops found
  have rest : (doom child q).2.Tends (fun _ => False) (fun _ _ => False) (destroy child q).2 :=
    destroy_doomed (.refl _)
  exact doomed.tended rest

theorem performAll_cons (s : Session) (e : Effect) (rest : List Effect) (r : Router) :
    (performAll s (e :: rest) r).2 = (performAll s rest ((perform s e).run r).2).2 := by
  unfold performAll
  rw [List.filterMapM_cons]
  simp only [bind_run]
  cases ((perform s e).run r).1 with
  | ok _ => rfl
  | error f => rfl

theorem performAll_stops (own : link.session = s.id) {effects : List Effect}
    (cancels : .cancelInvoke link.invokeId ∈ effects) (serves : r.Serves link child)
    (sole : r.Sole link child) : (performAll s effects r).2.Stopped child := by
  have tends : ∀ effect, Leads (Tends (fun _ => False) fun _ _ => False) (perform s effect).run :=
    perform_native cancelInvoke_tends s
  have rested : ∀ effects, Leads (Tends (fun _ => False) fun _ _ => False) (performAll s effects) :=
    performAll_native cancelInvoke_tends s
  induction effects generalizing r with
  | nil => cases cancels
  | cons e rest ih =>
    rw [performAll_cons]
    by_cases here : e = .cancelInvoke link.invokeId
    · subst here
      have stopped := cancelInvoke_stops serves
      rw [own] at stopped
      exact stopped.tended (rested rest _)
    · have later := (List.mem_cons.mp cancels).resolve_left fun same => here same.symm
      rcases (tends e r).serving link child (fun no => no) sole serves with serves | stopped
      · exact ih later serves (sole.tended (tends e r) fun no => no)
      · exact stopped.tended (rested rest _)

/-- A session that goes on has had the service stopped, minds it still, or abandons it. -/
theorem goOn_minding {library : ActionLibrary} {source : Source.ChartDef}
    (accepted : Chart.compile library source = .ok c) (found : r.session? s.id = some s)
    (phase : s.phase = .active n) (lived : Lived c n) (minded : Minded i n)
    (own : link.session = s.id) (named : i.invokeId = link.invokeId) (serves : r.Serves link child)
    (sole : r.Sole link child) :
    (goOn s (current r s n) r).2.Stopped child ∨
    (∃ m, (goOn s (current r s n) r).2.Active s.id m ∧ Lived c m ∧ Minded i m) ∨
    r.Abandons (.turn (.session s.id)) s.id i := by
  have active : r.Active s.id n := ⟨s, found, phase⟩
  have suits := lived.suits accepted
  rcases minded with noted | effect
  · rcases goOn_lives found phase lived with ⟨m,went,lives⟩ | ⟨status,exited⟩ | ⟨fault,broken⟩
    · rcases goOn_minds found phase rfl noted with stands | dismissed | denied
      · rcases stands with ⟨m',went',minds⟩ | down
        · cases went.unique went'
          exact Or.inr (Or.inl ⟨m, went, lives, minds⟩)
        · exact absurd down went.not_laidDown
      · obtain ⟨waiting,e,taken,next,done⟩ := dismissed
        have receives : r.received? s.id = some (current r s n, e) := by
          unfold received?
          simp only [found, phase, next, show n.control = .waiting from waiting]
        exact Or.inr (Or.inr (.dismissed rfl receives done))
      · obtain ⟨data,pending,e,asked,refused,same⟩ := denied
        have asks : r.asks? s.id = some data.invokeId :=
          asks?_eq found phase asked (Or.inr (by rw [refused]; rfl))
        exact Or.inr (Or.inr (.asked rfl (same ▸ asks)))
    · have early : status = .suspended ∨ status = .queueClosed := by
        rw [exited] at suits
        cases status with
        | completed =>
          rw [suits.invocations] at noted
          cases noted
        | destroyed =>
          rw [suits.2] at noted
          cases noted
        | suspended => exact Or.inl rfl
        | queueClosed => exact Or.inr rfl
      exact Or.inr (Or.inr (.left rfl active noted exited early))
    · exact Or.inr (Or.inr (.aborted rfl active noted broken))
  · rcases lived.orderly.of_effect effect with ⟨next,control⟩ | crashed
    · left
      have control : (current r s n).control = .effects next := control
      have blocked : (current r s n).isBlocked = true := by
        have some : (current r s n).effects ≠ [] := List.ne_nil_of_mem (l := n.effects) effect
        rw [isBlocked, control]
        simpa using some
      have stopped : (performAll s n.effects r).2.Stopped child :=
        performAll_stops own (named ▸ effect) serves sole
      rw [goOn_effects blocked control]
      refine stopped.tended (?_ : Router.Tends (· = s.id) (fun _ _ => False)
        (performAll s n.effects r).2 _)
      exact Leads.bind .get (fun q => .bind (keep_tends (by rfl) _) fun _ => .pure _) _
    · have shut := breakDown_native (R := Tends (fun _ => False) fun _ _ => False) s.id r
      have control : (current r s n).control = .crashed := crashed
      rw [goOn_crashed control]
      exact Or.inr (Or.inl ⟨n, active.tended shut fun moves => moves, lived, Or.inr effect⟩)

end RouterM

namespace Router

open RouterM Machine

variable {r r' : Router} {id child : SessionId} {link : ParentLink} {i : Invocation} {c : Chart}
  {work : Stir} {run : List (Stir × Router)}

theorem Tended.stirs {library : ActionLibrary} {source : Source.ChartDef}
    (accepted : Chart.compile library source = .ok c) (named : i.invokeId = link.invokeId)
    (tended : r.Tended c link i child) (stirs : Stirs r work r') :
    r'.Stopped child ∨ r'.Tended c link i child ∨ r.Abandons work link.session i := by
  obtain ⟨m,active,lived,minded⟩ := tended.machine
  have goesOn : ∀ {moving : SessionId → Prop} {touched : SessionId → InvokeId → Prop},
      r.Tends moving touched r' → ¬ touched link.session link.invokeId →
      (∃ m, r'.Active link.session m ∧ Lived c m ∧ Minded i m) →
      r'.Stopped child ∨ r'.Tended c link i child ∨ r.Abandons work link.session i := by
    intro moving touched tends apart machine
    rcases tends.serving link child apart tended.sole tended.serves with serves | stopped
    · exact Or.inr (Or.inl ⟨machine, serves, tended.sole.tended tends apart⟩)
    · exact Or.inl stopped
  cases stirs with
  | @outside _ touched tends =>
    by_cases own : touched link.session link.invokeId
    · exact Or.inr (Or.inr (.interfered rfl (named ▸ own)))
    · exact goesOn tends own ⟨m, active.tended tends fun moves => moves, lived, minded⟩
  | turn task =>
    have tends := turn_tends task r
    by_cases own : task = .session link.session
    · subst own
      by_cases asks : r.asks? link.session = some link.invokeId
      · exact Or.inr (Or.inr (.asked rfl (named ▸ asks)))
      · obtain ⟨s,found,phase⟩ := active
        have known := session?_id found
        have here : r.session? s.id = some s := by rw [known, found]
        have went := goOn_minding accepted here phase lived minded known.symm named tended.serves
          tended.sole
        rw [← turn_active found phase, known] at went
        rcases went with stopped | machine | abandons
        · exact Or.inl stopped
        · exact goesOn tends (fun touched => asks touched.2) machine
        · exact Or.inr (Or.inr abandons)
    · by_cases after : task = .aftermath link.session
      · subst after
        exact Or.inr (Or.inr (.brokeDown rfl))
      · have still : ¬ RouterM.stirs task link.session := by
          cases task with
          | session other => exact fun same => own (congrArg Task.session same.symm)
          | aftermath other => exact fun same => after (congrArg Task.aftermath same.symm)
          | timer => exact fun no => no
        have apart : ¬ invokes r task link.session link.invokeId := by
          cases task with
          | session other => exact fun touched => own (congrArg Task.session touched.1.symm)
          | _ => exact fun no => no
        exact goesOn tends apart ⟨m, active.tended tends still, lived, minded⟩

theorem Stopped.stirs (stopped : r.Stopped id) (stirs : Stirs r work r') : r'.Stopped id := by
  cases stirs with
  | outside tends => exact stopped.tended tends
  | turn task => exact stopped.tended (turn_tends task r)

theorem Stopped.throughout (stopped : r.Stopped id) (happens : Throughout Stirs r run) :
    (after r run).Stopped id := by
  induction run generalizing r with
  | nil => exact stopped
  | cons step rest ih => exact ih (stopped.stirs happens.1) happens.2

/-- The service is abandoned at some point of a run, while it goes on. -/
def Abandoned (r : Router) (run : List (Stir × Router)) (c : Chart) (link : ParentLink)
    (i : Invocation) (child : SessionId) : Prop :=
  ∃ before work r' later, run = before ++ (work, r') :: later ∧
    (after r before).Tended c link i child ∧ ¬ (after r before).Stopped child ∧
    (after r before).Abandons work link.session i

theorem Tended.throughout {library : ActionLibrary} {source : Source.ChartDef}
    (accepted : Chart.compile library source = .ok c) (named : i.invokeId = link.invokeId)
    (tended : r.Tended c link i child) (happens : Throughout Stirs r run) :
    (after r run).Stopped child ∨ (after r run).Tended c link i child ∨
      r.Abandoned run c link i child := by
  induction run generalizing r with
  | nil => exact Or.inr (Or.inl tended)
  | cons step rest ih =>
    obtain ⟨work,r'⟩ := step
    by_cases stopped : r.Stopped child
    · exact Or.inl (stopped.throughout happens)
    · rcases tended.stirs accepted named happens.1 with stopped | goes | abandons
      · exact Or.inl (stopped.throughout happens.2)
      · rcases ih goes happens.2 with stopped | goes | ⟨before,work',r'',later,rfl,gone⟩
        · exact Or.inl stopped
        · exact Or.inr (Or.inl goes)
        · exact Or.inr (Or.inr ⟨(work, r') :: before, work', r'', later, rfl, gone⟩)
      · exact Or.inr (Or.inr ⟨[], work, r', rest, rfl, tended, stopped, abandons⟩)

end Router

end Statechart

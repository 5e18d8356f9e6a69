import Statechart.Proofs.Router.Calls
import Statechart.Proofs.Router.Minding

/- What becomes of services when the session that invoked them comes to its end.

   A machine that completes, or that is destroyed while it is at work, has its services cancelled
   before. A session that is put to sleep, whose mailbox is closed or whose run is broken off leaves
   its services as they are; if it ends later on, there is no machine any more that would know of
   them. -/
namespace Statechart

namespace Router

open RouterM Machine

variable {r r' : Router} {id : SessionId}

/-- A session is asleep, or puts its machine away. -/
inductive PutsAway (r : Router) (id : SessionId) : Stir → Prop where
  | asleep {s : Session} (found : r.session? id = some s) (phase : s.phase = .asleep) :
      r.PutsAway id (.turn (.session id))
  | exited {m : Machine} {status : ExitStatus} (active : r.Active id m)
      (control : m.control = .exited status) : r.PutsAway id (.turn (.session id))
  | aborted {m : Machine} {fault : Fault} (active : r.Active id m)
      (control : m.control = .aborted fault) : r.PutsAway id (.turn (.session id))
  | brokeDown : r.PutsAway id (.turn (.aftermath id))

/-- Who is stopped now was stopped before. -/
def Spared (id : SessionId) (r r' : Router) : Prop := r'.Stopped id → r.Stopped id

instance : Indifferent (Spared id) where
  refl _ stopped := stopped
  trans first second stopped := first (second stopped)
  alike _ sessions := by
    rintro ⟨s,found,past⟩
    rw [session?, sessions] at found
    exact ⟨s, found, past⟩

/-- Marking a session stops nobody. -/
theorem spared_alter {other : SessionId} {f : Session → Session}
    (named : ∀ s, s.id = other → (f s).id = other)
    (same : other = id → ∀ s, ((f s).doomed, (f s).outcome) = (s.doomed, s.outcome)) :
    Spared id r (r.alter other f) := by
  rintro ⟨s,found,past⟩
  rw [session?_alter r named] at found
  split at found
  · rename_i here
    obtain ⟨s',found',rfl⟩ := Option.map_eq_some_iff.mp found
    have kept := same here.symm s'
    simp only [Prod.mk.injEq] at kept
    rw [kept.1, kept.2] at past
    exact ⟨s', here ▸ found', past⟩
  · exact ⟨s, found, past⟩

end Router

namespace RouterM

open Router Machine

variable {r : Router} {s : Session} {id : SessionId}

theorem setStatus_spared (other : SessionId) (status : SessionStatus) :
    Leads (Spared id) (setStatus other status) :=
  setStatus_leads fun _ => spared_alter (fun _ here => here) fun _ _ => rfl

theorem finish_spared {other : SessionId} (elsewhere : other ≠ id) (o : Outcome) :
    Leads (Spared id) (finish other o) := by
  intro r
  by_cases ends : ∃ s, r.session? other = some s ∧ s.outcome = none
  · obtain ⟨s,found,going⟩ := ends
    have shut : Spared id r (closing other o r) :=
      Lasting.trans (spared_alter (r := r) (f := closed o) (fun _ here => here)
        fun same => absurd same elsewhere) (Indifferent.alike rfl rfl)
    have shown : Leads (Spared id) (setStatus other o.status) := setStatus_spared other o.status
    have posts : ∀ e, Posting (Spared id) e := fun e =>
      posting_of_mailbox fun _ _ => spared_alter (fun _ here => here) fun _ _ => rfl
    rw [finish_eq found going]
    cases s.parent with
    | none => exact Lasting.trans shut (shown _)
    | some link =>
      have told : Spared id (closing other o r)
          (reportDone link o.status o.result (closing other o r)).2 := by
        have forgotten : Spared id (closing other o r)
            ((closing other o r).without link.session link.invokeId) := fun stopped => stopped
        rcases reportDone_eq link o.status o.result (closing other o r) with same | ⟨e,same⟩
        · rw [same]
          exact forgotten
        · rw [same]
          exact Lasting.trans forgotten (deliver_leads link.session (posts e) _)
      exact Lasting.trans (Lasting.trans shut told) (shown _)
  · rw [finish_idle ends]
    exact Lasting.refl r

theorem leave_spared (elsewhere : s.id ≠ id) (m : Machine) (status : ExitStatus) :
    Leads (Spared id) (leave s m status) := by
  cases status with
  | completed => exact finish_spared elsewhere _
  | destroyed => exact finish_spared elsewhere _
  | queueClosed => exact finish_spared elsewhere _
  | suspended =>
    exact suspended_leads (fun _ _ => Indifferent.alike rfl rfl)
      (fun _ => spared_alter (fun _ here => here) fun _ _ => rfl) (setStatus_spared s.id _)

theorem awake_spared (elsewhere : s.id ≠ id) : Leads (Spared id) (awake s) := by
  intro r
  have ends : ∀ o, Leads (Spared id) (do
      finish s.id o
      return false) := fun o => .bind (finish_spared elsewhere o) fun _ => .pure _
  have waking := awake_waking s
  generalize awake s = x at waking ⊢
  cases waking with
  | ends => exact ends _ r
  | wakes e taken _ next =>
    have named : taken.id = s.id := congrArg Prod.fst (nextEvent?_bond next).1
    have taking : Spared id r (adopt s taken r).2 :=
      adopt_leads (fun _ => Indifferent.alike rfl rfl)
        (fun _ _ => spared_alter (fun _ _ => named) fun same => absurd same elsewhere)
        fun _ => setStatus_spared s.id _
    have roused : Leads (Spared id) (rouse s e) := by
      refine .bind (resume_leads fun _ _ _ _ => Indifferent.alike rfl rfl) fun result => ?_
      cases result with
      | ok m =>
        refine .bind (fun r => ?_) fun _ => .pure _
        exact spared_alter (fun _ here => here) fun same => absurd same elsewhere
      | error error => exact ends _
    exact Lasting.trans taking (roused _)
  | rests => exact Lasting.refl r

/-- Nobody else is stopped when a session puts its machine away, or wakes up, or ends asleep. -/
theorem putsAway_spares {work : Stir} {r' : Router} {other : SessionId} (stirs : Stirs r work r')
    (away : r.PutsAway other work) (elsewhere : other ≠ id) : Spared id r r' := by
  have apart : ∀ {s}, r.session? other = some s → s.id ≠ id := fun found same =>
    elsewhere ((session?_id found).symm.trans same)
  cases away with
  | @asleep s found phase =>
    cases stirs
    simp only [turn, get_bind, found, phase]
    exact awake_spared (apart found) r
  | @exited m status active control =>
    cases stirs
    obtain ⟨s,found,phase⟩ := active
    have control : (current r s m).control = .exited status := control
    rw [turn_active found phase, goOn_exited control]
    exact Leads.bind (leave_spared (apart found) _ status) (fun _ => .pure true) r
  | @aborted m fault active control =>
    cases stirs
    obtain ⟨s,found,phase⟩ := active
    have control : (current r s m).control = .aborted fault := control
    rw [turn_active found phase, goOn_aborted control]
    exact Leads.bind (finish_spared (apart found) _) (fun _ => .pure false) r
  | brokeDown =>
    cases stirs
    exact Leads.bind (finish_spared elsewhere _) (fun _ => .pure false) r

theorem beginInvoke_ok {parent child : SessionId} {data : InvokeData}
    (begun : ((beginInvoke parent data).run r).1 = .ok child) :
    child = idText r.memory.supply ∧ r.Admits data := by
  unfold beginInvoke at begun
  by_cases kind : Address.isSessionType data.type = true
  · simp only [kind, Bool.not_true, Bool.false_eq_true, if_false] at begun
    obtain ⟨result,chosen⟩ : ∃ result, (invokedChart data).run r = (result, r) :=
      ⟨_, Prod.ext rfl (invokedChart_same data r)⟩
    cases result with
    | error e =>
      rw [attempt_error chosen] at begun
      cases begun
    | ok chart =>
      rw [attempt_ok chosen] at begun
      have named : ∀ q : Router, ((do
          startSession (idText r.memory.supply)
          return idText r.memory.supply : RouterE SessionId).run q).1 = .ok child →
          child = idText r.memory.supply := by
        intro q
        rw [ExceptT.run_bind, bind_run]
        cases ((startSession (idText r.memory.supply)).run q).1 with
        | ok _ => exact fun same => (Except.ok.inj same).symm
        | error e => exact nofun
      exact ⟨named (enrolled r parent data chart) begun, kind, chart, by rw [chosen]⟩
  · simp only [kind, Bool.not_false, if_true] at begun
    cases begun

end RouterM

namespace Router

open RouterM Machine

variable {r r' : Router} {child : SessionId} {link : ParentLink} {c : Chart}

/-- Nobody goes on who was invoked by the session under the id. -/
def Unserved (r : Router) (link : ParentLink) : Prop :=
  ∀ id s l, r.session? id = some s → s.outcome = none → s.parent = some l →
    (l.session, l.invokeId) ≠ (link.session, link.invokeId)

/-- What is entered serves where its link points, and nobody else does. -/
theorem enrolled_serves {data : InvokeData} (invoke : link.invokeId = data.invokeId)
    (unique : link.uniqueId = data.uniqueId) (free : r.session? (idText r.memory.supply) = none)
    (alone : r.Unserved link) (chart : Chart) :
    (enrolled r link.session data chart).Serves link (idText r.memory.supply) ∧
      (enrolled r link.session data chart).Sole link (idText r.memory.supply) := by
  obtain ⟨session,_,_⟩ := link
  subst invoke unique
  let child := idText r.memory.supply
  let q : Router :=
    { r with memory := { r.memory with heap := (argumentsOf r.memory.heap data.parameters).1 } }
  let s : Session :=
    { id := child, chart, parent := some ⟨session, data.invokeId, data.uniqueId⟩
      arguments := (argumentsOf r.memory.heap data.parameters).2
      scheduler := { session := child } }
  have sessions : (enrolled r session data chart).sessions = r.sessions ++ [s] := rfl
  have asked : ∀ id, (enrolled r session data chart).session? id =
      (r.session? id).or (if child = id then some s else none) := by
    intro id
    rw [session?, sessions, List.find?_append, List.find?_singleton]
    simp only [beq_iff_eq, session?]
    rfl
  refine ⟨⟨?_, s, ?_, rfl, rfl, rfl⟩, ?_⟩
  · change List.lookup (session, data.invokeId) (_ :: _) = _
    rw [List.lookup_cons, beq_self_eq_true]
  · rw [asked, free, if_pos rfl]
    rfl
  · intro id s' l found going linked same
    rw [asked] at found
    cases before : r.session? id with
    | some s'' =>
      rw [before] at found
      cases found
      exact absurd same (alone id s' l before going linked)
    | none =>
      rw [before] at found
      by_cases own : child = id
      · exact own.symm
      · rw [if_neg own] at found
        cases found

/-- A session has a service begun in its turn. Nobody goes on whom it has invoked under the same
    id, and the id of the new session is free. -/
structure Begins (r : Router) (c : Chart) (link : ParentLink) (child : SessionId) : Prop where
  asking : ∃ s n data pending, r.session? link.session = some s ∧ s.phase = .active n ∧
    s.awaited = none ∧ n.control = .starts data pending ∧ Lived c n ∧
    link.invokeId = data.invokeId ∧ link.uniqueId = data.uniqueId ∧
    ((beginInvoke link.session data).run r).1 = .ok child
  free : r.session? child = none
  alone : r.Unserved link

/-- A service that has begun is tended. -/
theorem Begins.tended (begins : r.Begins c link child) :
    ∃ i : Invocation, i.invokeId = link.invokeId ∧ i.uniqueId = link.uniqueId ∧
      (turn (.session link.session) r).2.Tended c link i child := by
  obtain ⟨s,n,data,pending,found,phase,first,asked,lived,invoke,unique,begun⟩ := begins.asking
  obtain ⟨i,noted,named,told⟩ := lived.announced data (by rw [asked]; rfl)
  obtain ⟨rfl,admitted⟩ := beginInvoke_ok begun
  refine ⟨i, named.trans invoke.symm, told.trans unique.symm, ?_⟩
  obtain ⟨refused,_⟩ | ⟨chart,_,_,run⟩ := beginInvoke_run r link.session data
  · exact absurd admitted refused
  have known := session?_id found
  let child := idText r.memory.supply
  let wait : Session → Session := fun s => { s with awaited := some child }
  have asks : (current r s n).control = .starts data pending := asked
  have turned : (turn (.session link.session) r).2 = Router.alter
      ((startSession child).run (enrolled r link.session data chart)).2 link.session wait := by
    rw [turn_active found phase, goOn_starts asks, serveInvoke_first first, known, bind_run, begun,
      run]
    rfl
  have tends : (enrolled r link.session data chart).Tends (fun _ => False) (fun _ _ => False)
      (turn (.session link.session) r).2 := by
    rw [turned]
    exact (startSession_tends child _).trans (Native.touch fun _ => rfl)
  have rested : (enrolled r link.session data chart).Rested (turn (.session link.session) r).2 := by
    rw [turned]
    exact (startSession_rests child _).trans (.alter (fun _ here => here) fun _ _ => .of_gist rfl)
  obtain ⟨serves,sole⟩ := enrolled_serves invoke unique begins.free begins.alone chart
  refine ⟨⟨n, ?_, lived, Or.inl noted⟩, ?_, ?_⟩
  · have entered : (enrolled r link.session data chart).session? link.session = some s :=
      createSession_session (r := { r with memory := _ }) chart _ _ found
    exact Active.tended ⟨s, entered, phase⟩ tends fun no => no
  · obtain ⟨x,entered,linked,going,routed⟩ := serves.session
    obtain ⟨x',found',rests⟩ := rested.sessions child x entered
    obtain ⟨x'',found'',ages⟩ := tends.ages child x entered
    cases found'.symm.trans found''
    have past : x'.outcome = none := rests.outcome.trans going
    refine ⟨?_, x', found', rests.parent.trans linked, past, ?_⟩
    · rw [childOf, rested.registry]
      exact serves.entry
    · rcases ages.routed with same | ended
      · exact same.trans routed
      · rw [past] at ended
        cases ended
  · exact sole.tended tends fun no => no

/-- What has been invoked under which ids a call from outside may touch. -/
def Call.touches : Call → SessionId → InvokeId → Prop
  | .create _ (some link) _ => fun parent invoke => (parent, invoke) = (link.session, link.invokeId)
  | .serve session data => fun parent invoke => (parent, invoke) = (session, data.invokeId)
  | .served session id (.error _) => fun parent invoke => (parent, invoke) = (session, id)
  | _ => fun _ _ => False

/-- The router goes on in turns and work from outside that touches no more than what may be. -/
def Stirred (touched : SessionId → InvokeId → Prop) (r r' : Router) : Prop :=
  ∃ run, Throughout Stirs r run ∧ after r run = r' ∧ ∀ step ∈ run, ∀ own, step.1 = .outside own →
    ∀ parent invoke, own parent invoke → touched parent invoke

section Stirred

variable {touched touched' : SessionId → InvokeId → Prop}

theorem Stirs.stirred {work : Stir} (stirs : Stirs r work r') (within : ∀ own, work = .outside own →
    ∀ parent invoke, own parent invoke → touched parent invoke) : Stirred touched r r' := by
  refine ⟨[(work, r')], ⟨stirs, trivial⟩, rfl, fun step here => ?_⟩
  cases List.mem_singleton.mp here
  exact within

theorem Tends.stirred (tends : r.Tends (fun _ => False) touched r') : Stirred touched r r' :=
  (Stirs.outside tends).stirred fun own same _ _ does => by cases same; exact does

theorem Stirred.refl (r : Router) : Stirred touched r r :=
  ⟨[], trivial, rfl, fun _ none => absurd none List.not_mem_nil⟩

theorem Stirred.trans {r'' : Router} (first : Stirred touched r r')
    (second : Stirred touched r' r'') : Stirred touched r r'' := by
  obtain ⟨run,happens,rfl,within⟩ := first
  obtain ⟨run',happens',rfl,within'⟩ := second
  refine ⟨run ++ run', throughout_append.mpr ⟨happens, happens'⟩, after_append r run run', ?_⟩
  exact fun step here => (List.mem_append.mp here).elim (within step) (within' step)

theorem Stirred.mono (stirred : Stirred touched r r')
    (more : ∀ parent invoke, touched parent invoke → touched' parent invoke) :
    Stirred touched' r r' := by
  obtain ⟨run,happens,ends,within⟩ := stirred
  exact ⟨run, happens, ends, fun step here own same parent invoke does =>
    more _ _ (within step here own same parent invoke does)⟩

instance : Native (Stirred touched) where
  refl := .refl
  trans := .trans
  aside registry sessions _ _ _ := (Tends.of_same registry sessions).stirred
  litter t := Tends.stirred (Aloof.litter t)
  touch same := Tends.stirred (Native.touch same)
  post found := Tends.stirred (Watchful.post found)
  doom := Tends.stirred Marking.doom

end Stirred

theorem Call.tends (call : Call) (still : ¬ call.TakesTurns) :
    Leads (Tends (fun _ => False) call.touches) call.run := by
  refine call.leads still ?_ ?_ ?_ startSession_tends ?_ ?_ cancelInvoke_tends destroy_tends
  · exact fun _ _ _ _ => .of_same rfl rfl
  · exact fun _ _ _ => .of_same rfl rfl
  · rintro chart parent arguments rfl
    exact createSession_tends fun link own => by subst own; rfl
  · rintro parent data rfl
    exact beginInvoke_tends rfl
  · rintro parent invoke result rfl
    exact endInvoke_tends fun e failed => by subst failed; rfl

theorem Call.run_stirred (call : Call) (r : Router) : Stirred call.touches r (call.run r).2 := by
  by_cases turns : call.TakesTurns
  · exact call.leads_turning turns (fun task r => (Stirs.turn r task).stirred nofun) r
  · exact (call.tends turns r).stirred

theorem calls_stirred (calls : List Call) (r : Router) :
    Stirred (fun parent invoke => ∃ call ∈ calls, call.touches parent invoke) r
      (calls.forM Call.run r).2 := by
  induction calls generalizing r with
  | nil => exact .refl r
  | cons call rest ih =>
    have first := (call.run_stirred r).mono fun parent invoke touches =>
      (⟨call, List.mem_cons_self, touches⟩ : ∃ c ∈ call :: rest, c.touches parent invoke)
    refine first.trans ((ih _).mono fun parent invoke touches => ?_)
    obtain ⟨later,within,touches⟩ := touches
    exact ⟨later, List.mem_cons_of_mem _ within, touches⟩

/-- A session of the chart has a machine. -/
def Lives (r : Router) (c : Chart) (id : SessionId) : Prop := ∃ m, r.Active id m ∧ Lived c m

theorem Lives.stirs {work : Stir} {id : SessionId} (lives : r.Lives c id) (stirs : Stirs r work r')
    (works : ¬ r.PutsAway id work) : r'.Lives c id := by
  obtain ⟨m,active,lived⟩ := lives
  cases stirs with
  | outside tends => exact ⟨m, active.tended tends fun no => no, lived⟩
  | turn task =>
    have still : ¬ RouterM.stirs task id → (turn task r).2.Lives c id := fun still =>
      ⟨m, active.tended (turn_tends task r) still, lived⟩
    cases task with
    | timer other index => exact still fun no => no
    | aftermath other =>
      by_cases own : id = other
      · exact absurd (own ▸ .brokeDown) works
      · exact still own
    | session other =>
      by_cases own : id = other
      · subst own
        have ⟨s,found,phase⟩ := active
        have known := session?_id found
        have went := goOn_lives (by rw [known, found]) phase lived
        rw [← turn_active found phase, known] at went
        rcases went with lives | ⟨status,control⟩ | ⟨fault,control⟩
        · exact lives
        · exact absurd (.exited active control) works
        · exact absurd (.aborted active control) works
      · exact still own

theorem not_minded_of_over {library : ActionLibrary} {source : Source.ChartDef} {m : Machine}
    {i : Invocation} (accepted : Chart.compile library source = .ok c) (lived : Lived c m)
    (past : m.control = .exited .completed ∨ m.control = .exited .destroyed) : ¬ Minded i m := by
  have suits := lived.suits accepted
  rintro (noted | effect)
  · rcases past with control | control
    · rw [control] at suits
      rw [suits.invocations] at noted
      cases noted
    · rw [control] at suits
      rw [suits.2] at noted
      cases noted
  · rcases lived.orderly.of_effect effect with ⟨next,other⟩ | other
    · rcases past with control | control
      · cases control.symm.trans other
      · cases control.symm.trans other
    · rcases past with control | control
      · cases control.symm.trans other
      · cases control.symm.trans other

/-- A session of an accepted chart has a service begun, and then tasks take turns and anything comes
    from outside. Before its machine leaves as completed or destroyed, and wherever else it has put
    its machine away, the service has been stopped, unless the session has abandoned it: it was put
    to sleep, its mailbox was closed, its run was broken off, or it was told that the service is
    another or no more. It is too late then: in putting its machine away, in waking up and in ending
    asleep a session stops nobody. -/
theorem services_stopped_unless_abandoned {library : ActionLibrary} {source : Source.ChartDef}
    (accepted : Chart.compile library source = .ok c) (begins : r.Begins c link child)
    {run : List (Stir × Router)}
    (happens : Throughout Stirs (turn (.session link.session) r).2 run) :
    let begun := (turn (.session link.session) r).2
    let q := after begun run
    (∃ i : Invocation, i.invokeId = link.invokeId ∧ i.uniqueId = link.uniqueId ∧
      begun.Tended c link i child ∧
      (q.LaidDown link.session → q.Stopped child ∨ begun.Abandoned run c link i child) ∧
      ∀ m, q.Active link.session m →
        m.control = .exited .completed ∨ m.control = .exited .destroyed →
        q.Stopped child ∨ begun.Abandoned run c link i child) ∧
    (∀ work q', Stirs q work q' → q.PutsAway link.session work →
      (q'.Stopped child ↔ q.Stopped child)) ∧
    ∀ (calls : List Call) (r : Router),
      Stirred (fun parent invoke => ∃ call ∈ calls, call.touches parent invoke) r
        (calls.forM Call.run r).2 := by
  intro begun q
  obtain ⟨i,named,told,tended⟩ := begins.tended
  refine ⟨⟨i, named, told, tended, fun down => ?_, fun m active past => ?_⟩, ?_, calls_stirred⟩
  · rcases tended.throughout accepted named happens with stopped | tended | abandoned
    · exact Or.inl stopped
    · obtain ⟨m,active,_⟩ := tended.machine
      exact absurd down active.not_laidDown
    · exact Or.inr abandoned
  · -- A machine that is over minds no service any more.
    rcases tended.throughout accepted named happens with stopped | tended | abandoned
    · exact Or.inl stopped
    · obtain ⟨m',active',lived,minded⟩ := tended.machine
      cases active.unique active'
      exact absurd minded (not_minded_of_over accepted lived past)
    · exact Or.inr abandoned
  · intro work q' stirs away
    have apart : link.session ≠ child := by
      intro same
      obtain ⟨s,_,_,_,found,_⟩ := begins.asking
      rw [same, begins.free] at found
      cases found
    exact ⟨putsAway_spares stirs away apart, fun stopped => stopped.stirs stirs⟩

end Router

namespace Orphaned

open Source Router RouterM

/-- A service that works for ever. -/
def service : ChartDef where
  name := none
  initial := none
  data := []
  extra := none
  states := [.mk (.simple "work" .state []) []]

/-- A state that invokes the service until it is told to stop. -/
def client : ChartDef where
  name := none
  initial := none
  data := []
  extra := none
  states :=
    [.mk { StateInfo.simple "busy" .state [⟨some ["stop"], none, some ["end"], .external, []⟩] with
        invokes := [⟨none, some "service", none, some "kid", none, [], none, false, []⟩] } [],
     .mk (.simple "end" .final []) []]

def chart : Chart := Chart.compiled [] client

def created : Router where
  settings := { idleTimeoutMs := 10 }
  charts := [("service", Chart.compiled [] service)]

def parent : SessionId := idText 0

def child : SessionId := idText 2

def link : ParentLink := ⟨parent, "kid", idText 1⟩

def turned (tasks : List Task) (r : Router) : Router := tasks.foldl (fun r t => (turn t r).2) r

/-- The client has been started, and told to stop. -/
def told : Router :=
  ([.create chart none none, .start parent,
    .deliver parent (.external ⟨["stop"]⟩)].forM Call.run created).2

def turns : List Task → Router → List (Stir × Router)
  | [], _ => []
  | t :: rest, r => (.turn t, (turn t r).2) :: turns rest (turn t r).2

theorem throughout_turns (tasks : List Task) (r : Router) : Throughout Stirs r (turns tasks r) := by
  induction tasks generalizing r with
  | nil => trivial
  | cons t rest ih => exact ⟨.turn r t, ih _⟩

theorem after_turns (tasks : List Task) (r : Router) :
    after r (turns tasks r) = turned tasks r := by
  induction tasks generalizing r with
  | nil => rfl
  | cons t rest ih => exact ih _

/-- The session has a machine that is not at the end of its run. -/
def works (r : Router) (id : SessionId) : Bool :=
  (r.session? id).any fun s =>
    match s.phase with
    | .active m =>
      match m.control with
      | .exited _ | .aborted _ => false
      | _ => true
    | _ => false

theorem not_putsAway_of_works {r : Router} {id : SessionId} (checked : works r id = true) :
    ¬ r.PutsAway id (.turn (.session id)) := by
  obtain ⟨s,found,works⟩ := (Option.any_eq_true _ _).mp checked
  rintro away
  cases away with
  | asleep found' phase =>
    cases found.symm.trans found'
    simp only [phase, Bool.false_eq_true] at works
  | exited active control =>
    obtain ⟨s',found',phase⟩ := active
    cases found.symm.trans found'
    simp only [phase, control, Bool.false_eq_true] at works
  | aborted active control =>
    obtain ⟨s',found',phase⟩ := active
    cases found.symm.trans found'
    simp only [phase, control, Bool.false_eq_true] at works

theorem told_lives : told.Lives chart link.session := ⟨_, ⟨_, rfl, rfl⟩, .created _ _⟩

def asking : Router := turned (List.replicate 4 (.session parent)) told

theorem asking_lives : asking.Lives chart link.session := by
  have turns : ∀ {r : Router}, r.Lives chart parent → works r parent = true →
      (turn (.session parent) r).2.Lives chart parent := fun lives works =>
    lives.stirs (.turn _ _) (not_putsAway_of_works works)
  have one := turns told_lives (by decide +kernel)
  have two := turns one (by decide +kernel)
  have three := turns two (by decide +kernel)
  exact turns three (by decide +kernel)

/-- The session asks for the service of the link, and gets it from the child. -/
def asksFor (r : Router) (link : ParentLink) (child : SessionId) : Bool :=
  (r.session? link.session).any fun s => s.awaited.isNone &&
    match s.phase with
    | .active m => m.control.asked.any fun data =>
      data.invokeId == link.invokeId && data.uniqueId == link.uniqueId &&
        ((beginInvoke link.session data).run r).1.toOption == some child
    | _ => false

theorem parent_of_orphans {r : Router} {id : SessionId} {s : Session}
    (orphans : r.sessions.all (·.parent.isNone) = true) (found : r.session? id = some s) :
    s.parent = none :=
  Option.isNone_iff_eq_none.mp
    (List.all_eq_true.mp orphans s (List.mem_of_find?_eq_some found))

theorem asking_begins : asking.Begins chart link child where
  asking := by
    obtain ⟨m,⟨s,found,phase⟩,lived⟩ := asking_lives
    have checked : asksFor asking link child = true := by decide +kernel
    obtain ⟨s',found',asks⟩ := (Option.any_eq_true _ _).mp checked
    cases found.symm.trans found'
    rw [phase, Bool.and_eq_true] at asks
    obtain ⟨data,asked,begun⟩ := (Option.any_eq_true _ _).mp asks.2
    simp only [Bool.and_eq_true, beq_iff_eq] at begun
    obtain ⟨⟨invoke,unique⟩,begun⟩ := begun
    cases control : m.control with
    | starts data' pending =>
      rw [control] at asked
      cases asked
      refine ⟨s, m, data, pending, found, phase, Option.isNone_iff_eq_none.mp asks.1, control,
        lived, invoke.symm, unique.symm, ?_⟩
      cases result : ((beginInvoke link.session data).run asking).1 with
      | ok id =>
        rw [result] at begun
        cases begun
        rfl
      | error e =>
        rw [result] at begun
        cases begun
    | _ =>
      rw [control] at asked
      cases asked
  free := Option.isNone_iff_eq_none.mp (by decide +kernel)
  alone := by
    have none : asking.sessions.all (·.parent.isNone) = true := by decide +kernel
    intro id s l found _ linked
    have orphan := parent_of_orphans none found
    rw [linked] at orphan
    cases orphan

/-- Whether the session may abandon a service in the turn of a task. -/
def mayAbandon (r : Router) (task : Task) (link : ParentLink) : Bool :=
  match task with
  | .session id => id == link.session &&
    ((r.session? id).any (fun s =>
        match s.phase with
        | .active m =>
          match m.control with
          | .exited .suspended | .exited .queueClosed | .aborted _ => true
          | _ => false
        | _ => false) ||
      (r.received? id).any (·.2.name.doneInvokeId? == some link.invokeId) ||
      r.asks? id == some link.invokeId)
  | .aftermath id => id == link.session
  | .timer _ _ => false

theorem mayAbandon_of_abandons {r : Router} {task : Task} {link : ParentLink} {i : Invocation}
    (named : i.invokeId = link.invokeId) (abandons : r.Abandons (.turn task) link.session i) :
    mayAbandon r task link = true := by
  cases abandons with
  | left own active _ exited early =>
    cases own
    obtain ⟨s,found,phase⟩ := active
    rcases early with rfl | rfl
    · simp [mayAbandon, found, phase, exited]
    · simp [mayAbandon, found, phase, exited]
  | aborted own active _ broken =>
    cases own
    obtain ⟨s,found,phase⟩ := active
    simp [mayAbandon, found, phase, broken]
  | brokeDown own =>
    cases own
    simp [mayAbandon]
  | dismissed own receives done =>
    cases own
    simp [mayAbandon, receives, show _ = _ from done, named]
  | asked own asks =>
    cases own
    simp [mayAbandon, asks, named]
  | interfered outside _ => cases outside

def faithful (link : ParentLink) : List Task → Router → Bool
  | [], _ => true
  | t :: rest, r => !mayAbandon r t link && faithful link rest (turn t r).2

theorem not_abandoned_of_faithful {tasks : List Task} {r : Router} {c : Chart} {link : ParentLink}
    {i : Invocation} {child : SessionId} (named : i.invokeId = link.invokeId)
    (checked : faithful link tasks r = true) : ¬ r.Abandoned (turns tasks r) c link i child := by
  induction tasks generalizing r with
  | nil =>
    rintro ⟨before,work,r',later,same,_⟩
    cases before <;> cases same
  | cons t rest ih =>
    rw [faithful, Bool.and_eq_true] at checked
    rintro ⟨before,work,r',later,same,tended,going,abandons⟩
    cases before with
    | nil =>
      cases same
      have may : mayAbandon r t link = true := mayAbandon_of_abandons named abandons
      rw [may] at checked
      cases checked.1
    | cons step before =>
      obtain ⟨here,there⟩ := List.cons.inj same
      subst here
      exact ih checked.2 ⟨before, work, r', later, there, tended, going, abandons⟩

/-- The service comes to its work, and the client is told that it has begun. Then the client takes
    in what it was told, and completes. -/
def tasks : List Task := List.replicate 5 (.session child) ++ List.replicate 8 (.session parent)

/-- The client has its service begun. -/
def begun : Router := (turn (.session link.session) asking).2

def completed : Router := turned tasks begun

theorem completed_down : (completed.session? parent).any (fun s =>
    s.outcome.map (·.status) == some .completed &&
      match s.phase with
      | .ended => true
      | _ => false) = true := by
  decide +kernel

/-- The client has completed, and so its service was stopped. -/
theorem completed_stops :
    ((completed.session? parent).bind (·.outcome)).map (·.status) = some .completed ∧
    completed.Stopped child := by
  obtain ⟨s,found,checks⟩ := (Option.any_eq_true _ _).mp completed_down
  rw [Bool.and_eq_true, beq_iff_eq] at checks
  have put : completed.LaidDown parent := by
    refine ⟨s, found, Or.inr ?_⟩
    have past := checks.2
    split at past
    · assumption
    · cases past
  obtain ⟨⟨i,named,_,_,ended,_⟩,_⟩ := services_stopped_unless_abandoned
    (Chart.compile_eq_compiled (by decide +kernel)) asking_begins (throughout_turns tasks begun)
  have kept : faithful link tasks begun = true := by decide +kernel
  rw [show after (turn (.session link.session) asking).2 (turns tasks begun) = completed from
    after_turns tasks begun] at ended
  refine ⟨by rw [found]; exact checks.1, ?_⟩
  exact (ended put).resolve_right (not_abandoned_of_faithful named kept)

/-- The client has been asleep, and was destroyed. -/
def left : Router :=
  ([.create chart none none, .start parent, .settle 50, .advance 50 10, .destroy parent,
    .settle 50].forM Call.run created).2

/-- The service of a client that is destroyed asleep goes on, and it is not to be destroyed. -/
theorem destroyed_asleep_leaves_orphan :
    ((left.session? parent).bind (·.outcome)).map (·.status) = some .destroyed ∧
    (left.session? child).map (fun s => (s.parent.map (·.session), s.status, s.doomed,
      s.outcome.isSome)) = some (some parent, .suspended, false, false) ∧
    ¬ left.Stopped child := by
  have checked : ((left.session? parent).bind (·.outcome)).map (·.status) = some .destroyed ∧
      (left.session? child).map (fun s => (s.parent.map (·.session), s.status, s.doomed,
        s.outcome.isSome)) = some (some parent, .suspended, false, false) := by
    decide +kernel
  refine ⟨checked.1, checked.2, ?_⟩
  rintro ⟨s,found,past⟩
  have going := checked.2
  rw [found] at going
  simp only [Option.map_some, Option.some.injEq, Prod.mk.injEq] at going
  rw [going.2.2.1, going.2.2.2] at past
  rcases past with doomed | ended
  · cases doomed
  · cases ended

end Orphaned

end Statechart

import Statechart.Proofs.Router.Native
import Statechart.Proofs.Router.Services

/- What becomes of the sessions that serve while machines move elsewhere.

   A session stays who it is, and what it has come to is not taken back: neither its end nor that it
   is to be destroyed. As long as nobody else goes on under its invoke id, it is routed to as the
   service until it is stopped, unless another one is begun in its place or it is given up. -/
namespace Statechart

/-- A session goes on as the same, with its phase if it does not move. -/
structure Session.Ages (moves : Prop) (s s' : Session) : Prop where
  id : s'.id = s.id
  parent : s'.parent = s.parent
  doomed : s.doomed = true → s'.doomed = true
  ended : s.outcome.isSome = true → s'.outcome.isSome = true
  routed : s'.isRegistered = s.isRegistered ∨ s'.outcome.isSome = true
  phase : s'.phase = s.phase ∨ s.phase = .fresh ∨ moves

namespace Session

variable {moves : Prop} {s s' s'' : Session}

/-- What of a session decides whether it goes on as the same. -/
def bond (s : Session) : SessionId × Option ParentLink × Bool × Option Outcome × Bool :=
  (s.id, s.parent, s.doomed, s.outcome, s.isRegistered)

theorem Ages.of_bond (same : s'.bond = s.bond)
    (phase : s'.phase = s.phase ∨ s.phase = .fresh ∨ moves) : s.Ages moves s' := by
  simp only [bond, Prod.mk.injEq] at same
  obtain ⟨id,parent,doomed,outcome,routed⟩ := same
  exact ⟨id, parent, fun own => doomed ▸ own, fun own => outcome ▸ own, Or.inl routed, phase⟩

theorem Ages.refl (s : Session) : s.Ages moves s := .of_bond rfl (Or.inl rfl)

theorem Ages.of_stem (same : s'.stem = s.stem) : s.Ages moves s' :=
  .of_bond (congrArg (fun s : Stem => (s.id, s.parent, s.doomed, s.outcome, s.isRegistered)) same)
    (Or.inl (congrArg Stem.phase same))

theorem Ages.trans (first : s.Ages moves s') (second : s'.Ages moves s'') : s.Ages moves s'' where
  id := second.id.trans first.id
  parent := second.parent.trans first.parent
  doomed := second.doomed ∘ first.doomed
  ended := second.ended ∘ first.ended
  routed := by
    rcases second.routed with same | ended
    · rcases first.routed with same' | ended
      · exact Or.inl (same.trans same')
      · exact Or.inr (second.ended ended)
    · exact Or.inr ended
  phase := by
    rcases first.phase with same | fresh | moves
    · rw [← same]
      exact second.phase
    · exact Or.inr (Or.inl fresh)
    · exact Or.inr (Or.inr moves)

end Session

namespace Router

variable {r r' r'' q : Router} {id child : SessionId} {link : ParentLink}

/-- A session goes on, and is entered where its link points. -/
structure Serves (r : Router) (link : ParentLink) (child : SessionId) : Prop where
  entry : r.childOf link.session link.invokeId = some child
  session : ∃ s, r.session? child = some s ∧ s.parent = some link ∧ s.outcome = none ∧
    s.isRegistered = true

/-- Nobody else goes on who was invoked by the same session under the same id. -/
def Sole (r : Router) (link : ParentLink) (child : SessionId) : Prop :=
  ∀ id s l, r.session? id = some s → s.outcome = none → s.parent = some l →
    (l.session, l.invokeId) = (link.session, link.invokeId) → id = child

/-- The session is to be destroyed, or has ended. -/
def Stopped (r : Router) (id : SessionId) : Prop :=
  ∃ s, r.session? id = some s ∧ (s.doomed = true ∨ s.outcome.isSome = true)

/-- Sessions go on as the same, some of them with other machines. Who serves a session serves it
    still or has been stopped, unless what was invoked under the id was touched. -/
structure Tends (moving : SessionId → Prop) (touched : SessionId → InvokeId → Prop)
    (r r' : Router) : Prop where
  ages : ∀ id s, r.session? id = some s → ∃ s', r'.session? id = some s' ∧ s.Ages (moving id) s'
  news : ∀ id s', r.session? id = none → r'.session? id = some s' → ∀ l, s'.parent = some l →
    touched l.session l.invokeId
  serving : ∀ link child, ¬ touched link.session link.invokeId → r.Sole link child →
    r.Serves link child → r'.Serves link child ∨ r'.Stopped child

theorem Serves.registered (serves : r.Serves link child) : (r.registered? child).isSome = true := by
  obtain ⟨s,found,_,_,routed⟩ := serves.session
  rw [registered?, found]
  simp [routed]

section Tends

variable {moving : SessionId → Prop} {touched : SessionId → InvokeId → Prop}

theorem Stopped.tended (stopped : r.Stopped id) (tends : r.Tends moving touched r') :
    r'.Stopped id := by
  obtain ⟨s,found,past⟩ := stopped
  obtain ⟨s',found',ages⟩ := tends.ages id s found
  exact ⟨s', found', past.imp ages.doomed ages.ended⟩

theorem Sole.tended (sole : r.Sole link child) (tends : r.Tends moving touched r')
    (apart : ¬ touched link.session link.invokeId) : r'.Sole link child := by
  intro id s' l found' going linked same
  cases found : r.session? id with
  | none =>
    have touches := tends.news id s' found found' l linked
    simp only [Prod.mk.injEq] at same
    rw [same.1, same.2] at touches
    exact absurd touches apart
  | some s =>
    obtain ⟨s'',found'',ages⟩ := tends.ages id s found
    cases found'.symm.trans found''
    refine sole id s l found ?_ (ages.parent.symm.trans linked) same
    cases ended : s.outcome with
    | none => rfl
    | some o =>
      have past := ages.ended (by rw [ended]; rfl)
      rw [going] at past
      cases past

theorem Tends.of_entries
    (ages : ∀ id s, r.session? id = some s → ∃ s', r'.session? id = some s' ∧ s.Ages (moving id) s')
    (news : ∀ id s', r.session? id = none → r'.session? id = some s' → ∀ l, s'.parent = some l →
      touched l.session l.invokeId)
    (entries : ∀ link child, ¬ touched link.session link.invokeId → r.Sole link child →
      r.Serves link child → r'.childOf link.session link.invokeId = some child ∨
        r'.Stopped child) : r.Tends moving touched r' where
  ages := ages
  news := news
  serving := by
    intro link child apart sole serves
    obtain ⟨s,found,linked,going,routed⟩ := serves.session
    obtain ⟨s',found',same⟩ := ages child s found
    cases outcome : s'.outcome with
    | some o => exact Or.inr ⟨s', found', Or.inr (by rw [outcome]; rfl)⟩
    | none =>
      refine (entries link child apart sole serves).imp (fun entry => ⟨entry, s', found', ?_⟩) id
      refine ⟨same.parent.trans linked, outcome, ?_⟩
      rcases same.routed with kept | past
      · exact kept.trans routed
      · rw [outcome] at past
        cases past

theorem Tends.of_same (registry : r'.invocations = r.invocations)
    (sessions : r'.sessions = r.sessions) : r.Tends moving touched r' := by
  have same : ∀ id, r'.session? id = r.session? id := fun id => by rw [session?, sessions, session?]
  refine .of_entries (fun id s found => ⟨s, (same id).trans found, .refl s⟩) ?_ ?_
  · intro id s' none some
    rw [same, none] at some
    cases some
  · intro link child _ _ serves
    rw [childOf, registry]
    exact Or.inl serves.entry

theorem Tends.refl (r : Router) : r.Tends moving touched r := .of_same rfl rfl

theorem Tends.trans (first : r.Tends moving touched r') (second : r'.Tends moving touched r'') :
    r.Tends moving touched r'' where
  ages id s found := by
    obtain ⟨s',found',ages⟩ := first.ages id s found
    obtain ⟨s'',found'',ages'⟩ := second.ages id s' found'
    exact ⟨s'', found'', ages.trans ages'⟩
  news id s'' none some l linked := by
    cases found' : r'.session? id with
    | none => exact second.news id s'' found' some l linked
    | some s' =>
      obtain ⟨s₂,found₂,ages⟩ := second.ages id s' found'
      cases some.symm.trans found₂
      exact first.news id s' none found' l (ages.parent.symm.trans linked)
  serving link child apart sole serves := by
    rcases first.serving link child apart sole serves with serves | stopped
    · exact second.serving link child apart (sole.tended first apart) serves
    · exact Or.inr (stopped.tended second)

theorem session?_alter_ages {f : Session → Session}
    (ages : ∀ s, r.session? id = some s → s.Ages (moving id) (f s))
    (named : ∀ s, s.id = id → (f s).id = id) :
    (∀ other s, r.session? other = some s →
      ∃ s', (r.alter id f).session? other = some s' ∧ s.Ages (moving other) s') ∧
    ∀ other, r.session? other = none → (r.alter id f).session? other = none := by
  refine ⟨fun other s found => ?_, fun other none => ?_⟩
  · rw [session?_alter r named]
    split
    · rename_i same
      subst same
      exact ⟨f s, by rw [found]; rfl, ages s found⟩
    · exact ⟨s, found, .refl s⟩
  · rw [session?_alter r named]
    split
    · rename_i same
      subst same
      rw [none]
      rfl
    · exact none

theorem Tends.alter {f : Session → Session} (named : ∀ s, s.id = id → (f s).id = id)
    (ages : ∀ s, r.session? id = some s → s.Ages (moving id) (f s)) :
    r.Tends moving touched (r.alter id f) := by
  obtain ⟨kept,none⟩ := session?_alter_ages ages named
  refine .of_entries kept (fun other s' gone found => ?_) fun _ _ _ _ serves => Or.inl serves.entry
  rw [none other gone] at found
  cases found

instance : RouterM.Indifferent (Tends moving touched) where
  refl := .refl
  trans := .trans
  alike := .of_same

instance : RouterM.Native (Tends moving touched) where
  touch same := .alter (fun s here => (congrArg Session.Stem.id (same s)).trans here)
    fun s _ => .of_stem (same s)
  post found := RouterM.posting_of_mailbox (fun _ _ => .alter (fun _ here => here) fun _ _ =>
    .of_bond rfl (Or.inl rfl)) _ _ found
  doom := .alter (fun _ here => here) fun _ _ =>
    ⟨rfl, rfl, fun _ => rfl, fun past => past, Or.inl rfl, Or.inl rfl⟩

end Tends

end Router

namespace RouterM

open Router

variable {moving : SessionId → Prop} {touched : SessionId → InvokeId → Prop} {r : Router}
  {id : SessionId} {s : Session}

/-- Nobody serves whose entry goes but the one that has been stopped. -/
theorem without_tends {q : Router} {parent : SessionId} {invoke : InvokeId}
    (sessions : (∀ id s, r.session? id = some s →
      ∃ s', q.session? id = some s' ∧ s.Ages (moving id) s') ∧
      ∀ id, r.session? id = none → q.session? id = none)
    (registry : q.invocations = (r.without parent invoke).invocations)
    (stops : ∀ link child, (link.session, link.invokeId) = (parent, invoke) →
      r.Sole link child → r.Serves link child → q.Stopped child) : r.Tends moving touched q := by
  refine .of_entries sessions.1 (fun id s' none found => ?_) fun link child _ sole serves => ?_
  · rw [sessions.2 id none] at found
    cases found
  · by_cases here : (link.session, link.invokeId) = (parent, invoke)
    · exact Or.inr (stops link child here sole serves)
    · left
      rw [childOf, registry]
      exact (childOf_without r parent link.session invoke link.invokeId).trans
        ((if_neg here).trans serves.entry)

theorem reportDone_eq (link : ParentLink) (status : SessionStatus) (result : Value) (r : Router) :
    (reportDone link status result r).2 = r.without link.session link.invokeId ∨
    ∃ e, (reportDone link status result r).2 =
      ((deliver link.session e).run (r.without link.session link.invokeId)).2 := by
  unfold reportDone
  rw [get_bind]
  by_cases told : ((r.invocations.lookup (link.session, link.invokeId)).isSome &&
      decide (status = .completed)) = true
  · simp only [told, if_true]
    exact Or.inr ⟨_, rfl⟩
  · simp only [told]
    exact Or.inl rfl

theorem closed_ages (may : s.phase = .fresh ∨ moving id) (o : Outcome) :
    s.Ages (moving id) (closed o s) :=
  ⟨rfl, rfl, fun own => own, fun _ => rfl, Or.inr rfl, Or.inr may⟩

/-- A session that ends takes its entry along. -/
theorem finish_tends (o : Outcome)
    (may : ∀ s, r.session? id = some s → s.phase = .fresh ∨ moving id) :
    r.Tends moving touched (finish id o r).2 := by
  by_cases ends : ∃ s, r.session? id = some s ∧ s.outcome = none
  · obtain ⟨s,found,going⟩ := ends
    have sessions := session?_alter_ages (r := r) (f := closed o)
      (fun s found => closed_ages (may s found) o) fun _ here => here
    have shown : ∀ q : Router, q.Tends moving touched (setStatus id o.status q).2 :=
      setStatus_native id o.status
    rw [finish_eq found going]
    cases linked : s.parent with
    | none =>
      have shut : r.Tends moving touched (closing id o r) :=
        (Tends.alter (f := closed o) (fun _ here => here)
          fun s found => closed_ages (may s found) o).trans (.of_same rfl rfl)
      exact shut.trans (shown _)
    | some link =>
      have told : r.Tends moving touched ((closing id o r).without link.session link.invokeId) := by
        refine without_tends sessions rfl fun link' child same sole _ => ?_
        have own : id = child := sole id s link found going linked same.symm
        subst own
        refine ⟨closed o s, ?_, Or.inr rfl⟩
        refine (session?_alter (f := closed o) r (fun _ here => here) id).trans ?_
        rw [if_pos rfl, found]
        rfl
      have reported : Router.Tends moving touched
          ((closing id o r).without link.session link.invokeId)
          (reportDone link o.status o.result (closing id o r)).2 := by
        rcases reportDone_eq link o.status o.result (closing id o r) with same | ⟨e,same⟩
        · rw [same]
          exact .refl _
        · rw [same]
          exact deliver_native (R := Tends moving touched) link.session e _
      exact (told.trans reported).trans (shown _)
  · rw [finish_idle ends]
    exact .refl r

theorem end_tends (mine : moving id) (o : Outcome) : Leads (Tends moving touched) (finish id o) :=
  fun _ => finish_tends o fun _ _ => Or.inr mine

/-- A session that is doomed is destroyed; it ends at once if it was never started. -/
theorem destroy_doomed {q : Router} (tends : r.Tends moving touched (doom id q).2) :
    r.Tends moving touched (destroy id q).2 := by
  rw [destroy_run]
  refine (tends.trans (close_native (R := Tends moving touched) id _)).trans ?_
  cases found : (close id (doom id q).2).2.session? id with
  | none => exact .refl _
  | some s =>
    obtain ⟨_,_,_,_,_,_,_,_,_,_,_,_,_,_,phase,_⟩ := s
    cases phase with
    | fresh =>
      refine finish_tends _ fun s found' => ?_
      cases found.symm.trans found'
      exact Or.inl rfl
    | _ => exact .refl _

theorem destroy_tends (id : SessionId) : Leads (Tends moving touched) (destroy id) := fun r =>
  destroy_doomed (doom_native id r)

theorem doom_stops (found : r.session? id = some s) : (doom id r).2.Stopped id := by
  refine ⟨{ s with doomed := true }, ?_, Or.inl rfl⟩
  refine Eq.trans ((wake_alike (.session id) _).session? id) ?_
  refine (session?_alter (f := fun s => { s with doomed := true }) r
    (fun _ here => here) id).trans ?_
  rw [if_pos rfl, found]
  rfl

theorem cancelInvoke_run (parent : SessionId) (invoke : InvokeId) {child : SessionId}
    (entry : r.childOf parent invoke = some child) : cancelInvoke parent invoke r =
      (if (r.registered? child).isSome then destroy child else pure ())
        (r.without parent invoke) := by
  rw [cancelInvoke, get_bind, entry]
  rfl

/-- Whose invoke is cancelled is stopped. -/
theorem cancelInvoke_tends (parent : SessionId) (invoke : InvokeId) :
    Leads (Tends moving touched) (cancelInvoke parent invoke) := by
  intro r
  cases entry : r.childOf parent invoke with
  | none =>
    rw [cancelInvoke_none entry]
    exact .refl r
  | some child =>
    have same : ∀ link x, (link.session, link.invokeId) = (parent, invoke) → r.Serves link x →
        x = child := by
      intro link x here serves
      have named := serves.entry
      simp only [Prod.mk.injEq] at here
      rw [here.1, here.2, entry] at named
      exact (Option.some.inj named).symm
    rw [cancelInvoke_run parent invoke entry]
    by_cases routed : (r.registered? child).isSome = true
    · rw [if_pos routed]
      refine destroy_doomed ?_
      obtain ⟨c,registered⟩ := Option.isSome_iff_exists.mp routed
      have ages : ∀ s, r.session? child = some s →
          s.Ages (moving child) { s with doomed := true } := fun _ _ =>
        ⟨rfl, rfl, fun _ => rfl, fun past => past, Or.inl rfl, Or.inl rfl⟩
      have sessions := session?_alter_ages ages fun _ here => here
      have alike := wake_alike (.session child)
        ((r.without parent invoke).alter child fun s => { s with doomed := true })
      refine without_tends ⟨fun id s found => ?_, fun id none => ?_⟩ alike.2
        fun link x here _ serves => ?_
      · obtain ⟨s',found',ages⟩ := sessions.1 id s found
        exact ⟨s', (alike.session? id).trans found', ages⟩
      · exact (alike.session? id).trans (sessions.2 id none)
      · cases same link x here serves
        exact doom_stops (r := r.without parent invoke) (registered?_session registered).1
    · rw [if_neg routed]
      refine without_tends ⟨fun id s found => ⟨s, found, .refl s⟩, fun id none => none⟩ rfl
        fun link x here _ serves => ?_
      cases same link x here serves
      exact absurd serves.registered routed

/-- A session is entered that nobody has been before. -/
theorem createSession_tends {chart : Chart} {parent : Option ParentLink} {arguments : Option Ref}
    (may : ∀ l, parent = some l → touched l.session l.invokeId) :
    Leads (Tends moving touched) (createSession chart parent arguments) := by
  intro r
  refine .of_entries (fun id s found => ⟨s, createSession_session chart parent arguments found,
    .refl s⟩) (fun id s' none some l linked => ?_) fun _ _ _ _ serves => Or.inl serves.entry
  rcases List.mem_append.mp (List.mem_of_find?_eq_some some) with before | new
  · exact absurd (List.find?_some some) (List.find?_eq_none.mp none s' before)
  · cases List.mem_singleton.mp new
    exact may l linked

theorem startSession_tends (id : SessionId) :
    Leads (Tends moving touched) (startSession id).run := by
  refine startSession_leads fun r s m found _ phase _ => ?_
  have noted : r.Tends moving touched { r with memory := m.memory } := .of_same rfl rfl
  have begun : Tends moving touched { r with memory := m.memory }
      (Router.alter { r with memory := m.memory } id
        fun s => { s with phase := .active m.start }) := by
    refine .alter (fun _ here => here) fun s' found' => ?_
    cases found.symm.trans found'
    exact .of_bond rfl (Or.inr (Or.inl phase))
  exact (noted.trans begun).trans (setStatus_native id .starting _)

theorem childOf_enrolled (r : Router) (parent : SessionId) (data : InvokeData) (chart : Chart)
    {p : SessionId} {i : InvokeId} (other : (p, i) ≠ (parent, data.invokeId)) :
    (enrolled r parent data chart).childOf p i = r.childOf p i := by
  change List.lookup (p, i) (_ :: r.invocations.filter (·.1 ≠ (parent, data.invokeId))) = _
  rw [List.lookup_cons, beq_false_of_ne other]
  exact (lookup_filter r.invocations (parent, data.invokeId) (p, i)).trans (if_neg other)

theorem beginInvoke_tends {parent : SessionId} {data : InvokeData}
    (may : touched parent data.invokeId) :
    Leads (Tends moving touched) (beginInvoke parent data).run := by
  intro r
  rcases beginInvoke_run r parent data with ⟨_,same⟩ | ⟨chart,_,_,run⟩
  · rw [same]
    exact .refl r
  · rw [run]
    let q : Router :=
      { r with memory := { r.memory with heap := (argumentsOf r.memory.heap data.parameters).1 } }
    have created : q.Tends moving touched (createSession chart
        (some ⟨parent, data.invokeId, data.uniqueId⟩)
        (argumentsOf r.memory.heap data.parameters).2 q).2 :=
      createSession_tends (fun l own => by cases own; exact may) q
    have entered : r.Tends moving touched (enrolled r parent data chart) := by
      refine .of_entries created.ages created.news fun link child apart _ serves => Or.inl ?_
      refine (childOf_enrolled r parent data chart fun same => apart ?_).trans serves.entry
      simp only [Prod.mk.injEq] at same
      rw [same.1, same.2]
      exact may
    exact entered.trans (startSession_tends _ _)

theorem endInvoke_tends {parent : SessionId} {invoke : InvokeId}
    {result : Except RouterError SessionStatus}
    (may : ∀ e, result = .error e → touched parent invoke) :
    Leads (Tends moving touched) (endInvoke parent invoke result) := by
  cases result with
  | ok status => exact .pure _
  | error e =>
    intro r
    refine .of_entries (fun id s found => ⟨s, found, .refl s⟩) (fun id s' none some => ?_)
      fun link child apart _ serves => Or.inl ?_
    · cases none.symm.trans some
    · refine (childOf_without r parent link.session invoke link.invokeId).trans ?_
      rw [if_neg, serves.entry]
      intro same
      simp only [Prod.mk.injEq] at same
      rw [same.1, same.2] at apart
      exact apart (may e rfl)

theorem keep_tends (mine : moving id) (m : Machine) : Leads (Tends moving touched) (keep id m) := by
  refine .bind (fun r => .of_same rfl rfl) fun _ => .bind (fun r => ?_) fun _ => ?_
  · exact .alter (fun _ here => here) fun _ _ => .of_bond rfl (Or.inr (Or.inr mine))
  · exact .forM fun report _ => passOn_native id _ report

theorem nextEvent?_bond {taken : Session} {e : Event} (next : nextEvent? s = some (e, taken)) :
    taken.bond = s.bond ∧ taken.phase = s.phase := by
  rcases nextEvent?_eq_some next with ⟨_,rfl⟩ | ⟨rest,_,_,rfl⟩
  · exact ⟨rfl, rfl⟩
  · exact ⟨rfl, rfl⟩

theorem input?_bond {taken : Session} {input : Input} (next : input? s = some (input, taken)) :
    taken.bond = s.bond ∧ taken.phase = s.phase := by
  rcases input?_eq_some next with ⟨e,_,found⟩ | ⟨_,rfl⟩
  · exact nextEvent?_bond found
  · exact ⟨rfl, rfl⟩

theorem adopt_tends {taken : Session} (found : r.session? s.id = some s)
    (same : taken.bond = s.bond ∧ taken.phase = s.phase) :
    r.Tends moving touched (adopt s taken r).2 := by
  refine adopt_leads (fun _ => .of_same rfl rfl) (fun q sessions => ?_) fun _ =>
    setStatus_native s.id _
  refine .alter (fun _ _ => congrArg Prod.fst same.1) fun s' found' => ?_
  have there : q.session? s.id = some s := by
    rw [Router.session?, sessions]
    exact found
  cases there.symm.trans found'
  exact .of_bond same.1 (Or.inl same.2)

theorem answer_tends (mine : moving id) (m : Machine) (failure : Option Failure) :
    Leads (Tends moving touched) (answer id m failure) :=
  .bind (touch_native fun _ => rfl) fun _ => .bind .get fun _ => .bind (keep_tends mine _) fun _ =>
    .pure _

end RouterM

namespace Router

/-- The invoke id under which a session, in its turn, has a service begun or learns that the one it
    had begun has not started. -/
def asks? (r : Router) (id : SessionId) : Option InvokeId :=
  match r.session? id with
  | none => none
  | some s =>
    match s.phase with
    | .active n =>
      match n.control with
      | .starts data _ =>
        if s.awaited.isNone || (RouterM.refusal? r s data).isSome then some data.invokeId else none
      | _ => none
    | _ => none

theorem asks?_eq {r : Router} {id : SessionId} {s : Session} (found : r.session? id = some s)
    {n : Machine} (active : s.phase = .active n) {data : InvokeData}
    {pending : List (StateIndex × Nat)} (asked : n.control = .starts data pending)
    (asks : s.awaited = none ∨ (RouterM.refusal? r s data).isSome = true) :
    r.asks? id = some data.invokeId := by
  unfold asks?
  simp only [found, active, asked]
  rw [if_pos]
  simpa using asks

end Router

namespace RouterM

open Router

variable {moving : SessionId → Prop} {touched : SessionId → InvokeId → Prop} {r : Router}
  {id : SessionId} {s : Session}

theorem serveInvoke_tends (mine : moving s.id) (m : Machine) {data : InvokeData}
    (may : s.awaited = none ∨ (refusal? r s data).isSome = true → touched s.id data.invokeId) :
    r.Tends moving touched (serveInvoke s m data r).2 := by
  cases awaited : s.awaited with
  | none =>
    rw [serveInvoke_first awaited]
    refine Leads.bind (beginInvoke_tends (may (Or.inl awaited))) (fun result => ?_) r
    cases result with
    | error e => exact answer_tends mine m _
    | ok child => exact .bind (touch_native fun _ => rfl) fun _ => .pure _
  | some child =>
    rw [serveInvoke_again awaited]
    cases result : (r.session? child).bind startResult? with
    | none => exact .refl r
    | some outcome =>
      cases outcome with
      | ok status => exact answer_tends mine m none r
      | error e =>
        have refused : (refusal? r s data).isSome = true := by
          unfold refusal?
          simp only [awaited, result, Option.isSome_some]
        exact (endInvoke_tends (fun _ _ => may (Or.inr refused)) r).trans (answer_tends mine m _ _)

theorem leave_tends (mine : moving s.id) (m : Machine) (status : ExitStatus) :
    Leads (Tends moving touched) (leave s m status) := by
  cases status with
  | completed => exact end_tends mine _
  | destroyed => exact end_tends mine _
  | queueClosed => exact end_tends mine _
  | suspended =>
    refine suspended_leads (fun _ _ => .of_same rfl rfl) (fun r => ?_) (setStatus_native s.id _)
    exact .alter (fun _ here => here) fun _ _ => .of_bond rfl (Or.inr (Or.inr mine))

theorem goOn_tends (mine : moving s.id) (found : r.session? s.id = some s) {n : Machine}
    (active : s.phase = .active n)
    (may : ∀ invoke, r.asks? s.id = some invoke → touched s.id invoke) :
    r.Tends moving touched (goOn s (current r s n) r).2 := by
  have kept : ∀ m, Leads (Tends moving touched) (do
      keep s.id m
      return true) := fun m => .bind (keep_tends mine m) fun _ => .pure _
  have turn := goOn_turn s (current r s n)
  generalize goOn s (current r s n) = x at turn ⊢
  cases turn with
  | steps => exact kept _ r
  | performs =>
    refine Leads.bind (performAll_native (R := Tends moving touched) cancelInvoke_tends s _)
      (fun failures => ?_) r
    exact .bind .get fun r => kept _
  | serves data pending control =>
    exact serveInvoke_tends mine _ fun asks => may _ (asks?_eq found active control asks)
  | takes input taken _ next => exact (adopt_tends found (input?_bond next)).trans (kept _ _)
  | leaves status => exact Leads.bind (leave_tends mine _ status) (fun _ => .pure true) r
  | aborts => exact Leads.bind (end_tends mine _) (fun _ => .pure false) r
  | breaks => exact breakDown_native (R := Tends moving touched) s.id r
  | rests => exact .refl r

theorem awake_tends (mine : moving s.id) (found : r.session? s.id = some s) :
    r.Tends moving touched (awake s r).2 := by
  have ends : ∀ o, Leads (Tends moving touched) (do
      finish s.id o
      return false) := fun o =>
    .bind (end_tends mine o) fun _ => .pure _
  have waking := awake_waking s
  generalize awake s = x at waking ⊢
  cases waking with
  | ends => exact ends _ r
  | wakes e taken _ next =>
    refine (adopt_tends found (nextEvent?_bond next)).trans ?_
    have roused : Leads (Tends moving touched) (rouse s e) := by
      refine .bind (resume_leads fun _ _ _ _ => .of_same rfl rfl) fun result => ?_
      cases result with
      | ok m =>
        refine .bind (fun r => ?_) fun _ => .pure _
        exact .alter (fun _ here => here) fun _ _ => .of_bond rfl (Or.inr (Or.inr mine))
      | error error => exact ends _
    exact roused _
  | rests => exact .refl r

/-- The session whose machine, if any, the turn of a task moves or puts away. -/
def stirs : Task → SessionId → Prop
  | .session id | .aftermath id => (· = id)
  | .timer _ _ => fun _ => False

/-- What is invoked, or turns out not to have started, in the turn of a task. -/
def invokes (r : Router) : Task → SessionId → InvokeId → Prop
  | .session id => fun parent invoke => parent = id ∧ r.asks? id = some invoke
  | _ => fun _ _ => False

theorem turn_tends (task : Task) (r : Router) :
    r.Tends (stirs task) (invokes r task) (turn task r).2 := by
  cases task with
  | timer id index => exact Leads.bind (fire_native id index) (fun _ => .pure _) r
  | aftermath id =>
    exact Leads.bind (end_tends (by rfl) _) (fun _ => .pure _) r
  | session id =>
    have turned := turn_turned id r
    generalize (turn (.session id) r).2 = q at turned ⊢
    cases turned with
    | goes s n named found phase =>
      exact goOn_tends named found phase fun invoke asks => ⟨named, named ▸ asks⟩
    | wakes s named found => exact awake_tends named found
    | rests => exact .refl r

end RouterM

end Statechart

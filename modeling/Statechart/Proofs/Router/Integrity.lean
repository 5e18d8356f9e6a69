import Statechart.Proofs.Router.Registry
import Statechart.Proofs.Chart.Compiled

/- When services keep their entries in the registry.

   An entry should go only when its invoke is cancelled, when the very session it names ends, or
   when that session did not start. This holds exactly as long as every deed minds its own entry.
   It does not hold in general: the session of a service that was cancelled may end after another
   one has been entered in its place, and takes the new entry away. -/
namespace Statechart

namespace Router

/-- Where the session's link points, nobody else is entered. -/
def Undisputed (r : Router) (id : SessionId) : Prop :=
  ∀ s link, r.session? id = some s → s.parent = some link →
    ∀ child, r.childOf link.session link.invokeId = some child → child = id

/-- The deed takes away no entry but that of the service it is about. -/
def Deed.MindsItsOwn (r : Router) : Deed → Prop
  | .aside | .move _ => True
  | .begin parent data => r.Admits data →
      ∀ child, r.childOf parent data.invokeId = some child → child = idText r.memory.supply
  | .cancel parent invoke => ∀ child c, r.childOf parent invoke = some child →
      r.registered? child = some c → RouterM.neverStarted c → r.Undisputed child
  | .giveUp parent invoke awaited => ∀ child, r.childOf parent invoke = some child → child = awaited
  | .finish id _ => r.Undisputed id

/-- A session had no outcome before, and has one now. -/
def Ended (r r' : Router) (id : SessionId) : Prop :=
  (∃ s, r.session? id = some s ∧ s.outcome = none) ∧
    ∃ s', r'.session? id = some s' ∧ s'.outcome.isSome = true

/-- Every entry that goes is cancelled, or its session ends, or its session did not start. -/
def Rightful (r : Router) (d : Deed) (r' : Router) : Prop :=
  ∀ parent invoke child, r.childOf parent invoke = some child →
    r'.childOf parent invoke ≠ some child →
    d = .cancel parent invoke ∨ Ended r r' child ∨ d = .giveUp parent invoke child

theorem not_ended_of_lives {r r' : Router} {id : SessionId}
    (lives : ∀ s, r.session? id = some s → ∃ s', r'.session? id = some s' ∧ s.Lives s') :
    ¬ Ended r r' id := by
  rintro ⟨⟨s,found,going⟩,s',found',concluded⟩
  obtain ⟨t,here,lives⟩ := lives s found
  cases found'.symm.trans here
  rw [lives.outcome, going] at concluded
  cases concluded

theorem rightful_of_registry {r r' : Router} (d : Deed)
    (same : r'.invocations = r.invocations) : Rightful r d r' := by
  intro parent invoke child entry gone
  refine absurd ?_ gone
  rw [childOf, same]
  exact entry

theorem giveUp_rightful_iff (r : Router) (parent : SessionId) (invoke : InvokeId)
    (awaited : SessionId) :
    Rightful r (.giveUp parent invoke awaited) (r.without parent invoke) ↔
      (Deed.giveUp parent invoke awaited).MindsItsOwn r := by
  have lives : ∀ child, ¬ Ended r (r.without parent invoke) child := fun child =>
    not_ended_of_lives fun s found => ⟨s, found, .refl s⟩
  constructor
  · intro rightful child entry
    have gone : (r.without parent invoke).childOf parent invoke ≠ some child := by
      simp [childOf_without]
    rcases rightful parent invoke child entry gone with cancelled | ended | given
    · cases cancelled
    · exact absurd ended (lives child)
    · cases given
      rfl
  · intro own p i child entry gone
    rw [childOf_without] at gone
    split at gone
    · rename_i here
      cases here
      cases own child entry
      exact Or.inr (Or.inr rfl)
    · exact absurd entry gone

theorem finish_rightful_iff {r : Router} {id : SessionId} {s : Session}
    (found : r.session? id = some s) (going : s.outcome = none) (o : Outcome) :
    Rightful r (.finish id o) (RouterM.finish id o r).2 ↔ r.Undisputed id := by
  constructor
  · intro rightful t link there linked child entry
    cases found.symm.trans there
    have gone : (RouterM.finish id o r).2.childOf link.session link.invokeId ≠ some child := by
      rw [RouterM.finish_registry found going, linked]
      simp [childOf_without]
    rcases rightful _ _ child entry gone with cancelled | ended | given
    · cases cancelled
    · by_cases own : child = id
      · exact own
      · refine absurd ended (not_ended_of_lives fun t there => ?_)
        obtain ⟨t',there',rests⟩ := RouterM.finish_others found going o own there
        exact ⟨t', there', rests.toLives⟩
    · cases given
  · intro undisputed parent invoke child entry gone
    rw [RouterM.finish_registry found going] at gone
    cases linked : s.parent with
    | none =>
      rw [linked] at gone
      exact absurd entry gone
    | some link =>
      rw [linked] at gone
      simp only [childOf_without] at gone
      split at gone
      · rename_i here
        cases here
        cases undisputed s link found linked child entry
        obtain ⟨s',found',_,concluded,_⟩ := RouterM.finish_own found going o
        exact Or.inr (Or.inl ⟨⟨s, found, going⟩, s', found', by rw [concluded]; rfl⟩)
      · exact absurd entry gone

theorem Rested.lives {r r' : Router} (rested : r.Rested r') (id : SessionId) (s : Session)
    (found : r.session? id = some s) : ∃ s', r'.session? id = some s' ∧ s.Lives s' := by
  obtain ⟨s',found',rests⟩ := rested.sessions id s found
  exact ⟨s', found', rests.toLives⟩

theorem Rested.childOf {r r' : Router} (rested : r.Rested r') (parent : SessionId)
    (invoke : InvokeId) : r'.childOf parent invoke = r.childOf parent invoke := by
  unfold Router.childOf
  rw [rested.registry]

theorem childOf_finish_rested {r q : Router} (rested : r.Rested q) {child : SessionId} {c : Session}
    (found : q.session? child = some c) (going : c.outcome = none) (o : Outcome) (p : SessionId)
    (i : InvokeId) :
    (RouterM.finish child o q).2.childOf p i =
      match c.parent with
      | some link => if (p, i) = (link.session, link.invokeId) then none else r.childOf p i
      | none => r.childOf p i := by
  rw [RouterM.finish_registry found going]
  cases c.parent with
  | none => exact rested.childOf p i
  | some link => simp only [childOf_without q, rested.childOf]

theorem not_ended_finish_rested {r q : Router} (rested : r.Rested q) {child other : SessionId}
    {c : Session} (found : q.session? child = some c) (going : c.outcome = none) (o : Outcome)
    (elsewhere : other ≠ child) : ¬ Ended r (RouterM.finish child o q).2 other := by
  refine not_ended_of_lives fun s there => ?_
  obtain ⟨s',there',rests⟩ := rested.sessions other s there
  obtain ⟨s'',there'',rests'⟩ := RouterM.finish_others found going o elsewhere there'
  exact ⟨s'', there'', (rests.trans rests').toLives⟩

theorem cancel_finish_rightful_iff {r q : Router} {parent child : SessionId} {invoke : InvokeId}
    {c c' : Session} (entry : r.childOf parent invoke = some child)
    (registered : r.registered? child = some c) (unstarted : RouterM.neverStarted c)
    (rested : (r.without parent invoke).Rested q) (found : q.session? child = some c')
    (linked : c'.parent = c.parent) (going : c'.outcome = none) :
    Rightful r (.cancel parent invoke) (RouterM.finish child { status := .destroyed } q).2 ↔
      (Deed.cancel parent invoke).MindsItsOwn r := by
  have registry := childOf_finish_rested rested found going { status := .destroyed }
  constructor
  · intro rightful child' c₁ entered registered₁ unstarted₁ s link there attached other entry'
    cases entry.symm.trans entered
    cases (registered?_session registered).1.symm.trans there
    by_cases here : (link.session, link.invokeId) = (parent, invoke)
    · cases here
      cases entry.symm.trans entry'
      rfl
    · have gone : (RouterM.finish child { status := .destroyed } q).2.childOf link.session
          link.invokeId ≠ some other := by
        rw [registry, linked, attached]
        simp
      rcases rightful _ _ other entry' gone with cancelled | ended | given
      · cases cancelled
        exact absurd rfl here
      · by_cases own : other = child
        · exact own
        · exact absurd ended (not_ended_finish_rested rested found going _ own)
      · cases given
  · intro own p i ch entered gone
    by_cases here : (p, i) = (parent, invoke)
    · cases here
      exact Or.inl rfl
    · have kept : (r.without parent invoke).childOf p i = some ch := by
        rw [childOf_without, if_neg here, entered]
      rw [registry, linked] at gone
      cases attached : c.parent with
      | none =>
        rw [attached] at gone
        exact absurd kept gone
      | some link =>
        rw [attached] at gone
        simp only [kept] at gone
        split at gone
        · rename_i there
          cases there
          have same := own child c entry registered unstarted c link
            (registered?_session registered).1 attached ch entered
          subst same
          obtain ⟨s',found',_,concluded,_⟩ := RouterM.finish_own found going { status := .destroyed }
          refine Or.inr (Or.inl ⟨⟨c, (registered?_session registered).1, unstarted.2⟩, s', found', ?_⟩)
          rw [concluded]
          rfl
        · exact absurd rfl gone

theorem cancel_rightful_iff (r : Router) (parent : SessionId) (invoke : InvokeId) :
    Rightful r (.cancel parent invoke) (RouterM.cancelInvoke parent invoke r).2 ↔
      (Deed.cancel parent invoke).MindsItsOwn r := by
  cases entry : r.childOf parent invoke with
  | none =>
    rw [RouterM.cancelInvoke_none entry]
    refine ⟨fun _ child c entered => ?_, fun _ => rightful_of_registry _ rfl⟩
    rw [entry] at entered
    cases entered
  | some child =>
    rcases RouterM.cancelInvoke_spec entry with ⟨started,rested⟩ | ends
    · refine ⟨fun _ child' c entered registered unstarted => ?_, fun _ p i ch entered gone => ?_⟩
      · cases entry.symm.trans entered
        exact absurd unstarted (started c registered)
      · rw [rested.childOf, childOf_without] at gone
        split at gone
        · rename_i here
          cases here
          exact Or.inl rfl
        · exact absurd entered gone
    · obtain ⟨c,c',q,registered,unstarted,rested,found,linked,going,run⟩ := ends
      rw [run]
      exact cancel_finish_rightful_iff entry registered unstarted rested found linked going

theorem begin_rightful_iff (r : Router) (parent : SessionId) (data : InvokeData) :
    Rightful r (.begin parent data) ((RouterM.beginInvoke parent data).run r).2 ↔
      (Deed.begin parent data).MindsItsOwn r := by
  rcases RouterM.beginInvoke_spec r parent data with ⟨refused,same⟩ | ⟨admitted,q,kept,entered,rested⟩
  · rw [same]
    exact ⟨fun _ admitted => absurd admitted refused, fun _ => rightful_of_registry _ rfl⟩
  · have registry : ∀ p i, ((RouterM.beginInvoke parent data).run r).2.childOf p i =
        if (p, i) = (parent, data.invokeId) then some (idText r.memory.supply)
        else r.childOf p i := by
      intro p i
      rw [rested.childOf, childOf, entered, List.lookup_cons]
      by_cases here : (p, i) = (parent, data.invokeId)
      · simp [here]
      · rw [beq_false_of_ne here, if_neg here]
        exact (childOf_without r parent p data.invokeId i).trans (if_neg here)
    constructor
    · intro rightful _ child entry
      by_cases same : child = idText r.memory.supply
      · exact same
      · have gone : ((RouterM.beginInvoke parent data).run r).2.childOf parent data.invokeId
            ≠ some child := by
          rw [registry, if_pos rfl]
          simpa using Ne.symm same
        rcases rightful _ _ child entry gone with cancelled | ended | given
        · cases cancelled
        · refine absurd ended (not_ended_of_lives fun s found => ?_)
          exact rested.lives child s (kept child s found)
        · cases given
    · intro own p i child entry gone
      rw [registry] at gone
      split at gone
      · rename_i here
        cases here
        rw [own admitted child entry] at gone
        exact absurd rfl gone
      · exact absurd entry gone

/-- One deed takes entries away rightfully if and only if it minds its own. -/
theorem Does.rightful_iff {r r' : Router} {d : Deed} (does : Does r d r') :
    Rightful r d r' ↔ d.MindsItsOwn r := by
  cases does with
  | aside rested => exact ⟨fun _ => trivial, fun _ => rightful_of_registry _ rested.registry⟩
  | move moved => exact ⟨fun _ => trivial, fun _ => rightful_of_registry _ moved.registry⟩
  | begin parent data => exact begin_rightful_iff r parent data
  | cancel parent invoke => exact cancel_rightful_iff r parent invoke
  | giveUp parent invoke found failed => exact giveUp_rightful_iff r parent invoke _
  | finish outcome found going => exact finish_rightful_iff found going outcome

theorem throughout_rightful_iff {r : Router} {history : List (Deed × Router)}
    (happens : Throughout Does r history) :
    Throughout Rightful r history ↔ Throughout (fun r d _ => d.MindsItsOwn r) r history := by
  induction history generalizing r with
  | nil => exact Iff.rfl
  | cons step rest ih => exact and_congr happens.1.rightful_iff (ih happens.2)

theorem Does.keeps {r r' : Router} {d : Deed} (does : Does r d r') {id : SessionId} {s : Session}
    (found : r.session? id = some s) :
    ∃ s', r'.session? id = some s' ∧ s'.parent = s.parent ∧
      (s.Lives s' ∨ s'.outcome.isSome = true) := by
  have living : (∃ s', r'.session? id = some s' ∧ s.Lives s') →
      ∃ s', r'.session? id = some s' ∧ s'.parent = s.parent ∧
        (s.Lives s' ∨ s'.outcome.isSome = true) := by
    rintro ⟨s',found',lives⟩
    exact ⟨s', found', lives.parent, Or.inl lives⟩
  have finishing : ∀ {q : Router} {ending : SessionId} {t : Session} (o : Outcome),
      (∃ s', q.session? id = some s' ∧ s.Lives s') → q.session? ending = some t →
      t.outcome = none → ∃ s', (RouterM.finish ending o q).2.session? id = some s' ∧
        s'.parent = s.parent ∧ (s.Lives s' ∨ s'.outcome.isSome = true) := by
    rintro q ending t o ⟨s',found',lives⟩ there going
    by_cases own : id = ending
    · subst own
      cases there.symm.trans found'
      obtain ⟨s'',found'',linked,concluded,_⟩ := RouterM.finish_own there going o
      exact ⟨s'', found'', linked.trans lives.parent, Or.inr (by rw [concluded]; rfl)⟩
    · obtain ⟨s'',found'',rests⟩ := RouterM.finish_others there going o own found'
      exact ⟨s'', found'', rests.parent.trans lives.parent, Or.inl (lives.trans rests.toLives)⟩
  cases does with
  | aside rested => exact living (rested.lives id s found)
  | @move _ moving moved =>
    by_cases own : id = moving
    · subst own
      exact living (moved.own s found)
    · obtain ⟨s',found',rests⟩ := moved.others id s own found
      exact living ⟨s', found', rests.toLives⟩
  | begin parent data =>
    rcases RouterM.beginInvoke_spec r parent data with ⟨_,same⟩ | ⟨_,q,kept,_,rested⟩
    · exact living ⟨s, by rw [same, found], .refl s⟩
    · exact living (rested.lives id s (kept id s found))
  | cancel parent invoke =>
    cases entry : r.childOf parent invoke with
    | none => exact living ⟨s, by rw [RouterM.cancelInvoke_none entry, found], .refl s⟩
    | some child =>
      rcases RouterM.cancelInvoke_spec entry with ⟨_,rested⟩ | ends
      · exact living (rested.lives id s found)
      · obtain ⟨c,c',q,_,_,rested,there,_,going,run⟩ := ends
        rw [run]
        exact finishing _ (rested.lives id s found) there going
  | giveUp parent invoke _ _ => exact living ⟨s, found, .refl s⟩
  | finish outcome there going => exact finishing outcome ⟨s, found, .refl s⟩ there going

def Concluded (r : Router) (id : SessionId) : Prop :=
  ∃ s, r.session? id = some s ∧ s.outcome.isSome = true

theorem Concluded.stays {r r' : Router} {d : Deed} {id : SessionId} (concluded : r.Concluded id)
    (does : Does r d r') : r'.Concluded id := by
  obtain ⟨s,found,ended⟩ := concluded
  obtain ⟨s',found',_,lives | concluded⟩ := does.keeps found
  · exact ⟨s', found', by rw [lives.outcome, ended]⟩
  · exact ⟨s', found', concluded⟩

theorem Concluded.throughout {r : Router} {history : List (Deed × Router)} {id : SessionId}
    (concluded : r.Concluded id) (happens : Throughout Does r history) :
    (after r history).Concluded id ∧ ∀ step ∈ history, ∀ o, step.1 ≠ .finish id o := by
  induction history generalizing r with
  | nil => exact ⟨concluded, fun _ within => (by cases within)⟩
  | cons step rest ih =>
    obtain ⟨later,others⟩ := ih (concluded.stays happens.1) happens.2
    refine ⟨later, fun other within o again => ?_⟩
    rcases List.mem_cons.mp within with rfl | within
    · obtain ⟨d,r'⟩ := other
      cases again
      obtain ⟨s,found,ended⟩ := concluded
      obtain ⟨does,_⟩ := happens
      cases does with
      | finish _ found' going =>
        cases found.symm.trans found'
        rw [going] at ended
        cases ended
    · exact others other within o again

theorem Does.concludes {r r' : Router} {id : SessionId} {o : Outcome} (does : Does r (.finish id o) r') :
    r'.Concluded id := by
  cases does with
  | finish _ found going =>
    obtain ⟨s',found',_,concluded,_⟩ := RouterM.finish_own found going o
    exact ⟨s', found', by rw [concluded]; rfl⟩

theorem concluded_of_finish {r : Router} {history : List (Deed × Router)} {id : SessionId} {o : Outcome}
    (happens : Throughout Does r history) {step : Deed × Router} (within : step ∈ history)
    (finished : step.1 = .finish id o) : (after r history).Concluded id := by
  induction history generalizing r with
  | nil => cases within
  | cons first rest ih =>
    rcases List.mem_cons.mp within with rfl | within
    · have does := happens.1
      rw [finished] at does
      exact (does.concludes.throughout happens.2).1
    · exact ih happens.2 within

/-- A session that goes on is entered where its link points. -/
structure Serving (r : Router) (link : ParentLink) (child : SessionId) : Prop where
  entry : r.childOf link.session link.invokeId = some child
  session : ∃ s, r.session? child = some s ∧ s.parent = some link ∧ s.outcome = none ∧
    s.status.isTerminal = false

theorem startResult?_error {s : Session} {e : RouterError}
    (failed : RouterM.startResult? s = some (.error e)) : s.status.isTerminal = true := by
  unfold RouterM.startResult? at failed
  split at failed
  · rename_i broken
    simp only [Bool.or_eq_true, decide_eq_true_eq] at broken
    rcases broken with status | status
    · rw [status]
      rfl
    · rw [status]
      rfl
  · split at failed
    · cases failed
    · cases failed

theorem Serving.stays {r r' : Router} {d : Deed} {link : ParentLink} {child : SessionId}
    (serving : r.Serving link child) (does : Does r d r') (own : d.MindsItsOwn r)
    (kept : d ≠ .cancel link.session link.invokeId) : r'.Serving link child ∨ r'.Concluded child := by
  obtain ⟨s,found,linked,going,alive⟩ := serving.session
  obtain ⟨s',found',linked',lives | concluded⟩ := does.keeps found
  · have going' : s'.outcome = none := lives.outcome.trans going
    have alive' : s'.status.isTerminal = false := by
      cases ended : s'.status.isTerminal with
      | false => rfl
      | true => rw [lives.alive ended] at alive; cases alive
    refine Or.inl ⟨?_, s', found', linked'.trans linked, going', alive'⟩
    by_cases gone : r'.childOf link.session link.invokeId = some child
    · exact gone
    · rcases does.rightful_iff.mpr own _ _ child serving.entry gone with cancelled | ended | given
      · exact absurd cancelled kept
      · obtain ⟨_,t,there,concluded⟩ := ended
        cases found'.symm.trans there
        rw [going'] at concluded
        cases concluded
      · subst given
        cases does with
        | giveUp _ _ there failed =>
          cases found.symm.trans there
          rw [startResult?_error failed] at alive
          cases alive
  · exact Or.inr ⟨s', found', concluded⟩

theorem Serving.throughout {r : Router} {history : List (Deed × Router)} {link : ParentLink}
    {child : SessionId} (serving : r.Serving link child) (happens : Throughout Does r history)
    (own : Throughout (fun r d _ => d.MindsItsOwn r) r history)
    (kept : ∀ step ∈ history, step.1 ≠ .cancel link.session link.invokeId) :
    (after r history).Serving link child ∨ (after r history).Concluded child := by
  induction history generalizing r with
  | nil => exact Or.inl serving
  | cons step rest ih =>
    rcases serving.stays happens.1 own.1 (kept step List.mem_cons_self) with serving | concluded
    · exact ih serving happens.2 own.2 fun other within => kept other (List.mem_cons_of_mem _ within)
    · exact Or.inr (concluded.throughout happens.2).1

/-- A session completes whose parent can be told. -/
structure Completes (r : Router) (child : SessionId) (o : Outcome) (link : ParentLink)
    (parent : Session) : Prop where
  session : ∃ s, r.session? child = some s ∧ s.parent = some link
  completed : o.status = .completed
  apart : link.session ≠ child
  registered : r.registered? link.session = some parent
  isOpen : parent.isOpen = true

/-- Entries go rightfully if and only if all deeds mind their own. A session that completes does
    so once, and its parent is told once if there is an entry where the session's link points;
    that entry is its own as long as deeds mind their own and the invoke is not cancelled. All
    turns of all tasks are made of such deeds. -/
theorem registry_integrity {r : Router} {history : List (Deed × Router)}
    (happens : Throughout Does r history) :
    (Throughout Rightful r history ↔ Throughout (fun r d _ => d.MindsItsOwn r) r history) ∧
    (∀ before child o r' later link parent,
      history = before ++ (.finish child o, r') :: later →
      (after r before).Completes child o link parent →
      r'.session? link.session = some { parent with
        mailbox := parent.mailbox ++
          if ((after r before).childOf link.session link.invokeId).isSome then
            [link.deliver (.doneInvoke link.invokeId) o.result Address.sessionType]
          else [] } ∧
      (∀ step ∈ before ++ later, ∀ o', step.1 ≠ .finish child o') ∧
      (r.Serving link child → Throughout (fun r d _ => d.MindsItsOwn r) r before →
        (∀ step ∈ before, step.1 ≠ .cancel link.session link.invokeId) →
        (after r before).childOf link.session link.invokeId = some child)) ∧
    ∀ task, Reaches (RouterM.movesIn task) (after r history) (RouterM.turn task (after r history)).2 := by
  refine ⟨throughout_rightful_iff happens, ?_, fun task => RouterM.turn_made task _⟩
  rintro before child o r' later link parent rfl completes
  obtain ⟨earlier,does,afterwards⟩ := throughout_append.mp happens
  -- A session finishes without an outcome and has one from then on, so it finishes once.
  cases does with
  | @finish _ s _ found going =>
    have linked : s.parent = some link := by
      obtain ⟨t,there,linked⟩ := completes.session
      cases found.symm.trans there
      exact linked
    have open_before : ¬ (after r before).Concluded child := by
      rintro ⟨t,there,concluded⟩
      cases found.symm.trans there
      rw [going] at concluded
      cases concluded
    refine ⟨?_, ?_, ?_⟩
    · exact RouterM.finish_report found going linked completes.completed completes.apart
        completes.registered completes.isOpen
    · intro step within o' again
      rcases List.mem_append.mp within with within | within
      · exact open_before (concluded_of_finish earlier within again)
      · have concluded : Concluded (RouterM.finish child o (after r before)).2 child :=
          (Does.finish o found going).concludes
        exact (concluded.throughout afterwards).2 step within o' again
    · intro serving own kept
      exact ((serving.throughout earlier own kept).resolve_right open_before).entry

end Router

namespace Reentry

open Source Router

def service : ChartDef where
  name := none
  initial := none
  data := []
  extra := none
  states :=
    [.mk (.simple "work" .state [⟨some ["finish"], none, some ["end"], .external, []⟩]) [],
     .mk (.simple "end" .final []) []]

/-- A state that invokes the service under a fixed id, and that can be left and entered again. -/
def client : ChartDef where
  name := none
  initial := none
  data := []
  extra := none
  states :=
    [.mk { StateInfo.simple "busy" .state
        [⟨some ["again"], none, some ["busy"], .external, []⟩,
         ⟨some ["done.invoke.kid"], none, some ["end"], .external, []⟩] with
        invokes := [⟨none, some "service", none, some "kid", none, [], none, false, []⟩] } [],
     .mk (.simple "end" .final []) []]

def empty : Router := { settings := {}, charts := [("service", Chart.compiled [] service)] }

def parent : SessionId := idText 0
def first : SessionId := idText 2
def second : SessionId := idText 4

def start : RouterM Unit := do
  discard (RouterM.startSession (← RouterM.createSession (Chart.compiled [] client) none none)).run

def tell (id : SessionId) (name : String) : RouterM Unit :=
  discard (RouterM.deliver id { name := ⟨[name]⟩, type := .external }).run

def invoked : Router := ((do start; RouterM.settle 100) empty).2

theorem invoked_first : (invoked.session? first).map (fun s => (s.parent, s.outcome.isSome)) =
    some (some ⟨parent, "kid", idText 1⟩, false) ∧ invoked.childOf parent "kid" = some first ∧
    (invoked.registered? parent).map (fun s => s.isOpen) = some true := by
  decide +kernel

/-- The parent of a service that was invoked once is told of its end. -/
theorem first_end_reported : ∃ p, invoked.registered? parent = some p ∧
    (RouterM.finish first { status := .completed } invoked).2.session? parent = some { p with
      mailbox := p.mailbox ++ [ParentLink.deliver ⟨parent, "kid", idText 1⟩ (.doneInvoke "kid")
        .undefined Address.sessionType] } := by
  obtain ⟨served,entry,registered⟩ := invoked_first
  obtain ⟨s,found,same⟩ := Option.map_eq_some_iff.mp served
  obtain ⟨p,there,isOpen⟩ := Option.map_eq_some_iff.mp registered
  simp only [Prod.mk.injEq] at same
  have happens : Throughout Does invoked
      [(.finish first { status := .completed },
        (RouterM.finish first { status := .completed } invoked).2)] :=
    ⟨.finish _ found (by simpa using same.2), trivial⟩
  have told := (registry_integrity happens).2.1 [] first { status := .completed } _ []
    ⟨parent, "kid", idText 1⟩ p rfl ⟨⟨s, found, same.1⟩, rfl, by decide +kernel, there, isOpen⟩
  have entered : (invoked.childOf parent "kid").isSome = true := by
    rw [entry]
    rfl
  rw [after, if_pos entered] at told
  exact ⟨p, there, told.1⟩

/-- The state has been left and entered again; the first session is doomed and has not ended. -/
def reentered : Router := ((do tell parent "again"; RouterM.settle 7) invoked).2

def lost : Router := (RouterM.finish first { status := .destroyed } reentered).2

def finished : Router := ((do RouterM.settle 100; tell second "finish"; RouterM.settle 100) reentered).2

/-- The end of the first session takes the entry of the second, whose own end is not reported: the
    parent waits on with an open and empty mailbox. -/
theorem late_end_takes_entry :
    (∃ history, Throughout Does invoked history ∧ ¬ Throughout Rightful invoked history) ∧
    reentered.childOf parent "kid" = some second ∧
    (RouterM.turn (.session first) reentered).2.childOf parent "kid" = none ∧
    (finished.session? second).map (fun s => s.outcome.map (·.status)) = some (some .completed) ∧
    (finished.session? parent).map (fun s => (s.status, s.isOpen, s.mailbox.length)) =
      some (.waiting, true, 0) := by
  refine ⟨?_, by decide +kernel, by decide +kernel, by decide +kernel, by decide +kernel⟩
  have led : RouterM.Made (fun _ => True) (do tell parent "again"; RouterM.settle 7) :=
    .bind (RouterM.deliver_rests _ _).made fun _ => RouterM.settle_made 7
  obtain ⟨history,happens,_,ends⟩ := led invoked
  change after invoked history = reentered at ends
  obtain ⟨s,found,going⟩ : ∃ s, reentered.session? first = some s ∧ s.outcome.isSome = false :=
    Option.map_eq_some_iff.mp (by decide +kernel)
  have ending : Does reentered (.finish first { status := .destroyed }) lost :=
    .finish _ found (by simpa using going)
  refine ⟨history ++ [(.finish first { status := .destroyed }, lost)],
    throughout_append.mpr ⟨happens, ?_⟩, ?_⟩
  · rw [ends]
    exact ⟨ending, trivial⟩
  · intro rightful
    have wrong := (throughout_append.mp rightful).2.1
    rw [ends] at wrong
    rcases wrong parent "kid" second (by decide +kernel) (by decide +kernel) with
      cancelled | ended | given
    · cases cancelled
    · obtain ⟨_,t,there,concluded⟩ := ended
      have open_still : (lost.session? second).map (·.outcome.isSome) = some false := by
        decide +kernel
      rw [there] at open_still
      cases concluded.symm.trans (Option.some.inj open_still)
    · cases given

end Reentry

end Statechart

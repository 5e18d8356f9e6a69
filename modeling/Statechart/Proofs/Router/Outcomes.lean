import Statechart.Proofs.Router.Calls
import Mathlib.Data.List.Nodup

/- One outcome for each session.

   Three things tell that a session has ended: it has an outcome, it shows a status that is
   terminal, and it is routed to no more. They come together, and they stay. Other statuses are
   set by the start of a session and in its own turns, in which it has begun and has no outcome. -/
namespace Statechart

namespace Session

/-- What a session shows of itself. -/
structure Standing where
  id : SessionId
  status : SessionStatus
  outcome : Option Outcome
  phase : Phase
  isRegistered : Bool

def standing (s : Session) : Standing := ⟨s.id, s.status, s.outcome, s.phase, s.isRegistered⟩

/-- Whether a session has ended is told alike by all that tells it. -/
structure Standing.Agrees (t : Standing) : Prop where
  terminal : t.status.isTerminal = t.outcome.isSome
  registered : t.isRegistered = t.outcome.isNone
  told : ∀ o, t.outcome = some o → t.status = o.status ∧ t.phase = .ended

end Session

namespace Router

open RouterM
open Session (Standing)

variable {r r' r'' : Router} {live : Option SessionId} {id : SessionId} {s : Session}

def standings (r : Router) : List Standing := r.sessions.map Session.standing

/-- Every session agrees with itself, and the counts are those of the sessions. Ids have been given
    out, each of them once. -/
structure Agreed (r : Router) : Prop where
  each : ∀ t ∈ r.standings, t.Agrees
  distinct : (r.standings.map (·.id)).Nodup
  numbered : ∀ t ∈ r.standings, ∃ n < r.memory.supply, t.id = idText n
  created : r.stats.created = r.standings.length
  finished : r.stats.finished = r.standings.countP (·.outcome.isSome)

/-- The session has begun and has no outcome. -/
def UnderWay (r : Router) (id : SessionId) : Prop :=
  ∃ t ∈ r.standings, t.id = id ∧ t.outcome = none ∧ t.phase ≠ .fresh

/-- Outcomes stay as they are. -/
def Onward (r r' : Router) : Prop := ∀ t ∈ r.standings, ∀ o, t.outcome = some o →
  ∃ t' ∈ r'.standings, t'.id = t.id ∧ t'.outcome = some o

/-- As long as a session is under way, if one is named, everything goes on in agreement. -/
def Upholds (live : Option SessionId) (r r' : Router) : Prop :=
  r.Agreed → (∀ x ∈ live, r.UnderWay x) →
    r'.Agreed ∧ (∀ x ∈ live, r'.UnderWay x) ∧ r.Onward r'

theorem Onward.refl (r : Router) : r.Onward r := fun t within _ concluded =>
  ⟨t, within, rfl, concluded⟩

theorem Onward.trans (first : r.Onward r') (second : r'.Onward r'') : r.Onward r'' := by
  intro t within o concluded
  obtain ⟨t',within',id,concluded⟩ := first t within o concluded
  obtain ⟨t'',within'',id',concluded⟩ := second t' within' o concluded
  exact ⟨t'', within'', id'.trans id, concluded⟩

theorem Upholds.refl (r : Router) : r.Upholds live r := fun agreed under =>
  ⟨agreed, under, .refl r⟩

theorem Upholds.trans (first : r.Upholds live r') (second : r'.Upholds live r'') :
    r.Upholds live r'' := by
  intro agreed under
  obtain ⟨agreed',under',onward⟩ := first agreed under
  obtain ⟨agreed'',under'',onward'⟩ := second agreed' under'
  exact ⟨agreed'', under'', onward.trans onward'⟩

theorem Upholds.release (upholds : r.Upholds (some id) r') (under : r.UnderWay id) :
    r.Upholds none r' := by
  intro agreed _
  obtain ⟨agreed',-,onward⟩ := upholds agreed fun x own => by
    cases own
    exact under
  exact ⟨agreed', nofun, onward⟩

/-- Nothing that a session shows has changed. -/
def Unshown (r r' : Router) : Prop :=
  r'.standings = r.standings ∧ r'.counts = r.counts ∧ r'.memory.supply = r.memory.supply

theorem Unshown.of_sessions (sessions : r'.sessions = r.sessions) (counts : r'.counts = r.counts)
    (memory : r'.memory.supply = r.memory.supply) : r.Unshown r' :=
  ⟨congrArg (·.map Session.standing) sessions, counts, memory⟩

/-- Nothing that a session shows has changed, and ids may have been given out. -/
theorem Upholds.of_same (same : r'.standings = r.standings) (counts : r'.counts = r.counts)
    (supply : r.memory.supply ≤ r'.memory.supply) : r.Upholds live r' := by
  simp only [Router.counts, Prod.mk.injEq] at counts
  intro agreed under
  refine ⟨⟨?_, ?_, ?_, ?_, ?_⟩, ?_, ?_⟩
  · rw [same]
    exact agreed.each
  · rw [same]
    exact agreed.distinct
  · rw [same]
    intro t within
    obtain ⟨n,given,named⟩ := agreed.numbered t within
    exact ⟨n, Nat.lt_of_lt_of_le given supply, named⟩
  · rw [same, counts.1]
    exact agreed.created
  · rw [same, counts.2]
    exact agreed.finished
  · unfold UnderWay
    rw [same]
    exact under
  · unfold Onward
    rw [same]
    exact Onward.refl r

theorem session?_standing (found : r.session? id = some s) : s.standing ∈ r.standings :=
  List.mem_map_of_mem (List.mem_of_find?_eq_some found)

theorem Agreed.nodup (agreed : r.Agreed) : (r.sessions.map (·.id)).Nodup := by
  have distinct := agreed.distinct
  rw [standings, List.map_map] at distinct
  exact distinct

/-- Sessions in different places have different ids. -/
theorem Agreed.id_ne (agreed : r.Agreed) {i j : Nat} {s' : Session} (other : i ≠ j)
    (here : r.sessions[i]? = some s) (there : r.sessions[j]? = some s') : s.id ≠ s'.id := by
  intro same
  have inside : i < (r.sessions.map (·.id)).length := by
    rw [List.length_map]
    exact (List.getElem?_eq_some_iff.mp here).1
  refine other ((List.getElem?_inj inside agreed.nodup).mp ?_)
  rw [List.getElem?_map, List.getElem?_map, here, there, Option.map_some, Option.map_some, same]

/-- Sessions are found by their ids. -/
theorem Agreed.session? (agreed : r.Agreed) (within : s ∈ r.sessions) :
    r.session? s.id = some s := by
  cases found : r.session? s.id with
  | none =>
    have missing := List.find?_eq_none.mp found s within
    simp at missing
  | some s' =>
    have within' := List.mem_of_find?_eq_some found
    rw [List.inj_on_of_nodup_map agreed.nodup within' within (session?_id found)]

theorem Agreed.underWay (agreed : r.Agreed) (under : r.UnderWay id) :
    ∃ s, r.session? id = some s ∧ s.outcome = none ∧ s.phase ≠ .fresh := by
  obtain ⟨t,within,rfl,going,begun⟩ := under
  obtain ⟨s,held,rfl⟩ := List.mem_map.mp within
  exact ⟨s, agreed.session? held, going, begun⟩

theorem Agreed.going (agreed : r.Agreed) (found : r.session? id = some s)
    (phase : s.phase ≠ .ended) : s.outcome = none := by
  cases concluded : s.outcome with
  | none => rfl
  | some o =>
    exact absurd ((agreed.each _ (session?_standing found)).told o concluded).2 phase

theorem Agreed.split (agreed : r.Agreed) (found : r.session? id = some s) :
    ∃ before later, r.sessions = before ++ s :: later ∧
      ∀ f : Session → Session, (r.alter id f).sessions = before ++ f s :: later := by
  have named := session?_id found
  obtain ⟨before,later,sessions⟩ := List.append_of_mem (List.mem_of_find?_eq_some found)
  have distinct := agreed.nodup
  rw [sessions, List.map_append, List.map_cons, List.nodup_append, List.nodup_cons] at distinct
  obtain ⟨_,⟨notLater,_⟩,apart⟩ := distinct
  have spared (f : Session → Session) {others : List Session}
      (elsewhere : ∀ x ∈ others, x.id ≠ id) :
      others.map (fun x => if x.id == id then f x else x) = others := by
    have same : others.map (fun x => if x.id == id then f x else x) = others.map fun x => x :=
      List.map_congr_left fun x within => by simp [elsewhere x within]
    rw [same, List.map_id']
  refine ⟨before, later, sessions, fun f => ?_⟩
  simp only [alter, sessions, List.map_append, List.map_cons, named, beq_self_eq_true, if_true]
  rw [spared f fun x within same => ?_, spared f fun x within same => ?_]
  · refine notLater (List.mem_map.mpr ⟨x, within, ?_⟩)
    rw [same, named]
  · refine apart _ (List.mem_map_of_mem within) _ List.mem_cons_self ?_
    rw [same, named]

theorem Agreed.underWay_of_found (agreed : r.Agreed) (found : r.session? id = some s)
    (begun : s.phase ≠ .fresh) (going : s.phase ≠ .ended) : r.UnderWay id :=
  ⟨_, session?_standing found, session?_id found, agreed.going found going, begun⟩

section Changing

variable {f : Session → Session}

theorem Upholds.of_change (found : r.session? id = some s)
    (becomes : r'.standings = (r.alter id f).standings) (named : (f s).id = s.id)
    (agrees : s.standing.Agrees → (f s).standing.Agrees)
    (kept : ∀ o, s.outcome = some o → (f s).outcome = some o)
    (begun : id ∈ live → s.outcome = none → s.phase ≠ .fresh →
      (f s).outcome = none ∧ (f s).phase ≠ .fresh)
    (created : r'.stats.created = r.stats.created)
    (finished : r'.stats.finished + s.outcome.isSome.toNat =
      r.stats.finished + (f s).outcome.isSome.toNat)
    (supply : r.memory.supply ≤ r'.memory.supply) : r.Upholds live r' := by
  intro agreed under
  obtain ⟨before,later,sessions,altered⟩ := agreed.split found
  have was : r.standings =
      before.map Session.standing ++ s.standing :: later.map Session.standing := by
    simp [standings, sessions]
  have now : r'.standings =
      before.map Session.standing ++ (f s).standing :: later.map Session.standing := by
    rw [becomes]
    simp [standings, altered]
  have ids : r'.standings.map (·.id) = r.standings.map (·.id) := by
    simp [was, now, show (f s).standing.id = s.standing.id from named]
  have goes : ∀ t ∈ r.standings, ∃ t' ∈ r'.standings, t = t' ∨
      t = s.standing ∧ t' = (f s).standing := by
    intro t within
    rw [was, List.mem_append, List.mem_cons] at within
    simp only [now, List.mem_append, List.mem_cons]
    rcases within with within | rfl | within
    · exact ⟨t, Or.inl within, Or.inl rfl⟩
    · exact ⟨_, Or.inr (Or.inl rfl), Or.inr ⟨rfl, rfl⟩⟩
    · exact ⟨t, Or.inr (Or.inr within), Or.inl rfl⟩
  refine ⟨⟨fun t within => ?_, ?_, fun t within => ?_, ?_, ?_⟩, fun x own => ?_, ?_⟩
  · have each := agreed.each
    rw [was] at each
    rw [now, List.mem_append, List.mem_cons] at within
    rcases within with within | rfl | within
    · exact each t (List.mem_append_left _ within)
    · exact agrees (each _ (List.mem_append_right _ List.mem_cons_self))
    · exact each t (List.mem_append_right _ (List.mem_cons_of_mem _ within))
  · rw [ids]
    exact agreed.distinct
  · have within' := List.mem_map_of_mem (f := (·.id)) within
    rw [ids] at within'
    obtain ⟨t',within',same⟩ := List.mem_map.mp within'
    obtain ⟨n,given,text⟩ := agreed.numbered t' within'
    exact ⟨n, Nat.lt_of_lt_of_le given supply, same ▸ text⟩
  · have lengths := congrArg List.length ids
    simp only [List.length_map] at lengths
    rw [created, lengths]
    exact agreed.created
  · have counted := agreed.finished
    rw [was, List.countP_append, List.countP_cons] at counted
    rw [now, List.countP_append, List.countP_cons]
    have one : ∀ b : Bool, (if b = true then 1 else 0) = b.toNat := by decide
    rw [one, show s.standing.outcome = s.outcome from rfl] at counted
    rw [one, show (f s).standing.outcome = (f s).outcome from rfl]
    omega
  · obtain ⟨t,within,rfl,going,started⟩ := under x own
    obtain ⟨t',within',same⟩ := goes t within
    rcases same with rfl | ⟨rfl,rfl⟩
    · exact ⟨t, within', rfl, going, started⟩
    · have mine : id ∈ live := by
        rw [← session?_id found]
        exact own
      obtain ⟨going',started'⟩ := begun mine going started
      exact ⟨_, within', named, going', started'⟩
  · intro t within o concluded
    obtain ⟨t',within',same⟩ := goes t within
    rcases same with rfl | ⟨rfl,rfl⟩
    · exact ⟨t, within', rfl, concluded⟩
    · exact ⟨_, within', named, kept o concluded⟩

/-- A session without an outcome may change, as long as it goes on. -/
theorem Upholds.of_going (found : r.session? id = some s) (going : s.outcome = none)
    (named : (f s).id = s.id) (still : (f s).outcome = none)
    (mortal : (f s).status.isTerminal = false) (registered : (f s).isRegistered = s.isRegistered)
    (begun : s.phase ≠ .fresh → (f s).phase ≠ .fresh) : r.Upholds live (r.alter id f) := by
  refine .of_change found rfl named (fun agrees => ?_) ?_ ?_ rfl ?_ (Nat.le_refl _)
  · have was := agrees.registered
    simp only [Session.standing, going] at was
    constructor
    · simp [Session.standing, still, mortal]
    · simp [Session.standing, still, registered, was]
    · simp [Session.standing, still]
  · intro o concluded
    rw [going] at concluded
    cases concluded
  · exact fun _ _ started => ⟨still, begun started⟩
  · rw [going, still]
    rfl

end Changing

instance : Lasting (Upholds live) := ⟨.refl, .trans⟩

theorem Unshown.upholds (unshown : r.Unshown r') : r.Upholds live r' :=
  .of_same unshown.1 unshown.2.1 (Nat.le_of_eq unshown.2.2.symm)

section Unshown

theorem standings_alter {f : Session → Session} {g : Standing → Standing}
    (same : ∀ s : Session, s.id = id → (f s).standing = g s.standing) :
    (r.alter id f).standings = r.standings.map fun t => if t.id = id then g t else t := by
  simp only [standings, alter, List.map_map]
  refine List.map_congr_left fun s _ => ?_
  have named : s.standing.id = s.id := rfl
  by_cases here : s.id = id
  · simp [Function.comp, named, here, same s here]
  · simp [Function.comp, named, here]

theorem Unshown.alter {f : Session → Session} (same : ∀ s, (f s).standing = s.standing) :
    r.Unshown (r.alter id f) := by
  refine ⟨?_, rfl, rfl⟩
  rw [standings_alter (g := fun t => t) fun s _ => same s]
  simp

instance : Aloof Unshown where
  refl _ := ⟨rfl, rfl, rfl⟩
  trans first second :=
    ⟨second.1.trans first.1, second.2.1.trans first.2.1, second.2.2.trans first.2.2⟩
  aside _ sessions _ memory backdrop :=
    .of_sessions sessions (congrArg Prod.fst backdrop) (congrArg Memory.supply memory)
  litter _ := .of_sessions rfl rfl rfl

instance : Watchful Unshown where
  mark same := .alter fun s => congrArg (fun trunk : SessionStatus × Session.Stem =>
    (⟨trunk.2.id, trunk.1, trunk.2.outcome, trunk.2.phase, trunk.2.isRegistered⟩ : Standing)) (same s)
  post {r s e} found := by
    refine posting_of_counted (fun _ _ => ?_) (fun _ _ => .alter fun _ => rfl) r s found
    exact .of_sessions rfl rfl rfl
  doom := .alter fun _ => rfl

instance : Watchful (Upholds live) where
  aside registry sessions depths memory backdrop :=
    Unshown.upholds (Aside.aside registry sessions depths memory backdrop)
  litter t := Unshown.upholds (Aloof.litter t)
  mark same := Unshown.upholds (Watchful.mark same)
  post found := Unshown.upholds (Watchful.post found)
  doom := Unshown.upholds Marking.doom

end Unshown

end Router

namespace RouterM

open Router
open Session (Standing)

variable {r : Router} {live : Option SessionId} {id : SessionId} {s taken : Session}

section Ending

theorem setStatus_unshown (id : SessionId) (status : SessionStatus) (r : Router) :
    (r.alter id fun s => { s with status }).Unshown (setStatus id status r).2 :=
  Leads.bind .get (fun _ => .forM fun s _ => wake_leads (.session s.id)) _

/-- What a session shows once it has ended. -/
def concluded (o : Outcome) (s : Session) : Session := { closed o s with status := o.status }

/-- When a session ends, nothing else shows that it does. -/
theorem finish_standings (found : r.session? id = some s) (going : s.outcome = none) (o : Outcome) :
    (finish id o r).2.standings = (r.alter id (concluded o)).standings ∧
    (finish id o r).2.counts = (r.stats.created, r.stats.finished + 1) ∧
    (finish id o r).2.memory.supply = r.memory.supply := by
  have told : ∃ q, finish id o r = setStatus id o.status q ∧ (closing id o r).Unshown q := by
    rw [finish_eq found going]
    cases s.parent with
    | none => exact ⟨_, rfl, Lasting.refl _⟩
    | some link =>
      exact ⟨_, rfl, reportDone_leads (fun _ _ _ => .of_sessions rfl rfl rfl) link o.status
        o.result (post_native _) _⟩
  obtain ⟨q,run,told⟩ := told
  have shown := setStatus_unshown id o.status q
  rw [← run] at shown
  refine ⟨?_, shown.2.1.trans told.2.1, shown.2.2.trans told.2.2⟩
  have marked (q : Router) : (q.alter id fun s => { s with status := o.status }).standings =
      q.standings.map fun t => if t.id = id then { t with status := o.status } else t :=
    standings_alter (g := fun t => { t with status := o.status }) fun _ _ => rfl
  rw [shown.1, marked, told.1, ← marked]
  refine congrArg (List.map Session.standing) ?_
  simp only [alter, closing, List.map_map]
  refine List.map_congr_left fun s _ => ?_
  by_cases here : s.id = id
  · simp [here, concluded, closed]
  · simp [here]

/-- A session that is not the one under way may end. -/
theorem finish_upholds {o : Outcome} (terminal : o.status.isTerminal = true)
    (spared : id ∉ live) : r.Upholds live (finish id o r).2 := by
  by_cases ends : ∃ s, r.session? id = some s ∧ s.outcome = none
  · obtain ⟨s,found,going⟩ := ends
    obtain ⟨becomes,counts,supply⟩ := finish_standings found going o
    simp only [Router.counts, Prod.mk.injEq] at counts
    refine .of_change found becomes rfl (fun _ => ?_) (fun o' concluded => ?_) ?_ counts.1 ?_
      (Nat.le_of_eq supply.symm)
    · constructor
      · exact terminal
      · rfl
      · rintro o' ⟨⟩
        exact ⟨rfl, rfl⟩
    · rw [going] at concluded
      cases concluded
    · exact fun mine => absurd mine spared
    · rw [counts.2, going]
      rfl
  · rw [finish_idle ends]
    exact .refl r

/-- What is destroyed ends at once only if it has not begun. -/
theorem destroy_upholds (id : SessionId) : Leads (Upholds live) (destroy id) := by
  intro r
  have shut : r.Upholds live (close id (doom id r).2).2 :=
    Lasting.trans (doom_native id r) (close_native id _)
  refine shut.trans ?_
  cases found : (close id (doom id r).2).2.session? id with
  | none =>
    rw [destroy_run, found]
    exact .refl _
  | some s =>
    rw [destroy_found found]
    cases phase : s.phase with
    | fresh =>
      by_cases mine : id ∈ live
      · intro agreed under
        obtain ⟨s',found',_,begun⟩ := agreed.underWay (under id mine)
        cases found.symm.trans found'
        exact absurd phase begun
      · exact finish_upholds rfl mine
    | _ => exact .refl _

theorem cancelInvoke_upholds (parent : SessionId) (invoke : InvokeId) :
    Leads (Upholds live) (cancelInvoke parent invoke) :=
  cancelInvoke_leads (fun _ _ _ => Unshown.upholds (.of_sessions rfl rfl rfl)) destroy_upholds
    parent invoke

end Ending

section Beginning

theorem createSession_upholds (chart : Chart) (parent : Option ParentLink)
    (arguments : Option Ref) : Leads (Upholds live) (createSession chart parent arguments) := by
  intro r agreed under
  let t : Standing := ⟨idText r.memory.supply, .created, none, .fresh, true⟩
  have now : (createSession chart parent arguments r).2.standings = r.standings ++ [t] :=
    List.map_append
  have held {x : Standing} (within : x ∈ r.standings) :
      x ∈ (createSession chart parent arguments r).2.standings := by
    rw [now]
    exact List.mem_append_left _ within
  refine ⟨⟨?_, ?_, ?_, ?_, ?_⟩, fun x own => ?_, fun x within o concluded => ?_⟩
  · rw [now]
    intro x within
    rcases List.mem_append.mp within with old | new
    · exact agreed.each x old
    · cases List.mem_singleton.mp new
      exact ⟨rfl, rfl, nofun⟩
  · rw [now, List.map_append]
    refine List.nodup_append.mpr ⟨agreed.distinct, List.nodup_singleton _, ?_⟩
    rintro _ old _ new rfl
    obtain ⟨x,within,same⟩ := List.mem_map.mp old
    obtain ⟨n,given,named⟩ := agreed.numbered x within
    have text : t.id = idText n := (List.mem_singleton.mp new).symm.trans (same.symm.trans named)
    exact Nat.ne_of_gt given (idText_injective text)
  · rw [now]
    intro x within
    rcases List.mem_append.mp within with old | new
    · obtain ⟨n,given,named⟩ := agreed.numbered x old
      exact ⟨n, Nat.lt_succ_of_lt given, named⟩
    · cases List.mem_singleton.mp new
      exact ⟨r.memory.supply, Nat.lt_succ_self _, rfl⟩
  · rw [now, List.length_append]
    exact congrArg (· + 1) agreed.created
  · rw [now, List.countP_append]
    exact agreed.finished
  · obtain ⟨x,within,rest⟩ := under x own
    exact ⟨x, held within, rest⟩
  · exact ⟨x, held within, rfl, concluded⟩

theorem setStatus_upholds {status : SessionStatus} (found : r.session? id = some s)
    (going : s.outcome = none) (mortal : status.isTerminal = false) :
    r.Upholds live (setStatus id status r).2 :=
  Upholds.trans (.of_going (f := fun s => { s with status }) found going rfl going mortal rfl
    fun begun => begun) (setStatus_unshown id status r).upholds

theorem startSession_upholds (id : SessionId) : Leads (Upholds live) (startSession id).run := by
  refine startSession_leads fun r s m found alive phase made => ?_
  have supply : m.memory.supply = r.memory.supply := by
    rw [made]
    rfl
  let p : Router := { r with memory := m.memory }
  intro agreed under
  have going : s.outcome = none := agreed.going found (by rw [phase]; nofun)
  let q : Router := p.alter id fun s => { s with phase := .active m.start }
  have noted : r.Upholds live p := Unshown.upholds (.of_sessions rfl rfl supply)
  have begun : p.Upholds live q := .of_going found going rfl going alive rfl fun _ => nofun
  have found' : q.session? id = some { s with phase := .active m.start } := by
    refine (session?_alter (f := fun s => { s with phase := .active m.start }) p
      (fun _ here => here) id).trans ?_
    rw [if_pos rfl, show p.session? id = some s from found]
    rfl
  have shown : q.Upholds live (setStatus id .starting q).2 := setStatus_upholds found' going rfl
  exact (noted.trans (begun.trans shown)) agreed under

theorem beginInvoke_upholds (parent : SessionId) (data : InvokeData) :
    Leads (Upholds live) (beginInvoke parent data).run := by
  refine beginInvoke_native (fun r chart => ?_) startSession_upholds
  have copied (h : Heap) : r.Upholds live { r with memory := { r.memory with heap := h } } :=
    Unshown.upholds (.of_sessions rfl rfl rfl)
  exact Upholds.trans (copied _) (Upholds.trans (createSession_upholds chart _ _ _)
    (Unshown.upholds (.of_sessions rfl rfl rfl)))

end Beginning

section Turns

theorem mark_upholds {status : SessionStatus} (mortal : status.isTerminal = false) :
    Leads (Upholds (some id)) (updateSession id fun s => { s with status }) := by
  intro r agreed under
  obtain ⟨s,found,going,_⟩ := agreed.underWay (under id rfl)
  have goes : r.Upholds (some id) (r.alter id fun s => { s with status }) :=
    .of_going found going rfl going mortal rfl fun begun => begun
  exact goes agreed under

theorem passOn_upholds (chart : Chart) (report : Report) :
    Leads (Upholds (some id)) (passOn id chart report) :=
  passOn_leads id chart report (fun _ mortal => mark_upholds mortal)
    fun _ => mark_watchful fun _ => rfl

/-- The session under way goes on with a machine, or is put to sleep. -/
theorem phase_upholds {f : Session → Session} {phase : Phase} (going : phase ≠ .fresh)
    (same : ∀ s, (f s).standing = { s.standing with phase }) :
    Leads (Upholds (some id)) (updateSession id f) := by
  intro r agreed under
  obtain ⟨s,found,open_,_⟩ := agreed.underWay (under id rfl)
  have told := agreed.each _ (session?_standing found)
  have standing := same s
  simp only [Session.standing, Standing.mk.injEq] at standing
  obtain ⟨named,status,outcome,phase,registered⟩ := standing
  have goes : r.Upholds (some id) (r.alter id f) := by
    refine .of_going found open_ named (outcome.trans open_) ?_ registered fun _ => phase ▸ going
    rw [status]
    exact told.terminal.trans (by simp [Session.standing, open_])
  exact goes agreed under

theorem keep_upholds {m : Machine} (spends : r.memory.supply ≤ m.memory.supply) :
    r.Upholds (some id) (keep id m r).2 := by
  have noted : r.Upholds (some id) { r with memory := m.memory } := .of_same rfl rfl spends
  have kept : Leads (Upholds (some id)) (do
      updateSession id fun s => { s with phase := .active { m with reports := [] } }
      m.reports.reverse.forM (passOn id m.chart)) :=
    .bind (phase_upholds (by nofun) fun _ => rfl) fun _ => .forM fun report _ => passOn_upholds _ report
  exact noted.trans (kept _)

/-- A session takes an event, and shows no more than that it runs. -/
theorem nextEvent?_standing {e : Event} (next : nextEvent? s = some (e, taken)) :
    taken.standing = { s.standing with status := taken.status } ∧
      (taken.status = s.status ∨ taken.status = .running) := by
  rcases nextEvent?_eq_some next with ⟨_,rfl⟩ | ⟨rest,_,_,rfl⟩
  · exact ⟨rfl, Or.inl rfl⟩
  · refine ⟨rfl, ?_⟩
    by_cases waited : s.status = .waiting
    · exact Or.inr (if_pos waited)
    · exact Or.inl (if_neg waited)

theorem input?_standing {input : Input} (next : input? s = some (input, taken)) :
    taken.standing = { s.standing with status := taken.status } ∧
      (taken.status = s.status ∨ taken.status = .running) := by
  rcases input?_eq_some next with ⟨e,_,found⟩ | ⟨_,rfl⟩
  · exact nextEvent?_standing found
  · exact ⟨rfl, Or.inl rfl⟩

theorem adopt_upholds (found : r.session? s.id = some s)
    (standing : taken.standing = { s.standing with status := taken.status })
    (status : taken.status = s.status ∨ taken.status = .running) :
    r.Upholds (some s.id) (adopt s taken r).2 := by
  refine adopt_leads (fun _ => Unshown.upholds (.of_sessions rfl rfl rfl)) (fun q same => ?_)
    fun changed => ?_
  · intro agreed under
    have found' : q.session? s.id = some s := by
      rw [session?, same]
      exact found
    obtain ⟨s',there,going,_⟩ := agreed.underWay (under s.id rfl)
    cases found'.symm.trans there
    have told := agreed.each _ (session?_standing found')
    have mortal : s.status.isTerminal = false := told.terminal.trans (by simp [Session.standing, going])
    simp only [Session.standing, Standing.mk.injEq] at standing
    obtain ⟨named,_,outcome,phase,registered⟩ := standing
    have goes : q.Upholds (some s.id) (q.alter s.id fun _ => taken) := by
      refine .of_going found' going named (outcome.trans going) ?_ registered fun begun => phase ▸ begun
      rcases status with same | running
      · rw [same, mortal]
      · rw [running]
        rfl
    exact goes agreed under
  · refine setStatus_leads (mark_upholds ?_)
    rw [status.resolve_left changed]
    rfl

theorem performAll_upholds (s : Session) (effects : List Effect) :
    Leads (Upholds (some s.id)) (performAll s effects) :=
  performAll_native cancelInvoke_upholds s effects

theorem answer_upholds {f : Router → Machine}
    (spends : ∀ r, r.memory.supply ≤ (f r).memory.supply) : Leads (Upholds (some id)) (do
      keep id (f (← get))
      return true) := fun r => keep_upholds (spends r)

theorem serveInvoke_upholds (s : Session) {m : Machine} {data : InvokeData}
    {pending : List (StateIndex × Nat)} (asked : m.control = .starts data pending) :
    Leads (Upholds (some s.id)) (serveInvoke s m data) := by
  have answer : ∀ failure, Leads (Upholds (some s.id)) (do
      updateSession s.id fun s => { s with awaited := none }
      keep s.id ({ m with memory := (← get).memory }.startDone failure)
      return true) := by
    intro failure
    refine .bind (mark_watchful fun _ => rfl) fun _ => answer_upholds fun r => ?_
    exact (Machine.Work.startDone { m with memory := r.memory } data pending failure asked).worked.spends
  unfold serveInvoke
  simp only
  split
  · refine .bind (beginInvoke_upholds s.id data) fun result => ?_
    cases result with
    | error e => exact answer _
    | ok child => exact .bind (mark_watchful fun _ => rfl) fun _ => .pure _
  · refine .bind .get fun r => ?_
    split
    · exact .pure _
    · refine .bind (endInvoke_leads (fun _ _ _ => Unshown.upholds (.of_sessions rfl rfl rfl)) _ _ _)
        fun _ => ?_
      split
      · exact answer none
      · exact answer _

theorem leave_upholds (under : r.UnderWay s.id) (m : Machine) (status : ExitStatus) :
    r.Upholds none (leave s m status r).2 := by
  cases status with
  | completed => exact finish_upholds rfl nofun
  | destroyed => exact finish_upholds rfl nofun
  | queueClosed => exact finish_upholds rfl nofun
  | suspended =>
    have lies : Leads (Upholds (some s.id)) (leave s m .suspended) :=
      suspended_leads (fun _ _ => Unshown.upholds (.of_sessions rfl rfl rfl))
        (phase_upholds (by nofun) fun _ => rfl) (setStatus_leads (mark_upholds rfl))
    exact (lies r).release under

theorem goOn_upholds {m : Machine} (found : r.session? s.id = some s) (begun : s.phase ≠ .fresh)
    (going : s.phase ≠ .ended) (memory : m.memory = r.memory) :
    r.Upholds none (goOn s m r).2 := by
  intro agreed nobody
  have under : r.UnderWay s.id := agreed.underWay_of_found found begun going
  have still {q : Router} (upholds : r.Upholds (some s.id) q) :=
    (upholds.release under) agreed nobody
  have turn := goOn_turn s m
  generalize goOn s m = x at turn ⊢
  cases turn with
  | steps running =>
    refine still (keep_upholds ?_)
    rw [← memory]
    exact (Machine.Work.step m running).worked.spends
  | performs next _ control =>
    refine still (Leads.bind (performAll_upholds s m.effects) (fun failures =>
      answer_upholds fun q => ?_) r)
    exact (Machine.Work.effectsDone { m with memory := q.memory } next failures control).worked.spends
  | serves data pending control => exact still (serveInvoke_upholds s control r)
  | takes input taken _ next =>
    obtain ⟨standing,status⟩ := input?_standing next
    have spends : (adopt s taken r).2.memory.supply ≤ (m.take input).memory.supply := by
      rw [adopt_memory, ← memory]
      exact m.spends_take input
    exact still ((adopt_upholds found standing status).trans (keep_upholds spends))
  | leaves status => exact leave_upholds under m status agreed nobody
  | aborts fault =>
    have ends : r.Upholds none (failed s.id fault r).2 := by
      cases fault with
      | _ => exact finish_upholds rfl nofun
    exact ends agreed nobody
  | breaks => exact still (breakDown_native s.id r)
  | rests => exact still (.refl r)

/-- A sleeping session is woken, or ends because it cannot be. -/
theorem rouse_upholds (under : r.UnderWay s.id) (e : Event) : r.Upholds none (rouse s e r).2 := by
  intro agreed nobody
  have resumes : Leads (Upholds (some s.id)) (resume s).run :=
    resume_leads fun _ _ _ supply => .of_same rfl rfl supply
  have first := (resumes r).release under
  obtain ⟨-,under',-⟩ := resumes r agreed fun x own => by
    cases own
    exact under
  have later : ((resume s).run r).2.Upholds none (rouse s e r).2 := by
    unfold rouse
    rw [bind_run]
    cases ((resume s).run r).1 with
    | ok m =>
      have woken : Leads (Upholds (some s.id)) (updateSession s.id fun s =>
          { s with phase := .active m.start, wakeEvent := some e }) :=
        phase_upholds (by nofun) fun _ => rfl
      exact (woken _).release (under' s.id rfl)
    | error error => exact finish_upholds rfl nofun
  exact (first.trans later) agreed nobody

theorem awake_upholds (found : r.session? s.id = some s) (begun : s.phase ≠ .fresh)
    (going : s.phase ≠ .ended) : r.Upholds none (awake s r).2 := by
  have waking := awake_waking s
  generalize awake s = x at waking ⊢
  cases waking with
  | ends status final =>
    rcases final with rfl | rfl
    · exact finish_upholds rfl nofun
    · exact finish_upholds rfl nofun
  | wakes e taken _ next =>
    obtain ⟨standing,status⟩ := nextEvent?_standing next
    intro agreed nobody
    have under := agreed.underWay_of_found found begun going
    have adopts := adopt_upholds found standing status
    obtain ⟨-,under',-⟩ := adopts agreed fun x own => by
      cases own
      exact under
    exact ((adopts.release under).trans (rouse_upholds (under' s.id rfl) e)) agreed nobody
  | rests => exact .refl r

/-- No turn of a task breaks the agreement. -/
theorem turn_upholds (task : Task) : Leads (Upholds none) (turn task) := by
  cases task with
  | timer id index => exact .bind (fire_native id index) fun _ => .pure _
  | aftermath id => exact .bind (fun _ => finish_upholds rfl nofun) fun _ => .pure _
  | session id =>
    intro r
    have turned := turn_turned id r
    generalize (turn (.session id) r).2 = q at turned ⊢
    cases turned with
    | goes s m _ found phase =>
      exact goOn_upholds found (by rw [phase]; nofun) (by rw [phase]; nofun) rfl
    | wakes s _ found phase => exact awake_upholds found (by rw [phase]; nofun) (by rw [phase]; nofun)
    | rests => exact .refl r

end Turns

end RouterM

namespace Router

open RouterM

variable {r : Router}

/-- No call breaks the agreement. -/
theorem Call.upholds (call : Call) : Leads (Upholds none) call.run := by
  by_cases turns : call.TakesTurns
  · exact call.leads_turning turns turn_upholds
  · exact call.leads turns (fun _ _ _ _ => Unshown.upholds (.of_sessions rfl rfl rfl))
      (fun _ _ _ => Unshown.upholds (.of_sessions rfl rfl rfl)) (fun _ _ _ _ => createSession_upholds _ _ _) startSession_upholds
      (fun _ _ _ => beginInvoke_upholds _ _)
      (fun _ _ _ _ =>
        endInvoke_leads (fun _ _ _ => Unshown.upholds (.of_sessions rfl rfl rfl)) _ _ _)
      cancelInvoke_upholds destroy_upholds

theorem calls_upholds (calls : List Call) : Leads (Upholds none) (calls.forM Call.run) :=
  .forM fun call _ => call.upholds

/-- A new router has no sessions that could disagree. -/
theorem agreed_created (settings : Settings) (storage : Storage) :
    Agreed { settings, storage } where
  each _ within := by cases within
  distinct := List.nodup_nil
  numbered _ within := by cases within
  created := rfl
  finished := rfl

theorem Agreed.liveCount (agreed : r.Agreed) :
    r.liveCount + r.stats.finished = r.stats.created := by
  have parts := List.length_eq_countP_add_countP (fun t => t.isRegistered) (l := r.standings)
  have ended : r.standings.countP (fun t => ¬ t.isRegistered = true) = r.stats.finished := by
    rw [agreed.finished]
    refine List.countP_congr fun t within => ?_
    rw [(agreed.each t within).registered]
    cases t.outcome <;> simp
  have registered : r.standings.countP (fun t => t.isRegistered) = r.liveCount := by
    rw [standings, List.countP_map, List.countP_eq_length_filter]
    rfl
  rw [agreed.created, parts, ended, registered]

/-- Every session has one outcome. Whatever is done with a router, and in whatever order its tasks
    take turns, these go together for each of its sessions: it has an outcome, its status is
    terminal, the router routes to it no more. The status is that of the outcome, and both stay as
    they are, whatever is done later. So the sessions that are routed to are those that were created
    and have not finished. -/
theorem one_outcome (settings : Settings) (storage : Storage) (calls later : List Call) :
    let r := (calls.forM Call.run { settings, storage }).2
    let r' := (later.forM Call.run r).2
    (∀ s ∈ r.sessions, r.session? s.id = some s ∧
      (s.outcome.isSome = true ↔ s.status.isTerminal = true) ∧
      (s.outcome.isSome = true ↔ r.registered? s.id = none) ∧
      (∀ o, s.outcome = some o → s.status = o.status) ∧
      (s.status.isTerminal = true → ∃ s', r'.session? s.id = some s' ∧
        s'.outcome = s.outcome ∧ s'.status = s.status)) ∧
    r.liveCount + r.stats.finished = r.stats.created := by
  intro r r'
  obtain ⟨agreed,-,-⟩ := calls_upholds calls _ (agreed_created settings storage) nofun
  obtain ⟨agreed',-,onward⟩ := calls_upholds later r agreed nofun
  refine ⟨fun s within => ?_, agreed.liveCount⟩
  have found := agreed.session? within
  have told := agreed.each _ (session?_standing found)
  have terminal : s.status.isTerminal = s.outcome.isSome := told.terminal
  have registered : s.isRegistered = s.outcome.isNone := told.registered
  refine ⟨found, by rw [terminal], ?_, fun o concluded => (told.told o concluded).1, fun ended => ?_⟩
  · rw [registered?, found]
    cases outcome : s.outcome with
    | none => simp [registered, outcome]
    | some o => simp [registered, outcome]
  · -- What has been shown of a session is still among what is shown later.
    rw [terminal] at ended
    obtain ⟨o,concluded⟩ := Option.isSome_iff_exists.mp ended
    obtain ⟨t',within',named,concluded'⟩ := onward _ (session?_standing found) o concluded
    obtain ⟨s',held,rfl⟩ := List.mem_map.mp within'
    have named : s'.id = s.id := named
    refine ⟨s', named ▸ agreed'.session? held, Eq.trans concluded' concluded.symm, ?_⟩
    have same := ((agreed'.each _ within').told o concluded').1
    exact Eq.trans same (told.told o concluded).1.symm

end Router

end Statechart

import Statechart.Proofs.Router.Fifo
import Statechart.Proofs.Router.Outcomes
import Statechart.Proofs.Snapshot.Storage

/- The snapshots of sessions that sleep.

   A snapshot is stored as its session falls asleep, and removed as it wakes up. Nothing else is
   done to snapshots: a session that ends in its sleep leaves its own behind. -/
namespace Statechart

/-- The id of a session names a file without a change. -/
theorem isFileChar_idText {n : Nat} {c : Char} (inside : c ∈ (idText n).toList) :
    Storage.isFileChar c := by
  have parts : (idText n).toList = "00000000000040008000".toList ++ (Text.hexPadded 12 n).toList :=
    String.toList_append
  have plain : "00000000000040008000".toList.all Storage.isFileChar = true := by decide +kernel
  have plain' : ∀ d < 16, Storage.isFileChar (Nat.digitChar d) := by decide
  rw [parts] at inside
  rcases List.mem_append.mp inside with head | digit
  · exact List.all_eq_true.mp plain c head
  · obtain ⟨d,small,rfl⟩ := Text.mem_hexPadded digit
    exact plain' d small

theorem fileName_idText {m n : Nat} (other : idText m ≠ idText n) :
    Storage.fileName (idText m) ≠ Storage.fileName (idText n) := fun same =>
  other (Storage.eq_of_fileName (fun _ => isFileChar_idText) (fun _ => isFileChar_idText) same)

namespace Router

open RouterM

variable {r r' r'' : Router} {id : SessionId} {s : Session}

def Asleep (r : Router) (id : SessionId) : Prop := ∃ s, r.session? id = some s ∧ s.phase = .asleep

/-- The session, if there is one, neither sleeps nor has ended. -/
def Awake (r : Router) (id : SessionId) : Prop :=
  ∀ s, r.session? id = some s → s.phase ≠ .asleep ∧ s.phase ≠ .ended

/-- Nobody falls asleep or wakes up, and snapshots are left alone. -/
structure Calm (r r' : Router) : Prop where
  storage : r'.storage = r.storage
  asleep : ∀ id, r'.Asleep id ↔ r.Asleep id
  past : ∀ id, r.Over id → r'.Over id

theorem Calm.refl (r : Router) : r.Calm r := ⟨rfl, fun _ => .rfl, fun _ past => past⟩

theorem Calm.trans (first : r.Calm r') (second : r'.Calm r'') : r.Calm r'' where
  storage := second.storage.trans first.storage
  asleep id := (second.asleep id).trans (first.asleep id)
  past id := second.past id ∘ first.past id

theorem Calm.of_same (sessions : r'.sessions = r.sessions) (storage : r'.storage = r.storage) :
    r.Calm r' := by
  have same : ∀ id, r'.session? id = r.session? id := fun id => by rw [session?, sessions, session?]
  refine ⟨storage, fun id => ?_, fun id past => ?_⟩
  · rw [Asleep, same, Asleep]
  · rw [Over, same]
    exact past

theorem asleep_of_found (found : r.session? id = some s) : r.Asleep id ↔ s.phase = .asleep := by
  constructor
  · rintro ⟨s',found',asleep⟩
    cases found.symm.trans found'
    exact asleep
  · exact fun asleep => ⟨s, found, asleep⟩

section Altering

variable {f : Session → Session} (named : ∀ s, s.id = id → (f s).id = id)
include named

theorem session?_altered (found : r.session? id = some s) :
    (r.alter id f).session? id = some (f s) := by
  rw [session?_alter r named, if_pos rfl, found]
  rfl

theorem asleep_elsewhere {other : SessionId} (elsewhere : other ≠ id) :
    (r.alter id f).Asleep other ↔ r.Asleep other := by
  rw [Asleep, session?_alter r named, if_neg elsewhere, Asleep]

theorem over_alter (kept : ∀ s, r.session? id = some s → s.phase = .ended → (f s).phase = .ended)
    {other : SessionId} (past : r.Over other) : (r.alter id f).Over other := by
  obtain ⟨s,found,ended⟩ := past
  by_cases here : other = id
  · subst here
    exact ⟨f s, session?_altered named found, kept s found ended⟩
  · rw [Over, session?_alter r named, if_neg here]
    exact ⟨s, found, ended⟩

theorem Calm.alter (slept : ∀ s, r.session? id = some s →
      ((f s).phase = .asleep ↔ s.phase = .asleep) ∧ (s.phase = .ended → (f s).phase = .ended)) :
    r.Calm (r.alter id f) where
  storage := rfl
  asleep other := by
    by_cases here : other = id
    · subst here
      cases found : r.session? other with
      | some s =>
        rw [asleep_of_found (session?_altered named found), asleep_of_found found]
        exact (slept s found).1
      | none =>
        rw [Asleep, session?_alter r named, if_pos rfl, Asleep, found]
        simp
    · exact asleep_elsewhere named here
  past _ := over_alter named fun s found => (slept s found).2

end Altering

instance : Aloof Calm where
  refl := .refl
  trans := .trans
  aside _ sessions _ _ backdrop := .of_same sessions (congrArg (·.2.2) backdrop)
  litter _ := .of_same rfl rfl

instance : Native Calm where
  touch {r i f} same := by
    have phase : ∀ s, (f s).phase = s.phase := fun s => congrArg Session.Stem.phase (same s)
    refine .alter (fun s here => (congrArg Session.Stem.id (same s)).trans here) fun s _ => ?_
    rw [phase]
    exact ⟨.rfl, fun ended => ended⟩
  post {r s e} found := by
    refine posting_of_counted (fun _ _ => .of_same rfl rfl) (fun _ _ => ?_) r s found
    exact .alter (fun _ here => here) fun _ _ => ⟨.rfl, fun ended => ended⟩
  doom := .alter (fun _ here => here) fun _ _ => ⟨.rfl, fun ended => ended⟩

/-- What can happen to the sleep of sessions. -/
inductive Nap where
  | aside
  | liesDown (session : SessionId)
  | wakes (session : SessionId)
  /-- The session ends in its sleep. -/
  | expires (session : SessionId)

/-- What becomes of a router when something happens to the sleep of a session. -/
inductive Sleeps : Router → Nap → Router → Prop where
  | aside {r r' : Router} (calm : r.Calm r') : Sleeps r .aside r'
  | liesDown {r r' : Router} {id : SessionId} (named : ∃ n, id = idText n) (awake : r.Awake id)
      (stored : r'.storage = r.storage ∨ ∃ b, r.storage.saveBucket id b = .ok r'.storage)
      (asleep : ∀ x, r'.Asleep x ↔ x = id ∨ r.Asleep x)
      (past : ∀ x, r.Over x → r'.Over x) : Sleeps r (.liesDown id) r'
  | wakes {r r' : Router} {id : SessionId} (named : ∃ n, id = idText n) (slept : r.Asleep id)
      (removed : r'.storage = r.storage.remove id)
      (asleep : ∀ x, r'.Asleep x ↔ x ≠ id ∧ r.Asleep x)
      (past : ∀ x, r.Over x → r'.Over x) : Sleeps r (.wakes id) r'
  | expires {r r' : Router} {id : SessionId} (slept : r.Asleep id)
      (kept : r'.storage = r.storage) (asleep : ∀ x, r'.Asleep x ↔ x ≠ id ∧ r.Asleep x)
      (past : ∀ x, r.Over x → r'.Over x) (finished : r'.Over id) : Sleeps r (.expires id) r'

section Sleeps

variable {nap : Nap} {gone : SessionId → Prop} {n : Nat}

/-- Snapshots are those of sessions that sleep, and of some that are gone. -/
def Shelved (gone : SessionId → Prop) (r : Router) : Prop :=
  ∀ id n, id = idText n → r.storage.load id ≠ .ok none → r.Asleep id ∨ gone id

theorem not_over_of_asleep (asleep : r.Asleep id) : ¬ r.Over id := by
  obtain ⟨s,found,slept⟩ := asleep
  exact not_over_of_found found (by rw [slept]; nofun)

theorem Sleeps.past (sleeps : Sleeps r nap r') (finished : r.Over id) : r'.Over id := by
  cases sleeps with
  | aside calm => exact calm.past id finished
  | liesDown _ _ _ _ past => exact past id finished
  | wakes _ _ _ _ past => exact past id finished
  | expires _ _ _ past _ => exact past id finished

/-- Falling asleep and waking up leave the snapshots of other sessions alone. -/
theorem Sleeps.load (sleeps : Sleeps r nap r') (named : id = idText n) (other : nap ≠ .liesDown id)
    (other' : nap ≠ .wakes id) : r'.storage.load id = r.storage.load id := by
  subst named
  cases sleeps with
  | aside calm => rw [calm.storage]
  | liesDown named _ stored _ _ =>
    obtain ⟨m,rfl⟩ := named
    have apart : idText m ≠ idText n := fun same => other (congrArg Nap.liesDown same)
    rcases stored with same | ⟨b,saved⟩
    · rw [same]
    · exact Storage.load_save (fileName_idText apart) saved
  | wakes named _ removed _ _ =>
    obtain ⟨m,rfl⟩ := named
    have apart : idText m ≠ idText n := fun same => other' (congrArg Nap.wakes same)
    rw [removed, Storage.load_remove (fileName_idText apart)]
  | expires _ kept _ _ _ => rw [kept]

theorem Sleeps.asleep (sleeps : Sleeps r nap r') (slept : r.Asleep id) (other : nap ≠ .wakes id)
    (other' : nap ≠ .expires id) : r'.Asleep id := by
  cases sleeps with
  | aside calm => exact (calm.asleep id).mpr slept
  | liesDown _ _ _ asleep _ => exact (asleep id).mpr (Or.inr slept)
  | wakes _ _ _ asleep _ =>
    exact (asleep id).mpr ⟨fun same => other (congrArg Nap.wakes same.symm), slept⟩
  | expires _ _ asleep _ _ =>
    exact (asleep id).mpr ⟨fun same => other' (congrArg Nap.expires same.symm), slept⟩

theorem Sleeps.lain (sleeps : Sleeps r (.liesDown id) r') : r.Awake id ∧ r'.Asleep id := by
  cases sleeps with
  | liesDown _ awake _ asleep _ => exact ⟨awake, (asleep id).mpr (Or.inl rfl)⟩

theorem Sleeps.woken (sleeps : Sleeps r (.wakes id) r') :
    r.Asleep id ∧ r'.storage.load id = .ok none := by
  cases sleeps with
  | wakes _ slept removed _ _ => exact ⟨slept, removed ▸ Storage.load_removed _ _⟩

theorem Sleeps.shelved (sleeps : Sleeps r nap r') (shelved : r.Shelved gone) :
    r'.Shelved fun id => gone id ∨ nap = .expires id := by
  intro id n named held
  by_cases lay : nap = .liesDown id
  · subst lay
    exact Or.inl sleeps.lain.2
  by_cases woke : nap = .wakes id
  · subst woke
    exact absurd sleeps.woken.2 held
  rw [sleeps.load named lay woke] at held
  rcases shelved id n named held with slept | left
  · by_cases expired : nap = .expires id
    · exact Or.inr (Or.inr expired)
    · exact Or.inl (sleeps.asleep slept woke expired)
  · exact Or.inr (Or.inl left)

/-- Nobody asks for the snapshot of a session that has ended. -/
theorem Sleeps.left (sleeps : Sleeps r nap r') (named : id = idText n) (finished : r.Over id) :
    r'.storage.load id = r.storage.load id := by
  refine sleeps.load named ?_ ?_
  · rintro rfl
    obtain ⟨s,found,ended⟩ := finished
    exact (sleeps.lain.1 s found).2 ended
  · rintro rfl
    exact not_over_of_asleep sleeps.woken.1 finished

theorem Throughout.shelved {history : List (Nap × Router)} (happens : Throughout Sleeps r history)
    (shelved : r.Shelved gone) :
    (after r history).Shelved fun id => gone id ∨ ∃ step ∈ history, step.1 = .expires id := by
  induction history generalizing r gone with
  | nil => exact fun id n named held => (shelved id n named held).imp_right Or.inl
  | cons step rest ih =>
    intro id n named held
    rcases ih happens.2 (happens.1.shelved shelved) id n named held with slept | (left | expired) | later
    · exact Or.inl slept
    · exact Or.inr (Or.inl left)
    · exact Or.inr (Or.inr ⟨step, List.mem_cons_self, expired⟩)
    · obtain ⟨s,within,expired⟩ := later
      exact Or.inr (Or.inr ⟨s, List.mem_cons_of_mem _ within, expired⟩)

theorem Throughout.left {history : List (Nap × Router)} (happens : Throughout Sleeps r history)
    (named : id = idText n) (finished : r.Over id) :
    (after r history).Over id ∧ (after r history).storage.load id = r.storage.load id := by
  induction history generalizing r with
  | nil => exact ⟨finished, rfl⟩
  | cons step rest ih =>
    obtain ⟨finished',kept⟩ := ih happens.2 (happens.1.past finished)
    exact ⟨finished', kept.trans (happens.1.left named finished)⟩

end Sleeps

theorem Steady.awake (steady : Steady id r r') (found : r.session? id = some s) {m : Machine}
    (active : s.phase = .active m) : r'.Awake id := by
  intro s' found'
  have begun : s.phase ≠ .fresh := by rw [active]; nofun
  obtain ⟨s'',found'',rests⟩ := steady s found begun
  cases found'.symm.trans found''
  rw [rests.phase.resolve_right begun, active]
  exact ⟨nofun, nofun⟩

theorem Awake.not_asleep (awake : r.Awake id) : ¬ r.Asleep id := fun ⟨s,found,slept⟩ =>
  (awake s found).1 slept

theorem Awake.not_over (awake : r.Awake id) : ¬ r.Over id := fun ⟨s,found,ended⟩ =>
  (awake s found).2 ended

theorem Calm.sleeps (calm : r.Calm r') : ∃ nap, Sleeps r nap r' := ⟨.aside, .aside calm⟩

/-- What is calm before and after makes no difference. -/
theorem Sleeps.between {nap : Nap} {q q' : Router} (sleeps : Sleeps q nap q') (before : r.Calm q)
    (later : q'.Calm r') : Sleeps r nap r' := by
  have past : ∀ x, r.Over x → r'.Over x := fun x finished =>
    later.past x (sleeps.past (before.past x finished))
  cases sleeps with
  | aside calm => exact .aside ((before.trans calm).trans later)
  | liesDown named awake stored asleep _ =>
    refine .liesDown named (fun s found => ⟨fun slept => ?_, fun ended => ?_⟩) ?_ (fun x => ?_) past
    · exact awake.not_asleep ((before.asleep _).mpr ⟨s, found, slept⟩)
    · exact awake.not_over (before.past _ ⟨s, found, ended⟩)
    · rw [later.storage, ← before.storage]
      exact stored
    · rw [later.asleep, asleep, before.asleep]
  | wakes named slept removed asleep _ =>
    refine .wakes named ((before.asleep _).mp slept) ?_ (fun x => ?_) past
    · rw [later.storage, removed, before.storage]
    · rw [later.asleep, asleep, before.asleep]
  | expires slept kept asleep _ finished =>
    refine .expires ((before.asleep _).mp slept) ?_ (fun x => ?_) past (later.past _ finished)
    · rw [later.storage, kept, before.storage]
    · rw [later.asleep, asleep, before.asleep]

end Router

namespace RouterM

open Router

variable {r : Router} {id : SessionId} {s : Session} {m : Machine}

/-- All is calm during the work. -/
abbrev Calming {α : Type} (x : RouterM α) : Prop := Leads Calm x

theorem finish_calm_after (found : r.session? id = some s) (going : s.outcome = none) (o : Outcome) :
    (closing id o r).Calm (finish id o r).2 := by
  rw [finish_eq found going]
  cases s.parent with
  | none => exact setStatus_native id o.status _
  | some link =>
    have told : Calming (reportDone link o.status o.result) :=
      reportDone_leads (fun _ _ _ => .of_same rfl rfl) link _ _ (post_native _)
    exact (told _).trans (setStatus_native id o.status _)

theorem finish_calm (awake : ¬ r.Asleep id) (o : Outcome) : r.Calm (finish id o r).2 := by
  by_cases ends : ∃ s, r.session? id = some s ∧ s.outcome = none
  · obtain ⟨s,found,going⟩ := ends
    have shut : r.Calm (r.alter id (closed o)) := by
      refine .alter (fun _ here => here) fun s found => ⟨⟨nofun, fun slept => ?_⟩, fun _ => rfl⟩
      exact absurd ⟨s, found, slept⟩ awake
    have told : (r.alter id (closed o)).Calm (closing id o r) := .of_same rfl rfl
    exact (shut.trans told).trans (finish_calm_after found going o)
  · rw [finish_idle ends]
    exact .refl r

/-- A session ends awake or asleep. -/
theorem finish_sleeps (id : SessionId) (o : Outcome) (r : Router) :
    ∃ nap, Sleeps r nap (finish id o r).2 := by
  by_cases slept : r.Asleep id
  · by_cases ends : ∃ s, r.session? id = some s ∧ s.outcome = none
    · obtain ⟨s,found,going⟩ := ends
      obtain ⟨s',found',_,_,ended⟩ := finish_own found going o
      have later := finish_calm_after found going o
      have named : ∀ s : Session, s.id = id → (closed o s).id = id := fun _ here => here
      refine ⟨.expires id, .expires slept later.storage (fun x => ?_) (fun x past => ?_)
        ⟨s', found', ended⟩⟩
      · rw [later.asleep]
        by_cases here : x = id
        · subst here
          have shut : (closing x o r).session? x = some (closed o s) :=
            session?_altered (f := closed o) named found
          rw [asleep_of_found shut]
          exact ⟨nofun, fun other => absurd rfl other.1⟩
        · refine Iff.trans (asleep_elsewhere (f := closed o) named here) ?_
          exact ⟨fun slept => ⟨here, slept⟩, And.right⟩
      · exact later.past x (over_alter (f := closed o) named (fun _ _ _ => rfl) past)
    · rw [finish_idle ends]
      exact (Calm.refl r).sleeps
  · exact (finish_calm slept o).sleeps

theorem destroy_calm (id : SessionId) : Calming (destroy id) := by
  intro r
  have shut : r.Calm (close id (doom id r).2).2 :=
    Lasting.trans (doom_native id r) (close_native id _)
  refine shut.trans ?_
  cases found : (close id (doom id r).2).2.session? id with
  | none =>
    rw [destroy_run, found]
    exact .refl _
  | some s =>
    rw [destroy_found found]
    cases phase : s.phase with
    | fresh =>
      refine finish_calm ?_ _
      rw [asleep_of_found found, phase]
      nofun
    | _ => exact .refl _

theorem cancelInvoke_calm (parent : SessionId) (invoke : InvokeId) :
    Calming (cancelInvoke parent invoke) :=
  cancelInvoke_leads (fun _ _ _ => .of_same rfl rfl) destroy_calm parent invoke

theorem createSession_calm (chart : Chart) (parent : Option ParentLink) (arguments : Option Ref) :
    Calming (createSession chart parent arguments) := by
  intro r
  have kept : ∀ x s, r.session? x = some s →
      (createSession chart parent arguments r).2.session? x = some s := fun _ _ found =>
    createSession_session chart parent arguments found
  refine ⟨rfl, fun x => ⟨?_, ?_⟩, ?_⟩
  · rintro ⟨s,found,slept⟩
    rcases List.mem_append.mp (List.mem_of_find?_eq_some found) with old | new
    · cases known : r.session? x with
      | some s' =>
        cases found.symm.trans (kept x s' known)
        exact ⟨s, known, slept⟩
      | none =>
        exact absurd (List.find?_some found) (List.find?_eq_none.mp known s old)
    · cases List.mem_singleton.mp new
      cases slept
  · rintro ⟨s,found,slept⟩
    exact ⟨s, kept x s found, slept⟩
  · rintro x ⟨s,found,ended⟩
    exact ⟨s, kept x s found, ended⟩

/-- A session that is awake goes on with another machine. -/
theorem hold_calm (awake : r.Awake id) (m : Machine) :
    r.Calm (r.alter id fun s => { s with phase := .active m }) :=
  .alter (fun _ here => here) fun s found =>
    ⟨⟨nofun, fun slept => absurd slept (awake s found).1⟩,
      fun ended => absurd ended (awake s found).2⟩

theorem startSession_calm (id : SessionId) : Calming (startSession id).run := by
  refine startSession_leads fun r s m found _ phase _ => ?_
  let q : Router := { r with memory := m.memory }
  have noted : r.Calm q := .of_same rfl rfl
  have awake : q.Awake id := by
    intro s' found'
    cases found.symm.trans found'
    rw [phase]
    exact ⟨nofun, nofun⟩
  exact (noted.trans (hold_calm awake m.start)).trans (setStatus_native id .starting _)

theorem beginInvoke_calm (parent : SessionId) (data : InvokeData) :
    Calming (beginInvoke parent data).run := by
  refine beginInvoke_native (fun r chart => ?_) startSession_calm
  have noted (h : Heap) : r.Calm { r with memory := { r.memory with heap := h } } :=
    .of_same rfl rfl
  exact ((noted _).trans (createSession_calm chart _ _ _)).trans (.of_same rfl rfl)

theorem keep_calm (m : Machine) (awake : r.Awake id) : r.Calm (keep id m r).2 := by
  let q : Router := { r with memory := m.memory }
  have noted : r.Calm q := .of_same rfl rfl
  have told : Calming (m.reports.reverse.forM (passOn id m.chart)) :=
    .forM fun report _ => passOn_native id m.chart report
  exact (noted.trans (hold_calm (r := q) awake m.unburdened)).trans (told _)

theorem answer_calm (m : Machine) (failure : Option Failure) (awake : r.Awake id) :
    r.Calm (answer id m failure r).2 := by
  have freed : r.Calm (r.alter id fun s => { s with awaited := none }) :=
    .alter (fun _ here => here) fun _ _ => ⟨.rfl, fun ended => ended⟩
  refine freed.trans (keep_calm (r := r.alter id _) _ fun s found => ?_)
  rw [session?_alter (f := fun s => { s with awaited := none }) _ (fun _ here => here), if_pos rfl]
    at found
  obtain ⟨s',found',rfl⟩ := Option.map_eq_some_iff.mp found
  exact awake s' found'

theorem serveInvoke_calm (found : r.session? s.id = some s) {n : Machine}
    (active : s.phase = .active n) (m : Machine) (data : InvokeData) :
    r.Calm (serveInvoke s m data r).2 := by
  cases awaited : s.awaited with
  | none =>
    rw [serveInvoke_first awaited, bind_run]
    have awake := (beginInvoke_steady s.id data r).awake found active
    refine (beginInvoke_calm s.id data r).trans ?_
    cases ((beginInvoke s.id data).run r).1 with
    | error e => exact answer_calm m _ awake
    | ok child =>
      have awaits : Calming (updateSession s.id fun s => { s with awaited := some child }) :=
        touch_native fun _ => rfl
      exact awaits _
  | some child =>
    rw [serveInvoke_again awaited]
    have awake := (Rested.refl r).steady.awake found active
    cases (r.session? child).bind startResult? with
    | none => exact .refl r
    | some result =>
      cases result with
      | ok status => exact answer_calm m none awake
      | error e =>
        have given : r.Calm (endInvoke s.id data.invokeId (.error e) r).2 := .of_same rfl rfl
        exact given.trans (answer_calm m _ awake)

/-- A session takes an event without falling asleep or waking up. -/
theorem adopt_calm {taken : Session} (found : r.session? s.id = some s) (named : taken.id = s.id)
    (phase : taken.phase = s.phase) : r.Calm (adopt s taken r).2 := by
  refine adopt_leads (fun _ => .of_same rfl rfl) (fun q same => ?_) fun _ => setStatus_native _ _
  refine .alter (fun _ _ => named) fun s' found' => ?_
  have there : q.session? s.id = some s := by
    rw [session?, same]
    exact found
  cases there.symm.trans found'
  rw [phase]
  exact ⟨.rfl, fun ended => ended⟩

theorem leave_sleeps (numbered : ∃ n, s.id = idText n) (found : r.session? s.id = some s) (awake : r.Awake s.id)
    (m : Machine) (status : ExitStatus) : ∃ nap, Sleeps r nap (leave s m status r).2 := by
  cases status with
  | completed => exact (finish_calm awake.not_asleep _).sleeps
  | destroyed => exact (finish_calm awake.not_asleep _).sleeps
  | queueClosed => exact (finish_calm awake.not_asleep _).sleeps
  | suspended =>
    obtain ⟨storage,stored,run⟩ := leave_suspended s m r
    let q : Router := { r with storage }
    let lull : Session → Session := fun s =>
      { s with phase := .asleep, drowsy := false, idleDeadline := none }
    have named : ∀ x : Session, x.id = s.id → (lull x).id = s.id := fun _ here => here
    have here : q.session? s.id = some s := found
    have lain : Sleeps r (.liesDown s.id) (q.alter s.id lull) := by
      refine .liesDown numbered awake stored (fun x => ?_) fun x past => ?_
      · by_cases own : x = s.id
        · subst own
          rw [asleep_of_found (session?_altered named here)]
          exact ⟨fun _ => Or.inl rfl, fun _ => rfl⟩
        · rw [asleep_elsewhere named own]
          exact ⟨Or.inr, fun slept => slept.resolve_left own⟩
      · exact over_alter named (fun x found' ended => absurd ended (awake x found').2) past
    rw [run]
    exact ⟨_, lain.between (.refl r) (setStatus_native s.id .suspended _)⟩

/-- In its turn a session with a machine at most lies down. -/
theorem goOn_sleeps (numbered : ∃ n, s.id = idText n) (found : r.session? s.id = some s) {n : Machine}
    (active : s.phase = .active n) (m : Machine) : ∃ nap, Sleeps r nap (goOn s m r).2 := by
  have awake : r.Awake s.id := (Rested.refl r).steady.awake found active
  have turn := goOn_turn s m
  generalize goOn s m = x at turn ⊢
  cases turn with
  | steps => exact (keep_calm m.step awake).sleeps
  | performs =>
    have done : r.Calm (performAll s m.effects r).2 := performAll_native cancelInvoke_calm s _ r
    have awake' := (performAll_steady s m.effects r).awake found active
    exact (done.trans (keep_calm _ awake')).sleeps
  | serves data => exact (serveInvoke_calm found active m data).sleeps
  | takes input taken _ next =>
    have standing := (input?_standing next).1
    simp only [Session.standing, Session.Standing.mk.injEq] at standing
    obtain ⟨named,_,_,phase,_⟩ := standing
    have took := adopt_session found named
    refine ((adopt_calm found named phase).trans (keep_calm _ fun s' found' => ?_)).sleeps
    cases took.symm.trans found'
    rw [phase, active]
    constructor
    · intro same
      cases same
    · intro same
      cases same
  | leaves status => exact leave_sleeps numbered found awake m status
  | aborts => exact finish_sleeps s.id _ r
  | breaks => exact (breakDown_native (R := Calm) s.id r).sleeps
  | rests => exact (Calm.refl r).sleeps

/-- A session that takes an event is taken up, or ends because it cannot be. -/
theorem rouse_sleeps (numbered : ∃ n, s.id = idText n) {t : Session}
    (found : r.session? s.id = some t) (slept : t.phase = .asleep) (e : Event) : ∃ nap, Sleeps r nap (rouse s e r).2 := by
  unfold rouse
  rw [bind_run]
  rcases resume_run s r with ⟨error,run⟩ | ⟨_,m,_,run⟩
  · rw [run]
    exact finish_sleeps s.id _ r
  · rw [run]
    let q : Router := { r with storage := r.storage.remove s.id, memory := m.memory }
    let rise : Session → Session := fun s => { s with phase := .active m.start, wakeEvent := some e }
    have named : ∀ x : Session, x.id = s.id → (rise x).id = s.id := fun _ here => here
    have woken : Sleeps r (.wakes s.id) (q.alter s.id rise) := by
      refine .wakes numbered ⟨t, found, slept⟩ rfl (fun x => ?_) fun x past => ?_
      · by_cases own : x = s.id
        · subst own
          rw [asleep_of_found (session?_altered (r := q) named found)]
          exact ⟨nofun, fun other => absurd rfl other.1⟩
        · refine (asleep_elsewhere (r := q) named own).trans ?_
          exact ⟨fun slept => ⟨own, slept⟩, And.right⟩
      · refine over_alter (r := q) named (fun x found' ended => ?_) past
        cases found.symm.trans found'
        rw [slept] at ended
        cases ended
    exact ⟨_, woken⟩

theorem awake_sleeps (numbered : ∃ n, s.id = idText n) (found : r.session? s.id = some s)
    (slept : s.phase = .asleep) : ∃ nap, Sleeps r nap (awake s r).2 := by
  have waking := awake_waking s
  generalize awake s = x at waking ⊢
  cases waking with
  | ends => exact finish_sleeps s.id _ r
  | wakes e taken _ next =>
    have standing := (nextEvent?_standing next).1
    simp only [Session.standing, Session.Standing.mk.injEq] at standing
    obtain ⟨named,_,_,phase,_⟩ := standing
    have took := adopt_session found named
    obtain ⟨nap,sleeps⟩ := rouse_sleeps numbered took (phase.trans slept) e
    exact ⟨nap, sleeps.between (adopt_calm found named phase) (.refl _)⟩
  | rests => exact (Calm.refl r).sleeps

theorem turn_sleeps (agreed : r.Agreed) (task : Task) : ∃ nap, Sleeps r nap (turn task r).2 := by
  cases task with
  | timer id index => exact (fire_native (R := Calm) id index r).sleeps
  | aftermath id => exact finish_sleeps id _ r
  | session id =>
    have turned := turn_turned id r
    generalize (turn (.session id) r).2 = q at turned ⊢
    cases turned with
    | goes s n _ found phase =>
      obtain ⟨_,_,text⟩ := agreed.numbered _ (session?_standing found)
      exact goOn_sleeps ⟨_, text⟩ found phase _
    | wakes s _ found phase =>
      obtain ⟨_,_,text⟩ := agreed.numbered _ (session?_standing found)
      exact awake_sleeps ⟨_, text⟩ found phase
    | rests => exact (Calm.refl r).sleeps

end RouterM

namespace Router

open RouterM

variable {r r' r'' : Router}

/-- A history of naps leads from one router to the other. -/
def Dozes (r r' : Router) : Prop :=
  r.Agreed → r'.Agreed ∧ ∃ history, Throughout Sleeps r history ∧ after r history = r'

theorem Dozes.of_nap (upholds : r.Upholds none r') (naps : r.Agreed → ∃ nap, Sleeps r nap r') :
    r.Dozes r' := by
  intro agreed
  obtain ⟨nap,sleeps⟩ := naps agreed
  exact ⟨(upholds agreed nofun).1, [(nap, r')], ⟨sleeps, trivial⟩, rfl⟩

theorem Dozes.refl (r : Router) : r.Dozes r := fun agreed => ⟨agreed, [], trivial, rfl⟩

theorem Dozes.trans (first : r.Dozes r') (second : r'.Dozes r'') : r.Dozes r'' := by
  intro agreed
  obtain ⟨agreed',history,sleeps,rfl⟩ := first agreed
  obtain ⟨agreed'',later,sleeps',rfl⟩ := second agreed'
  exact ⟨agreed'', history ++ later, throughout_append.mpr ⟨sleeps, sleeps'⟩,
    after_append r history later⟩

theorem Dozes.of_calm (upholds : r.Upholds none r') (calm : r.Calm r') : r.Dozes r' :=
  .of_nap upholds fun _ => calm.sleeps

instance : Marking Dozes where
  refl := .refl
  trans := .trans
  aside registry sessions depths memory backdrop :=
    .of_calm (Aside.aside registry sessions depths memory backdrop)
      (Aside.aside registry sessions depths memory backdrop)
  litter t := .of_calm (Aloof.litter t) (Aloof.litter t)
  note same := .of_calm (Marking.note same) (Marking.note same)
  doom := .of_calm Marking.doom Marking.doom

theorem Call.dozes (call : Call) : Leads Dozes call.run := by
  by_cases turns : call.TakesTurns
  · exact call.leads_turning turns fun task r =>
      .of_nap (turn_upholds task r) fun agreed => turn_sleeps agreed task
  · refine fun r => .of_calm (call.upholds r) (call.leads (R := Calm) turns ?_ ?_ ?_ ?_ ?_ ?_ ?_ ?_ r)
    · exact fun _ _ _ _ => .of_same rfl rfl
    · exact fun _ _ _ => .of_same rfl rfl
    · exact fun chart parent arguments _ => createSession_calm chart parent arguments
    · exact startSession_calm
    · exact fun parent data _ => beginInvoke_calm parent data
    · exact fun parent invoke result _ =>
        endInvoke_leads (fun _ _ _ => .of_same rfl rfl) parent invoke result
    · exact cancelInvoke_calm
    · exact destroy_calm

/-- Whatever a host does with a new router in whose storage the sessions have no snapshots, and in
    whatever order tasks take turns, all is made of naps, of which a turn has one. A snapshot that is
    there is of a session that sleeps, or of one that has ended in its sleep; the snapshot of such a
    session stays. -/
theorem snapshots_of_sleepers {settings : Settings} {storage : Storage}
    (empty : ∀ n, storage.load (idText n) = .ok none) :
    (∀ calls : List Call, let q := (calls.forM Call.run { settings, storage }).2
      (∀ s ∈ q.sessions, ∃ n, s.id = idText n) ∧
      (∃ history, Throughout Sleeps { settings, storage } history ∧
        after { settings, storage } history = q) ∧
      ∀ task, ∃ nap, Sleeps q nap (turn task q).2) ∧
    ∀ history, Throughout Sleeps { settings, storage } history → ∀ id n, id = idText n →
      let q := after { settings, storage } history
      (q.storage.load id ≠ .ok none → q.Asleep id ∨ ∃ step ∈ history, step.1 = .expires id) ∧
      ∀ before r' later, history = before ++ (.expires id, r') :: later →
        let p := after { settings, storage } before
        p.Asleep id ∧ q.Over id ∧ q.storage.load id = p.storage.load id := by
  refine ⟨fun calls => ?_, fun history happens id n named => ⟨fun held => ?_, ?_⟩⟩
  · obtain ⟨agreed,history,happens,ends⟩ : Agreed _ ∧ _ :=
      Leads.forM (R := Dozes) (f := Call.run) (fun call _ => call.dozes) _ (agreed_created settings storage)
    refine ⟨fun s within => ?_, ⟨history, happens, ends⟩, turn_sleeps agreed⟩
    obtain ⟨n,_,text⟩ := agreed.numbered _ (List.mem_map_of_mem within)
    exact ⟨n, text⟩
  · -- The storage was empty, so what it holds is a snapshot of somebody who fell asleep.
    have shelved : Shelved (fun _ => False) { settings, storage } := by
      rintro _ n rfl held
      exact absurd (empty n) held
    exact (happens.shelved shelved id n named held).imp_right fun gone =>
      gone.resolve_left fun none => none
  · rintro before r' later rfl
    obtain ⟨_,sleeps,later⟩ := throughout_append.mp happens
    cases sleeps with
    | expires slept kept _ _ finished =>
      obtain ⟨finished',same⟩ := later.left named finished
      rw [after_append]
      exact ⟨slept, finished', same.trans (congrArg (·.load id) kept)⟩

end Router

namespace Sleeping

open Router

def hasSnapshot (s : Storage) (key : String) : Bool :=
  match s.load key with
  | .ok none => false
  | _ => true

theorem load_of_hasSnapshot {s : Storage} {key : String} (held : hasSnapshot s key = true) :
    s.load key ≠ .ok none := by
  intro missing
  simp [hasSnapshot, missing] at held

def liesAsleep (r : Router) (id : SessionId) : Bool :=
  match (r.session? id).map Session.phase with
  | some Phase.asleep => true
  | _ => false

theorem asleep_of_lies {r : Router} {id : SessionId} (lies : liesAsleep r id = true) :
    r.Asleep id := by
  unfold liesAsleep at lies
  split at lies
  · rename_i phase
    exact Option.map_eq_some_iff.mp phase
  · cases lies

/-- The snapshot of a session that was suspended is there while the session sleeps. -/
theorem sleeper_has_snapshot : visited.storage.load session ≠ .ok none ∧ visited.Asleep session ∧
    ∃ history, Throughout Sleeps created history ∧ after created history = visited ∧
      (visited.Asleep session ∨ ∃ step ∈ history, step.1 = .expires session) := by
  obtain ⟨made,kept⟩ := @snapshots_of_sleepers settings (.memory []) fun _ => rfl
  obtain ⟨-,⟨history,happens,ends⟩,-⟩ := made calls
  have held : visited.storage.load session ≠ .ok none := load_of_hasSnapshot (by decide +kernel)
  have sleeps : visited.Asleep session := asleep_of_lies (by decide +kernel)
  have ends : after created history = visited := ends
  have reason : (after created history).storage.load session ≠ .ok none →
      (after created history).Asleep session ∨ ∃ step ∈ history, step.1 = .expires session :=
    (kept history happens session 0 rfl).1
  rw [ends] at reason
  exact ⟨held, sleeps, history, happens, ends, reason held⟩

/-- The session is destroyed after it has been suspended. -/
def dropped : Router :=
  ((calls.take 4 ++ [Call.destroy session, Call.settle 50]).forM Call.run created).2

/-- The snapshot of a session that was destroyed in its sleep is there for ever. -/
theorem snapshot_outlives_sleeper : ∃ s, dropped.session? session = some s ∧
    s.status = .destroyed ∧ dropped.storage.load session ≠ .ok none := by
  have checked : (dropped.session? session).any (fun s => s.status == .destroyed) = true := by
    decide +kernel
  obtain ⟨s,found,ended⟩ := (Option.any_eq_true _ _).mp checked
  exact ⟨s, found, by simpa using ended, load_of_hasSnapshot (by decide +kernel)⟩

end Sleeping

end Statechart

import Statechart.Router.Scheduler
import Mathlib.Data.List.Nodup
import Mathlib.Tactic.Common

/-
A scheduler over its history. A history is the list of what has been done to a new scheduler, the
latest first. What has been scheduled, what has fired and what has been silenced can be read off
it, without a look at any timer. The timers' flags and the list of the live ones agree with that,
whatever the order in which timers expire and are cancelled.
-/
namespace Statechart.Scheduler

/-- What can be done to a scheduler. A timer's handle is its position. -/
inductive Deed where
  | schedule (e : OutgoingEvent)
  | expire (i : Nat)
  | cancel (id : SendId)
  | dispose (i : Nat)
  | disposeAll

/-- A deed and the time of the clock at which it is done. -/
structure Step where
  now : Nat
  deed : Deed

abbrev History := List Step

def step (s : Scheduler) (x : Step) : Scheduler :=
  match x.deed with
  | .schedule e => s.schedule x.now e
  | .expire i => (s.expire x.now i).1
  | .cancel id => (s.cancel id).1
  | .dispose i => (s.disposeAt i).1
  | .disposeAll => s.disposeAll

def after (session : SessionId) : History → Scheduler
  | [] => { session }
  | x :: past => (after session past).step x

section Spec

/-- The events scheduled in a history with the times at which they were, in that order. -/
def entries : History → List (Nat × OutgoingEvent)
  | [] => []
  | ⟨now, .schedule e⟩ :: past => entries past ++ [(now, e)]
  | _ :: past => entries past

def hasId (past : History) (id : SendId) (i : Nat) : Bool :=
  (entries past)[i]?.any (·.2.sendId = some id)

/-- Whether a deed forbids an entry to fire from then on. -/
def silences (past : History) : Deed → Nat → Bool
  | .cancel id, i => hasId past id i
  | .dispose j, i => i = j
  | .disposeAll, _ => true
  | _, _ => false

/-- The entries that have been silenced: each deed silences only what is there when it is done. -/
def silenced : History → List Nat
  | [] => []
  | x :: past => (List.range (entries past).length).filter (silences past x.deed) ++ silenced past

/-- The entry that fires when a deed is done, if one does. -/
def firing (session : SessionId) (past : History) : Step → List Nat
  | ⟨now, .expire i⟩ => if ((after session past).expire now i).2.isSome then [i] else []
  | _ => []

/-- The entries that have fired, one for each time that one has. -/
def fired (session : SessionId) : History → List Nat
  | [] => []
  | x :: past => firing session past x ++ fired session past

def isOver (session : SessionId) (past : History) (i : Nat) : Bool :=
  (fired session past).contains i || (silenced past).contains i

/-- The entries that have neither fired nor been silenced. -/
def awaiting (session : SessionId) (past : History) : List Nat :=
  (List.range (entries past).length).filter (!isOver session past ·)

end Spec

section Disposal

variable {s : Scheduler}

@[simp] theorem disposeAt_live (i : Nat) : (s.disposeAt i).1.live = s.live := by
  unfold disposeAt
  split
  · rfl
  · rfl

@[simp] theorem disposeEach_live (is : List Nat) : (s.disposeEach is).1.live = s.live := by
  induction is generalizing s with
  | nil => rfl
  | cons i rest ih => simp [disposeEach, ih]

theorem disposeAt_timer (i j : Nat) :
    (s.disposeAt i).1.timers[j]? = if j = i then s.timers[j]?.map dispose else s.timers[j]? := by
  unfold disposeAt
  split
  · rename_i missing
    by_cases here : j = i
    · simp [here, missing]
    · simp [here]
  · rename_i t armed
    by_cases here : j = i
    · obtain ⟨within,-⟩ := List.getElem?_eq_some_iff.mp armed
      rw [if_pos here, here, List.getElem?_set_self within, armed]
      rfl
    · simp [here, List.getElem?_set_ne (Ne.symm here)]

theorem disposeEach_timer (is : List Nat) (j : Nat) :
    (s.disposeEach is).1.timers[j]? =
      if j ∈ is then s.timers[j]?.map dispose else s.timers[j]? := by
  induction is generalizing s with
  | nil => simp [disposeEach]
  | cons i rest ih =>
    have twice : dispose ∘ dispose = dispose := rfl
    simp only [disposeEach, ih, disposeAt_timer, List.mem_cons]
    by_cases here : j = i
    · by_cases again : j ∈ rest
      · simp [here, here ▸ again, twice]
      · simp [here, here ▸ again]
    · simp [here]

theorem disposeEach_length (is : List Nat) :
    (s.disposeEach is).1.timers.length = s.timers.length := by
  induction is generalizing s with
  | nil => rfl
  | cons i rest ih =>
    simp only [disposeEach, ih]
    unfold disposeAt
    split
    · rfl
    · simp

theorem isDisposed_disposeEach (is : List Nat) (j : Nat) :
    (s.disposeEach is).1.isDisposed j = (s.isDisposed j || is.contains j) := by
  unfold isDisposed
  rw [disposeEach_timer]
  by_cases within : j ∈ is
  · cases s.timers[j]? with
    | none => simp
    | some t => simp [within, dispose]
  · simp [within]

theorem isDisposed_disposeAt (i j : Nat) :
    (s.disposeAt i).1.isDisposed j = (s.isDisposed j || j == i) := by
  have one := isDisposed_disposeEach (s := s) [i] j
  simp only [List.contains_cons, List.contains_nil, Bool.or_false] at one
  exact one

/-- The count is right if nothing that may fire is named twice. -/
theorem disposeEach_count {is : List Nat} (distinct : (is.filter (!s.isDisposed ·)).Nodup) :
    (s.disposeEach is).2 = (is.filter (!s.isDisposed ·)).length := by
  induction is generalizing s with
  | nil => rfl
  | cons i rest ih =>
    have first : ((s.disposeAt i).2 = some true) ↔ s.isDisposed i = false := by
      unfold disposeAt isDisposed
      cases s.timers[i]? with
      | none => simp
      | some t => simp
    have others : (rest.filter (!s.isDisposed ·)).Nodup :=
      distinct.sublist ((List.sublist_cons_self i rest).filter _)
    have fresh : i ∉ rest.filter (!s.isDisposed ·) := by
      intro again
      have live := (List.mem_filter.mp again).2
      simp only [List.filter_cons, live, ↓reduceIte] at distinct
      exact (List.nodup_cons.mp distinct).1 again
    have same : rest.filter (!(s.disposeAt i).1.isDisposed ·) =
        rest.filter (!s.isDisposed ·) := by
      apply List.filter_congr
      intro j within
      rw [isDisposed_disposeAt]
      by_cases here : j = i
      · have ended : s.isDisposed i = true := by
          by_contra live
          exact fresh (List.mem_filter.mpr ⟨here ▸ within, by simpa using live⟩)
        simp [here, ended]
      · simp [here]
    simp only [disposeEach, first]
    rw [ih (same ▸ others), same]
    cases ended : s.isDisposed i with
    | true => simp [ended]
    | false => simp [ended]

end Disposal

section Expiry

theorem expire_eq (s : Scheduler) (now i : Nat) :
    (s.expire now i).1 = s ∨ (s.expire now i).1 = (s.disposeAt i).1 := by
  unfold expire
  split
  · exact Or.inl rfl
  · split
    · exact Or.inr rfl
    · exact Or.inl rfl

theorem disposeAt_events {s : Scheduler} {t : Timer} {i : Nat}
    (within : t ∈ (s.disposeAt i).1.timers) : ∃ t' ∈ s.timers, t'.event = t.event := by
  unfold disposeAt at within
  split at within
  · exact ⟨t, within, rfl⟩
  · rename_i t' armed
    rcases List.mem_or_eq_of_mem_set within with before | rfl
    · exact ⟨t, before, rfl⟩
    · exact ⟨t', List.mem_of_getElem? armed, rfl⟩

theorem disposeEach_events {s : Scheduler} {t : Timer} {is : List Nat}
    (within : t ∈ (s.disposeEach is).1.timers) : ∃ t' ∈ s.timers, t'.event = t.event := by
  induction is generalizing s with
  | nil => exact ⟨t, within, rfl⟩
  | cons i rest ih =>
    obtain ⟨t',between,same⟩ := ih within
    obtain ⟨t'',before,same'⟩ := disposeAt_events between
    exact ⟨t'', before, same'.trans same⟩

theorem expire_events {s : Scheduler} {t : Timer} {now i : Nat}
    (within : t ∈ (s.expire now i).1.timers) : ∃ t' ∈ s.timers, t'.event = t.event := by
  rcases expire_eq s now i with same | same
  · exact ⟨t, same ▸ within, rfl⟩
  · exact disposeAt_events (same ▸ within)

theorem expire_fires {s : Scheduler} {now i : Nat} {e : OutgoingEvent} :
    (s.expire now i).2 = some e ↔ ∃ t, s.timers[i]? = some t ∧
      (t.tick ≤ now ∨ t.stopped = true) ∧ t.disposed = false ∧ t.event = e := by
  unfold expire disposeAt
  cases s.timers[i]? with
  | none => simp
  | some t =>
    by_cases wakes : t.tick ≤ now ∨ t.stopped = true
    · simp [wakes]
    · simp [wakes]

theorem expire_of_fires {s : Scheduler} {now i : Nat} (fires : (s.expire now i).2.isSome = true) :
    (s.expire now i).1 = (s.disposeAt i).1 := by
  obtain ⟨e,fires⟩ := Option.isSome_iff_exists.mp fires
  obtain ⟨t,armed,wakes,-,-⟩ := expire_fires.mp fires
  simp [expire, armed, wakes]

theorem expire_idle {s : Scheduler} {now i : Nat} (idle : (s.expire now i).2 = none)
    (live : s.isDisposed i = false) : (s.expire now i).1 = s := by
  unfold expire at idle ⊢
  cases armed : s.timers[i]? with
  | none => rfl
  | some t =>
    have open_ : t.disposed = false := by simpa [isDisposed, armed] using live
    by_cases wakes : t.tick ≤ now ∨ t.stopped = true
    · simp [armed, wakes, disposeAt, open_] at idle
    · simp [wakes]

end Expiry

section Live

/-- The live list has every timer that may fire, and in the order of scheduling. -/
def Kept (s : Scheduler) : Prop :=
  s.live.filter (!s.isDisposed ·) = (List.range s.timers.length).filter (!s.isDisposed ·)

variable {s : Scheduler}

theorem Kept.disposeEach (kept : Kept s) (is : List Nat) : Kept (s.disposeEach is).1 := by
  have narrow (l : List Nat) : l.filter (!(s.disposeEach is).1.isDisposed ·) =
      (l.filter (!s.isDisposed ·)).filter (!is.contains ·) := by
    simp [List.filter_filter, isDisposed_disposeEach, Bool.and_comm]
  simp only [Kept, disposeEach_live, disposeEach_length, narrow]
  rw [kept]

theorem Kept.disposeAt (kept : Kept s) (i : Nat) : Kept (s.disposeAt i).1 :=
  kept.disposeEach [i]

theorem Kept.reap (kept : Kept s) : Kept s.reap := by
  have same (i : Nat) : s.reap.isDisposed i = s.isDisposed i := rfl
  simp only [Kept, same]
  simp only [Scheduler.reap, List.filter_filter, Bool.and_self]
  exact kept

theorem Kept.cancel (kept : Kept s) (id : SendId) : Kept (s.cancel id).1 :=
  (kept.disposeEach _).reap

theorem Kept.disposeAll (kept : Kept s) : Kept s.disposeAll := by
  have kept' := kept.disposeEach s.live
  simp only [Kept, disposeEach_live] at kept'
  have none_left : s.live.filter (!(s.disposeEach s.live).1.isDisposed ·) = [] := by
    apply List.filter_eq_nil_iff.mpr
    intro i within
    simp [isDisposed_disposeEach, within]
  rw [none_left] at kept'
  exact kept'

theorem Kept.mem_live (kept : Kept s) {i : Nat} (within : i < s.timers.length)
    (live : s.isDisposed i = false) : i ∈ s.live := by
  have open_ : i ∈ (List.range s.timers.length).filter (!s.isDisposed ·) := by
    simp [within, live]
  rw [← kept] at open_
  exact (List.mem_filter.mp open_).1

theorem isDisposed_schedule (now : Nat) (e : OutgoingEvent) {i : Nat}
    (old : i < s.timers.length) : (s.schedule now e).isDisposed i = s.isDisposed i := by
  simp [isDisposed, schedule, List.getElem?_append_left old]

theorem lt_length {i : Nat} (live : (!s.isDisposed i) = true) : i < s.timers.length := by
  by_contra beyond
  have missing : s.timers[i]? = none := List.getElem?_eq_none_iff.mpr (by omega)
  simp [isDisposed, missing] at live

theorem Kept.schedule (kept : Kept s) (now : Nat) (e : OutgoingEvent) :
    Kept (s.schedule now e) := by
  have length : (s.schedule now e).timers.length = s.timers.length + 1 := by simp [Scheduler.schedule]
  have live : (s.schedule now e).live = s.reap.live ++ [s.timers.length] := rfl
  have old : s.reap.live.filter (!(s.schedule now e).isDisposed ·) = s.reap.live := by
    apply List.filter_eq_self.mpr
    intro i within
    have open_ := (List.mem_filter.mp within).2
    rw [isDisposed_schedule now e (lt_length open_)]
    exact open_
  have range : (List.range s.timers.length).filter (!(s.schedule now e).isDisposed ·) =
      (List.range s.timers.length).filter (!s.isDisposed ·) := by
    apply List.filter_congr
    intro i within
    rw [isDisposed_schedule now e (List.mem_range.mp within)]
  simp only [Kept, length, live, List.range_succ, List.filter_append, old, range]
  rw [← kept]
  rfl

theorem Kept.expire (kept : Kept s) (now i : Nat) : Kept (s.expire now i).1 := by
  rcases expire_eq s now i with same | same
  · rw [same]
    exact kept
  · rw [same]
    exact kept.disposeAt i

theorem Kept.step (kept : Kept s) (x : Step) : Kept (s.step x) := by
  obtain ⟨now,deed⟩ := x
  cases deed with
  | schedule e => exact kept.schedule now e
  | expire i => exact kept.expire now i
  | cancel id => exact kept.cancel id
  | dispose i => exact kept.disposeAt i
  | disposeAll => exact kept.disposeAll

theorem kept_after (session : SessionId) (past : History) : Kept (after session past) := by
  induction past with
  | nil => rfl
  | cons x past ih => exact ih.step x

end Live

section Account

variable {session : SessionId} {past : History}

/-- The timer of an entry: its task is stopped if and only if it may not fire any more. -/
def armed (ended : Bool) (x : Nat × OutgoingEvent) : Timer :=
  { event := x.2, due := deadline x.1 x.2, disposed := ended, stopped := ended }

/-- A scheduler whose timers are those that a history accounts for. -/
def Accounted (session : SessionId) (past : History) (s : Scheduler) : Prop :=
  ∀ i, s.timers[i]? = (entries past)[i]?.map (armed (isOver session past i))

theorem Accounted.length {s : Scheduler} (accounted : Accounted session past s) :
    s.timers.length = (entries past).length := by
  have none_iff (i : Nat) : s.timers.length ≤ i ↔ (entries past).length ≤ i := by
    rw [← List.getElem?_eq_none_iff, accounted i, Option.map_eq_none_iff,
      List.getElem?_eq_none_iff]
  apply Nat.le_antisymm
  · exact (none_iff _).mpr (Nat.le_refl _)
  · exact (none_iff _).mp (Nat.le_refl _)

theorem Accounted.isDisposed {s : Scheduler} (accounted : Accounted session past s) {i : Nat}
    (within : i < (entries past).length) : s.isDisposed i = isOver session past i := by
  unfold Scheduler.isDisposed
  rw [accounted i, List.getElem?_eq_getElem within]
  rfl

theorem Accounted.bears {s : Scheduler} (accounted : Accounted session past s) (id : SendId)
    (i : Nat) : s.bears id i = hasId past id i := by
  unfold Scheduler.bears hasId
  rw [accounted i]
  cases (entries past)[i]? with
  | none => rfl
  | some x => rfl

theorem isOver_cons (x : Step) (i : Nat) :
    isOver session (x :: past) i = (isOver session past i || (firing session past x).contains i
      || (decide (i < (entries past).length) && silences past x.deed i)) := by
  simp only [isOver, fired, silenced, List.contains_append]
  have here : ((List.range (entries past).length).filter (silences past x.deed)).contains i =
      (decide (i < (entries past).length) && silences past x.deed i) := by
    rw [Bool.eq_iff_iff]
    simp
  rw [here]
  generalize (fired session past).contains i = a
  generalize (silenced past).contains i = b
  generalize (firing session past x).contains i = c
  generalize (decide (i < (entries past).length) && silences past x.deed i) = d
  revert a b c d
  decide

/-- A deed that schedules nothing is accounted for if it disposes of what it fires or silences,
    and else only of what is over. -/
theorem Accounted.dispose {s : Scheduler} (accounted : Accounted session past s) {x : Step}
    (is : List Nat) (same : entries (x :: past) = entries past)
    (ended : ∀ i < (entries past).length,
      isOver session (x :: past) i = (isOver session past i || is.contains i)) :
    Accounted session (x :: past) (s.disposeEach is).1 := by
  intro i
  rw [disposeEach_timer, same, accounted i]
  by_cases beyond : (entries past).length ≤ i
  · simp [List.getElem?_eq_none_iff.mpr beyond]
  · have within : i < (entries past).length := by omega
    rw [List.getElem?_eq_getElem within, ended i within]
    by_cases named : i ∈ is
    · simp [named, armed, Scheduler.dispose]
    · simp [named, armed]

theorem entries_cons (x : Step) : (entries past).length ≤ (entries (x :: past)).length := by
  obtain ⟨now,deed⟩ := x
  cases deed with
  | schedule e => simp [entries]
  | _ => exact Nat.le_refl _

theorem firing_within (accounted : Accounted session past (after session past)) {x : Step}
    {i : Nat} (fires : i ∈ firing session past x) : i < (entries past).length := by
  obtain ⟨now,deed⟩ := x
  cases deed with
  | expire j =>
    simp only [firing] at fires
    split at fires
    · rename_i some_event
      obtain ⟨e,event⟩ := Option.isSome_iff_exists.mp some_event
      obtain ⟨t,armed,-⟩ := expire_fires.mp event
      rw [List.mem_singleton.mp fires, ← accounted.length]
      exact (List.getElem?_eq_some_iff.mp armed).1
    · cases fires
  | _ => cases fires

/-- Nothing is over that has not been scheduled. -/
def Sensible (session : SessionId) (past : History) : Prop :=
  ∀ i, isOver session past i = true → i < (entries past).length

theorem Sensible.step (sensible : Sensible session past)
    (accounted : Accounted session past (after session past)) (x : Step) :
    Sensible session (x :: past) := by
  intro i ended
  apply Nat.lt_of_lt_of_le _ (entries_cons x)
  simp only [isOver_cons, Bool.or_eq_true, Bool.and_eq_true, decide_eq_true_eq,
    List.contains_iff_mem] at ended
  rcases ended with (before | fires) | ⟨within,-⟩
  · exact sensible i before
  · exact firing_within accounted fires
  · exact within

theorem Accounted.listed (accounted : Accounted session past (after session past)) {i : Nat}
    (within : i < (entries past).length) (waits : isOver session past i = false) :
    i ∈ (after session past).live := by
  apply (kept_after session past).mem_live (accounted.length ▸ within)
  rw [accounted.isDisposed within, waits]

theorem Accounted.schedule (sensible : Sensible session past)
    (accounted : Accounted session past (after session past)) (now : Nat) (e : OutgoingEvent) :
    Accounted session (⟨now, .schedule e⟩ :: past) ((after session past).schedule now e) := by
  have same (i : Nat) : isOver session (⟨now, .schedule e⟩ :: past) i = isOver session past i := by
    simp [isOver_cons, firing, silences]
  intro i
  simp only [Scheduler.schedule, entries]
  rcases Nat.lt_trichotomy i (entries past).length with old | here | beyond
  · rw [List.getElem?_append_left (accounted.length ▸ old), List.getElem?_append_left old,
      accounted i, same]
  · have waits : isOver session past i = false := by
      by_contra ended
      have within := sensible i (by simpa using ended)
      omega
    rw [List.getElem?_append_right (by rw [accounted.length]; omega),
      List.getElem?_append_right (by omega)]
    simp [accounted.length, here, armed, same, here ▸ waits]
  · rw [List.getElem?_eq_none_iff.mpr (by simp [accounted.length]; omega),
      List.getElem?_eq_none_iff.mpr (by simp; omega)]
    rfl

theorem Accounted.expire (accounted : Accounted session past (after session past)) (now i : Nat) :
    Accounted session (⟨now, .expire i⟩ :: past) ((after session past).expire now i).1 := by
  cases fires : ((after session past).expire now i).2 with
  | some e =>
    have some_event : ((after session past).expire now i).2.isSome = true := by simp [fires]
    rw [expire_of_fires some_event]
    apply accounted.dispose [i] rfl
    intro j _
    simp [isOver_cons, firing, silences, some_event]
  | none =>
    have same (j : Nat) : isOver session (⟨now, .expire i⟩ :: past) j = isOver session past j := by
      simp [isOver_cons, firing, silences, fires]
    have unchanged : Accounted session (⟨now, .expire i⟩ :: past) (after session past) := by
      apply accounted.dispose [] rfl
      intro j _
      simp [same]
    by_cases waits : (after session past).isDisposed i = false
    · rw [expire_idle fires waits]
      exact unchanged
    · rcases expire_eq (after session past) now i with as_was | disposed
      · rw [as_was]
        exact unchanged
      · -- it had been disposed of before, so it is over
        rw [disposed]
        apply accounted.dispose [i] rfl
        intro j within
        by_cases here : j = i
        · have ended : isOver session past i = true := by
            rw [← accounted.isDisposed (here ▸ within)]
            simpa using waits
          simp [same, here, ended]
        · simp [same, here]

theorem Accounted.cancel (accounted : Accounted session past (after session past)) (now : Nat)
    (id : SendId) :
    Accounted session (⟨now, .cancel id⟩ :: past) ((after session past).cancel id).1 := by
  apply accounted.dispose ((after session past).live.filter ((after session past).bears id)) rfl
  intro i within
  rw [isOver_cons]
  cases waits : isOver session past i with
  | true => simp
  | false => simp [firing, silences, within, accounted.listed within waits, accounted.bears]

theorem Accounted.disposeAt (accounted : Accounted session past (after session past))
    (now i : Nat) :
    Accounted session (⟨now, .dispose i⟩ :: past) ((after session past).disposeAt i).1 := by
  apply accounted.dispose [i] rfl
  intro j within
  simp [isOver_cons, firing, silences, within]

theorem Accounted.disposeAll (accounted : Accounted session past (after session past))
    (now : Nat) :
    Accounted session (⟨now, .disposeAll⟩ :: past) (after session past).disposeAll := by
  apply accounted.dispose (after session past).live rfl
  intro i within
  rw [isOver_cons]
  cases waits : isOver session past i with
  | true => simp
  | false => simp [firing, silences, within, accounted.listed within waits]

theorem Accounted.step (sensible : Sensible session past)
    (accounted : Accounted session past (after session past)) (x : Step) :
    Accounted session (x :: past) (after session (x :: past)) := by
  obtain ⟨now,deed⟩ := x
  cases deed with
  | schedule e => exact accounted.schedule sensible now e
  | expire i => exact accounted.expire now i
  | cancel id => exact accounted.cancel now id
  | dispose i => exact accounted.disposeAt now i
  | disposeAll => exact accounted.disposeAll now

theorem accounted_after (session : SessionId) (past : History) :
    Accounted session past (after session past) ∧ Sensible session past := by
  induction past with
  | nil => exact ⟨fun _ => rfl, fun i ended => by cases ended⟩
  | cons x past ih => exact ⟨.step ih.2 ih.1 x, .step ih.2 ih.1 x⟩

end Account

section Results

variable (session : SessionId) (past : History)

theorem tick_le_iff (t : Timer) (now : Nat) :
    t.tick ≤ now ↔ t.due ≤ now * Delay.nanosPerMilli := by
  have rounded (due : Nat) : (due + 1000000 - 1) / 1000000 ≤ now ↔ due ≤ now * 1000000 := by omega
  exact rounded t.due

/-- The task of a timer fires if and only if its time has come and the entry is not over. -/
theorem expire_fires_iff (now i : Nat) (e : OutgoingEvent) :
    ((after session past).expire now i).2 = some e ↔
      ∃ start, (entries past)[i]? = some (start, e) ∧
        deadline start e ≤ now * Delay.nanosPerMilli ∧ isOver session past i = false := by
  obtain ⟨accounted,-⟩ := accounted_after session past
  rw [expire_fires, accounted i]
  cases (entries past)[i]? with
  | none => simp
  | some x =>
    obtain ⟨start,e'⟩ := x
    have tick := tick_le_iff (armed (isOver session past i) (start, e')) now
    simp only [armed] at tick
    cases ended : isOver session past i with
    | true => simp [armed]
    | false =>
      rw [ended] at tick
      simp only [Option.map_some, Option.some.injEq, exists_eq_left', armed, Prod.mk.injEq, tick]
      simp only [Bool.false_eq_true, or_false, true_and, and_true]
      constructor
      · rintro ⟨due,rfl⟩
        exact ⟨start, ⟨rfl, rfl⟩, due⟩
      · rintro ⟨start',⟨rfl,rfl⟩,due⟩
        exact ⟨due, rfl⟩

theorem live_awaiting :
    (after session past).live.filter (!(after session past).isDisposed ·) =
      awaiting session past := by
  obtain ⟨accounted,-⟩ := accounted_after session past
  rw [kept_after session past, accounted.length]
  apply List.filter_congr
  intro i within
  rw [accounted.isDisposed (List.mem_range.mp within)]

/-- When all that is due fires, timers expire one by one. -/
theorem fireUpTo_expires (now count : Nat) (out : List OutgoingEvent) :
    ∃ later : History, (∀ x ∈ later, ∃ i, x = ⟨now, .expire i⟩) ∧
      (fireUpTo now count (after session past) out).1 = after session (later ++ past) := by
  induction count generalizing past out with
  | zero => exact ⟨[], by simp, rfl⟩
  | succ count ih =>
    unfold fireUpTo
    split
    · rename_i i t first
      split
      · obtain ⟨later,expire,same⟩ :=
          ih (⟨now, .expire i⟩ :: past) (out ++ ((after session past).expire now i).2.toList)
        refine ⟨later ++ [⟨now, .expire i⟩], ?_, ?_⟩
        · intro x within
          rcases List.mem_append.mp within with among | last
          · exact expire x among
          · exact ⟨i, List.mem_singleton.mp last⟩
        · rw [List.append_assoc]
          exact same
      · exact ⟨[], by simp, rfl⟩
    · exact ⟨[], by simp, rfl⟩

theorem fired_nodup : (fired session past).Nodup := by
  induction past with
  | nil => exact List.nodup_nil
  | cons x past ih =>
    simp only [fired]
    obtain ⟨now,deed⟩ := x
    cases deed with
    | expire i =>
      simp only [firing]
      split
      · rename_i some_event
        obtain ⟨e,fires⟩ := Option.isSome_iff_exists.mp some_event
        obtain ⟨_,-,-,waits⟩ := (expire_fires_iff session past now i e).mp fires
        have fresh : i ∉ fired session past := by
          intro before
          simp [isOver, before] at waits
        exact List.nodup_cons.mpr ⟨fresh, ih⟩
      · exact ih
    | _ => exact ih

theorem cancelled_eq (id : SendId) :
    ((after session past).live.filter ((after session past).bears id)).filter
      (!(after session past).isDisposed ·) = (awaiting session past).filter (hasId past id) := by
  obtain ⟨accounted,-⟩ := accounted_after session past
  rw [← live_awaiting, List.filter_filter, List.filter_filter]
  apply List.filter_congr
  intro i _
  rw [accounted.bears, Bool.and_comm]

theorem cancel_count (id : SendId) :
    ((after session past).cancel id).2 = ((awaiting session past).filter (hasId past id)).length := by
  have distinct : ((awaiting session past).filter (hasId past id)).Nodup :=
    (List.nodup_range.filter _).filter _
  rw [← cancelled_eq] at distinct ⊢
  exact disposeEach_count distinct

theorem cancel_others (id : SendId) {i : Nat}
    (other : i ∉ (awaiting session past).filter (hasId past id)) :
    ((after session past).cancel id).1.timers[i]? = (after session past).timers[i]? := by
  obtain ⟨accounted,-⟩ := accounted_after session past
  rw [← cancelled_eq] at other
  have timers : ((after session past).cancel id).1.timers =
    ((after session past).disposeEach
      ((after session past).live.filter ((after session past).bears id))).1.timers := rfl
  rw [timers, disposeEach_timer]
  split
  · rename_i named
    have ended : (after session past).isDisposed i = true := by
      by_contra live
      exact other (List.mem_filter.mpr ⟨named, by simpa using live⟩)
    rw [accounted i]
    cases entry : (entries past)[i]? with
    | none => rfl
    | some x =>
      obtain ⟨within,-⟩ := List.getElem?_eq_some_iff.mp entry
      rw [accounted.isDisposed within] at ended
      simp [armed, ended, Scheduler.dispose]
  · rfl

/-- A delayed send fires at most once, not before its time, and not once it has been silenced. Its
    time is its delay after it was scheduled, or a year if the clock cannot add that much. Letting all
    that is due fire is to let timers expire one by one. Cancelling counts and silences just the
    awaiting entries of the send id. All awaiting entries are in the live list, and they are those
    counted as pending. -/
theorem fires_once_unless_silenced :
    (fired session past).Nodup ∧
    (∀ now i e, ((after session past).expire now i).2 = some e ↔
      ∃ start, (entries past)[i]? = some (start, e) ∧
        deadline start e ≤ now * Delay.nanosPerMilli ∧
        i ∉ fired session past ∧ i ∉ silenced past) ∧
    (∀ id, ((after session past).cancel id).2 =
        ((awaiting session past).filter (hasId past id)).length ∧
      ∀ i, i ∉ (awaiting session past).filter (hasId past id) →
        ((after session past).cancel id).1.timers[i]? = (after session past).timers[i]?) ∧
    (∀ i ∈ awaiting session past, i ∈ (after session past).live) ∧
    (after session past).pending = (awaiting session past).length ∧
    (∀ start (e : OutgoingEvent), e.delay < longestAddable →
      deadline start e = start * Delay.nanosPerMilli + e.delay) ∧
    (∀ start (e : OutgoingEvent), longestAddable ≤ e.delay →
      deadline start e = start * Delay.nanosPerMilli + Delay.longest) ∧
    ∀ now, ∃ later : History, (∀ x ∈ later, ∃ i, x = ⟨now, .expire i⟩) ∧
      ((after session past).fire now).1 = after session (later ++ past) := by
  refine ⟨fired_nodup session past, ?_, ?_, ?_, ?_, fun _ _ => deadline_addable,
    fun _ _ => deadline_longest, fun now => fireUpTo_expires session past now _ []⟩
  · intro now i e
    rw [expire_fires_iff]
    simp [isOver]
  · intro id
    exact ⟨cancel_count session past id, fun i other => cancel_others session past id other⟩
  · intro i waits
    rw [← live_awaiting] at waits
    exact (List.mem_filter.mp waits).1
  · unfold pending
    rw [live_awaiting]

end Results

end Statechart.Scheduler

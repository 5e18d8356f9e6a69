import Statechart.Proofs.Machine.Showing
import Statechart.Proofs.Router.Mail

/- What a session sees of the data that was sent to it.

   A letter goes about with the value that was put into it. The value is copied when the event is
   shown to the session that takes it in, and not before: the session sees what its containers hold
   by then. -/
namespace Statechart

namespace Router

variable {r : Router} {id : SessionId} {e : Event} {n n' : Machine}

/-- In its turn a session takes in an event from outside or from its queue. The event is shown to
    the machine `n`, which leads to `n'`. -/
inductive Shows (r : Router) (id : SessionId) (e : Event) : Machine → Machine → Prop where
  | external {m n' : Machine} (receives : r.received? id = some (m, e))
      (bound : MachineM.bindEvent e { m with steps := 0 } = .ok () n') :
      Shows r id e { m with steps := 0 } n'
  | internal {s : Session} {m k n' : Machine} {rest more : List Event}
      (found : r.session? id = some s) (active : s.phase = .active m)
      (control : m.control = .macrostep) (going : m.context.done = false)
      (spared : s.doomed = false) (queue : m.context.internalQueue = e :: rest)
      (nothing : MachineM.selectTransitions none (RouterM.current r s m) = .ok [] k)
      (queued : k.context.internalQueue = e :: more)
      (bound : MachineM.bindEvent e
        { k with context := { k.context with internalQueue := more } } = .ok () n') :
      Shows r id e { k with context := { k.context with internalQueue := more } } n'

theorem Shows.bound (shows : r.Shows id e n n') : MachineM.bindEvent e n = .ok () n' := by
  cases shows with
  | external _ bound => exact bound
  | internal _ _ _ _ _ _ _ _ bound => exact bound

theorem holds_of_input? {s taken : Session} (next : RouterM.input? s = some (.event e, taken)) :
    s.Holds e.letter := by
  unfold RouterM.input? RouterM.nextEvent? at next
  split at next
  · cases next
  · split at next
    · cases next
    · cases woken : s.wakeEvent with
      | some f =>
        simp only [woken] at next
        cases next
        exact .woken e woken
      | none =>
        cases sent : s.mailbox with
        | cons f rest =>
          simp only [woken, sent] at next
          cases next
          exact .mailbox e (sent ▸ List.mem_cons_self)
        | nil =>
          simp only [woken, sent] at next
          split at next
          · cases next
          · cases next

theorem Shows.holds (shows : r.Shows id e n n') : r.Holds e.letter := by
  cases shows with
  | external receives _ =>
    unfold received? at receives
    cases found : r.session? id with
    | none =>
      simp only [found] at receives
      cases receives
    | some s =>
      simp only [found] at receives
      split at receives
      · rename_i m' e' taken phase next
        split at receives
        · cases receives
          exact ⟨s, List.mem_of_find?_eq_some found, holds_of_input? next⟩
        · cases receives
      · cases receives
  | @internal s m _ _ rest _ found active _ _ _ queue _ _ _ =>
    refine ⟨s, List.mem_of_find?_eq_some found, .machine m active _ (List.mem_append_left _ ?_)⟩
    exact List.mem_map.mpr ⟨e, queue ▸ List.mem_cons_self, rfl⟩

/-- Whatever tasks take turns and whatever comes from outside, an event that a session takes in has
    been underway without a break, with the data that was put into it, since it came out of the
    machine that sent it (unless it is a report or from outside). Its data is shown as it reads when
    it is taken in; so what a send action put into it is shown as it read then, if its containers
    have been left alone. -/
theorem payload_read_when_shown {run : List (Option Task × Router)}
    (happens : Throughout Takes r run) (shows : (after r run).Shows id e n n')
    (sound : n.heap.Sound) (finds : n.heap.Finds e.data) :
    r.Traced run e.letter ∧
    (∀ j, n'.heap.toJson n'.eventData = .ok j ↔ n.heap.toJson e.data = .ok j) ∧
    ∀ s w w', MachineM.send s w = .ok () w' → ∃ l k, MachineM.compose s w = .ok l k ∧
      l ∈ w'.letters ∧ (l = e.letter → k.heap.Leaves l.data n.heap → ∀ j,
        k.heap.toJson l.data = .ok j → n'.heap.toJson n'.eventData = .ok j) := by
  have shown := MachineM.bindEvent_shows sound finds shows.bound
  refine ⟨traced happens shows.holds, shown, fun s w w' sends => ?_⟩
  obtain ⟨l,k,_,composed,_,posted,_⟩ := MachineM.send_ok sends
  refine ⟨l, k, composed, posted.mem, fun same alone j before => ?_⟩
  subst same
  exact (shown j).mpr (alone.toJson sound.intact finds before)

end Router

namespace LatePayload

open Source Router

def note (event : String) (content : Option String) : ActionDef :=
  .send ⟨some event, none, none, none, none, none, none, none, none, [],
    content.map fun text => ⟨some text, none⟩⟩

/-- A session that sends itself an object, and changes the object when it is told to. -/
def sender (first : List ActionDef) : ChartDef where
  name := none
  initial := none
  data := [⟨"obj", ⟨none, some (.object [("x", .string "old")])⟩⟩]
  extra := none
  states :=
    [.mk { StateInfo.simple "a" .state
        [⟨some ["change"], none, none, .external, [.assign "obj.x" ⟨some "'new'", none⟩]⟩,
         ⟨some ["e"], none, some ["b"], .external, []⟩] with
        onEntry := first ++ [note "e" (some "obj")] } [],
     .mk (.simple "b" .state []) []]

def self : SessionId := idText 0

/-- The session has sent the object. -/
def sent (first : List ActionDef) : Router := ((do
  discard (RouterM.startSession
    (← RouterM.createSession (Chart.compiled [] (sender first)) none none)).run
  discard (RouterM.turn (.session self)) : RouterM Unit) { settings := {} }).2

def turns : Nat → Router → List (Option Task × Router)
  | 0, _ => []
  | n + 1, r =>
    let q := (RouterM.turn (.session self) r).2
    (some (.session self), q) :: turns n q

theorem throughout_turns (n : Nat) (r : Router) : Throughout Takes r (turns n r) := by
  induction n generalizing r with
  | zero => trivial
  | succ n ih => exact ⟨rfl, ih _⟩

/-- The text under `x` in the data of an object. -/
def text? (h : Heap) (v : Value) : Option String :=
  ((h.toJson v).toOption.bind (·.field? "x")).bind (·.string?)

theorem toJson_of_text? {h : Heap} {v : Value} {text : String} (reads : text? h v = some text) :
    ∃ j, h.toJson v = .ok j ∧ (j.field? "x").bind (·.string?) = some text := by
  unfold text? at reads
  cases unfolded : h.toJson v with
  | error e =>
    rw [unfolded] at reads
    cases reads
  | ok j =>
    rw [unfolded] at reads
    exact ⟨j, rfl, reads⟩

def shown? (m : Machine) (e : Event) : Option Machine :=
  match MachineM.bindEvent e { m with steps := 0 } with
  | .ok _ n => some n
  | .error _ _ => none

theorem shows_of_shown? {r : Router} {m n : Machine} {e : Event}
    (receives : r.received? self = some (m, e)) (shown : shown? m e = some n) :
    r.Shows self e { m with steps := 0 } n := by
  unfold shown? at shown
  split at shown
  · rename_i bound
    cases shown
    exact .external receives bound
  · cases shown

/-- An object that is left alone is shown as it was sent. -/
theorem unchanged_payload_kept : ∃ m e n j,
    (after (sent []) (turns 3 (sent []))).Shows self e m n ∧ m.heap.toJson e.data = .ok j ∧
    n.heap.toJson n.eventData = .ok j ∧ (j.field? "x").bind (·.string?) = some "old" := by
  have checked : ((after (sent []) (turns 3 (sent []))).received? self).any (fun p =>
      (shown? p.1 p.2).isSome && p.1.heap.isSound && decide (p.1.heap.Finds p.2.data) &&
        text? p.1.heap p.2.data == some "old") = true := by
    decide +kernel
  obtain ⟨⟨m,e⟩,receives,checks⟩ := (Option.any_eq_true _ _).mp checked
  simp only [Bool.and_eq_true, beq_iff_eq, decide_eq_true_eq] at checks
  obtain ⟨⟨⟨bound,sound⟩,finds⟩,reads⟩ := checks
  obtain ⟨n,shown⟩ := Option.isSome_iff_exists.mp bound
  obtain ⟨j,before,text⟩ := toJson_of_text? reads
  have shows := shows_of_shown? receives shown
  have kept := payload_read_when_shown (throughout_turns 3 (sent [])) shows
    (Heap.sound_of_isSound sound) finds
  exact ⟨_, e, n, j, shows, before, (kept.2.1 j).mpr before, text⟩

def letters (r : Router) : List Letter :=
  match r.session? self with
  | some { phase := .active m, .. } => m.letters
  | _ => []

theorem holds_of_letters {r : Router} {l : Letter} (carried : l ∈ letters r) : r.Holds l := by
  unfold letters at carried
  split at carried
  · rename_i found
    exact ⟨_, List.mem_of_find?_eq_some found, .machine _ rfl l carried⟩
  · cases carried

def sameLetter (l l' : Letter) : Bool :=
  l.name == l'.name && l.data.typeName == l'.data.typeName && l.data.ref?.isSome &&
    l.data.ref? == l'.data.ref?

theorem eq_of_sameLetter {l l' : Letter} (same : sameLetter l l' = true) : l = l' := by
  obtain ⟨name,data⟩ := l
  obtain ⟨name',data'⟩ := l'
  simp only [sameLetter, Bool.and_eq_true, beq_iff_eq] at same
  obtain ⟨⟨⟨rfl,kind⟩,present⟩,own⟩ := same
  cases data <;> cases data' <;> simp_all [Value.ref?, Value.typeName]

def changing : List ActionDef := [note "change" none]

/-- A change that is made after an object was sent is seen by whoever takes it in later. -/
theorem changed_payload_leaks : ∃ m e n j j',
    (sent changing).Holds e.letter ∧ (sent changing).memory.heap.toJson e.data = .ok j ∧
    (j.field? "x").bind (·.string?) = some "old" ∧
    (after (sent changing) (turns 7 (sent changing))).Shows self e m n ∧
    n.heap.toJson n.eventData = .ok j' ∧ (j'.field? "x").bind (·.string?) = some "new" := by
  have checked : ((after (sent changing) (turns 7 (sent changing))).received? self).any (fun p =>
      (letters (sent changing)).any (sameLetter · p.2.letter) &&
      text? (sent changing).memory.heap p.2.data == some "old" &&
      (shown? p.1 p.2).any (fun n => text? n.heap n.eventData == some "new")) = true := by
    decide +kernel
  obtain ⟨⟨m,e⟩,receives,checks⟩ := (Option.any_eq_true _ _).mp checked
  simp only [Bool.and_eq_true, beq_iff_eq, List.any_eq_true, Option.any_eq_true] at checks
  obtain ⟨⟨⟨l,carried,same⟩,reads⟩,n,shown,reads'⟩ := checks
  obtain ⟨j,before,old⟩ := toJson_of_text? reads
  obtain ⟨j',afterwards,new⟩ := toJson_of_text? reads'
  rw [eq_of_sameLetter same] at carried
  exact ⟨_, e, n, j, j', holds_of_letters carried, before, old, shows_of_shown? receives shown,
    afterwards, new⟩

end LatePayload

end Statechart

import Statechart.Proofs.Machine.Parts

/- The letters that a machine has with it, and how sending and showing events go about them.

   A send action composes a letter and puts it into the internal queue or among the effects. The
   value in it is the one that the content or the parameters evaluated to, not a copy. -/
namespace Statechart

/-- What an event carries. -/
structure Letter where
  name : EventName
  data : Value

def Event.letter (e : Event) : Letter := ⟨e.name, e.data⟩

def OutgoingEvent.letter (e : OutgoingEvent) : Letter := ⟨e.name, e.data⟩

def Effect.letter? : Effect → Option Letter
  | .send e => some e.letter
  | .forward _ e => some e.letter
  | .cancel _ | .cancelInvoke _ => none

namespace Machine

/-- The letters that a machine has yet to take in or to send off. -/
def letters (m : Machine) : List Letter :=
  m.context.internalQueue.map Event.letter ++ m.effects.filterMap Effect.letter?

end Machine

namespace MachineM

open Machine

/-- The letter that a send action composes before anything is posted. -/
def compose (s : SendAction) : MachineM Letter := do
  let name ← sendName s
  let _ ← textOf "targetexpr" s.target s.targetExpr
  let _ ← sendDelay s
  let data ← payload s.content s.params
  return ⟨name, data⟩

/-- A letter has been put at the end of the internal queue or of the effects. -/
inductive Posted (m : Machine) (l : Letter) : Machine → Prop where
  | inside (e : Event) (same : e.letter = l) : Posted m l (m.enqueue e)
  | outside (e : OutgoingEvent) (same : e.letter = l) : Posted m l (m.emit (.send e))

theorem Posted.mem {m m' : Machine} {l : Letter} (posted : Posted m l m') : l ∈ m'.letters := by
  cases posted with
  | inside e same =>
    subst same
    exact List.mem_append_left _
      (List.mem_map.mpr ⟨e, List.mem_append_right _ List.mem_cons_self, rfl⟩)
  | outside e same =>
    subst same
    exact List.mem_append_right _
      (List.mem_filterMap.mpr ⟨_, List.mem_append_right _ List.mem_cons_self, rfl⟩)

theorem sendIdOf_heap {s : SendAction} {delay : Nanos} {m m' : Machine} {id : Option SendId}
    (run : sendIdOf s delay m = .ok id m') : m'.heap = m.heap := by
  unfold sendIdOf at run
  cases given : s.id with
  | some id =>
    rw [given] at run
    cases run
    rfl
  | none =>
    cases stored : s.idLocation with
    | some location =>
      rw [given, stored] at run
      cases run
      rfl
    | none =>
      rw [given, stored] at run
      by_cases later : delay ≠ 0
      · rw [if_pos later] at run
        cases run
        rfl
      · rw [if_neg later] at run
        cases run
        rfl

/-- A send action that succeeds posts the letter that it has composed. In between it makes up an id,
    and writes to the heap only to store that. -/
theorem send_ok {s : SendAction} {m m' : Machine} (run : send s m = .ok () m') :
    ∃ l n k, compose s m = .ok l n ∧ n.Drifts k ∧ Posted k l m' ∧
      (s.idLocation = none → m'.heap = n.heap) := by
  obtain ⟨name,n₁,named,run⟩ := bind_eq_ok run
  obtain ⟨target,n₂,aimed,run⟩ := bind_eq_ok run
  obtain ⟨delay,n₃,delayed,run⟩ := bind_eq_ok run
  obtain ⟨data,n₄,paid,run⟩ := bind_eq_ok run
  obtain ⟨sendId,n₅,identified,run⟩ := bind_eq_ok run
  have composed : compose s m = .ok ⟨name, data⟩ n₄ := by
    unfold compose
    rw [bind_of_ok _ named, bind_of_ok _ aimed, bind_of_ok _ delayed, bind_of_ok _ paid]
    rfl
  have given : n₄.Drifts n₅ := (sendIdOf_frames (P := never) s delay n₄).of_ok identified
  have heap : n₅.heap = n₄.heap := sendIdOf_heap identified
  have posting : ∀ k, (if target = some internalTarget then
      if delay ≠ 0 then fail (.execution "delayed send to #_internal is not supported")
      else update fun m => m.enqueue { name, type := .internal, sendId, data }
    else update fun m => m.emit (.send { name, sendId, target, type := s.type, delay, data }) :
      MachineM Unit) k = .ok () m' → Posted k ⟨name, data⟩ m' ∧ m'.heap = k.heap := by
    intro k posted
    split at posted
    · split at posted
      · cases posted
      · cases posted
        exact ⟨.inside _ rfl, rfl⟩
    · cases posted
      exact ⟨.outside _ rfl, rfl⟩
  cases stored : s.idLocation with
  | none =>
    rw [stored] at run
    obtain ⟨posted,same⟩ := posting n₅ run
    exact ⟨_, n₄, n₅, composed, given, posted, fun _ => same.trans heap⟩
  | some location =>
    rw [stored] at run
    cases sendId with
    | none => exact ⟨_, n₄, n₅, composed, given, (posting n₅ run).1, fun none => by cases none⟩
    | some id =>
      obtain ⟨_,k,assigned,posted⟩ := bind_eq_ok run
      have kept : n₅.Drifts k :=
        (assign_frames (P := onlyFailure) location _ n₅).of_ok assigned
      exact ⟨_, n₄, k, composed, given.trans kept, (posting k posted).1, fun none => by cases none⟩

end MachineM

end Statechart

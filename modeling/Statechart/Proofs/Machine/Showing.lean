import Statechart.Proofs.Machine.Parts
import Statechart.Proofs.Value.Soundness

/- What the data model shows of an event. Its data is a constant copy, made when the event is taken
   in, so it reads as the data does at that time. -/
namespace Statechart

namespace Heap

variable {p : Pairing} {h h' k : Heap} {v w : Value} {r s : Nat} {c : Cell} {target : Access}

theorem Sound.ofFailure (sound : h.Sound) (f : Failure) : (Event.ofFailure h f).1.Sound := by
  refine sound.alloc (c := .object ⟨.writable, [("message", ⟨.string f.message, false⟩)], none⟩)
    (by simp [Cell.access]) fun v held => ?_
  cases List.mem_singleton.mp held
  trivial

theorem Intact.toJson_extend (intact : h.Intact) (grown : h.Extends k) (intact' : k.Intact)
    (finds : h.Finds v) {j : Json} : h.toJson v = .ok j ↔ k.toJson v = .ok j := by
  have closed : h.Closed := by
    rintro r s ⟨v,held,own⟩
    exact (intact r v held).lt_size own
  have simulates : Simulates (fun r s => r = s ∧ r < h.size) h k := (closed.corresponds grown).cells
  refine simulates.toJson ?_ intact finds intact' (finds.extend grown)
  cases v with
  | object r => exact .object ⟨rfl, finds.lt_size rfl⟩
  | array r => exact .array ⟨rfl, finds.lt_size rfl⟩
  | _ => constructor

theorem Replica.alloc (replica : Replica target p h v k w) (finds : ∀ v ∈ c.values, k.Finds v) :
    Replica target p h v (k.alloc c).1 w := by
  have grown := extends_alloc k c
  have there : ∀ r s, p r s → s < k.size := by
    intro r s pair
    obtain ⟨_,_,_,found,_⟩ := replica.simulates pair
    exact lt_size_of_cell found
  refine ⟨replica.grown.trans grown, replica.intact.alloc finds, ?_, replica.like,
    replica.finds.extend grown, fun r s pair => ?_⟩
  · intro r s pair
    obtain ⟨c,d,here,found,like⟩ := replica.simulates pair
    exact ⟨c, d, here, grown s d found, like⟩
  · rw [access_extend grown (there r s pair)]
    exact replica.level r s pair

theorem toObject_replica (sound : h.Sound) {e : Event} (finds : h.Finds e.data) : ∃ p w o,
    Replica .constant p h e.data (e.toObject h).1 w ∧
      (e.toObject h).1.cell? (e.toObject h).2 = some (.object o) ∧ o.access = .constant ∧
      lookupEntry "data" o.entries = some ⟨w, false⟩ := by
  obtain ⟨p,replica⟩ := deepClone_replica sound finds .constant
  refine ⟨p, _, _, replica.alloc fun v held => ?_, cell?_alloc _ _, rfl, rfl⟩
  have plain : ∀ t : Option String,
      (h.deepClone e.data .constant).1.Finds (Event.textOrUndefined t) := by
    rintro (_ | _)
    · trivial
    · trivial
  simp only [Cell.values, List.map_cons, List.map_nil, List.mem_cons, List.not_mem_nil,
    or_false] at held
  rcases held with rfl | rfl | rfl | rfl | rfl | rfl | rfl
  · trivial
  · trivial
  · exact plain _
  · exact plain _
  · exact plain _
  · exact plain _
  · exact replica.finds

end Heap

namespace Machine

variable {m m' : Machine} {e : Event}

def eventData (m : Machine) : Value :=
  m.heap.getPath (.object m.context.dataModel) ["_event", "data"]

theorem trace_heap (m : Machine) (r : TraceRecord) :
    (m.trace r).heap = m.heap ∨ ∃ f, (m.trace r).heap = (Event.ofFailure m.heap f).1 := by
  unfold trace
  split
  · exact Or.inl rfl
  · simp only
    split
    · exact Or.inr ⟨_, rfl⟩
    · exact Or.inl rfl

theorem trace_sound (sound : m.heap.Sound) (r : TraceRecord) :
    m.heap.Extends (m.trace r).heap ∧ (m.trace r).heap.Sound := by
  rcases m.trace_heap r with same | ⟨f,same⟩
  · rw [same]
    exact ⟨.refl _, sound⟩
  · rw [same]
    exact ⟨MachineM.extends_ofFailure _ f, sound.ofFailure f⟩

end Machine

namespace MachineM

open Machine

variable {m m' : Machine} {e : Event}

theorem bindEvent_ok (run : bindEvent e m = .ok () m') :
    m'.context.dataModel = m.context.dataModel ∧
      (e.toObject (m.trace (.event e.type e.name)).heap).1.define m.context.dataModel "_event"
        (.object (e.toObject (m.trace (.event e.type e.name)).heap).2) true = .ok m'.heap := by
  have framed := Frames.eq_of_ok (P := refused) (bindEvent_frames e) run
  refine ⟨congrArg (fun m => m.context.dataModel) framed, ?_⟩
  obtain ⟨_,n,traced,run⟩ := bind_eq_ok run
  cases traced
  have data : (m.trace (.event e.type e.name)).context.dataModel = m.context.dataModel :=
    congrArg (fun m => m.context.dataModel)
      (Machine.Drifts.frame (Growing.trace m (.event e.type e.name)))
  rw [← data]
  beta_reduce at run
  generalize m.trace (.event e.type e.name) = n at run
  replace run : requireHeap (fun h => h.define n.context.dataModel "_event"
    (.object (e.toObject n.heap).2) true) (n.withHeap (e.toObject n.heap).1) = .ok () m' := run
  unfold requireHeap at run
  split at run
  · rename_i h defined
    cases run
    exact defined
  · cases run

theorem bindEvent_shows (sound : m.heap.Sound) (finds : m.heap.Finds e.data)
    (run : bindEvent e m = .ok () m') (j : Json) :
    m'.heap.toJson m'.eventData = .ok j ↔ m.heap.toJson e.data = .ok j := by
  obtain ⟨data,run⟩ := bindEvent_ok run
  obtain ⟨grown,sound'⟩ := trace_sound sound (.event e.type e.name)
  generalize (m.trace (.event e.type e.name)).heap = h at grown sound' run
  obtain ⟨p,w,o,replica,shown,constant,held⟩ := Heap.toObject_replica sound' (finds.extend grown)
  obtain ⟨d,written⟩ := Heap.writeEntry_ok run
  generalize (e.toObject h).1 = k at replica shown written
  generalize (e.toObject h).2 = r at shown written
  -- The data model is not constant, so it is neither the event nor part of the copy.
  have apart : ∀ s, k.access s = .constant → s ≠ m.context.dataModel := by
    rintro s level rfl
    exact written.open' ((Heap.access_of_cell written.before).symm.trans level)
  have bound : m'.heap.get m.context.dataModel "_event" = .object r := by
    unfold Heap.get Heap.slot?
    rw [Heap.object?, written.after]
    simp [ObjectCell.get?, lookupEntry_insertEntry]
  have event : m'.heap.get r "data" = w := by
    unfold Heap.get Heap.slot?
    have other := apart r ((Heap.access_of_cell shown).trans constant)
    rw [Heap.object?, written.others r other, shown]
    simp [ObjectCell.get?, held]
  have same : m'.eventData = w := by
    simp only [eventData, Heap.getPath, data, bound, event]
  have simulates : Heap.Simulates p h m'.heap :=
    Heap.Simulates.kept replica.simulates fun a b pair =>
      written.others b (apart b (replica.level a b pair))
  have intact := written.intact replica.intact ⟨o, shown⟩
  rw [same, sound.intact.toJson_extend grown sound'.intact finds]
  exact (simulates.toJson replica.like sound'.intact (finds.extend grown) intact
    (written.finds replica.finds)).symm

end MachineM

end Statechart

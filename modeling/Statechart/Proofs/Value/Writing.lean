import Statechart.Proofs.Value.Building

/- Writing to a container. The others stay as they are. -/
namespace Statechart

theorem lookupEntry_insertEntry (key k : String) (slot : Slot) (entries : List (String × Slot)) :
    lookupEntry k (insertEntry key slot entries) =
      if key = k then some slot else lookupEntry k entries := by
  induction entries with
  | nil => rfl
  | cons e rest ih =>
    rw [insertEntry]
    split
    · rename_i here
      rw [lookupEntry, lookupEntry, here]
      split
      · rfl
      · rfl
    · rename_i other
      rw [lookupEntry, lookupEntry, ih]
      by_cases here : e.1 = k
      · rw [if_pos here, if_pos here, if_neg fun same => other (here.trans same.symm)]
      · rw [if_neg here, if_neg here]

namespace Heap

variable {h h' h₀ k k' : Heap} {r s : Nat} {entries : List (String × Slot)}

@[simp] theorem cell?_report (h : Heap) (watcher : Option String)
    (changes : List (Bool × String × Value)) (r : Ref) :
    (h.report watcher changes).cell? r = h.cell? r := by
  unfold report
  split <;> rfl

theorem cell?_write_of_ne (h : Heap) (c : Cell) (other : r ≠ s) :
    (h.write r c).cell? s = h.cell? s :=
  Array.getElem?_setIfInBounds_ne other

theorem cell?_write (inside : r < h.size) (c : Cell) : (h.write r c).cell? r = some c :=
  Array.getElem?_setIfInBounds_self_of_lt inside

/-- What is written to a new container does not touch the others. -/
theorem Extends.set {key : String} {v : Value} (grown : h₀.Extends h) (new : h₀.size ≤ r)
    (run : h.set r key v = .ok h') : h₀.Extends h' := by
  unfold Heap.set writeEntry at run
  split at run
  · cases run
  · split at run
    · cases run
    · cases run
      intro q c found
      have other : r ≠ q := by
        have inside : q < h₀.size := lt_size_of_cell found
        exact fun same => absurd new (by rw [same]; exact Nat.not_le.mpr inside)
      rw [cell?_report, cell?_write_of_ne h _ other]
      exact grown q c found

/-- The object at `r` is writable, unwatched and has the entries; the rest is as in `k`. -/
structure Rewrites (r : Ref) (k : Heap) (entries : List (String × Slot)) (k' : Heap) : Prop where
  object : k'.object? r = some ⟨.writable, entries, none⟩
  others : ∀ s, s ≠ r → k'.cell? s = k.cell? s

theorem lt_size_of_object {o : ObjectCell} (found : h.object? r = some o) : r < h.size := by
  unfold object? at found
  split at found
  · rename_i there
    exact lt_size_of_cell there
  · cases found

theorem Rewrites.writeEntry (rewrites : Rewrites r k entries k') (key : String) (slot : Slot)
    (checked : Bool) (allowed : checked = true → lookupEntry key entries = none) :
    ∃ k'', k'.writeEntry r key slot checked = .ok k'' ∧
      Rewrites r k (insertEntry key slot entries) k'' := by
  have free : (checked && !ObjectCell.canSet ⟨.writable, entries, none⟩ key) = false := by
    cases checked with
    | false => rfl
    | true => simp [ObjectCell.canSet, ObjectCell.get?, allowed rfl]
  refine ⟨k'.write r (.object ⟨.writable, insertEntry key slot entries, none⟩), ?_, ?_, ?_⟩
  · unfold Heap.writeEntry
    rw [rewrites.object]
    simp only [free]
    rfl
  · rw [object?, cell?_write (lt_size_of_object rewrites.object)]
  · intro s other
    rw [cell?_write_of_ne k' _ other.symm]
    exact rewrites.others s other

end Heap

end Statechart

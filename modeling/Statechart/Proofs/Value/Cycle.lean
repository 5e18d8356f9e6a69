import Mathlib.Data.List.Perm.Subperm
import Mathlib.Logic.Relation
import Statechart.Proofs.Value.Building

/- Containers inside themselves. A value unfolds to a tree unless it reaches a container that holds
   itself: the walk carries the containers it is inside of, which are all different, so it does not
   run out of depth. -/
namespace Statechart

def Value.ref? : Value → Option Ref
  | .object r | .array r => some r
  | _ => none

namespace Heap

variable {h : Heap} {v : Value} {r s : Nat} {path : List Ref}

/-- The container `s` stands directly in the container `r`. -/
def Within (h : Heap) (r s : Ref) : Prop := ∃ v ∈ h.children r, v.ref? = some s

/-- The value reaches a container that holds itself, directly or through others. -/
def ReachesCycle (h : Heap) (v : Value) : Prop :=
  ∃ r s, v.ref? = some r ∧ Relation.ReflTransGen h.Within r s ∧ Relation.TransGen h.Within s s

theorem Within.lt_size (within : h.Within r s) : r < h.size := by
  obtain ⟨v,held,_⟩ := within
  unfold children at held
  split at held
  · rename_i found
    exact lt_size_of_cell found
  · cases held

theorem mem_children_of_entry {key : String} {slot : Slot} (held : (key, slot) ∈ h.entries r) :
    slot.value ∈ h.children r := by
  unfold entries object? at held
  unfold children
  cases cell : h.cell? r with
  | none =>
    rw [cell] at held
    cases held
  | some c =>
    rw [cell] at held
    cases c with
    | array a => cases held
    | object o => exact List.mem_map.mpr ⟨(key, slot), held, rfl⟩

theorem mem_children_of_item {slot : Slot} (held : slot ∈ h.items r) :
    slot.value ∈ h.children r := by
  unfold items array? at held
  unfold children
  cases cell : h.cell? r with
  | none =>
    rw [cell] at held
    cases held
  | some c =>
    rw [cell] at held
    cases c with
    | object o => cases held
    | array a => exact List.mem_map.mpr ⟨slot, held, rfl⟩

theorem ReachesCycle.of_child {w : Value} (held : w ∈ h.children r) (inside : h.ReachesCycle w)
    (outer : v.ref? = some r) : h.ReachesCycle v := by
  obtain ⟨s,t,own,reach,cycle⟩ := inside
  exact ⟨r, t, outer, .head ⟨w, held, own⟩ reach, cycle⟩

/-- The containers that a walk is inside of, the innermost first, with the one it comes to. -/
inductive Trail (h : Heap) : List Ref → Ref → Prop where
  | start (r : Ref) : Trail h [] r
  | step {path : List Ref} {r s : Ref} (trail : Trail h path r) (held : h.Within r s) :
      Trail h (r :: path) s

theorem Trail.reaches (trail : h.Trail path s) : ∀ r ∈ path, Relation.TransGen h.Within r s := by
  induction trail with
  | start => exact fun r hr => by cases hr
  | step _ held ih =>
    intro q hq
    rcases List.mem_cons.mp hq with rfl | outer
    · exact .single held
    · exact (ih q outer).tail held

theorem Trail.lt_size (trail : h.Trail path s) : ∀ r ∈ path, r < h.size := by
  intro r hr
  obtain ⟨t,held,_⟩ := Relation.TransGen.head'_iff.mp (trail.reaches r hr)
  exact held.lt_size

theorem length_le_of_nodup {n : Nat} {path : List Nat} (distinct : path.Nodup)
    (inside : ∀ r ∈ path, r < n) : path.length ≤ n := by
  have subset : path ⊆ List.range n := fun r hr => List.mem_range.mpr (inside r hr)
  have fits := (List.subperm_of_subset distinct subset).length_le
  rwa [List.length_range] at fits

theorem unfoldIn_error {e : ValueError} {depth : Nat}
    (trail : ∀ r, v.ref? = some r → h.Trail path r) (distinct : path.Nodup)
    (deep : h.size + 1 ≤ depth + path.length) (failed : h.unfoldIn depth path v = .error e) :
    h.ReachesCycle v := by
  induction depth generalizing path v e with
  | zero =>
    -- The containers of the walk are different, so there are not that many.
    have short : ∀ r, v.ref? = some r → path.length ≤ h.size := fun r container =>
      length_le_of_nodup distinct (trail r container).lt_size
    cases v with
    | object r =>
      have bound := short r rfl
      omega
    | array r =>
      have bound := short r rfl
      omega
    | _ => cases failed
  | succ depth ih =>
    have again : ∀ r, v.ref? = some r → path.contains r = true → h.ReachesCycle v := by
      intro r container seen
      exact ⟨r, r, container, .refl, (trail r container).reaches r (List.contains_iff_mem.mp seen)⟩
    have inside : ∀ (r : Ref) (w : Value) (e : ValueError), v.ref? = some r →
        path.contains r = false → w ∈ h.children r →
        h.unfoldIn depth (r :: path) w = .error e → h.ReachesCycle v := by
      intro r w e container fresh held error
      have apart : (r :: path).Nodup := List.nodup_cons.mpr ⟨by simpa using fresh, distinct⟩
      refine ReachesCycle.of_child held (ih ?_ apart ?_ error) container
      · exact fun s own => .step (trail r container) ⟨w, held, own⟩
      · rw [List.length_cons]
        omega
    cases v with
    | object r =>
      by_cases seen : path.contains r = true
      · exact again r rfl seen
      · rw [unfoldIn, if_neg seen] at failed
        rcases Except.bind_eq_error failed with fields | ⟨trees,_,failed⟩
        · obtain ⟨⟨k,slot⟩,held,error⟩ := Except.mapM_error fields
          rcases Except.bind_eq_error error with error | ⟨t,_,error⟩
          · exact inside r slot.value e rfl (by simpa using seen) (mem_children_of_entry held) error
          · cases error
        · cases failed
    | array r =>
      by_cases seen : path.contains r = true
      · exact again r rfl seen
      · rw [unfoldIn, if_neg seen] at failed
        cases trees : (h.items r).mapM fun s => h.unfoldIn depth (r :: path) s.value with
        | ok ts =>
          rw [trees] at failed
          cases failed
        | error e' =>
          obtain ⟨slot,held,error⟩ := Except.mapM_error trees
          exact inside r slot.value e' rfl (by simpa using seen) (mem_children_of_item held) error
    | _ => cases failed

theorem reachesCycle_of_toJson_error {e : ValueError} (failed : h.toJson v = .error e) :
    h.ReachesCycle v := by
  unfold toJson at failed
  cases tree : h.unfold v with
  | ok t =>
    rw [tree] at failed
    cases failed
  | error e' => exact unfoldIn_error (fun r _ => .start r) List.nodup_nil (Nat.le_refl _) tree

end Heap

end Statechart

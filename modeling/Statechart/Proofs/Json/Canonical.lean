import Mathlib.Data.List.Perm.Basic
import Statechart.Proofs.Snapshot.Bucket

/- JSON values with ascending keys. Sorting the keys of a value at every level leaves a value that
   is sorted as it is, and sorted is what values become where objects are maps. -/
namespace Statechart

namespace Json

mutual

/-- Keys are in ascending order at every level. -/
def Canonical : Json → Prop
  | .array items => CanonicalItems items
  | .object fields => Ascending fields ∧ CanonicalFields fields
  | _ => True

def CanonicalItems : List Json → Prop
  | [] => True
  | j :: rest => Canonical j ∧ CanonicalItems rest

def CanonicalFields : List (String × Json) → Prop
  | [] => True
  | (_, j) :: rest => Canonical j ∧ CanonicalFields rest

end

theorem canonicalFields_iff {fields : List (String × Json)} :
    CanonicalFields fields ↔ ∀ f ∈ fields, Canonical f.2 := by
  induction fields with
  | nil => simp [CanonicalFields]
  | cons f rest ih =>
    rw [CanonicalFields, ih, List.forall_mem_cons]

theorem mem_insertAll {f : String × Json} {fields acc : List (String × Json)}
    (within : f ∈ insertAll fields acc) : f ∈ fields ∨ f ∈ acc := by
  induction fields generalizing acc with
  | nil => exact Or.inr within
  | cons g rest ih =>
    have within : f ∈ insertAll rest (insertField g.1 g.2 acc) := within
    rcases ih within with later | inserted
    · exact Or.inl (List.mem_cons_of_mem g later)
    · rcases mem_insertField inserted with rfl | old
      · exact Or.inl List.mem_cons_self
      · exact Or.inr old

section Permutation

variable {key : String} {v : Json} {fields acc : List (String × Json)}

theorem insertField_perm (fresh : key ∉ fields.map (·.1)) :
    (insertField key v fields).Perm ((key, v) :: fields) := by
  induction fields with
  | nil => exact .refl _
  | cons f rest ih =>
    rw [List.map_cons, List.mem_cons, not_or] at fresh
    simp only [insertField]
    split
    · exact .refl _
    · rw [if_neg fresh.1]
      exact ((ih fresh.2).cons f).trans (.swap (key, v) f rest)

theorem insertAll_perm (distinct : ((fields ++ acc).map (·.1)).Nodup) :
    (insertAll fields acc).Perm (fields ++ acc) := by
  induction fields generalizing acc with
  | nil => exact .refl _
  | cons f rest ih =>
    obtain ⟨fresh,others⟩ := List.nodup_cons.mp distinct
    have apart : f.1 ∉ acc.map (·.1) := fun within =>
      fresh ((List.sublist_append_right rest acc).map _ |>.subset within)
    have inserted := insertField_perm (v := f.2) apart
    have moved : (rest ++ insertField f.1 f.2 acc).Perm (f :: (rest ++ acc)) :=
      (inserted.append_left rest).trans List.perm_middle
    exact (ih ((moved.map _).nodup_iff.mpr distinct)).trans moved

end Permutation

theorem canonical_mkObject {fields : List (String × Json)} (canonical : CanonicalFields fields) :
    Canonical (mkObject fields) := by
  rw [mkObject_eq, Canonical]
  refine ⟨Ascending.insertAll List.Pairwise.nil fields, canonicalFields_iff.mpr ?_⟩
  intro f within
  rcases mem_insertAll within with own | none
  · exact canonicalFields_iff.mp canonical f own
  · cases none

mutual

/-- The value with its keys in ascending order at every level, of several fields of one key the
    last. -/
def sorted : Json → Json
  | .array items => .array (sortedItems items)
  | .object fields => mkObject (sortedFields fields)
  | j => j

def sortedItems : List Json → List Json
  | [] => []
  | j :: rest => sorted j :: sortedItems rest

def sortedFields : List (String × Json) → List (String × Json)
  | [] => []
  | (k, j) :: rest => (k, sorted j) :: sortedFields rest

end

theorem sortedItems_eq (items : List Json) : sortedItems items = items.map sorted := by
  induction items with
  | nil => rfl
  | cons j rest ih => rw [sortedItems, ih, List.map_cons]

theorem sortedFields_eq (fields : List (String × Json)) :
    sortedFields fields = fields.map fun f => (f.1, f.2.sorted) := by
  induction fields with
  | nil => rfl
  | cons f rest ih => rw [sortedFields, ih, List.map_cons]

mutual

theorem canonical_sorted : ∀ j : Json, j.sorted.Canonical
  | .null => trivial
  | .bool _ => trivial
  | .number _ => trivial
  | .string _ => trivial
  | .array items => canonical_sortedItems items
  | .object fields => canonical_mkObject (canonical_sortedFields fields)

theorem canonical_sortedItems : ∀ items : List Json, CanonicalItems (sortedItems items)
  | [] => trivial
  | j :: rest => ⟨canonical_sorted j, canonical_sortedItems rest⟩

theorem canonical_sortedFields :
    ∀ fields : List (String × Json), CanonicalFields (sortedFields fields)
  | [] => trivial
  | (_, j) :: rest => ⟨canonical_sorted j, canonical_sortedFields rest⟩

end

mutual

theorem sorted_of_canonical : ∀ j : Json, j.Canonical → j.sorted = j
  | .null, _ => rfl
  | .bool _, _ => rfl
  | .number _, _ => rfl
  | .string _, _ => rfl
  | .array items, canonical => congrArg Json.array (sortedItems_of_canonical items canonical)
  | .object fields, ⟨ascending,inner⟩ => by
    rw [sorted, sortedFields_of_canonical fields inner]
    exact mkObject_of_ascending ascending

theorem sortedItems_of_canonical :
    ∀ items : List Json, CanonicalItems items → sortedItems items = items
  | [], _ => rfl
  | j :: rest, canonical => by
    rw [sortedItems, sorted_of_canonical j canonical.1, sortedItems_of_canonical rest canonical.2]

theorem sortedFields_of_canonical :
    ∀ fields : List (String × Json), CanonicalFields fields → sortedFields fields = fields
  | [], _ => rfl
  | (k, j) :: rest, canonical => by
    rw [sortedFields, sorted_of_canonical j canonical.1, sortedFields_of_canonical rest canonical.2]

end

@[simp] theorem sorted_sorted (j : Json) : j.sorted.sorted = j.sorted :=
  sorted_of_canonical _ (canonical_sorted j)

@[simp] theorem sorted_string (s : String) : (Json.string s).sorted = .string s := rfl

@[simp] theorem sorted_bool (b : Bool) : (Json.bool b).sorted = .bool b := rfl

theorem sorted_ne_null {j : Json} (given : j ≠ .null) : j.sorted ≠ .null := by
  cases j with
  | null => exact absurd rfl given
  | bool b => exact given
  | number n => exact given
  | string s => exact given
  | array items => exact nofun
  | object fields => exact nofun

end Json

end Statechart

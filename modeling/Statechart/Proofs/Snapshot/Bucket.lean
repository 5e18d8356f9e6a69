import Mathlib.Data.List.Nodup
import Statechart.Snapshot.Bucket

/- Fields in ascending order, and lists of buckets. What has been put under a key is found there,
   and buckets put at positions zero, one and so on are all found again. -/
namespace Statechart

namespace Json

variable {key k : String} {v : Json} {fields acc : List (String × Json)}

/-- Fields in ascending order of their keys, so each key once. -/
def Ascending (fields : List (String × Json)) : Prop := fields.Pairwise (·.1 < ·.1)

theorem lookup_insertField (key k : String) (v : Json) (fields : List (String × Json)) :
    lookup k (insertField key v fields) = if key = k then some v else lookup k fields := by
  induction fields with
  | nil => rfl
  | cons f rest ih =>
    obtain ⟨l,w⟩ := f
    simp only [insertField]
    split
    · rfl
    · split
      · rename_i same
        subst same
        simp only [lookup]
        split
        · rfl
        · rfl
      · rename_i other
        simp only [lookup, ih]
        by_cases here : l = k
        · subst here
          simp [other]
        · simp [here]

theorem mem_insertField {f : String × Json} (within : f ∈ insertField key v fields) :
    f = (key, v) ∨ f ∈ fields := by
  induction fields with
  | nil => exact Or.inl (List.mem_singleton.mp within)
  | cons g rest ih =>
    simp only [insertField] at within
    split at within
    · exact List.mem_cons.mp within
    · split at within
      · exact (List.mem_cons.mp within).imp id (List.mem_cons_of_mem g)
      · rcases List.mem_cons.mp within with here | later
        · exact Or.inr (here ▸ List.mem_cons_self)
        · exact (ih later).imp id (List.mem_cons_of_mem g)

theorem lt_of_not_lt (order : ¬ key < k) (other : key ≠ k) : k < key := by
  by_cases lt : k < key
  · exact lt
  · exact absurd (String.le_antisymm (String.not_lt.mp lt) (String.not_lt.mp order)) other

theorem Ascending.insertField (ascending : Ascending fields) (key : String) (v : Json) :
    Ascending (insertField key v fields) := by
  induction fields with
  | nil => exact List.pairwise_singleton _ _
  | cons f rest ih =>
    obtain ⟨before,ordered⟩ := List.pairwise_cons.mp ascending
    simp only [Json.insertField]
    split
    · rename_i first
      refine List.pairwise_cons.mpr ⟨?_, ascending⟩
      intro g hg
      rcases List.mem_cons.mp hg with rfl | later
      · exact first
      · exact String.lt_trans first (before g later)
    · split
      · rename_i same
        subst same
        exact List.pairwise_cons.mpr ⟨before, ordered⟩
      · rename_i order other
        refine List.pairwise_cons.mpr ⟨?_, ih ordered⟩
        intro g hg
        rcases mem_insertField hg with rfl | old
        · exact lt_of_not_lt order other
        · exact before g old

theorem insertField_last (last : ∀ f ∈ fields, f.1 < key) :
    insertField key v fields = fields ++ [(key, v)] := by
  induction fields with
  | nil => rfl
  | cons f rest ih =>
    have before := last f List.mem_cons_self
    have rest := ih fun g hg => last g (List.mem_cons_of_mem f hg)
    simp only [insertField, if_neg (String.lt_asymm before), rest, List.cons_append]
    rw [if_neg (String.ne_of_lt before).symm]

/-- Fields put in one after another. -/
def insertAll (fields acc : List (String × Json)) : List (String × Json) :=
  fields.foldl (fun acc f => insertField f.1 f.2 acc) acc

theorem mkObject_eq (fields : List (String × Json)) : mkObject fields = .object (insertAll fields []) :=
  rfl

theorem Ascending.insertAll (ascending : Ascending acc) (fields : List (String × Json)) :
    Ascending (insertAll fields acc) := by
  induction fields generalizing acc with
  | nil => exact ascending
  | cons f rest ih => exact ih (ascending.insertField f.1 f.2)

theorem insertAll_of_ascending (ascending : Ascending (acc ++ fields)) :
    insertAll fields acc = acc ++ fields := by
  induction fields generalizing acc with
  | nil => exact (List.append_nil acc).symm
  | cons f rest ih =>
    have last : ∀ g ∈ acc, g.1 < f.1 := fun g hg =>
      (List.pairwise_append.mp ascending).2.2 g hg f List.mem_cons_self
    have step : insertAll (f :: rest) acc = insertAll rest (insertField f.1 f.2 acc) := rfl
    rw [List.append_cons] at ascending
    rw [step, insertField_last last, ih ascending, List.append_cons acc f rest]

theorem mkObject_of_ascending (ascending : Ascending fields) : mkObject fields = .object fields := by
  rw [mkObject_eq, insertAll_of_ascending]
  · rfl
  · exact ascending

theorem lookup_eq_none (absent : k ∉ fields.map (·.1)) : lookup k fields = none := by
  induction fields with
  | nil => rfl
  | cons f rest ih =>
    rw [List.map_cons, List.mem_cons, not_or] at absent
    rw [lookup, if_neg (Ne.symm absent.1)]
    exact ih absent.2

theorem lookup_insertAll (distinct : (fields.map (·.1)).Nodup) (k : String) :
    lookup k (insertAll fields acc) = (lookup k fields).or (lookup k acc) := by
  induction fields generalizing acc with
  | nil => rfl
  | cons f rest ih =>
    obtain ⟨fresh,others⟩ := List.nodup_cons.mp distinct
    have step : insertAll (f :: rest) acc = insertAll rest (insertField f.1 f.2 acc) := rfl
    rw [step, ih others, lookup_insertField, lookup]
    by_cases here : f.1 = k
    · subst here
      simp [lookup_eq_none fresh]
    · simp [here]

theorem lookup_append (key : String) (first second : List (String × Json)) :
    lookup key (first ++ second) = (lookup key first).or (lookup key second) := by
  induction first with
  | nil => rfl
  | cons f rest ih =>
    rw [List.cons_append, lookup, lookup]
    split
    · rfl
    · exact ih

theorem length_insertField (fresh : lookup key fields = none) :
    (insertField key v fields).length = fields.length + 1 := by
  induction fields with
  | nil => rfl
  | cons f rest ih =>
    rw [lookup] at fresh
    split at fresh
    · cases fresh
    · rename_i other
      simp only [insertField]
      split
      · rfl
      · rw [if_neg (Ne.symm other), List.length_cons, ih fresh, List.length_cons]

end Json

theorem Key.text_index_injective {i j : Nat} (same : (Key.index i).text = (Key.index j).text) :
    i = j := by
  have digits : Nat.toDigits 10 i = Nat.toDigits 10 j := by
    have lists := congrArg String.toList same
    simpa [Key.text, Nat.repr_eq_ofList_toDigits] using lists
  have read := congrArg (fun l => Nat.ofDigitChars 10 l 0) digits
  simpa only [Nat.ofDigitChars_ten_toDigits] using read

namespace Bucket

variable {b : Bucket}

@[simp] theorem get?_add (b : Bucket) (key k : Key) (v : Json) :
    (b.add key v).get? k = if key.text = k.text then some v else b.get? k :=
  Json.lookup_insertField key.text k.text v b.fields

@[simp] theorem get?_empty (k : Key) : empty.get? k = none := rfl

/-- Puts buckets at positions from `first` on. -/
def nestFrom (first : Nat) (b : Bucket) (items : List Bucket) : Bucket :=
  (items.zipIdx first).foldl (fun b entry => b.nest (.index entry.2) entry.1) b

theorem ofList_eq (items : List Bucket) : ofList items = nestFrom 0 empty items := rfl

theorem nestFrom_cons (first : Nat) (b inner : Bucket) (rest : List Bucket) :
    nestFrom first b (inner :: rest) = nestFrom (first + 1) (b.nest (.index first) inner) rest := rfl

theorem get?_nestFrom (first : Nat) (b : Bucket) (items : List Bucket) (i : Nat) :
    (nestFrom first b items).get? (.index i) =
      if first ≤ i ∧ i < first + items.length then
        (items[i - first]?).map fun inner => .object inner.fields
      else b.get? (.index i) := by
  induction items generalizing first b with
  | nil =>
    rw [if_neg (by simp)]
    rfl
  | cons inner rest ih =>
    rw [nestFrom_cons, ih, List.length_cons]
    by_cases here : first = i
    · subst here
      rw [if_neg (by omega), if_pos (by omega), nest, get?_add, if_pos rfl]
      simp
    · have other : (Key.index first).text ≠ (Key.index i).text := fun same =>
        here (Key.text_index_injective same)
      rw [nest, get?_add, if_neg other]
      by_cases later : first + 1 ≤ i ∧ i < first + 1 + rest.length
      · rw [if_pos later, if_pos (by omega)]
        have shift : i - first = (i - (first + 1)) + 1 := by omega
        rw [shift, List.getElem?_cons_succ]
      · rw [if_neg later, if_neg (by omega)]

theorem nested?_ofList (items : List Bucket) (i : Nat) :
    (ofList items).nested? (.index i) = items[i]? := by
  rw [nested?, ofList_eq, get?_nestFrom]
  by_cases inside : i < items.length
  · rw [if_pos (by omega)]
    simp [inside]
  · rw [if_neg (by omega), List.getElem?_eq_none (by omega)]
    rfl

theorem length_nestFrom (first : Nat) (b : Bucket) (items : List Bucket)
    (free : ∀ i, first ≤ i → b.get? (.index i) = none) :
    (nestFrom first b items).fields.length = b.fields.length + items.length := by
  induction items generalizing first b with
  | nil => rfl
  | cons inner rest ih =>
    have length : (b.nest (.index first) inner).fields.length = b.fields.length + 1 :=
      Json.length_insertField (free first (Nat.le_refl _))
    rw [nestFrom_cons, ih, length, List.length_cons]
    · omega
    · intro i later
      rw [nest, get?_add, if_neg fun same => by
        have := Key.text_index_injective same
        omega]
      exact free i (by omega)

theorem indexedFrom_eq (items : List Bucket) (found : ∀ i, b.nested? (.index i) = items[i]?)
    (count i : Nat) : b.indexedFrom count i = (items.drop i).take count := by
  induction count generalizing i with
  | zero => simp [indexedFrom]
  | succ count ih =>
    rw [indexedFrom, found]
    by_cases inside : i < items.length
    · rw [List.getElem?_eq_getElem inside, List.drop_eq_getElem_cons inside, List.take_succ_cons, ih]
    · rw [List.getElem?_eq_none (by omega), List.drop_eq_nil_of_le (by omega)]
      rfl

/-- Buckets put in a row are found again. -/
theorem indexed_ofList (items : List Bucket) : (ofList items).indexed = items := by
  have length : (ofList items).fields.length = items.length := by
    rw [ofList_eq, length_nestFrom 0 empty items fun _ _ => rfl]
    exact Nat.zero_add _
  rw [indexed, indexedFrom_eq items (nested?_ofList items), length, List.drop_zero, List.take_length]

end Bucket

end Statechart

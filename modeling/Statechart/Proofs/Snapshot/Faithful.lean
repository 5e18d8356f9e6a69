import Mathlib.Data.List.Perm.Basic
import Statechart.Proofs.Snapshot.RoundTrip
import Statechart.Proofs.Value.Bridge

/- Data that a snapshot keeps as it is. JSON has no dates, drops what is undefined and sorts keys; a
   value that comes through all that unchanged, and in which no container occurs twice, is alike
   after it has been stored and read back. -/
namespace Statechart

theorem lookupEntry_perm {entries entries' : List (String × Slot)} (same : entries.Perm entries')
    (distinct : (entries.map (·.1)).Nodup) (key : String) :
    lookupEntry key entries = lookupEntry key entries' := by
  induction same with
  | nil => rfl
  | cons e _ ih =>
    rw [lookupEntry, lookupEntry, ih (List.nodup_cons.mp distinct).2]
  | swap e e' rest =>
    have apart : e'.1 ≠ e.1 := fun same => (List.nodup_cons.mp distinct).1 (by simp [same])
    simp only [lookupEntry]
    by_cases here : e.1 = key
    · have there : e'.1 ≠ key := fun there => apart (there.trans here.symm)
      rw [if_neg there, if_neg there]
    · rw [if_neg here, if_neg here]
  | trans first _ ih ih' =>
    exact (ih distinct).trans (ih' ((first.map _).nodup_iff.mp distinct))

namespace Tree

mutual

/-- JSON can say this as it is: there are only texts, truth values and nulls in containers whose keys
    are in ascending order. -/
def isPlain : Tree → Bool
  | .null | .bool _ | .string _ => true
  | .object fields => decide (fields.Pairwise (·.1 < ·.1)) && arePlainFields fields
  | .array items => arePlain items
  | .undefined | .number _ | .dateTime _ => false

def arePlain : List Tree → Bool
  | [] => true
  | t :: rest => isPlain t && arePlain rest

def arePlainFields : List (String × Tree) → Bool
  | [] => true
  | (_, t) :: rest => isPlain t && arePlainFields rest

end

theorem toJsonFields_of_plain {fields : List (String × Tree)} (plain : arePlainFields fields = true) :
    toJsonFields fields = fields.map fun f => (f.1, toJson f.2) := by
  induction fields with
  | nil => rfl
  | cons f rest ih =>
    obtain ⟨key,t⟩ := f
    rw [arePlainFields, Bool.and_eq_true] at plain
    rw [toJsonFields, ih plain.2]
    · rfl
    · rintro rfl
      exact absurd plain.1 Bool.false_ne_true

mutual

theorem ofJson_toJson_of_plain : ∀ t : Tree, t.isPlain = true → ofJson t.toJson = t
  | .null, _ | .bool _, _ | .string _, _ => rfl
  | .object fields, plain => by
    rw [isPlain, Bool.and_eq_true, decide_eq_true_eq] at plain
    have ascending : Json.Ascending (toJsonFields fields) := by
      rw [toJsonFields_of_plain plain.2]
      exact List.pairwise_map.mpr plain.1
    rw [toJson, Json.mkObject_of_ascending ascending, ofJson, ofJsonFields_of_plain fields plain.2]
  | .array items, plain => by
    rw [toJson, ofJson, ofJsonItems_of_plain items plain]
  | .undefined, plain | .number _, plain | .dateTime _, plain => by cases plain

theorem ofJsonItems_of_plain : ∀ items : List Tree, arePlain items = true →
    ofJsonItems (toJsonItems items) = items
  | [], _ => rfl
  | t :: rest, plain => by
    rw [arePlain, Bool.and_eq_true] at plain
    rw [toJsonItems, ofJsonItems, ofJson_toJson_of_plain t plain.1, ofJsonItems_of_plain rest plain.2]

theorem ofJsonFields_of_plain : ∀ fields : List (String × Tree), arePlainFields fields = true →
    ofJsonFields (toJsonFields fields) = fields
  | [], _ => rfl
  | (key, t) :: rest, plain => by
    have all := plain
    rw [arePlainFields, Bool.and_eq_true] at plain
    have inner := ofJsonFields_of_plain rest plain.2
    rw [toJsonFields_of_plain plain.2] at inner
    rw [toJsonFields_of_plain all, List.map_cons, ofJsonFields, ofJson_toJson_of_plain t plain.1, inner]

end

end Tree

namespace Heap

variable {h : Heap} {v : Value}

def isPlain (h : Heap) (v : Value) : Bool :=
  match h.unfold v with
  | .ok t => t.isPlain
  | .error _ => false

theorem unchanged_of_plain (plain : h.isPlain v = true) :
    ∃ t, h.unfold v = .ok t ∧ Tree.ofJson t.toJson = t := by
  unfold isPlain at plain
  split at plain
  · rename_i t unfolded
    exact ⟨t, unfolded, t.ofJson_toJson_of_plain plain⟩
  · cases plain

end Heap

namespace Context

variable {x : Context} {h : Heap} {b : Bucket}

/-- The data of a context comes through a snapshot unchanged: no value is altered by its JSON form,
    and no container occurs twice. References lead where they should, and keys are distinct. -/
structure Faithful (x : Context) (h : Heap) : Prop where
  intact : h.Intact
  present : ∃ o, h.object? x.dataModel = some o
  distinct : ((h.entries x.dataModel).map (·.1)).Nodup
  unchanged : ∀ e ∈ x.kept h, ∃ t, h.unfold e.2.value = .ok t ∧ Tree.ofJson t.toJson = t
  unshared : ((x.kept h).flatMap fun e => h.occurrences e.2.value).Nodup

/-- Data is seen to come through unchanged if all its values are plain. -/
theorem faithful_of_plain (intact : ∀ r < h.size, ∀ v ∈ h.children r, h.Finds v)
    (present : (h.object? x.dataModel).isSome = true)
    (distinct : ((h.entries x.dataModel).map (·.1)).Nodup)
    (plain : ∀ e ∈ x.kept h, h.isPlain e.2.value = true)
    (unshared : ((x.kept h).flatMap fun e => h.occurrences e.2.value).Nodup) : x.Faithful h where
  intact := Heap.intact_of_children intact
  present := Option.isSome_iff_exists.mp present
  distinct := distinct
  unchanged e held := Heap.unchanged_of_plain (plain e held)
  unshared := unshared

theorem Faithful.stored (faithful : x.Faithful h) : ∃ d, x.storeData h = .ok d := by
  rw [storeData_eq]
  cases list : (x.kept h).mapM (storeEntry h) with
  | ok fields => exact ⟨_, rfl⟩
  | error f =>
    obtain ⟨e,held,failed⟩ := Except.mapM_error list
    obtain ⟨t,unfolded,_⟩ := faithful.unchanged e held
    rw [storeEntry, Heap.toJson, unfolded] at failed
    cases failed

/-- What is not stored of the data is the machine's own or undefined. -/
theorem get_kept (distinct : ((h.entries x.dataModel).map (·.1)).Nodup) {key : String}
    (own : key ∉ systemVariables) :
    h.get x.dataModel key = Heap.valueOf (lookupEntry key (x.kept h)) := by
  rw [lookupEntry_kept distinct, Heap.get]
  cases h.slot? x.dataModel key with
  | none => rfl
  | some slot =>
    obtain ⟨value,readOnly⟩ := slot
    cases value <;> simp [Option.filter, own, Value.isUndefined, Heap.valueOf]

theorem finds_of_kept (intact : h.Intact) {e : String × Slot} (held : e ∈ x.kept h) :
    h.Finds e.2.value :=
  intact _ _ (Heap.mem_children_of_entry (List.mem_filter.mp held).1)

/-- The JSON form of a value that comes through unchanged makes the value again. -/
theorem Faithful.replicates (faithful : x.Faithful h) {e : String × Slot} (held : e ∈ x.kept h)
    {j : Json} (json : h.toJson e.2.value = .ok j) :
    h.Replicates (h.occurrences e.2.value) e.2.value (Tree.ofJson j) := by
  obtain ⟨t,unfolded,same⟩ := faithful.unchanged e held
  rw [Heap.toJson, unfolded] at json
  cases json
  rw [same]
  exact Heap.unfold_replicates faithful.intact (finds_of_kept faithful.intact held) unfolded

/-- The data model that is read back is alike, entry by entry, and nothing refers to it. -/
theorem Faithful.restoreData (faithful : x.Faithful h) {d : Json} (stored : x.storeData h = .ok d)
    (found : b.get? .dataModel = some d) (k : Heap) :
    ∃ p, Heap.Corresponds p h (restoreData k b).1 ∧ (∀ r, ¬ p r (restoreData k b).2) ∧
      ∀ key, key ∉ systemVariables →
        (h.get x.dataModel key).Like p ((restoreData k b).1.get (restoreData k b).2 key) := by
  obtain ⟨fields,rfl,written⟩ := storeData_ok stored
  have keys : (fields.map (·.1)).Nodup := by
    rw [← keys_eq (fun v j => h.toJson v = .ok j) written]
    exact keys_kept faithful.distinct
  -- Fields are stored in ascending order of their keys.
  have sorted : (Json.insertAll fields []).Perm (fields ++ []) :=
    Json.insertAll_perm (by simpa using keys)
  rw [List.append_nil] at sorted
  obtain ⟨entries,each,moved⟩ := List.perm_comp_forall₂ sorted written
  have made : List.Forall₂ (fun e f => e.1 = f.1 ∧
      h.Replicates (h.occurrences e.2.value) e.2.value f.2) entries
      (Tree.ofJsonFields (Json.insertAll fields [])) := by
    rw [Tree.ofJsonFields_eq, List.forall₂_map_right_iff]
    refine ((List.forall₂_and_left _ _).mpr ⟨fun e he => moved.subset he, each.flip⟩).imp ?_
    rintro e f ⟨held,same,json⟩
    exact ⟨same, faithful.replicates held json⟩
  have unshared := (moved.flatMap_right fun e => h.occurrences e.2.value).nodup_iff.mpr
    faithful.unshared
  have nothing : Heap.Corresponds (fun _ _ => False) h k := ⟨nofun, nofun, nofun⟩
  obtain ⟨p,adopts,like⟩ := Heap.buildFields_replicates made nothing unshared fun _ _ _ => id
  rw [restoreData_eq found]
  refine ⟨p, adopts.corresponds.extend (.refl h) (Heap.extends_alloc _ _), ?_, ?_⟩
  · intro r pair
    exact absurd (adopts.corresponds.lt_right pair) (Nat.lt_irrefl _)
  · intro key own
    rw [get_kept faithful.distinct own, ← lookupEntry_perm moved
      ((moved.map _).nodup_iff.mpr (keys_kept faithful.distinct)), Heap.get_eq, Heap.entries,
      Heap.object?, Heap.alloc_snd, Heap.cell?_alloc]
    exact Heap.like_lookup like key

/-- A data model that has been read back for the data `x` has in `h`: it is alike but for the
    system variables, which it does not have, and nothing refers to it. -/
structure Alike (x : Context) (h : Heap) (p : Pairing) (k : Heap) (data : Ref)
    (entries : List (String × Slot)) : Prop where
  object : k.object? data = some ⟨.writable, entries, none⟩
  corresponds : Heap.Corresponds p h k
  single : ∀ r, ¬ p r data
  values : ∀ key, key ∉ systemVariables →
    (h.get x.dataModel key).Like p (Heap.valueOf (lookupEntry key entries))
  absent : ∀ key ∈ systemVariables, lookupEntry key entries = none

theorem Faithful.reread (faithful : x.Faithful h) {c : Chart} (written : x.Written c h b) (k : Heap)
    (queue : List Event) (history : List (StateIndex × List StateIndex)) :
    ∃ p entries, x.Alike h p (x.reread b k queue history).1
      (x.reread b k queue history).2.dataModel entries := by
  obtain ⟨d,found,stored⟩ := written.data
  obtain ⟨p,corresponds,single,like⟩ := faithful.restoreData stored found k
  obtain ⟨-,entries,object,each⟩ := restoreData_store stored faithful.distinct found k
  have last := extends_restoreResult (Context.restoreData k b).1 b
  refine ⟨p, entries, last.object? object, corresponds.extend (.refl h) last, single, ?_, ?_⟩
  · intro key own
    have value := like key own
    rwa [Heap.get_of_object object] at value
  · intro key system
    rcases each key with ⟨_,absent⟩ | ⟨slot,_,_,held,_⟩
    · exact absent
    · rw [lookupEntry_kept faithful.distinct] at held
      have kept := (Option.filter_eq_some_iff.mp held).2
      simp [system] at kept

end Context

end Statechart

import Statechart.Event.Basic
import Statechart.Proofs.Event.Name
import Statechart.Proofs.Document.Meaning

/- Reading JSON back. Values are written with ascending keys at every level, and what is read from
   such a document is the value it was made of. So a stored event is read as it was, with its data
   made anew. -/
namespace Statechart

namespace ReadM

variable {α β : Type}

/-- The reader gives `a` wherever it stands, and follows no links. -/
def Yields (x : ReadM α) (a : α) : Prop := ∀ (m : Manuscript) (n : Nat), x m n = some (a, n)

theorem Yields.pure (a : α) : Yields (Pure.pure a) a := fun _ _ => rfl

theorem Yields.bind {x : ReadM α} {f : α → ReadM β} {a : α} {b : β} (first : Yields x a)
    (rest : Yields (f a) b) : Yields (x >>= f) b := by
  intro m n
  have step : (x >>= f) m n = (x m n).bind fun p => f p.1 m p.2 := rfl
  rw [step, first m n]
  exact rest m n

theorem Yields.lift (a : α) : Yields (ReadM.lift (some a)) a := Yields.pure a

theorem Yields.mapM {γ : Type} {f : β → ReadM α} {g : γ → β} {value : γ → α} {l : List γ}
    (each : ∀ c ∈ l, Yields (f (g c)) (value c)) : Yields ((l.map g).mapM f) (l.map value) := by
  induction l with
  | nil => exact Yields.pure []
  | cons c rest ih =>
    rw [List.map_cons, List.mapM_cons]
    refine (each c List.mem_cons_self).bind ?_
    refine (ih fun d hd => each d (List.mem_cons_of_mem c hd)).bind ?_
    exact Yields.pure _

theorem Yields.read {m : Manuscript} {reader : Place → ReadM α} {a : α}
    (yields : Yields (reader ⟨m.root, m.depth⟩) a) : m.read reader = some a := by
  unfold Manuscript.read
  have run : (reader ⟨m.root, m.depth⟩ m).run m.patience = some (a, m.patience) := yields m _
  rw [run]
  rfl

end ReadM

namespace Tree

theorem canonical_numberToJson (f : Float) : (numberToJson f).Canonical := by
  unfold numberToJson
  split
  · trivial
  · split
    · trivial
    · trivial

mutual

theorem canonical_toJson : ∀ t : Tree, t.toJson.Canonical
  | .undefined => trivial
  | .null => trivial
  | .bool _ => trivial
  | .number f => canonical_numberToJson f
  | .string _ => trivial
  | .dateTime _ => trivial
  | .object fields => Json.canonical_mkObject (canonical_toJsonFields fields)
  | .array items => canonical_toJsonItems items

theorem canonical_toJsonItems : ∀ items : List Tree, Json.CanonicalItems (toJsonItems items)
  | [] => trivial
  | t :: rest => ⟨canonical_toJson t, canonical_toJsonItems rest⟩

theorem canonical_toJsonFields :
    ∀ fields : List (String × Tree), Json.CanonicalFields (toJsonFields fields)
  | [] => trivial
  | (_, .undefined) :: rest => canonical_toJsonFields rest
  | (_, .null) :: rest => ⟨trivial, canonical_toJsonFields rest⟩
  | (_, .bool _) :: rest => ⟨trivial, canonical_toJsonFields rest⟩
  | (_, .number f) :: rest => ⟨canonical_numberToJson f, canonical_toJsonFields rest⟩
  | (_, .string _) :: rest => ⟨trivial, canonical_toJsonFields rest⟩
  | (_, .dateTime _) :: rest => ⟨trivial, canonical_toJsonFields rest⟩
  | (_, .object fields) :: rest =>
    ⟨Json.canonical_mkObject (canonical_toJsonFields fields), canonical_toJsonFields rest⟩
  | (_, .array items) :: rest => ⟨canonical_toJsonItems items, canonical_toJsonFields rest⟩

end

end Tree

namespace Place

open ReadM

theorem follow_yields {p : Place} (whole : ∀ target, p.document ≠ .link target) :
    Yields p.follow p := by
  have still : p.follow = pure p := by
    unfold follow
    split
    · rename_i target linked
      exact absurd linked (whole target)
    · rfl
  rw [still]
  exact Yields.pure p

theorem ofJson_ne_link (j : Json) (target : Nat) : Document.ofJson j ≠ .link target := by
  cases j <;> simp [Document.ofJson]

theorem follow_json (j : Json) (depth : Nat) :
    Yields (follow ⟨Document.ofJson j, depth⟩) ⟨Document.ofJson j, depth⟩ :=
  follow_yields (ofJson_ne_link j)

theorem text_yields (s : String) (depth : Nat) :
    Yields (text ⟨Document.ofJson (.string s), depth⟩) s :=
  Yields.bind (follow_json (.string s) depth) (Yields.lift s)

/-- The places of the fields of an object. -/
def ofFields (fields : List (String × Json)) (depth : Nat) : Fields :=
  fields.map fun f => (f.1, ⟨Document.ofJson f.2, depth⟩)

theorem fields_yields (fields : List (String × Json)) (depth : Nat) :
    Yields (Place.fields ⟨Document.ofJson (.object fields), depth + 1⟩) (ofFields fields depth) := by
  refine Yields.bind (follow_json (.object fields) (depth + 1)) ?_
  simp only [Document.ofJson, Document.ofJsonFields_eq]
  refine Yields.mapM fun f _ => ?_
  exact Yields.bind (text_yields f.1 depth) (Yields.pure _)

theorem record_yields (names : List String) (fields : List (String × Json)) (depth : Nat) :
    Yields (record names ⟨Document.ofJson (.object fields), depth + 1⟩) (ofFields fields depth) :=
  fun m n => fields_yields fields depth m n

mutual

/-- A value with ascending keys is read as it is. -/
theorem jsonAt_yields : ∀ (j : Json), j.Canonical → ∀ depth, (Document.ofJson j).height ≤ depth →
    Yields (jsonAt depth (Document.ofJson j)) j
  | .null, _, depth, _ => by
    cases depth <;> exact Yields.bind (follow_json .null 0) (Yields.lift _)
  | .bool b, _, depth, _ => by
    cases depth <;> exact Yields.bind (follow_json (.bool b) 0) (Yields.lift _)
  | .number n, _, depth, _ => by
    cases depth <;> exact Yields.bind (follow_json (.number n) 0) (Yields.lift _)
  | .string s, _, depth, _ => by
    cases depth <;> exact Yields.bind (follow_json (.string s) 0) (Yields.lift _)
  | .array items, canonical, depth, high => by
    rw [Document.ofJson, Document.height] at high
    obtain ⟨depth,rfl⟩ : ∃ d, depth = d + 1 := ⟨depth - 1, by omega⟩
    refine Yields.bind (follow_json (.array items) 0) ?_
    have inner := jsonItems_yield items canonical depth (by omega)
    exact inner.bind (Yields.pure _)
  | .object fields, canonical, depth, high => by
    rw [Document.ofJson, Document.height] at high
    obtain ⟨depth,rfl⟩ : ∃ d, depth = d + 1 := ⟨depth - 1, by omega⟩
    obtain ⟨ascending,inside⟩ := canonical
    refine Yields.bind (follow_json (.object fields) 0) ?_
    have inner := jsonFields_yield fields inside depth (by omega)
    have made := inner.bind (f := fun fields => pure (Json.mkObject fields)) (Yields.pure _)
    rw [Json.mkObject_of_ascending ascending] at made
    exact made

theorem jsonItems_yield : ∀ (items : List Json), Json.CanonicalItems items → ∀ depth,
    Document.heightOfItems (Document.ofJsonItems items) ≤ depth →
    Yields ((Document.ofJsonItems items).mapM (jsonAt depth)) items
  | [], _, _, _ => Yields.pure []
  | j :: rest, canonical, depth, high => by
    rw [Document.ofJsonItems, Document.heightOfItems] at high
    rw [Document.ofJsonItems, List.mapM_cons]
    refine (jsonAt_yields j canonical.1 depth (by omega)).bind ?_
    exact (jsonItems_yield rest canonical.2 depth (by omega)).bind (Yields.pure _)

theorem jsonFields_yield : ∀ (fields : List (String × Json)), Json.CanonicalFields fields →
    ∀ depth, Document.heightOfFields (Document.ofJsonFields fields) ≤ depth →
    Yields ((Document.ofJsonFields fields).mapM fun p => do
      return (← text ⟨p.1, 0⟩, ← jsonAt depth p.2)) fields
  | [], _, _, _ => Yields.pure []
  | (k, j) :: rest, canonical, depth, high => by
    rw [Document.ofJsonFields, Document.heightOfFields] at high
    rw [Document.ofJsonFields, List.mapM_cons]
    have field : Yields (do return (← text ⟨Document.ofJson (.string k), 0⟩,
        ← jsonAt depth (Document.ofJson j))) (k, j) :=
      (text_yields k 0).bind ((jsonAt_yields j canonical.1 depth (by omega)).bind (Yields.pure _))
    refine Yields.bind field ?_
    exact (jsonFields_yield rest canonical.2 depth (by omega)).bind (Yields.pure _)

end

end Place

namespace Fields

open ReadM

variable {α : Type} {fields : List (String × Json)} {depth : Nat} {key : String}

theorem under_ofFields (ascending : Json.Ascending fields) (key : String) (depth : Nat) :
    under key (Place.ofFields fields depth) =
      ((Json.lookup key fields).map fun j => ⟨Document.ofJson j, depth⟩).toList := by
  induction fields with
  | nil => rfl
  | cons f rest ih =>
    obtain ⟨before,ordered⟩ := List.pairwise_cons.mp ascending
    have step : under key (Place.ofFields (f :: rest) depth) =
        (if f.1 = key then [⟨Document.ofJson f.2, depth⟩] else []) ++
          under key (Place.ofFields rest depth) := by
      by_cases here : f.1 = key
      · simp [under, Place.ofFields, here]
      · simp [under, Place.ofFields, here]
    rw [step, ih ordered, Json.lookup]
    by_cases here : f.1 = key
    · have gone : Json.lookup key rest = none := by
        refine Json.lookup_eq_none fun within => ?_
        obtain ⟨g,hg,same⟩ := List.mem_map.mp within
        exact String.ne_of_lt (before g hg) (here.trans same.symm)
      simp [here, gone]
    · simp [here]

theorem required_yields {reader : Place → ReadM α} {a : α} {j : Json}
    (ascending : Json.Ascending fields) (found : Json.lookup key fields = some j)
    (yields : Yields (reader ⟨Document.ofJson j, depth⟩) a) :
    Yields (required reader key (Place.ofFields fields depth)) a := by
  unfold required
  rw [under_ofFields ascending, found]
  exact yields

theorem defaulted_yields {reader : Place → ReadM α} {fallback a : α} {j : Json}
    (ascending : Json.Ascending fields) (found : Json.lookup key fields = some j)
    (yields : Yields (reader ⟨Document.ofJson j, depth⟩) a) :
    Yields (defaulted reader fallback key (Place.ofFields fields depth)) a := by
  unfold defaulted
  rw [under_ofFields ascending, found]
  exact yields

theorem optional_yields (ascending : Json.Ascending fields) {text : Option String}
    (found : Json.lookup key fields = text.map .string) :
    Yields (optional Place.text key (Place.ofFields fields depth)) text := by
  unfold optional defaulted
  rw [under_ofFields ascending, found]
  cases text with
  | none => exact Yields.pure none
  | some s =>
    refine Yields.bind (Place.follow_json (.string s) depth) ?_
    refine Yields.bind (a := false) (Yields.lift false) ?_
    exact Yields.bind (Place.text_yields s depth) (Yields.pure _)

end Fields

namespace Json

theorem height_lookup {key : String} {j : Json} {fields : List (String × Json)}
    (found : lookup key fields = some j) :
    (Document.ofJson j).height < (Document.ofJson (.object fields)).height := by
  rw [Document.ofJson, Document.height]
  induction fields with
  | nil => cases found
  | cons f rest ih =>
    obtain ⟨k,i⟩ := f
    rw [Document.ofJsonFields, Document.heightOfFields]
    rw [lookup] at found
    split at found
    · cases found
      omega
    · have inside := ih found
      omega

end Json

namespace Event

open ReadM

variable {e : Event} {h : Heap} {fields : List (String × Json)}

def fieldsWith (e : Event) (data : Json) : List (String × Json) :=
  [("name", .string e.name.text), ("type", .string e.type.name)]
    ++ optionalField "send_id" e.sendId
    ++ optionalField "origin" e.origin
    ++ optionalField "origin_type" e.originType
    ++ optionalField "invoke_id" e.invokeId
    ++ optionalField "invoke_unique_id" e.uniqueId
    ++ [("data", data)]

theorem toFields_eq (e : Event) (h : Heap) : e.toFields h = (h.toJson e.data).map e.fieldsWith := by
  unfold toFields
  cases h.toJson e.data with
  | error f => rfl
  | ok data => rfl

theorem lookup_optionalField (key k : String) (text : Option String) :
    Json.lookup k (optionalField key text) = if key = k then text.map .string else none := by
  cases text with
  | none => simp [optionalField, Json.lookup]
  | some s => rfl

theorem keys_fieldsWith (e : Event) (data : Json) : ((e.fieldsWith data).map (·.1)).Nodup := by
  have all : ((e.fieldsWith data).map (·.1)).Sublist ["name", "type", "send_id", "origin",
      "origin_type", "invoke_id", "invoke_unique_id", "data"] := by
    have optional : ∀ (key : String) (text : Option String),
        ((optionalField key text).map (·.1)).Sublist [key] := by
      intro key text
      cases text with
      | none => exact List.nil_sublist _
      | some s => exact List.Sublist.refl _
    simp only [fieldsWith, List.map_append]
    have five := (((((List.Sublist.refl ["name", "type"]).append (optional "send_id" e.sendId)).append
      (optional "origin" e.origin)).append (optional "origin_type" e.originType)).append
      (optional "invoke_id" e.invokeId)).append (optional "invoke_unique_id" e.uniqueId)
    exact five.append (List.Sublist.refl ["data"])
  exact all.nodup (by decide)

theorem lookup_stored (e : Event) (data : Json) :
    let stored := Json.insertAll (e.fieldsWith data) []
    Json.lookup "name" stored = some (.string e.name.text) ∧
      Json.lookup "type" stored = some (.string e.type.name) ∧
      Json.lookup "send_id" stored = e.sendId.map .string ∧
      Json.lookup "origin" stored = e.origin.map .string ∧
      Json.lookup "origin_type" stored = e.originType.map .string ∧
      Json.lookup "invoke_id" stored = e.invokeId.map .string ∧
      Json.lookup "invoke_unique_id" stored = e.uniqueId.map .string ∧
      Json.lookup "data" stored = some data := by
  have found : ∀ k, Json.lookup k (Json.insertAll (e.fieldsWith data) []) =
      Json.lookup k (e.fieldsWith data) := by
    intro k
    rw [Json.lookup_insertAll (keys_fieldsWith e data)]
    simp [Json.lookup]
  simp only [found]
  simp [fieldsWith, Json.lookup_append, lookup_optionalField, Json.lookup]

theorem type_yields (type : EventType) (depth : Nat) :
    Yields (Place.bareChoice EventType.ofName? ⟨Document.ofJson (.string type.name), depth⟩) type := by
  refine Yields.bind (Place.follow_json (.string type.name) depth) ?_
  have named : EventType.ofName? type.name = some type := by cases type <;> rfl
  simp only [Document.ofJson, Atom.ofJson, Option.bind_some, named]
  exact Yields.lift type

/-- A stored event is read with its fields as they were and its data made anew. -/
theorem read_yields (proper : e.name.Proper) {data : Json} (canonical : data.Canonical) (h : Heap)
    {depth : Nat} (high : (Document.ofJson (Json.mkObject (e.fieldsWith data))).height ≤ depth) :
    Yields (read h ⟨Document.ofJson (Json.mkObject (e.fieldsWith data)), depth + 1⟩)
      ((h.ofJson data).1, { e with data := (h.ofJson data).2 }) := by
  rw [Json.mkObject_eq] at high ⊢
  have ascending : Json.Ascending (Json.insertAll (e.fieldsWith data) []) :=
    Json.Ascending.insertAll List.Pairwise.nil _
  obtain ⟨name,type,sendId,origin,originType,invokeId,uniqueId,payload⟩ := lookup_stored e data
  refine (Place.record_yields _ _ depth).bind ?_
  refine (Fields.required_yields ascending name (a := e.name) ?_).bind ?_
  · refine (Place.text_yields e.name.text depth).bind ?_
    rw [EventName.parse_text proper]
    exact Yields.lift e.name
  refine (Fields.required_yields ascending type (type_yields e.type depth)).bind ?_
  refine (Fields.optional_yields ascending sendId).bind ?_
  refine (Fields.optional_yields ascending origin).bind ?_
  refine (Fields.optional_yields ascending originType).bind ?_
  refine (Fields.optional_yields ascending invokeId).bind ?_
  refine (Fields.optional_yields ascending uniqueId).bind ?_
  refine (Fields.defaulted_yields ascending payload (a := some data) ?_).bind ?_
  · have inside := Json.height_lookup payload
    exact (Place.jsonAt_yields data canonical depth (by omega)).bind (Yields.pure _)
  · exact Yields.pure _

/-- A stored event read from its document. -/
theorem read_ofJson (proper : e.name.Proper) {data : Json} (canonical : data.Canonical) (h : Heap) :
    (Manuscript.ofJson (Json.mkObject (e.fieldsWith data))).read (read h) =
      some ((h.ofJson data).1, { e with data := (h.ofJson data).2 }) :=
  Yields.read (read_yields proper canonical h (Nat.le_refl _))

end Event

end Statechart

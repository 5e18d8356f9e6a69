import Mathlib.Data.List.Forall2
import Statechart.Document
import Statechart.Proofs.Json.Canonical

/- What JSON documents mean, apart from how they are read.

   Meanings of lists, optional things and records are put together from those of their parts in the
   way readers are put together from other readers. -/
namespace Statechart

namespace Document

/-- A document as JSON has them. Where a text has a part that is of no use to readers there is an
    atom that is like no value. -/
inductive Plain : Document → Prop where
  | atom (j : Json) : Plain (.atom none (.ofJson j))
  | list {items : List Document} (inner : ∀ d ∈ items, Plain d) : Plain (.list none items)
  | record {fields : List (Document × Document)} (keys : ∀ f ∈ fields, Plain f.1)
      (values : ∀ f ∈ fields, Plain f.2) : Plain (.record none fields)

/-- A record whose keys are texts. -/
def ofFields (fields : List (String × Document)) : Document :=
  .record none (fields.map fun f => (.ofJson (.string f.1), f.2))

theorem ofFields_injective {fields fields' : List (String × Document)}
    (same : ofFields fields = ofFields fields') : fields = fields' := by
  have injective : Function.Injective fun f : String × Document =>
      (Document.ofJson (.string f.1), f.2) := by
    intro f g same
    have texts : f.1 = g.1 ∧ f.2 = g.2 := by simpa [ofJson, Atom.ofJson] using same
    exact Prod.ext texts.1 texts.2
  exact injective.list_map (Document.record.inj same).2

theorem ofJsonItems_eq (items : List Json) : ofJsonItems items = items.map ofJson := by
  induction items with
  | nil => rfl
  | cons j rest ih => rw [ofJsonItems, ih, List.map_cons]

theorem ofJson_array (items : List Json) : ofJson (.array items) = .list none (items.map ofJson) := by
  rw [ofJson, ofJsonItems_eq]

theorem ofJsonFields_eq (fields : List (String × Json)) :
    ofJsonFields fields = fields.map fun f => (ofJson (.string f.1), ofJson f.2) := by
  induction fields with
  | nil => rfl
  | cons f rest ih =>
    rw [ofJsonFields, ih]
    rfl

theorem ofJson_object (fields : List (String × Json)) :
    ofJson (.object fields) = ofFields (fields.map fun f => (f.1, ofJson f.2)) := by
  rw [ofJson, ofJsonFields_eq, ofFields, List.map_map]
  rfl

theorem ofJson_ne_null {j : Json} (given : j ≠ .null) : ofJson j ≠ ofJson .null := by
  cases j <;> simp_all [ofJson, Atom.ofJson]

mutual

theorem plain_ofJson : ∀ j : Json, (ofJson j).Plain
  | .null => .atom .null
  | .bool b => .atom (.bool b)
  | .number n => .atom (.number n)
  | .string s => .atom (.string s)
  | .array items => .list (plain_ofJsonItems items)
  | .object fields => .record (fun f hf => (plain_ofJsonFields fields f hf).1)
      fun f hf => (plain_ofJsonFields fields f hf).2

theorem plain_ofJsonItems : ∀ items : List Json, ∀ d ∈ ofJsonItems items, d.Plain
  | [], _, never => by cases never
  | j :: rest, d, hd => by
    rcases List.mem_cons.mp hd with rfl | later
    · exact plain_ofJson j
    · exact plain_ofJsonItems rest d later

theorem plain_ofJsonFields :
    ∀ fields : List (String × Json), ∀ f ∈ ofJsonFields fields, f.1.Plain ∧ f.2.Plain
  | [], _, never => by cases never
  | (k, j) :: rest, f, hf => by
    rcases List.mem_cons.mp hf with rfl | later
    · exact ⟨.atom (.string k), plain_ofJson j⟩
    · exact plain_ofJsonFields rest f later

end

theorem Plain.values_of_ofFields {fields : List (String × Document)}
    (plain : (ofFields fields).Plain) : ∀ f ∈ fields, f.2.Plain := by
  unfold ofFields at plain
  cases plain with
  | record _ values => exact fun f hf => values _ (List.mem_map_of_mem hf)

theorem height_of_item {items : List Document} {d : Document} (inside : d ∈ items) :
    d.height < (Document.list none items).height := by
  rw [height]
  induction items with
  | nil => cases inside
  | cons first rest ih =>
    rw [heightOfItems]
    rcases List.mem_cons.mp inside with rfl | later
    · omega
    · have := ih later
      omega

theorem height_of_value {fields : List (Document × Document)} {f : Document × Document}
    (inside : f ∈ fields) : f.2.height < (Document.record none fields).height := by
  rw [height]
  induction fields with
  | nil => cases inside
  | cons first rest ih =>
    obtain ⟨k,d⟩ := first
    rw [heightOfFields]
    rcases List.mem_cons.mp inside with rfl | later
    · simp only
      omega
    · have := ih later
      omega

theorem height_of_field {fields : List (String × Document)} {f : String × Document}
    (inside : f ∈ fields) : f.2.height < (ofFields fields).height := by
  have within : (ofJson (.string f.1), f.2) ∈
      fields.map fun f : String × Document => (ofJson (.string f.1), f.2) :=
    List.mem_map_of_mem inside
  exact height_of_value within

/-- The document is the record of these fields, or the row of what stands in the first fields of a
    record with certain names. -/
def HasFields (names : List String) (d : Document) (fields : List (String × Document)) : Prop :=
  d = ofFields fields ∨
    ∃ items, d = .list none items ∧ items.length ≤ names.length ∧ fields = names.zip items

variable {names : List String} {d : Document} {fields fields' : List (String × Document)}

theorem HasFields.unique (first : d.HasFields names fields) (second : d.HasFields names fields') :
    fields = fields' := by
  rcases first with rfl | ⟨items,rfl,_,rfl⟩
  · rcases second with same | ⟨items,same,_⟩
    · exact ofFields_injective same
    · cases same
  · rcases second with same | ⟨items',same,_,rfl⟩
    · cases same
    · cases same
      rfl

theorem HasFields.plain (has : d.HasFields names fields) (plain : d.Plain) :
    ∀ f ∈ fields, f.2.Plain := by
  rcases has with rfl | ⟨items,rfl,_,rfl⟩
  · exact plain.values_of_ofFields
  · intro f hf
    cases plain with
    | list inner => exact inner f.2 (List.of_mem_zip hf).2

theorem HasFields.lower (has : d.HasFields names fields) :
    ∀ f ∈ fields, f.2.height < d.height := by
  rcases has with rfl | ⟨items,rfl,_,rfl⟩
  · exact fun f hf => height_of_field hf
  · exact fun f hf => height_of_item (List.of_mem_zip hf).2

def under (key : String) (fields : List (String × Document)) : List Document :=
  (fields.filter (·.1 = key)).map (·.2)

theorem mem_under {key : String} {fields : List (String × Document)} {d : Document}
    (inside : d ∈ under key fields) : (key, d) ∈ fields := by
  obtain ⟨f,hf,rfl⟩ := List.mem_map.mp inside
  obtain ⟨hf,named⟩ := List.mem_filter.mp hf
  rw [decide_eq_true_eq] at named
  exact named ▸ hf

end Document

/-- What documents of some kind mean. -/
abbrev Meaning (α : Type) := Document → α → Prop

namespace Meaning

variable {α : Type}

def text : Meaning String := fun d s => d = .ofJson (.string s)

def flag : Meaning Bool := fun d b => d = .ofJson (.bool b)

def json : Meaning Json := fun d v => ∃ j, d = .ofJson j ∧ v = j.sorted

def list (kind : Meaning α) : Meaning (List α) := fun d l =>
  ∃ items, d = .list none items ∧ List.Forall₂ kind items l

/-- What an optional thing is when it is not null. -/
def optional (kind : Meaning α) : Meaning (Option α) := fun d o =>
  d = .ofJson .null ∧ o = none ∨ d ≠ .ofJson .null ∧ ∃ a, o = some a ∧ kind d a

/-- A name, or a record of that name over nothing. -/
def bareChoice (ofName : String → Option α) : Meaning α := fun d a =>
  ∃ s, ofName s = some a ∧
    (d = .ofJson (.string s) ∨ d = Document.ofFields [(s, .ofJson .null)])

/-- The fields of a record and nothing else. -/
def fields (parts : List (String × Document) → α → Prop) : Meaning α := fun d a =>
  ∃ fields, d = Document.ofFields fields ∧ parts fields a

/-- A record with certain fields, or the row of them. -/
def record (names : List String) (parts : List (String × Document) → α → Prop) : Meaning α :=
  fun d a => ∃ fields, d.HasFields names fields ∧ parts fields a

def choice (name : String) (content : Meaning α) : Meaning α := fun d a =>
  ∃ c, d = Document.ofFields [(name, c)] ∧ content c a

def required (kind : Meaning α) (key : String) (fields : List (String × Document)) (a : α) : Prop :=
  ∃ d, Document.under key fields = [d] ∧ kind d a

/-- A field with a value for when it is missing. -/
def defaulted (kind : Meaning α) (fallback : α) (key : String) (fields : List (String × Document))
    (a : α) : Prop :=
  Document.under key fields = [] ∧ a = fallback ∨ required kind key fields a

/-- A field that may be missing or null. -/
def possible (kind : Meaning α) (key : String) (fields : List (String × Document))
    (o : Option α) : Prop :=
  defaulted (optional kind) none key fields o

end Meaning

end Statechart

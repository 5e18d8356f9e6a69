import Statechart.Proofs.Decimal.Integers
import Statechart.Proofs.Json.Canonical
import Statechart.Proofs.Value.Detection
import Statechart.Proofs.Value.Soundness

/- From JSON to values and back.

   A JSON value becomes a tree of new containers, and that tree is written as JSON again, also after
   it has been copied. Two things happen to it on the way: keys are sorted, and a number that is a
   small integer becomes one. Both happen once only. A value that JSON can express comes back as the
   same tree, but for the order of keys. -/
namespace Statechart

namespace Tree

/-- A tree is the same as another but for the order of keys, at any level. -/
inductive Alike : Tree → Tree → Prop where
  | same (t : Tree) : Alike t t
  | array {items items' : List Tree} (each : List.Forall₂ Alike items items') :
      Alike (.array items) (.array items')
  | object {fields fields' moved : List (String × Tree)}
      (keys : fields'.map (·.1) = fields.map (·.1))
      (each : List.Forall₂ Alike (fields.map (·.2)) (fields'.map (·.2)))
      (perm : fields'.Perm moved) : Alike (.object fields) (.object moved)

theorem ofJsonFields_eq (fields : List (String × Json)) :
    ofJsonFields fields = fields.map fun f => (f.1, ofJson f.2) := by
  induction fields with
  | nil => rfl
  | cons f rest ih =>
    rw [ofJsonFields, ih]
    rfl

theorem ofJsonItems_eq (items : List Json) : ofJsonItems items = items.map ofJson := by
  induction items with
  | nil => rfl
  | cons j rest ih => rw [ofJsonItems, ih, List.map_cons]

theorem toJsonItems_eq (items : List Tree) : toJsonItems items = items.map toJson := by
  induction items with
  | nil => rfl
  | cons t rest ih => rw [toJsonItems, ih, List.map_cons]

/-- Fields that have values are all written. -/
theorem toJsonFields_eq {fields : List (String × Tree)} (present : ∀ f ∈ fields, f.2 ≠ .undefined) :
    toJsonFields fields = fields.map fun f => (f.1, f.2.toJson) := by
  induction fields with
  | nil => rfl
  | cons f rest ih =>
    rw [Heap.toJsonFields_cons (present f List.mem_cons_self),
      ih fun g later => present g (List.mem_cons_of_mem f later), List.map_cons]

theorem ofJson_ne_undefined (j : Json) : ofJson j ≠ .undefined := by
  cases j <;> exact nofun

end Tree

namespace Json

/-- What becomes of a JSON value that is made a value and written again. -/
def normal (j : Json) : Json := (Tree.ofJson j).toJson

theorem normal_array (items : List Json) : normal (.array items) = .array (items.map normal) := by
  rw [normal, Tree.ofJson, Tree.toJson, Tree.toJsonItems_eq, Tree.ofJsonItems_eq, List.map_map]
  rfl

theorem normal_object (fields : List (String × Json)) :
    normal (.object fields) = mkObject (fields.map fun f => (f.1, f.2.normal)) := by
  rw [normal, Tree.ofJson, Tree.toJson, Tree.ofJsonFields_eq, Tree.toJsonFields_eq, List.map_map]
  · rfl
  · intro f within
    obtain ⟨g,_,rfl⟩ := List.mem_map.mp within
    exact Tree.ofJson_ne_undefined g.2

/-- A number is written as the double that it is. -/
theorem normal_number (n : Number) : (normal (.number n)).normal = normal (.number n) := by
  change (Tree.numberToJson n.toFloat).normal = Tree.numberToJson n.toFloat
  unfold Tree.numberToJson
  cases read : Decimal.smallInt? n.toFloat with
  | some m =>
    change Tree.numberToJson (Number.int m).toFloat = ofInt m
    rw [Tree.numberToJson, Decimal.smallInt?_toFloat (Decimal.smallInt?_eq_some read).1]
  | none =>
    simp only
    split
    · rename_i finite
      change Tree.numberToJson n.toFloat = _
      rw [Tree.numberToJson, read]
      exact if_pos finite
    · rfl

/-- Sorting keys comes to an end once the fields do not change any more. -/
theorem normal_mkObject {fields : List (String × Json)} (settled : ∀ f ∈ fields, f.2.normal = f.2) :
    (mkObject fields).normal = mkObject fields := by
  have still : (insertAll fields []).map (fun f => (f.1, f.2.normal)) = insertAll fields [] := by
    refine (List.map_congr_left fun f within => ?_).trans (List.map_id _)
    have own : f ∈ fields := (mem_insertAll within).resolve_right List.not_mem_nil
    rw [settled f own]
    rfl
  rw [mkObject_eq, normal_object, still]
  exact mkObject_of_ascending (Ascending.insertAll List.Pairwise.nil fields)

mutual

theorem normal_normal : ∀ j : Json, j.normal.normal = j.normal
  | .null | .bool _ | .string _ => rfl
  | .number n => normal_number n
  | .array items => by
    rw [normal_array, normal_array, normalItems_normal items]
  | .object fields => by
    rw [normal_object]
    exact normal_mkObject (normalFields_normal fields)

theorem normalItems_normal : ∀ items : List Json, (items.map normal).map normal = items.map normal
  | [] => rfl
  | j :: rest => by
    rw [List.map_cons, List.map_cons, normal_normal j, normalItems_normal rest]

theorem normalFields_normal : ∀ fields : List (String × Json),
    ∀ f ∈ fields.map fun f => (f.1, f.2.normal), f.2.normal = f.2
  | [], _, within => by cases within
  | (key, j) :: rest, f, within => by
    rcases List.mem_cons.mp within with rfl | later
    · exact normal_normal j
    · exact normalFields_normal rest f later

end

mutual

/-- All numbers are integers below nine quadrillion in size. -/
def HasSmallNumbers : Json → Prop
  | .number (.int n) => n.natAbs < 9000000000000000
  | .number (.float _) => False
  | .array items => HaveSmallNumbers items
  | .object fields => FieldsHaveSmallNumbers fields
  | .null | .bool _ | .string _ => True

def HaveSmallNumbers : List Json → Prop
  | [] => True
  | j :: rest => HasSmallNumbers j ∧ HaveSmallNumbers rest

def FieldsHaveSmallNumbers : List (String × Json) → Prop
  | [] => True
  | (_, j) :: rest => HasSmallNumbers j ∧ FieldsHaveSmallNumbers rest

end

mutual

/-- Nothing happens to small integers, so only keys are sorted. -/
theorem normal_of_small : ∀ j : Json, j.HasSmallNumbers → j.normal = j.sorted
  | .null, _ | .bool _, _ | .string _, _ => rfl
  | .number (.int n), small => by
    change Tree.numberToJson (Number.int n).toFloat = ofInt n
    rw [Tree.numberToJson, Decimal.smallInt?_toFloat small]
  | .array items, small => by
    rw [normal_array, sorted, sortedItems_eq, normalItems_of_small items small]
  | .object fields, small => by
    rw [normal_object, sorted, sortedFields_eq, normalFields_of_small fields small]

theorem normalItems_of_small : ∀ items : List Json, HaveSmallNumbers items →
    items.map normal = items.map sorted
  | [], _ => rfl
  | j :: rest, small => by
    rw [List.map_cons, List.map_cons, normal_of_small j small.1, normalItems_of_small rest small.2]

theorem normalFields_of_small : ∀ fields : List (String × Json), FieldsHaveSmallNumbers fields →
    fields.map (fun f => (f.1, f.2.normal)) = fields.map fun f => (f.1, f.2.sorted)
  | [], _ => rfl
  | (key, j) :: rest, small => by
    rw [List.map_cons, List.map_cons, normal_of_small j small.1, normalFields_of_small rest small.2]

end

end Json

namespace Tree

mutual

/-- JSON can say this: every value is one of its own, and keys are distinct. -/
def Expressible : Tree → Prop
  | .undefined | .dateTime _ => False
  | .number f => f.isFinite = true ∧ f ≠ -0.0
  | .object fields => (fields.map (·.1)).Nodup ∧ ExpressibleFields fields
  | .array items => ExpressibleItems items
  | .null | .bool _ | .string _ => True

def ExpressibleItems : List Tree → Prop
  | [] => True
  | t :: rest => Expressible t ∧ ExpressibleItems rest

def ExpressibleFields : List (String × Tree) → Prop
  | [] => True
  | (_, t) :: rest => Expressible t ∧ ExpressibleFields rest

end

theorem expressibleFields_iff {fields : List (String × Tree)} :
    ExpressibleFields fields ↔ ∀ f ∈ fields, f.2.Expressible := by
  induction fields with
  | nil => simp [ExpressibleFields]
  | cons f rest ih => rw [ExpressibleFields, ih, List.forall_mem_cons]

theorem expressibleItems_iff {items : List Tree} :
    ExpressibleItems items ↔ ∀ t ∈ items, t.Expressible := by
  induction items with
  | nil => simp [ExpressibleItems]
  | cons t rest ih => rw [ExpressibleItems, ih, List.forall_mem_cons]

/-- A number comes back as it was, written as an integer or not. -/
theorem ofJson_numberToJson {f : Float} (finite : f.isFinite = true) (unsigned : f ≠ -0.0) :
    ofJson (numberToJson f) = .number f := by
  unfold numberToJson
  cases read : Decimal.smallInt? f with
  | some n => exact congrArg Tree.number (Decimal.toFloat_of_smallInt? read unsigned)
  | none =>
    simp only [finite, if_true]
    rfl

/-- The keys of an object are sorted on the way, and nothing is lost. -/
theorem alike_object {fields : List (String × Tree)} (distinct : (fields.map (·.1)).Nodup)
    (present : ∀ f ∈ fields, f.2 ≠ .undefined)
    (each : List.Forall₂ Alike (fields.map (·.2)) (fields.map fun f => ofJson f.2.toJson)) :
    Alike (.object fields) (ofJson (toJson (.object fields))) := by
  have written : toJson (.object fields) =
      .object (Json.insertAll (fields.map fun f => (f.1, f.2.toJson)) []) := by
    rw [toJson, toJsonFields_eq present, Json.mkObject_eq]
  have keys : (fields.map fun f : String × Tree => (f.1, f.2.toJson)).map (·.1) =
      fields.map (·.1) := by
    rw [List.map_map]
    rfl
  have sorted : (Json.insertAll (fields.map fun f => (f.1, f.2.toJson)) []).Perm
      ((fields.map fun f : String × Tree => (f.1, f.2.toJson)) ++ []) :=
    Json.insertAll_perm (by rwa [List.append_nil, keys])
  rw [List.append_nil] at sorted
  rw [written, ofJson, ofJsonFields_eq]
  have moved := sorted.symm.map fun f : String × Json => (f.1, ofJson f.2)
  rw [List.map_map] at moved
  refine .object ?_ ?_ moved
  · rw [List.map_map]
    rfl
  · rwa [List.map_map]

mutual

/-- A tree that JSON can express comes back but for the order of keys. -/
theorem alike_ofJson_toJson : ∀ t : Tree, t.Expressible → t.Alike (ofJson t.toJson)
  | .null, _ | .bool _, _ | .string _, _ => .same _
  | .number f, ⟨finite,unsigned⟩ => by
    rw [toJson, ofJson_numberToJson finite unsigned]
    exact .same _
  | .object fields, ⟨distinct,inner⟩ =>
    alike_object distinct (fun f within blank => by
      have own := expressibleFields_iff.mp inner f within
      rw [blank] at own
      exact own) (alikeFields fields inner)
  | .array items, inner => by
    rw [toJson, ofJson, toJsonItems_eq, ofJsonItems_eq, List.map_map]
    exact .array (alikeItems items inner)

theorem alikeItems : ∀ items : List Tree, ExpressibleItems items →
    List.Forall₂ Alike items (items.map (ofJson ∘ toJson))
  | [], _ => .nil
  | t :: rest, ⟨first,later⟩ => .cons (alike_ofJson_toJson t first) (alikeItems rest later)

theorem alikeFields : ∀ fields : List (String × Tree), ExpressibleFields fields →
    List.Forall₂ Alike (fields.map (·.2)) (fields.map fun f => ofJson f.2.toJson)
  | [], _ => .nil
  | (_, t) :: rest, ⟨first,later⟩ => .cons (alike_ofJson_toJson t first) (alikeFields rest later)

end

end Tree

/-- Everything in the container can be set. -/
def Cell.Settable : Cell → Prop
  | .object o => o.access = .writable ∧ ∀ e ∈ o.entries, e.2.readOnly = false
  | .array a => a.access = .writable ∧ ∀ s ∈ a.items, s.readOnly = false

namespace Heap

variable {h k : Heap} {v w : Value} {r low middle high : Nat} {refs refs' : List Ref}

/-- Different containers that were made while the heap grew from one size to another, all of them
    settable. -/
structure Sprouts (k : Heap) (low high : Nat) (refs : List Ref) : Prop where
  apart : refs.Nodup
  made : ∀ r ∈ refs, low ≤ r ∧ r < high
  settable : ∀ r ∈ refs, ∃ c, k.cell? r = some c ∧ c.Settable

theorem Sprouts.nil (k : Heap) (low high : Nat) : k.Sprouts low high [] :=
  ⟨List.nodup_nil, nofun, nofun⟩

theorem Sprouts.append (first : k.Sprouts low middle refs) (second : k.Sprouts middle high refs')
    (early : low ≤ middle) (late : middle ≤ high) : k.Sprouts low high (refs ++ refs') where
  apart := by
    refine List.nodup_append.mpr ⟨first.apart, second.apart, fun r here s there same => ?_⟩
    have below := (first.made r here).2
    have above := (second.made s there).1
    exact Nat.lt_irrefl s (Nat.lt_of_lt_of_le (same ▸ below) above)
  made r within := by
    rcases List.mem_append.mp within with here | there
    · exact ⟨(first.made r here).1, Nat.lt_of_lt_of_le (first.made r here).2 late⟩
    · exact ⟨Nat.le_trans early (second.made r there).1, (second.made r there).2⟩
  settable r within := (List.mem_append.mp within).elim (first.settable r) (second.settable r)

/-- A container is made after what is in it. -/
theorem Sprouts.enclose {c : Cell} (inner : k.Sprouts low r refs) (grown : low ≤ r)
    (found : k.cell? r = some c) (settable : c.Settable) : k.Sprouts low (r + 1) (r :: refs) where
  apart := List.nodup_cons.mpr ⟨fun within => Nat.lt_irrefl r (inner.made r within).2, inner.apart⟩
  made s within := by
    rcases List.mem_cons.mp within with rfl | deeper
    · exact ⟨grown, Nat.lt_succ_self s⟩
    · exact ⟨(inner.made s deeper).1, Nat.lt_succ_of_lt (inner.made s deeper).2⟩
  settable s within := by
    rcases List.mem_cons.mp within with rfl | deeper
    · exact ⟨c, found, settable⟩
    · exact inner.settable s deeper

theorem buildFields_writable (h : Heap) (fields : List (String × Tree)) :
    ∀ e ∈ (h.buildFields fields).2, e.2.readOnly = false := by
  induction fields generalizing h with
  | nil => exact nofun
  | cons f rest ih =>
    intro e within
    rcases List.mem_cons.mp within with rfl | later
    · rfl
    · exact ih _ e later

theorem buildItems_writable (h : Heap) (items : List Tree) :
    ∀ s ∈ (h.buildItems items).2, s.readOnly = false := by
  induction items generalizing h with
  | nil => exact nofun
  | cons t rest ih =>
    intro s within
    rcases List.mem_cons.mp within with rfl | later
    · rfl
    · exact ih _ s later

theorem occurrencesIn_leaf (h : Heap) (leaf : v.ref? = none) (depth : Nat) :
    h.occurrencesIn depth v = [] := by
  cases depth with
  | zero => rfl
  | succ depth => cases v <;> first | rfl | cases leaf

mutual

/-- What is built of a tree are new containers, each once, however deep one looks. -/
theorem build_sprouts : ∀ (h : Heap) (t : Tree) {k : Heap}, (h.build t).1.Extends k →
    ∀ depth, k.Sprouts h.size (h.build t).1.size (k.occurrencesIn depth (h.build t).2)
  | _, .undefined, _, _, _ | _, .null, _, _, _ | _, .bool _, _, _, _ | _, .number _, _, _, _
  | _, .string _, _, _, _ | _, .dateTime _, _, _, _ => by
    rw [occurrencesIn_leaf _ rfl]
    exact .nil _ _ _
  | h, .object fields, k, grown, depth => by
    cases depth with
    | zero => exact .nil _ _ _
    | succ depth =>
      have found := grown _ _ (cell?_alloc (h.buildFields fields).1
        (.object ⟨.writable, (h.buildFields fields).2, none⟩))
      have entries : k.entries (h.buildFields fields).1.size = (h.buildFields fields).2 := by
        rw [Heap.entries, object?, found]
      have inner := buildFields_sprouts h fields ((extends_alloc _ _).trans grown) depth
      have whole := inner.enclose (extends_buildFields h fields).size found
        ⟨rfl, buildFields_writable h fields⟩
      rw [← entries, ← size_alloc] at whole
      exact whole
  | h, .array items, k, grown, depth => by
    cases depth with
    | zero => exact .nil _ _ _
    | succ depth =>
      have found := grown _ _ (cell?_alloc (h.buildItems items).1
        (.array ⟨.writable, (h.buildItems items).2, none⟩))
      have slots : k.items (h.buildItems items).1.size = (h.buildItems items).2 := by
        rw [Heap.items, array?, found]
      have inner := buildItems_sprouts h items ((extends_alloc _ _).trans grown) depth
      have whole := inner.enclose (extends_buildItems h items).size found
        ⟨rfl, buildItems_writable h items⟩
      rw [← slots, ← size_alloc] at whole
      exact whole

theorem buildFields_sprouts : ∀ (h : Heap) (fields : List (String × Tree)) {k : Heap},
    (h.buildFields fields).1.Extends k → ∀ depth, k.Sprouts h.size (h.buildFields fields).1.size
      ((h.buildFields fields).2.flatMap fun e => k.occurrencesIn depth e.2.value)
  | _, [], _, _, _ => .nil _ _ _
  | h, (_, t) :: rest, _, grown, depth =>
    (build_sprouts h t ((extends_buildFields _ rest).trans grown) depth).append
      (buildFields_sprouts _ rest grown depth) (extends_build h t).size
      (extends_buildFields _ rest).size

theorem buildItems_sprouts : ∀ (h : Heap) (items : List Tree) {k : Heap},
    (h.buildItems items).1.Extends k → ∀ depth, k.Sprouts h.size (h.buildItems items).1.size
      ((h.buildItems items).2.flatMap fun s => k.occurrencesIn depth s.value)
  | _, [], _, _, _ => .nil _ _ _
  | h, t :: rest, _, grown, depth =>
    (build_sprouts h t ((extends_buildItems _ rest).trans grown) depth).append
      (buildItems_sprouts _ rest grown depth) (extends_build h t).size
      (extends_buildItems _ rest).size

end

mutual

theorem build_treeIn : ∀ (h : Heap) (t : Tree) {k : Heap}, (h.build t).1.Extends k →
    ∃ depth, k.treeIn depth (h.build t).2 = .ok t
  | _, .undefined, _, _ | _, .null, _, _ | _, .bool _, _, _ | _, .number _, _, _
  | _, .string _, _, _ | _, .dateTime _, _, _ => ⟨0, rfl⟩
  | h, .object fields, k, grown => by
    have found := grown _ _ (cell?_alloc (h.buildFields fields).1
      (.object ⟨.writable, (h.buildFields fields).2, none⟩))
    have entries : k.entries (h.buildFields fields).1.size = (h.buildFields fields).2 := by
      rw [Heap.entries, object?, found]
    obtain ⟨depth,each⟩ := buildFields_treeIn h fields ((extends_alloc _ _).trans grown)
    rw [← entries] at each
    exact ⟨depth + 1, treeIn_object each⟩
  | h, .array items, k, grown => by
    have found := grown _ _ (cell?_alloc (h.buildItems items).1
      (.array ⟨.writable, (h.buildItems items).2, none⟩))
    have slots : k.items (h.buildItems items).1.size = (h.buildItems items).2 := by
      rw [Heap.items, array?, found]
    obtain ⟨depth,each⟩ := buildItems_treeIn h items ((extends_alloc _ _).trans grown)
    rw [← slots] at each
    exact ⟨depth + 1, treeIn_array each⟩

theorem buildFields_treeIn : ∀ (h : Heap) (fields : List (String × Tree)) {k : Heap},
    (h.buildFields fields).1.Extends k → ∃ depth, k.EntriesIn depth (h.buildFields fields).2 fields
  | _, [], _, _ => ⟨0, .nil⟩
  | h, (_, t) :: rest, _, grown => by
    obtain ⟨depth,first⟩ := build_treeIn h t ((extends_buildFields _ rest).trans grown)
    obtain ⟨depth',later⟩ := buildFields_treeIn _ rest grown
    exact ⟨max depth depth', .cons ⟨rfl, treeIn_mono (Nat.le_max_left _ _) first⟩
      (later.imp fun _ _ same => ⟨same.1, treeIn_mono (Nat.le_max_right _ _) same.2⟩)⟩

theorem buildItems_treeIn : ∀ (h : Heap) (items : List Tree) {k : Heap},
    (h.buildItems items).1.Extends k → ∃ depth, k.ItemsIn depth (h.buildItems items).2 items
  | _, [], _, _ => ⟨0, .nil⟩
  | h, t :: rest, _, grown => by
    obtain ⟨depth,first⟩ := build_treeIn h t ((extends_buildItems _ rest).trans grown)
    obtain ⟨depth',later⟩ := buildItems_treeIn _ rest grown
    exact ⟨max depth depth', .cons (treeIn_mono (Nat.le_max_left _ _) first)
      (later.imp fun _ _ same => treeIn_mono (Nat.le_max_right _ _) same)⟩

end

/-- The value is the other one, or is held by a container that the other one reaches. -/
def Contains (h : Heap) (v w : Value) : Prop :=
  w = v ∨ ∃ r s, v.ref? = some r ∧ Relation.ReflTransGen h.Within r s ∧ w ∈ h.children s

theorem Contains.of_child {x : Value} (own : v.ref? = some r) (held : w ∈ h.children r)
    (contains : h.Contains w x) : h.Contains v x := by
  rcases contains with rfl | ⟨s,t,inner,reach,within⟩
  · exact Or.inr ⟨r, r, own, .refl, held⟩
  · exact Or.inr ⟨r, t, own, .head ⟨w, held, inner⟩ reach, within⟩

end Heap

/-- JSON has a value of its own for it, or it is a container. -/
def Value.IsPlain : Value → Prop
  | .undefined | .dateTime _ => False
  | .number f => f.isFinite = true ∧ f ≠ -0.0
  | _ => True

namespace Heap

variable {h : Heap} {v : Value} {t : Tree}

theorem keys_of_entriesIn {depth : Nat} {entries : List (String × Slot)}
    {fields : List (String × Tree)} (each : h.EntriesIn depth entries fields) :
    entries.map (·.1) = fields.map (·.1) := by
  induction each with
  | nil => rfl
  | cons here _ ih => rw [List.map_cons, List.map_cons, here.1, ih]

/-- Plain values unfold to what JSON can express. -/
theorem expressible_of_treeIn {depth : Nat} (keys : ∀ r, ((h.entries r).map (·.1)).Nodup)
    (plain : ∀ w, h.Contains v w → w.IsPlain) (tree : h.treeIn depth v = .ok t) :
    t.Expressible := by
  induction depth generalizing v t with
  | zero =>
    have own := plain v (Or.inl rfl)
    cases v with
    | object r => cases tree
    | array r => cases tree
    | undefined => exact own.elim
    | dateTime _ => exact own.elim
    | number f => cases tree; exact own
    | _ => cases tree; trivial
  | succ depth ih =>
    have own := plain v (Or.inl rfl)
    cases v with
    | object r =>
      obtain ⟨fields,rfl,each⟩ := forall₂_of_treeIn_object tree
      refine ⟨keys_of_entriesIn each ▸ keys r, Tree.expressibleFields_iff.mpr fun f within => ?_⟩
      obtain ⟨e,held,-,inner⟩ := mem_of_forall₂ each.flip within
      exact ih (fun w contains => plain w (contains.of_child rfl (mem_children_of_entry held))) inner
    | array r =>
      obtain ⟨trees,rfl,each⟩ := forall₂_of_treeIn_array tree
      refine Tree.expressibleItems_iff.mpr fun t within => ?_
      obtain ⟨s,held,inner⟩ := mem_of_forall₂ each.flip within
      exact ih (fun w contains => plain w (contains.of_child rfl (mem_children_of_item held))) inner
    | undefined => exact own.elim
    | dateTime _ => exact own.elim
    | number f => cases tree; exact own
    | _ => cases tree; trivial

/-- The value is a tree of new containers that can all be set, and nothing else is changed. -/
structure Plants (h : Heap) (v : Value) (k : Heap) : Prop where
  grown : h.Extends k
  tree : ∀ depth, k.Sprouts h.size k.size (k.occurrencesIn depth v)

/-- The value is written as this JSON, and so is every deep copy of it. -/
def WritesAs (h : Heap) (v : Value) (j : Json) : Prop :=
  h.toJson v = .ok j ∧
    ∀ target, (h.deepClone v target).1.toJson (h.deepClone v target).2 = .ok j

theorem unfold_ofJson (sound : h.Sound) (j : Json) :
    (h.ofJson j).1.unfold (h.ofJson j).2 = .ok (Tree.ofJson j) := by
  obtain ⟨sound',finds⟩ := build_sound (Tree.ofJson j) sound
  exact (unfold_iff sound'.intact finds).mpr (build_treeIn h (Tree.ofJson j) (.refl _))

theorem writesAs_normal (sound : h.Sound) (j : Json) :
    (h.ofJson j).1.WritesAs (h.ofJson j).2 j.normal := by
  obtain ⟨sound',finds⟩ := build_sound (Tree.ofJson j) sound
  have written : (h.ofJson j).1.toJson (h.ofJson j).2 = .ok j.normal :=
    toJson_iff.mpr ⟨_, unfold_ofJson sound j, rfl⟩
  refine ⟨written, fun target => ?_⟩
  obtain ⟨p,replica⟩ := deepClone_replica sound' finds target
  exact (Simulates.toJson replica.simulates replica.like sound'.intact finds replica.intact
    replica.finds).mp written

theorem toJson_of_acyclic (acyclic : ¬ h.ReachesCycle v) :
    ∃ t, h.unfold v = .ok t ∧ h.toJson v = .ok t.toJson := by
  cases written : h.toJson v with
  | error e => exact absurd (reachesCycle_of_toJson_error written) acyclic
  | ok j =>
    obtain ⟨t,unfolded,rfl⟩ := toJson_iff.mp written
    exact ⟨t, unfolded, rfl⟩

/-- The way from JSON to values and back. A JSON value becomes a tree of new containers that can all
    be set; that is always written as JSON again, and copied before at any level it is written the
    same. Going that way twice is going it once, and nothing happens to a value whose keys are in
    order and whose numbers are integers below nine quadrillion. The other way round, a value without
    cycles, and without what JSON has no value for, comes back as the same tree but for the order of
    keys. -/
theorem json_and_back (sound : h.Sound) (keys : ∀ r, ((h.entries r).map (·.1)).Nodup) :
    (∀ j : Json, h.Plants (h.ofJson j).2 (h.ofJson j).1 ∧
      (h.ofJson j).1.WritesAs (h.ofJson j).2 j.normal ∧ j.normal.normal = j.normal ∧
      (j.Canonical → j.HasSmallNumbers → j.normal = j)) ∧
    ∀ v, ¬ h.ReachesCycle v → (∀ w, h.Contains v w → w.IsPlain) → ∃ j t t',
      h.toJson v = .ok j ∧ h.unfold v = .ok t ∧
      (h.ofJson j).1.unfold (h.ofJson j).2 = .ok t' ∧ t.Alike t' := by
  refine ⟨fun j => ⟨⟨extends_ofJson h j, build_sprouts h _ (.refl _)⟩, writesAs_normal sound j,
    j.normal_normal, fun canonical small => ?_⟩, fun v acyclic plain => ?_⟩
  · rw [j.normal_of_small small, j.sorted_of_canonical canonical]
  · obtain ⟨t,unfolded,written⟩ := toJson_of_acyclic acyclic
    exact ⟨t.toJson, t, _, written, unfolded, unfold_ofJson sound _, t.alike_ofJson_toJson
      (expressible_of_treeIn keys plain (treeIn_of_unfoldIn unfolded))⟩

namespace Unsorted

/-- An object with keys out of order that holds a number and an array. -/
def sample : Heap where
  cells := #[.object ⟨.constant, [], none⟩, .array ⟨.constant, [], none⟩,
    .object ⟨.writable, [("b", ⟨.array 3, false⟩), ("a", ⟨.number 7.0, true⟩)], none⟩,
    .array ⟨.readOnly, [⟨.bool true, false⟩, ⟨.null, false⟩], none⟩]

theorem sample_plain (s : Ref) : ∀ w ∈ sample.children s, w.IsPlain := by
  match s with
  | 0 | 1 => exact nofun
  | 2 =>
    refine List.forall_mem_cons.mpr ⟨trivial, List.forall_mem_cons.mpr ⟨?_, nofun⟩⟩
    exact ⟨by decide, by decide⟩
  | 3 => exact List.forall_mem_cons.mpr ⟨trivial, List.forall_mem_cons.mpr ⟨trivial, nofun⟩⟩
  | _ + 4 => exact nofun

/-- The JSON value that the object is written as comes back as it is, and the object but for the
    order of its keys. -/
theorem sample_and_back :
    (∃ j, j = Json.object [("a", .ofInt 7), ("b", .array [.bool true, .null])] ∧
      (sample.ofJson j).1.WritesAs (sample.ofJson j).2 j) ∧
    ∃ j t t', sample.toJson (.object 2) = .ok j ∧ sample.unfold (.object 2) = .ok t ∧
      (sample.ofJson j).1.unfold (sample.ofJson j).2 = .ok t' ∧ t.Alike t' := by
  have sound : sample.Sound := sound_of_isSound (by decide)
  have keys (r : Ref) : ((sample.entries r).map (·.1)).Nodup := by
    match r with
    | 0 | 1 | 3 => exact .nil
    | 2 => decide
    | _ + 4 => exact .nil
  have acyclic : ¬ sample.ReachesCycle (.object 2) := by
    intro cycle
    cases toJson_error_of_reachesCycle sound.intact (v := .object 2) ⟨_, rfl⟩ cycle
  have plain (w : Value) (contains : sample.Contains (.object 2) w) : w.IsPlain := by
    rcases contains with rfl | ⟨_,s,-,-,within⟩
    · trivial
    · exact sample_plain s w within
  obtain ⟨there,back⟩ := json_and_back sound keys
  obtain ⟨-,written,-,same⟩ := there
    (.object [("a", .ofInt 7), ("b", .array [.bool true, .null])])
  have ascending : Json.Ascending [("a", .ofInt 7), ("b", .array [.bool true, .null])] :=
    List.pairwise_pair.mpr (by decide)
  have small : (7 : Int).natAbs < 9000000000000000 := by decide
  have unchanged := same ⟨ascending, trivial, ⟨trivial, trivial, trivial⟩, trivial⟩
    ⟨small, ⟨trivial, trivial, trivial⟩, trivial⟩
  rw [unchanged] at written
  exact ⟨⟨_, rfl, written⟩, back (.object 2) acyclic plain⟩

end Unsorted

end Heap

end Statechart

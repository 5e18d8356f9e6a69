import Statechart.Expr.Eval
import Statechart.Proofs.Value.Cycle

/- Two heaps side by side. Containers of the one are paired with containers of the other; what is
   in paired containers is alike, and no container is paired twice. Values that are alike read
   alike: along paths, as text, in comparisons and in whole expressions. Which cell a container
   has in its heap does not matter. -/
namespace Statechart

/-- Which containers of two heaps stand for each other. -/
abbrev Pairing := Ref → Ref → Prop

/-- Values that are the same but for containers, which are paired. -/
inductive Value.Like (p : Pairing) : Value → Value → Prop where
  | undefined : Like p .undefined .undefined
  | null : Like p .null .null
  | bool (b : Bool) : Like p (.bool b) (.bool b)
  | number (f : Float) : Like p (.number f) (.number f)
  | string (s : String) : Like p (.string s) (.string s)
  | dateTime (t : DateTime) : Like p (.dateTime t) (.dateTime t)
  | object {r s : Ref} (pair : p r s) : Like p (.object r) (.object s)
  | array {r s : Ref} (pair : p r s) : Like p (.array r) (.array s)

/-- Entries in the same order under the same keys. -/
def Entries.Like (p : Pairing) : List (String × Slot) → List (String × Slot) → Prop :=
  List.Forall₂ fun a b => a.1 = b.1 ∧ a.2.value.Like p b.2.value

def Items.Like (p : Pairing) : List Slot → List Slot → Prop :=
  List.Forall₂ fun a b => a.value.Like p b.value

inductive Cell.Like (p : Pairing) : Cell → Cell → Prop where
  | object {o o' : ObjectCell} (entries : Entries.Like p o.entries o'.entries) :
      Like p (.object o) (.object o')
  | array {a a' : ArrayCell} (items : Items.Like p a.items a'.items) :
      Like p (.array a) (.array a')

structure Heap.Corresponds (p : Pairing) (h k : Heap) : Prop where
  functional : ∀ {r s t}, p r s → p r t → s = t
  injective : ∀ {r s t}, p r t → p s t → r = s
  cells : ∀ {r s}, p r s → ∃ c d, h.cell? r = some c ∧ k.cell? s = some d ∧ c.Like p d

/-- More containers are paired, and both heaps are as they were but for new cells. -/
structure Heap.Grown (p : Pairing) (h k : Heap) (q : Pairing) (h' k' : Heap) : Prop where
  wider : ∀ {r s}, p r s → q r s
  left : h.Extends h'
  right : k.Extends k'
  corresponds : Heap.Corresponds q h' k'

variable {p q : Pairing} {h h' k k' : Heap} {v w : Value} {r s : Nat}

theorem Value.Like.wider (like : v.Like p w) (wider : ∀ {r s}, p r s → q r s) : v.Like q w := by
  cases like with
  | object pair => exact .object (wider pair)
  | array pair => exact .array (wider pair)
  | _ => constructor

theorem Cell.Like.wider {c d : Cell} (like : c.Like p d) (wider : ∀ {r s}, p r s → q r s) :
    c.Like q d := by
  cases like with
  | object entries => exact .object (entries.imp fun _ _ same => ⟨same.1, same.2.wider wider⟩)
  | array items => exact .array (items.imp fun _ _ same => same.wider wider)

namespace Value

theorem Like.isTruthy (like : v.Like p w) : v.isTruthy = w.isTruthy := by
  cases like <;> rfl

theorem Like.isPresent (like : v.Like p w) : v.isPresent = w.isPresent := by
  cases like <;> rfl

theorem Like.typeName (like : v.Like p w) : v.typeName = w.typeName := by
  cases like <;> rfl

theorem Like.compare {v' w' : Value} (left : v.Like p w) (right : v'.Like p w') :
    v.compare v' = w.compare w' := by
  cases left <;> cases right <;> rfl

end Value

namespace Heap

theorem Grown.refl (corresponds : Corresponds p h k) : Grown p h k p h k :=
  ⟨id, .refl h, .refl k, corresponds⟩

theorem Grown.trans {t : Pairing} {h'' k'' : Heap} (first : Grown p h k q h' k')
    (second : Grown q h' k' t h'' k'') : Grown p h k t h'' k'' :=
  ⟨fun pair => second.wider (first.wider pair), first.left.trans second.left,
    first.right.trans second.right, second.corresponds⟩

/-- What is paired stays paired while the heaps grow apart. -/
theorem Corresponds.extend (corresponds : Corresponds p h k) (left : h.Extends h')
    (right : k.Extends k') : Corresponds p h' k' where
  functional := corresponds.functional
  injective := corresponds.injective
  cells pair := by
    obtain ⟨c,d,here,there,like⟩ := corresponds.cells pair
    exact ⟨c, d, left _ _ here, right _ _ there, like⟩

/-- No container holds a reference to nowhere. -/
def Closed (h : Heap) : Prop := ∀ {r s}, h.Within r s → s < h.size

theorem closed_of_children (inside : ∀ r < h.size, ∀ v ∈ h.children r, ∀ s ∈ v.ref?, s < h.size) :
    h.Closed := by
  intro r s within
  obtain ⟨v,held,own⟩ := within
  exact inside r (Within.lt_size ⟨v, held, own⟩) v held s own

/-- What a container at its own side holds is paired with itself where the container is. -/
theorem cell_like_self {c : Cell} (held : ∀ v ∈ c.values, v.Like p v) : c.Like p c := by
  cases c with
  | object o =>
    exact .object (List.forall₂_same.mpr fun e he =>
      ⟨rfl, held _ (List.mem_map.mpr ⟨e, he, rfl⟩)⟩)
  | array a =>
    exact .array (List.forall₂_same.mpr fun e he => held _ (List.mem_map.mpr ⟨e, he, rfl⟩))

/-- While a heap only grows its containers correspond to themselves. -/
theorem Closed.corresponds (closed : h.Closed) (grown : h.Extends h') :
    Corresponds (fun r s => r = s ∧ r < h.size) h h' where
  functional := by
    rintro r s t ⟨rfl,_⟩ ⟨rfl,_⟩
    rfl
  injective := by
    rintro r s t ⟨rfl,_⟩ ⟨rfl,_⟩
    rfl
  cells := by
    rintro r s ⟨rfl,inside⟩
    obtain ⟨c,found⟩ := cell?_of_lt inside
    have held : ∀ v ∈ c.values, v.Like (fun r s => r = s ∧ r < h.size) v := by
      intro v hv
      have child : v ∈ h.children r := by rwa [children, found]
      cases v with
      | object s => exact .object ⟨rfl, closed ⟨_, child, rfl⟩⟩
      | array s => exact .array ⟨rfl, closed ⟨_, child, rfl⟩⟩
      | _ => constructor
    exact ⟨c, c, found, grown r c found, cell_like_self held⟩

theorem Corresponds.lt_left (corresponds : Corresponds p h k) (pair : p r s) : r < h.size := by
  obtain ⟨_,_,here,_,_⟩ := corresponds.cells pair
  exact lt_size_of_cell here

theorem Corresponds.lt_right (corresponds : Corresponds p h k) (pair : p r s) : s < k.size := by
  obtain ⟨_,_,_,there,_⟩ := corresponds.cells pair
  exact lt_size_of_cell there

theorem Corresponds.same (corresponds : Corresponds p h k) {v' w' : Value} (left : v.Like p w)
    (right : v'.Like p w') : v.same v' = w.same w' := by
  have refs : ∀ {r s r' s'}, p r s → p r' s' → ((r == r') = (s == s')) := by
    intro r s r' s' pair pair'
    rw [Bool.eq_iff_iff, beq_iff_eq, beq_iff_eq]
    constructor
    · rintro rfl
      exact corresponds.functional pair pair'
    · rintro rfl
      exact corresponds.injective pair pair'
  cases left with
  | object pair =>
    cases right with
    | object pair' => exact refs pair pair'
    | _ => rfl
  | array pair =>
    cases right with
    | array pair' => exact refs pair pair'
    | _ => rfl
  | _ => cases right <;> rfl

theorem Corresponds.looseEq (corresponds : Corresponds p h k) {v' w' : Value} (left : v.Like p w)
    (right : v'.Like p w') : v.looseEq v' = w.looseEq w' := by
  rw [Value.looseEq, Value.looseEq, left.isPresent, right.isPresent, corresponds.same left right]

theorem Corresponds.entries (corresponds : Corresponds p h k) (pair : p r s) :
    Entries.Like p (h.entries r) (k.entries s) := by
  obtain ⟨c,d,here,there,like⟩ := corresponds.cells pair
  unfold Heap.entries object?
  rw [here, there]
  cases like with
  | object entries => exact entries
  | array items => exact .nil

theorem Corresponds.items (corresponds : Corresponds p h k) (pair : p r s) :
    Items.Like p (h.items r) (k.items s) := by
  obtain ⟨c,d,here,there,like⟩ := corresponds.cells pair
  unfold Heap.items array?
  rw [here, there]
  cases like with
  | object entries => exact .nil
  | array items => exact items

def valueOf : Option Slot → Value
  | some slot => slot.value
  | none => .undefined

theorem get_eq (h : Heap) (r : Ref) (key : String) :
    h.get r key = valueOf (lookupEntry key (h.entries r)) := by
  unfold Heap.get Heap.slot? Heap.entries
  cases h.object? r <;> rfl

theorem get_of_object {o : ObjectCell} (found : h.object? r = some o) (key : String) :
    h.get r key = valueOf (lookupEntry key o.entries) := by
  rw [get_eq, Heap.entries, found]

theorem like_lookup {entries entries' : List (String × Slot)} (like : Entries.Like p entries entries')
    (key : String) :
    (valueOf (lookupEntry key entries)).Like p (valueOf (lookupEntry key entries')) := by
  induction like with
  | nil => exact .undefined
  | cons same _ ih =>
    rw [lookupEntry, lookupEntry, same.1]
    split
    · exact same.2
    · exact ih

theorem Corresponds.get (corresponds : Corresponds p h k) (pair : p r s) (key : String) :
    (h.get r key).Like p (k.get s key) := by
  rw [get_eq, get_eq]
  exact like_lookup (corresponds.entries pair) key

theorem getItem_eq (h : Heap) (r : Ref) (i : Nat) : h.getItem r i = valueOf (h.items r)[i]? := by
  unfold Heap.getItem
  cases (h.items r)[i]? <;> rfl

theorem like_item {items items' : List Slot} (like : Items.Like p items items') (i : Nat) :
    (valueOf items[i]?).Like p (valueOf items'[i]?) := by
  induction like generalizing i with
  | nil => exact .undefined
  | cons same _ ih =>
    cases i with
    | zero => exact same
    | succ i => exact ih i

/-- Alike values lead to alike values. -/
theorem Corresponds.getPath (corresponds : Corresponds p h k) (path : List String)
    (like : v.Like p w) : (h.getPath v path).Like p (k.getPath w path) := by
  induction path generalizing v w with
  | nil => exact like
  | cons head rest ih =>
    cases like with
    | object pair => exact ih (corresponds.get pair head)
    | array pair =>
      have items := corresponds.items pair
      simp only [Heap.getPath]
      cases Decimal.readWord head with
      | some i =>
        refine ih ?_
        rw [getItem_eq, getItem_eq]
        exact like_item items i
      | none =>
        simp only [items.length_eq]
        split
        · exact .number _
        · exact .undefined
    | _ => exact .undefined

theorem like_map_entries {entries entries' : List (String × Slot)} {f g : Value → String}
    (like : Entries.Like p entries entries') (same : ∀ {v w}, v.Like p w → f v = g w) :
    (entries.map fun e => e.1 ++ "=" ++ f e.2.value) =
      entries'.map fun e => e.1 ++ "=" ++ g e.2.value := by
  induction like with
  | nil => rfl
  | cons here _ ih => rw [List.map_cons, List.map_cons, ih, here.1, same here.2]

theorem like_map_items {items items' : List Slot} {f g : Value → String}
    (like : Items.Like p items items') (same : ∀ {v w}, v.Like p w → f v = g w) :
    (items.map fun e => f e.value) = items'.map fun e => g e.value := by
  induction like with
  | nil => rfl
  | cons here _ ih => rw [List.map_cons, List.map_cons, ih, same here]

/-- The containers that two walks are inside of: paired, and all different. -/
structure Abreast (p : Pairing) (path path' : List Ref) : Prop where
  paired : List.Forall₂ p path path'
  left : path.Nodup
  right : path'.Nodup

theorem forall₂_mem_iff (corresponds : Corresponds p h k) {path path' : List Ref}
    (paired : List.Forall₂ p path path') (pair : p r s) : r ∈ path ↔ s ∈ path' := by
  induction paired with
  | nil => simp
  | @cons a b _ _ here _ ih =>
    rw [List.mem_cons, List.mem_cons, ih]
    refine or_congr_left ⟨?_, ?_⟩
    · rintro rfl
      exact corresponds.functional pair here
    · rintro rfl
      exact corresponds.injective pair here

theorem Abreast.cons (corresponds : Corresponds p h k) {path path' : List Ref}
    (abreast : Abreast p path path') (pair : p r s) (fresh : r ∉ path) :
    Abreast p (r :: path) (s :: path') where
  paired := .cons pair abreast.paired
  left := List.nodup_cons.mpr ⟨fresh, abreast.left⟩
  right := List.nodup_cons.mpr
    ⟨fun seen => fresh ((forall₂_mem_iff corresponds abreast.paired pair).mpr seen), abreast.right⟩

theorem exists_of_forall₂ {α β : Type} {R : α → β → Prop} {l : List α} {l' : List β}
    (each : List.Forall₂ R l l') {a : α} (within : a ∈ l) : ∃ b, R a b := by
  induction each with
  | nil => cases within
  | cons here _ ih =>
    rcases List.mem_cons.mp within with rfl | later
    · exact ⟨_, here⟩
    · exact ih later

/-- The walks are inside of containers of their heaps, so of no more than there are. -/
theorem Abreast.short (corresponds : Corresponds p h k) {path path' : List Ref}
    (abreast : Abreast p path path') : path.length ≤ h.size ∧ path'.length ≤ k.size := by
  constructor
  · refine length_le_of_nodup abreast.left fun r hr => ?_
    obtain ⟨s,pair⟩ := exists_of_forall₂ abreast.paired hr
    exact corresponds.lt_left pair
  · refine length_le_of_nodup abreast.right fun s hs => ?_
    obtain ⟨r,pair⟩ := exists_of_forall₂ abreast.paired.flip hs
    exact corresponds.lt_right pair

theorem showIn_object (h : Heap) (depth : Nat) (path : List Ref) (r : Ref) :
    h.showIn (depth + 1) path (.object r) =
      if path.contains r then "(...)"
      else "(" ++ String.intercalate ","
        ((h.entries r).map fun e => e.1 ++ "=" ++ h.showIn depth (r :: path) e.2.value) ++ ")" := rfl

theorem showIn_array (h : Heap) (depth : Nat) (path : List Ref) (r : Ref) :
    h.showIn (depth + 1) path (.array r) =
      if path.contains r then "[...]"
      else "[" ++ String.intercalate ","
        ((h.items r).map fun s => h.showIn depth (r :: path) s.value) ++ "]" := rfl

/-- Two walks over alike values write the same text. Neither runs out of depth. -/
theorem Corresponds.showIn (corresponds : Corresponds p h k) {depth depth' : Nat}
    {path path' : List Ref} (abreast : Abreast p path path') (like : v.Like p w)
    (deep : h.size + 1 ≤ depth + path.length) (deep' : k.size + 1 ≤ depth' + path'.length) :
    h.showIn depth path v = k.showIn depth' path' w := by
  have short := abreast.short corresponds
  induction depth generalizing depth' path path' v w with
  | zero => omega
  | succ depth ih =>
    cases depth' with
    | zero => omega
    | succ depth' =>
      have inner : ∀ {r s}, p r s → r ∉ path → ∀ {v w}, v.Like p w →
          h.showIn depth (r :: path) v = k.showIn depth' (s :: path') w := by
        intro r s pair fresh v w like
        have within := abreast.cons corresponds pair fresh
        refine ih within like ?_ ?_ (within.short corresponds)
        · rw [List.length_cons]
          omega
        · rw [List.length_cons]
          omega
      have seen : ∀ {r s}, p r s → path.contains r = path'.contains s := by
        intro r s pair
        rw [Bool.eq_iff_iff, List.contains_iff_mem, List.contains_iff_mem]
        exact forall₂_mem_iff corresponds abreast.paired pair
      cases like with
      | object pair =>
        rw [showIn_object, showIn_object, seen pair]
        split
        · rfl
        · rename_i fresh
          rw [← seen pair, List.contains_iff_mem] at fresh
          rw [like_map_entries (corresponds.entries pair) (inner pair fresh)]
      | array pair =>
        rw [showIn_array, showIn_array, seen pair]
        split
        · rfl
        · rename_i fresh
          rw [← seen pair, List.contains_iff_mem] at fresh
          rw [like_map_items (corresponds.items pair) (inner pair fresh)]
      | _ => rfl

theorem Corresponds.display (corresponds : Corresponds p h k) (like : v.Like p w) :
    h.display v = k.display w :=
  corresponds.showIn ⟨.nil, List.nodup_nil, List.nodup_nil⟩ like (Nat.le_refl _) (Nat.le_refl _)

/-- One pair more. -/
def joined (p : Pairing) (r s : Ref) : Pairing := fun a b => p a b ∨ a = r ∧ b = s

/-- New containers that are alike can be paired. -/
theorem Corresponds.alloc (corresponds : Corresponds p h k) {c d : Cell} (like : c.Like p d) :
    Grown p h k (joined p h.size k.size) (h.alloc c).1 (k.alloc d).1 where
  wider := Or.inl
  left := extends_alloc h c
  right := extends_alloc k d
  corresponds := {
    functional := by
      rintro r s t (pair | ⟨rfl,rfl⟩) (pair' | ⟨here,rfl⟩)
      · exact corresponds.functional pair pair'
      · exact absurd (corresponds.lt_left pair) (here ▸ Nat.lt_irrefl _)
      · exact absurd (corresponds.lt_left pair') (Nat.lt_irrefl _)
      · rfl
    injective := by
      rintro r s t (pair | ⟨rfl,rfl⟩) (pair' | ⟨rfl,here⟩)
      · exact corresponds.injective pair pair'
      · exact absurd (corresponds.lt_right pair) (here ▸ Nat.lt_irrefl _)
      · exact absurd (corresponds.lt_right pair') (Nat.lt_irrefl _)
      · rfl
    cells := by
      rintro r s (pair | ⟨rfl,rfl⟩)
      · obtain ⟨c',d',here,there,same⟩ := corresponds.cells pair
        exact ⟨c', d', extends_alloc h c _ _ here, extends_alloc k d _ _ there, same.wider Or.inl⟩
      · exact ⟨c, d, cell?_alloc h c, cell?_alloc k d, like.wider Or.inl⟩ }

mutual

/-- A tree makes alike values in both heaps. -/
theorem Corresponds.build : ∀ {p : Pairing} {h k : Heap} (_ : Corresponds p h k) (t : Tree), ∃ q,
    Grown p h k q (h.build t).1 (k.build t).1 ∧ (h.build t).2.Like q (k.build t).2
  | p, _, _, corresponds, .undefined => ⟨p, .refl corresponds, .undefined⟩
  | p, _, _, corresponds, .null => ⟨p, .refl corresponds, .null⟩
  | p, _, _, corresponds, .bool b => ⟨p, .refl corresponds, .bool b⟩
  | p, _, _, corresponds, .number f => ⟨p, .refl corresponds, .number f⟩
  | p, _, _, corresponds, .string s => ⟨p, .refl corresponds, .string s⟩
  | p, _, _, corresponds, .dateTime t => ⟨p, .refl corresponds, .dateTime t⟩
  | _, h, k, corresponds, .object fields => by
    obtain ⟨q,grown,entries⟩ := corresponds.buildFields fields
    have cells : Cell.Like q (.object ⟨.writable, (h.buildFields fields).2, none⟩)
        (.object ⟨.writable, (k.buildFields fields).2, none⟩) := .object entries
    have last := grown.corresponds.alloc cells
    exact ⟨_, grown.trans last, .object (Or.inr ⟨rfl, rfl⟩)⟩
  | _, h, k, corresponds, .array items => by
    obtain ⟨q,grown,slots⟩ := corresponds.buildItems items
    have cells : Cell.Like q (.array ⟨.writable, (h.buildItems items).2, none⟩)
        (.array ⟨.writable, (k.buildItems items).2, none⟩) := .array slots
    have last := grown.corresponds.alloc cells
    exact ⟨_, grown.trans last, .array (Or.inr ⟨rfl, rfl⟩)⟩

theorem Corresponds.buildFields : ∀ {p : Pairing} {h k : Heap} (_ : Corresponds p h k)
    (fields : List (String × Tree)), ∃ q,
      Grown p h k q (h.buildFields fields).1 (k.buildFields fields).1 ∧
        Entries.Like q (h.buildFields fields).2 (k.buildFields fields).2
  | p, _, _, corresponds, [] => ⟨p, .refl corresponds, .nil⟩
  | _, _, _, corresponds, (key, t) :: rest => by
    obtain ⟨q,first,value⟩ := corresponds.build t
    obtain ⟨q',later,entries⟩ := first.corresponds.buildFields rest
    exact ⟨q', first.trans later, .cons ⟨rfl, value.wider later.wider⟩ entries⟩

theorem Corresponds.buildItems : ∀ {p : Pairing} {h k : Heap} (_ : Corresponds p h k)
    (items : List Tree), ∃ q, Grown p h k q (h.buildItems items).1 (k.buildItems items).1 ∧
      Items.Like q (h.buildItems items).2 (k.buildItems items).2
  | p, _, _, corresponds, [] => ⟨p, .refl corresponds, .nil⟩
  | _, _, _, corresponds, t :: rest => by
    obtain ⟨q,first,value⟩ := corresponds.build t
    obtain ⟨q',later,slots⟩ := first.corresponds.buildItems rest
    exact ⟨q', first.trans later, .cons (value.wider later.wider) slots⟩

end

end Heap

namespace Expr

/-- A path that is read in an expression. -/
inductive Reads : Expr → List String → Prop where
  | path (segments : List String) : Reads (.path segments) segments
  | not {e : Expr} {path : List String} (inner : Reads e path) : Reads (.not e) path
  | andLeft {l r : Expr} {path : List String} (inner : Reads l path) : Reads (.and l r) path
  | andRight {l r : Expr} {path : List String} (inner : Reads r path) : Reads (.and l r) path
  | orLeft {l r : Expr} {path : List String} (inner : Reads l path) : Reads (.or l r) path
  | orRight {l r : Expr} {path : List String} (inner : Reads r path) : Reads (.or l r) path
  | compareLeft {op : CompareOp} {l r : Expr} {path : List String} (inner : Reads l path) :
      Reads (.compare op l r) path
  | compareRight {op : CompareOp} {l r : Expr} {path : List String} (inner : Reads r path) :
      Reads (.compare op l r) path
  | arithLeft {op : ArithOp} {l r : Expr} {path : List String} (inner : Reads l path) :
      Reads (.arith op l r) path
  | arithRight {op : ArithOp} {l r : Expr} {path : List String} (inner : Reads r path) :
      Reads (.arith op l r) path

/-- A path starts from alike data. -/
inductive Begins (p : Pairing) (h k : Heap) (data data' : Ref) : List String → Prop where
  | whole {path : List String} (pair : p data data') : Begins p h k data data' path
  | entry {head : String} {rest : List String} (here : data < h.size) (there : data' < k.size)
      (like : (h.get data head).Like p (k.get data' head)) : Begins p h k data data' (head :: rest)

theorem get_extend (grown : h.Extends h') (live : r < h.size) (key : String) :
    h'.get r key = h.get r key := by
  obtain ⟨c,cell⟩ := Heap.cell?_of_lt live
  unfold Heap.get Heap.slot? Heap.object?
  rw [grown r c cell, cell]

theorem Begins.grow {data data' : Ref} {path : List String} (begins : Begins p h k data data' path)
    (grown : Heap.Grown p h k q h' k') : Begins q h' k' data data' path := by
  cases begins with
  | whole pair => exact .whole (grown.wider pair)
  | entry here there like =>
    refine .entry (Nat.lt_of_lt_of_le here grown.left.size)
      (Nat.lt_of_lt_of_le there grown.right.size) ?_
    rw [get_extend grown.left here, get_extend grown.right there]
    exact like.wider grown.wider

theorem Begins.leads {data data' : Ref} {path : List String} (begins : Begins p h k data data' path)
    (corresponds : Heap.Corresponds p h k) :
    (h.getPath (.object data) path).Like p (k.getPath (.object data') path) := by
  cases begins with
  | whole pair => exact corresponds.getPath path (.object pair)
  | @entry head rest here there like => exact corresponds.getPath rest like

/-- Evaluations with the same outcome. -/
inductive Alike (p : Pairing) (h k : Heap) :
    Except Failure (Heap × Value) → Except Failure (Heap × Value) → Prop where
  | ok {q : Pairing} {h' k' : Heap} {v w : Value} (grown : Heap.Grown p h k q h' k')
      (like : v.Like q w) : Alike p h k (.ok (h', v)) (.ok (k', w))
  | error (f : Failure) : Alike p h k (.error f) (.error f)

theorem compareValues_like (corresponds : Heap.Corresponds p h k) (op : CompareOp) {v' w' : Value}
    (left : v.Like p w) (right : v'.Like p w') : compareValues op v v' = compareValues op w w' := by
  unfold compareValues
  rw [corresponds.looseEq left right, left.isPresent, right.isPresent, left.compare right,
    left.typeName, right.typeName]

/-- Sums and joined texts of alike values are the same. -/
theorem combine_like (corresponds : Heap.Corresponds p h k) (op : ArithOp) {v' w' : Value}
    (left : v.Like p w) (right : v'.Like p w') : combine h op v v' = combine k op w w' := by
  have shown := corresponds.display left
  have shown' := corresponds.display right
  cases op with
  | sub => cases left <;> cases right <;> rfl
  | add => cases left <;> cases right <;> simp only [combine, shown, shown', Value.typeName]

/-- Sums and joined texts are no containers. -/
theorem like_of_combine {op : ArithOp} {v' x : Value} (result : combine h op v v' = .ok x) :
    x.Like p x := by
  unfold combine at result
  split at result
  all_goals cases result
  all_goals constructor

theorem Alike.bind {x y : Except Failure (Heap × Value)}
    {f g : Heap × Value → Except Failure (Heap × Value)} (first : Alike p h k x y)
    (later : ∀ {q h' k' v w}, Heap.Grown p h k q h' k' → Value.Like q v w →
      Alike q h' k' (f (h', v)) (g (k', w))) : Alike p h k (x >>= f) (y >>= g) := by
  cases first with
  | error f => exact .error f
  | ok grown like =>
    change Alike p h k (f (_, _)) (g (_, _))
    have rest := later grown like
    generalize f (_, _) = x' at rest ⊢
    generalize g (_, _) = y' at rest ⊢
    cases rest with
    | error f => exact .error f
    | ok grown' like' => exact .ok (grown.trans grown') like'

theorem eval_alike (e : Expr) {data data' : Ref} (inState : String → Bool)
    (corresponds : Heap.Corresponds p h k)
    (begins : ∀ path, e.Reads path → Begins p h k data data' path) :
    Alike p h k (e.eval ⟨data, inState⟩ h) (e.eval ⟨data', inState⟩ k) := by
  induction e generalizing p h k with
  | literal t =>
    obtain ⟨q,grown,like⟩ := corresponds.build t
    exact .ok grown like
  | path segments => exact .ok (.refl corresponds) ((begins _ (.path _)).leads corresponds)
  | inState id => exact .ok (.refl corresponds) (.bool _)
  | not e ih =>
    refine (ih corresponds fun path reads => begins path (.not reads)).bind fun grown like => ?_
    simp only [like.isTruthy]
    exact .ok (.refl grown.corresponds) (.bool _)
  | and l r left right =>
    refine (left corresponds fun path reads => begins path (.andLeft reads)).bind fun grown like => ?_
    simp only [like.isTruthy]
    split
    · refine (right grown.corresponds fun path reads =>
        (begins path (.andRight reads)).grow grown).bind fun grown' like' => ?_
      simp only [like'.isTruthy]
      exact .ok (.refl grown'.corresponds) (.bool _)
    · exact .ok (.refl grown.corresponds) (.bool _)
  | or l r left right =>
    refine (left corresponds fun path reads => begins path (.orLeft reads)).bind fun grown like => ?_
    simp only [like.isTruthy]
    split
    · exact .ok (.refl grown.corresponds) (.bool _)
    · refine (right grown.corresponds fun path reads =>
        (begins path (.orRight reads)).grow grown).bind fun grown' like' => ?_
      simp only [like'.isTruthy]
      exact .ok (.refl grown'.corresponds) (.bool _)
  | compare op l r left right =>
    refine (left corresponds fun path reads => begins path (.compareLeft reads)).bind
      fun grown like => ?_
    refine (right grown.corresponds fun path reads =>
      (begins path (.compareRight reads)).grow grown).bind fun grown' like' => ?_
    simp only [compareValues_like grown'.corresponds op (like.wider grown'.wider) like']
    cases compareValues op _ _ with
    | error f => exact .error f
    | ok b => exact .ok (.refl grown'.corresponds) (.bool b)
  | arith op l r left right =>
    refine (left corresponds fun path reads => begins path (.arithLeft reads)).bind
      fun grown like => ?_
    refine (right grown.corresponds fun path reads =>
      (begins path (.arithRight reads)).grow grown).bind fun grown' like' => ?_
    simp only [combine_like grown'.corresponds op (like.wider grown'.wider) like']
    cases result : combine _ op _ _ with
    | error f => exact .error f
    | ok x => exact .ok (.refl grown'.corresponds) (like_of_combine result)

end Expr

end Statechart

import Mathlib.Data.List.Nodup
import Statechart.Proofs.Value.Replica
import Statechart.Proofs.Value.Writing
import Statechart.Value.Copy

/- Deep copies. Every container that a copy meets is paired with itself, with the shared empty
   container or with its copy, and paired containers hold paired values. So a value and its copy
   unfold to the same tree, also where containers are shared or inside themselves. -/
namespace Statechart

namespace Heap

variable {p : Pairing} {h k : Heap} {v w : Value} {r s : Nat}

/-- Paired containers hold paired values. Several containers may be paired with one. -/
def Simulates (p : Pairing) (h k : Heap) : Prop :=
  ∀ {r s}, p r s → ∃ c d, h.cell? r = some c ∧ k.cell? s = some d ∧ c.Like p d

/-- The tree that a value unfolds to within some levels, whatever it is inside of. -/
def treeIn (h : Heap) : Nat → Value → Except ValueError Tree
  | _, .undefined => .ok .undefined
  | _, .null => .ok .null
  | _, .bool b => .ok (.bool b)
  | _, .number f => .ok (.number f)
  | _, .string s => .ok (.string s)
  | _, .dateTime t => .ok (.dateTime t)
  | 0, .object _ => .error .cyclic
  | 0, .array _ => .error .cyclic
  | depth + 1, .object r => do
    let fields ← (h.entries r).mapM fun e => do
      let t ← h.treeIn depth e.2.value
      return (e.1, t)
    return .object fields
  | depth + 1, .array r => do
    let trees ← (h.items r).mapM fun s => h.treeIn depth s.value
    return .array trees

section Unfolding

variable {depth depth' : Nat} {t : Tree} {path : List Ref}

theorem treeIn_object {fields : List (String × Tree)}
    (each : List.Forall₂ (fun e f => e.1 = f.1 ∧ h.treeIn depth e.2.value = .ok f.2)
      (h.entries r) fields) : h.treeIn (depth + 1) (.object r) = .ok (.object fields) := by
  have listed : ((h.entries r).mapM fun e => do
      let t ← h.treeIn depth e.2.value
      return (e.1, t)) = .ok fields := by
    refine Except.mapM_of_forall₂ (each.imp fun e f same => ?_)
    rw [same.2, same.1]
    rfl
  rw [treeIn, listed]
  rfl

theorem treeIn_array {trees : List Tree}
    (each : List.Forall₂ (fun s t => h.treeIn depth s.value = .ok t) (h.items r) trees) :
    h.treeIn (depth + 1) (.array r) = .ok (.array trees) := by
  rw [treeIn, Except.mapM_of_forall₂ each]
  rfl

theorem forall₂_of_treeIn_object (unfolded : h.treeIn (depth + 1) (.object r) = .ok t) :
    ∃ fields, t = .object fields ∧ List.Forall₂ (fun e f => e.1 = f.1 ∧
      h.treeIn depth e.2.value = .ok f.2) (h.entries r) fields := by
  rw [treeIn] at unfolded
  obtain ⟨fields,listed,made⟩ := Except.bind_eq_ok unfolded
  cases made
  refine ⟨fields, rfl, (Except.forall₂_of_mapM listed).imp fun e f made => ?_⟩
  obtain ⟨t,inner,made⟩ := Except.bind_eq_ok made
  cases made
  exact ⟨rfl, inner⟩

theorem forall₂_of_treeIn_array (unfolded : h.treeIn (depth + 1) (.array r) = .ok t) :
    ∃ trees, t = .array trees ∧ List.Forall₂ (fun s t => h.treeIn depth s.value = .ok t)
      (h.items r) trees := by
  rw [treeIn] at unfolded
  obtain ⟨trees,listed,made⟩ := Except.bind_eq_ok unfolded
  cases made
  exact ⟨trees, rfl, Except.forall₂_of_mapM listed⟩

/-- Unfolding takes note of where it has been only to stop. -/
theorem treeIn_of_unfoldIn (unfolded : h.unfoldIn depth path v = .ok t) :
    h.treeIn depth v = .ok t := by
  induction depth generalizing path v t with
  | zero =>
    cases v with
    | object r => cases unfolded
    | array r => cases unfolded
    | _ => exact unfolded
  | succ depth ih =>
    cases v with
    | object r =>
      rw [unfoldIn] at unfolded
      split at unfolded
      · cases unfolded
      · obtain ⟨fields,listed,made⟩ := Except.bind_eq_ok unfolded
        cases made
        refine treeIn_object ((Except.forall₂_of_mapM listed).imp ?_)
        rintro ⟨key,slot⟩ field made
        obtain ⟨t,inner,made⟩ := Except.bind_eq_ok made
        cases made
        exact ⟨rfl, ih inner⟩
    | array r =>
      rw [unfoldIn] at unfolded
      split at unfolded
      · cases unfolded
      · obtain ⟨trees,listed,made⟩ := Except.bind_eq_ok unfolded
        cases made
        exact treeIn_array ((Except.forall₂_of_mapM listed).imp fun _ _ inner => ih inner)
    | _ => exact unfolded

theorem treeIn_mono (more : depth ≤ depth') (unfolded : h.treeIn depth v = .ok t) :
    h.treeIn depth' v = .ok t := by
  induction depth generalizing depth' v t with
  | zero =>
    cases v with
    | object r => cases unfolded
    | array r => cases unfolded
    | _ => cases depth' <;> exact unfolded
  | succ depth ih =>
    obtain ⟨depth',rfl⟩ : ∃ n, depth' = n + 1 := ⟨depth' - 1, by omega⟩
    cases v with
    | object r =>
      obtain ⟨fields,rfl,each⟩ := forall₂_of_treeIn_object unfolded
      exact treeIn_object (each.imp fun _ _ same => ⟨same.1, ih (by omega) same.2⟩)
    | array r =>
      obtain ⟨trees,rfl,each⟩ := forall₂_of_treeIn_array unfolded
      exact treeIn_array (each.imp fun _ _ inner => ih (by omega) inner)
    | _ => exact unfolded

/-- What a container holds unfolds if the container does. -/
theorem treeIn_child (finds : h.Finds v) (unfolded : h.treeIn (depth + 1) v = .ok t)
    (own : v.ref? = some r) (held : w ∈ h.children r) : ∃ t', h.treeIn depth w = .ok t' := by
  cases v with
  | object r' =>
    cases own
    obtain ⟨o,found⟩ := finds
    obtain ⟨fields,_,each⟩ := forall₂_of_treeIn_object unfolded
    simp only [children, found] at held
    obtain ⟨e,he,rfl⟩ := List.mem_map.mp held
    simp only [entries, object?, found] at each
    obtain ⟨f,_,inner⟩ := exists_of_forall₂ each he
    exact ⟨f.2, inner⟩
  | array r' =>
    cases own
    obtain ⟨a,found⟩ := finds
    obtain ⟨trees,_,each⟩ := forall₂_of_treeIn_array unfolded
    simp only [children, found] at held
    obtain ⟨slot,hs,rfl⟩ := List.mem_map.mp held
    simp only [items, array?, found] at each
    obtain ⟨t',inner⟩ := exists_of_forall₂ each hs
    exact ⟨t', inner⟩
  | _ => cases own

theorem treeIn_of_reachesCycle (intact : h.Intact) (finds : h.Finds v) (cycle : h.ReachesCycle v)
    (unfolded : h.treeIn depth v = .ok t) : False := by
  induction depth generalizing v t with
  | zero =>
    obtain ⟨r,_,own,_⟩ := cycle
    cases v with
    | object r => cases unfolded
    | array r => cases unfolded
    | _ => cases own
  | succ depth ih =>
    obtain ⟨r,s,own,reach,again⟩ := cycle
    have further : ∃ x, h.Within r x ∧ Relation.ReflTransGen h.Within x s := by
      rcases Relation.ReflTransGen.cases_head reach with rfl | ⟨x,first,rest⟩
      · obtain ⟨x,first,rest⟩ := Relation.TransGen.head'_iff.mp again
        exact ⟨x, first, rest⟩
      · exact ⟨x, first, rest⟩
    obtain ⟨x,⟨w,held,inner⟩,rest⟩ := further
    obtain ⟨t',below⟩ := treeIn_child finds unfolded own held
    exact ih (intact r w held) ⟨x, s, inner, rest, again⟩ below

/-- A value unfolds as far as it goes, wherever it stands. -/
theorem unfold_iff (intact : h.Intact) (finds : h.Finds v) :
    h.unfold v = .ok t ↔ ∃ depth, h.treeIn depth v = .ok t := by
  constructor
  · exact fun unfolded => ⟨_, treeIn_of_unfoldIn unfolded⟩
  · rintro ⟨depth,unfolded⟩
    cases whole : h.unfold v with
    | ok t' =>
      have same := treeIn_mono (Nat.le_max_left _ depth) (treeIn_of_unfoldIn whole)
      rw [treeIn_mono (Nat.le_max_right _ depth) unfolded] at same
      exact same.symm
    | error e =>
      have cycle := unfoldIn_error (fun r _ => .start r) List.nodup_nil (Nat.le_refl _) whole
      exact (treeIn_of_reachesCycle intact finds cycle unfolded).elim

end Unfolding

/-- Paired values unfold to the same tree. -/
theorem Simulates.treeIn (simulates : Simulates p h k) (depth : Nat) (like : v.Like p w) :
    h.treeIn depth v = k.treeIn depth w := by
  induction depth generalizing v w with
  | zero => cases like <;> rfl
  | succ depth ih =>
    cases like with
    | @object r s pair =>
      obtain ⟨c,d,here,there,alike⟩ := simulates pair
      have fields : List.Forall₂ (fun a b : String × Slot =>
          (do let t ← h.treeIn depth a.2.value; return (a.1, t)) =
            (do let t ← k.treeIn depth b.2.value; return (b.1, t)))
          (h.entries r) (k.entries s) := by
        simp only [entries, object?, here, there]
        cases alike with
        | object same =>
          refine same.imp fun a b alike => ?_
          rw [ih alike.2, alike.1]
        | array => exact .nil
      rw [Heap.treeIn, Heap.treeIn, Except.mapM_eq_of_forall₂ fields]
    | @array r s pair =>
      obtain ⟨c,d,here,there,alike⟩ := simulates pair
      have trees : List.Forall₂ (fun a b : Slot =>
          h.treeIn depth a.value = k.treeIn depth b.value) (h.items r) (k.items s) := by
        simp only [items, array?, here, there]
        cases alike with
        | array same => exact same.imp fun a b alike => ih alike
        | object => exact .nil
      rw [Heap.treeIn, Heap.treeIn, Except.mapM_eq_of_forall₂ trees]
    | _ => rfl

theorem toJson_iff {j : Json} : h.toJson v = .ok j ↔ ∃ t, h.unfold v = .ok t ∧ t.toJson = j := by
  unfold Heap.toJson
  cases h.unfold v <;> simp [Except.map]

/-- Paired values have the same JSON form, or none. -/
theorem Simulates.toJson (simulates : Simulates p h k) (like : v.Like p w) (intact : h.Intact)
    (finds : h.Finds v) (intact' : k.Intact) (finds' : k.Finds w) {j : Json} :
    h.toJson v = .ok j ↔ k.toJson w = .ok j := by
  have same : ∀ t, h.unfold v = .ok t ↔ k.unfold w = .ok t := by
    intro t
    rw [unfold_iff intact finds, unfold_iff intact' finds']
    simp only [simulates.treeIn _ like]
  rw [toJson_iff, toJson_iff]
  simp only [same]

theorem Simulates.kept {k' : Heap} (simulates : Simulates p h k)
    (kept : ∀ r s, p r s → k'.cell? s = k.cell? s) : Simulates p h k' := by
  intro r s pair
  obtain ⟨c,d,here,there,like⟩ := simulates pair
  exact ⟨c, d, here, (kept r s pair).trans there, like⟩

/-- Cells that are alike stay so under another pairing if their values do. -/
theorem cell_like_of_values {q : Pairing} {c d : Cell} (like : c.Like q d)
    (inner : ∀ v ∈ c.values, ∀ w, v.Like q w → v.Like p w) : c.Like p d := by
  cases like with
  | @object o o' entries =>
    have each : ∀ e ∈ o.entries, ∀ w, e.2.value.Like q w → e.2.value.Like p w :=
      fun e he => inner _ (List.mem_map.mpr ⟨e, he, rfl⟩)
    refine .object (((List.forall₂_and_left _ _).mpr ⟨each, entries⟩).imp ?_)
    exact fun e f both => ⟨both.2.1, both.1 _ both.2.2⟩
  | @array a a' items =>
    have each : ∀ e ∈ a.items, ∀ w, e.value.Like q w → e.value.Like p w :=
      fun e he => inner _ (List.mem_map.mpr ⟨e, he, rfl⟩)
    refine .array (((List.forall₂_and_left _ _).mpr ⟨each, items⟩).imp ?_)
    exact fun e f both => both.1 _ both.2

/-- All that a value reaches in `h` is in `k` with the same contents. -/
def Leaves (h : Heap) (v : Value) (k : Heap) : Prop :=
  ∀ r s, v.ref? = some r → Relation.ReflTransGen h.Within r s →
    ∃ c d, h.cell? s = some c ∧ k.cell? s = some d ∧ c.Like Eq d

/-- A value whose contents have been left alone has the JSON form it had. -/
theorem Leaves.toJson (leaves : h.Leaves v k) (intact : k.Intact) (finds : k.Finds v) {j : Json}
    (before : h.toJson v = .ok j) : k.toJson v = .ok j := by
  let p : Pairing := fun a b => a = b ∧ ∃ r, v.ref? = some r ∧ Relation.ReflTransGen h.Within r a
  have simulates : Simulates p h k := by
    rintro a b ⟨rfl,r,own,reach⟩
    obtain ⟨c,d,here,there,like⟩ := leaves r a own reach
    refine ⟨c, d, here, there, cell_like_of_values like fun w held w' same => ?_⟩
    have held' : w ∈ h.children a := by rwa [children, here]
    cases same with
    | object pair => exact .object ⟨pair, r, own, reach.tail ⟨_, held', rfl⟩⟩
    | array pair => exact .array ⟨pair, r, own, reach.tail ⟨_, held', rfl⟩⟩
    | _ => constructor
  have like : v.Like p v := by
    cases v with
    | object r => exact .object ⟨rfl, r, rfl, .refl⟩
    | array r => exact .array ⟨rfl, r, rfl, .refl⟩
    | _ => constructor
  rw [toJson_iff] at before ⊢
  obtain ⟨t,unfolded,rfl⟩ := before
  have tree := treeIn_of_unfoldIn unfolded
  rw [simulates.treeIn _ like] at tree
  exact ⟨t, (unfold_iff intact finds).mpr ⟨_, tree⟩, rfl⟩

/-- A reference to a container of the kind that a cell is of. -/
def refer : Cell → Ref → Value
  | .object _, r => .object r
  | .array _, r => .array r

/-- The shared empty containers are in their places. -/
structure Shares (h : Heap) : Prop where
  object : ∃ o, h.cell? emptyObject = some (.object o) ∧ o.access = .constant ∧ o.entries = []
  array : ∃ a, h.cell? emptyArray = some (.array a) ∧ a.access = .constant ∧ a.items = []

/-- What the operations on containers see to: references lead to containers of their kind, the
    shared empty containers are there, and what a constant container holds is constant. -/
structure Sound (h : Heap) : Prop where
  intact : h.Intact
  shares : h.Shares
  frozen : ∀ r, h.access r = .constant → ∀ v ∈ h.children r, ∀ s, v.ref? = some s →
    h.access s = .constant

theorem cell?_of_object? {r : Ref} {o : ObjectCell} (found : h.object? r = some o) :
    h.cell? r = some (.object o) := by
  unfold object? at found
  split at found
  · cases found
    assumption
  · cases found

theorem cell?_of_array? {r : Ref} {a : ArrayCell} (found : h.array? r = some a) :
    h.cell? r = some (.array a) := by
  unfold array? at found
  split at found
  · cases found
    assumption
  · cases found

theorem lt_size_of_child (held : v ∈ h.children r) : r < h.size := by
  cases there : h.cell? r with
  | none =>
    rw [children, there] at held
    cases held
  | some c => exact lt_size_of_cell there

/-- Goes through all cells to tell whether the heap is sound. -/
def isSound (h : Heap) : Bool :=
  (h.object? emptyObject).any (fun o => o.access == .constant && o.entries.isEmpty) &&
  (h.array? emptyArray).any (fun a => a.access == .constant && a.items.isEmpty) &&
  (List.range h.size).all fun r => (h.children r).all fun v =>
    decide (h.Finds v) && (h.access r != .constant || v.ref?.all (h.access · == .constant))

theorem sound_of_isSound (checked : h.isSound = true) : h.Sound := by
  simp only [isSound, Bool.and_eq_true, Option.any_eq_true, List.all_eq_true, List.mem_range,
    decide_eq_true_eq, beq_iff_eq, Bool.or_eq_true, bne_iff_ne, List.isEmpty_iff,
    Option.all_eq_true] at checked
  obtain ⟨⟨⟨o,object,rest⟩,⟨a,array,rest'⟩⟩,inside⟩ := checked
  refine ⟨fun r v held => (inside r (lt_size_of_child held) v held).1,
    ⟨⟨o, cell?_of_object? object, rest⟩, ⟨a, cell?_of_array? array, rest'⟩⟩, ?_⟩
  intro r constant v held s own
  exact (inside r (lt_size_of_child held) v held).2.resolve_left (absurd constant) s own

/-- What containers are paired with when some have been copied: their copies, and for constant
    copies themselves if they are constant, and the shared empty container if they are empty. -/
def copied (target : Access) (h : Heap) (copies : List (Ref × Ref)) : Pairing := fun r s =>
  (r, s) ∈ copies ∨ (target = .constant ∧ ∃ c, h.cell? r = some c ∧
    (c.access = .constant ∧ s = r ∨ c.values = [] ∧ s = sharedEmpty c))

/-- A copy that has come some way. The containers underway have blank copies as yet. -/
structure Copied (target : Access) (h : Heap) (underway : List Ref) (st : Copying) : Prop where
  grown : h.Extends st.heap
  intact : st.heap.Intact
  keys : (st.copies.map (·.1)).Nodup
  values : (st.copies.map (·.2)).Nodup
  pairs : ∀ a b, (a, b) ∈ st.copies → h.size ≤ b ∧ ∃ c d, h.cell? a = some c ∧
    st.heap.cell? b = some d ∧ refer d = refer c ∧ d.access = target ∧
    (a ∈ underway ∨ c.Like (copied target h st.copies) d)
  made : ∀ b, h.size ≤ b → b < st.heap.size → ∃ a, (a, b) ∈ st.copies

/-- A value has been copied. -/
structure Carries (target : Access) (h : Heap) (underway : List Ref) (st : Copying) (v : Value)
    (st' : Copying) (w : Value) : Prop where
  state : Copied target h underway st'
  grown : st.heap.Extends st'.heap
  more : st.copies <:+ st'.copies
  like : v.Like (copied target h st'.copies) w
  finds : st'.heap.Finds w

section Copying

variable {underway : List Ref} {st st' : Copying} {target : Access} {depth : Nat} {c d : Cell}

theorem copied_mono {copies copies' : List (Ref × Ref)} (more : copies ⊆ copies')
    (pair : copied target h copies r s) : copied target h copies' r s :=
  pair.imp (fun copy => more copy) id

theorem like_refer {p : Pairing} (c : Cell) (pair : p r s) : (refer c r).Like p (refer c s) := by
  cases c with
  | object => exact .object pair
  | array => exact .array pair

theorem finds_refer : h.Finds (refer c r) ↔ ∃ d, h.cell? r = some d ∧ refer d = refer c := by
  cases c with
  | object o =>
    constructor
    · rintro ⟨o',found⟩
      exact ⟨_, found, rfl⟩
    · rintro ⟨d,found,same⟩
      cases d with
      | object o' => exact ⟨o', found⟩
      | array a => cases congrFun same 0
  | array a =>
    constructor
    · rintro ⟨a',found⟩
      exact ⟨_, found, rfl⟩
    · rintro ⟨d,found,same⟩
      cases d with
      | object o => cases congrFun same 0
      | array a' => exact ⟨a', found⟩

theorem Finds.extend (finds : h.Finds v) (grown : h.Extends k) : k.Finds v := by
  cases v with
  | object r =>
    obtain ⟨o,found⟩ := finds
    exact ⟨o, grown r _ found⟩
  | array r =>
    obtain ⟨a,found⟩ := finds
    exact ⟨a, grown r _ found⟩
  | _ => trivial

theorem cell?_sharedEmpty (shares : h.Shares) (c : Cell) : ∃ d, h.cell? (sharedEmpty c) = some d ∧
    refer d = refer c ∧ d.access = .constant ∧ d.values = [] := by
  cases c with
  | object o =>
    obtain ⟨o',found,access,none⟩ := shares.object
    exact ⟨_, found, rfl, access, by simp [Cell.values, none]⟩
  | array a =>
    obtain ⟨a',found,access,none⟩ := shares.array
    exact ⟨_, found, rfl, access, by simp [Cell.values, none]⟩

theorem Carries.refl (state : Copied target h underway st)
    (like : v.Like (copied target h st.copies) w) (finds : st.heap.Finds w) :
    Carries target h underway st v st w :=
  ⟨state, .refl _, List.suffix_refl _, like, finds⟩

theorem children_of_cell (found : h.cell? r = some c) : h.children r = c.values := by
  rw [children, found]

theorem access_of_cell (found : h.cell? r = some c) : h.access r = c.access := by
  rw [access, found]

theorem Intact.finds (intact : h.Intact) (found : h.cell? r = some c) : ∀ v ∈ c.values, h.Finds v :=
  fun v held => intact r v (children_of_cell found ▸ held)

theorem Intact.alloc (intact : h.Intact) (finds : ∀ v ∈ c.values, h.Finds v) :
    (h.alloc c).1.Intact := by
  refine intact_of_children fun r inside v held => ?_
  rw [size_alloc] at inside
  have grown := extends_alloc h c
  by_cases last : r = h.size
  · subst last
    rw [children_of_cell (cell?_alloc h c)] at held
    exact (finds v held).extend grown
  · obtain ⟨d,found⟩ := cell?_of_lt (h := h) (r := r) (by omega)
    rw [children_of_cell (grown r d found)] at held
    exact (intact.finds found v held).extend grown

/-- Writing a cell of the same kind leaves all references good. -/
theorem Finds.write (finds : h.Finds v) (own : h.Finds (refer d s)) : (h.write s d).Finds v := by
  obtain ⟨old,found,same⟩ := finds_refer.mp own
  have inside := lt_size_of_cell found
  have kept : ∀ r c, h.cell? r = some c → (h.write s d).Finds (refer c r) := by
    intro r c there
    by_cases here : r = s
    · subst here
      rw [found] at there
      cases there
      exact finds_refer.mpr ⟨d, cell?_write inside d, same.symm⟩
    · exact finds_refer.mpr ⟨c, (cell?_write_of_ne h d (Ne.symm here)).trans there, rfl⟩
  cases v with
  | object r =>
    obtain ⟨o,there⟩ := finds
    exact kept r _ there
  | array r =>
    obtain ⟨a,there⟩ := finds
    exact kept r _ there
  | _ => trivial

theorem Intact.write (intact : h.Intact) (own : h.Finds (refer d s))
    (finds : ∀ v ∈ d.values, h.Finds v) : (h.write s d).Intact := by
  intro r v held
  obtain ⟨old,found,_⟩ := finds_refer.mp own
  by_cases here : r = s
  · subst here
    rw [children_of_cell (cell?_write (lt_size_of_cell found) d)] at held
    exact (finds v held).write own
  · rw [children, cell?_write_of_ne h d (Ne.symm here)] at held
    exact (intact r v held).write own

theorem Copied.start (intact : h.Intact) (target : Access) : Copied target h [] ⟨h, []⟩ :=
  ⟨.refl h, intact, List.nodup_nil, List.nodup_nil, fun _ _ none => (by cases none),
    fun _ new inside => absurd inside (Nat.not_lt.mpr new)⟩

/-- A container that has no copy yet gets a blank one. -/
theorem Copied.begin (state : Copied target h underway st) (found : h.cell? r = some c)
    (new : st.copies.lookup r = none) (blank : Cell) (kind : refer blank = refer c)
    (access : blank.access = target) (empty : blank.values = []) :
    Copied target h (r :: underway)
      ⟨(st.heap.alloc blank).1, (r, st.heap.size) :: st.copies⟩ := by
  have grown := extends_alloc st.heap blank
  refine ⟨state.grown.trans grown, ?_, ?_, ?_, ?_, fun b new inside => ?_⟩
  · refine state.intact.alloc fun v held => ?_
    rw [empty] at held
    cases held
  · refine List.nodup_cons.mpr ⟨fun again => ?_, state.keys⟩
    obtain ⟨⟨a,b⟩,pair,same⟩ := List.mem_map.mp again
    have other : r ≠ a := by simpa using List.lookup_eq_none_iff.mp new (a, b) pair
    exact other same.symm
  · refine List.nodup_cons.mpr ⟨fun again => ?_, state.values⟩
    obtain ⟨⟨a,b⟩,pair,same⟩ := List.mem_map.mp again
    obtain ⟨_,_,d,_,there,_⟩ := state.pairs a b pair
    exact absurd same (Nat.ne_of_lt (lt_size_of_cell there))
  · intro a b pair
    rcases List.mem_cons.mp pair with here | old
    · cases here
      exact ⟨state.grown.size, c, blank, found, cell?_alloc _ _, kind, access,
        Or.inl List.mem_cons_self⟩
    · obtain ⟨outside,c',d,own,there,same,level,done⟩ := state.pairs a b old
      refine ⟨outside, c', d, own, grown b d there, same, level, ?_⟩
      rcases done with open' | like
      · exact Or.inl (List.mem_cons_of_mem _ open')
      · exact Or.inr (like.wider fun pair => copied_mono (List.subset_cons_self _ _) pair)
  · rw [size_alloc] at inside
    by_cases last : b = st.heap.size
    · exact ⟨r, last ▸ List.mem_cons_self⟩
    · obtain ⟨a,pair⟩ := state.made b new (by omega)
      exact ⟨a, List.mem_cons_of_mem _ pair⟩

/-- The blank copy of a container gets what belongs in it. -/
theorem Copied.finish (state : Copied target h (r :: underway) st) (pair : (r, s) ∈ st.copies)
    (found : h.cell? r = some c) (like : c.Like (copied target h st.copies) d)
    (kind : refer d = refer c) (access : d.access = target)
    (finds : ∀ v ∈ d.values, st.heap.Finds v) :
    Copied target h underway ⟨st.heap.write s d, st.copies⟩ := by
  obtain ⟨outside,c',blank,own,there,same,_⟩ := state.pairs r s pair
  rw [found] at own
  cases own
  have inside := lt_size_of_cell there
  have here : st.heap.Finds (refer d s) := finds_refer.mpr ⟨blank, there, same.trans kind.symm⟩
  refine ⟨?_, state.intact.write here finds, state.keys, state.values, ?_, fun b new inside => ?_⟩
  · intro a e cell
    have before := lt_size_of_cell cell
    exact (cell?_write_of_ne _ d (by omega)).trans (state.grown a e cell)
  · intro a b other
    obtain ⟨outside',e,d',own,cell,same',level,done⟩ := state.pairs a b other
    by_cases again : b = s
    · have both := List.inj_on_of_nodup_map state.values other pair again
      cases both
      rw [found] at own
      cases own
      exact ⟨outside', c, d, found, cell?_write inside d, kind, access, Or.inr like⟩
    · refine ⟨outside', e, d', own, (cell?_write_of_ne _ d (Ne.symm again)).trans cell, same', level,
        ?_⟩
      rcases done with underway | like'
      · rcases List.mem_cons.mp underway with rfl | outer
        · have both := List.inj_on_of_nodup_map state.keys other pair rfl
          cases both
          exact absurd rfl again
        · exact Or.inl outer
      · exact Or.inr like'
  · rw [size, write, Array.size_setIfInBounds] at inside
    exact state.made b new inside

/-- Copies values one after another, each put into what is made of it. -/
def copyAll {α β : Type} (copy : Copying → Ref → Copying × Ref) (val : α → Value)
    (make : α → Value → β) (l : List α) (st : Copying) (made : List β) : Copying × List β :=
  l.foldl (fun acc a => ((copyVia copy acc.1 (val a)).1,
    acc.2 ++ [make a (copyVia copy acc.1 (val a)).2])) (st, made)

theorem copyAll_carries {α β : Type} {copy : Copying → Ref → Copying × Ref} {val : α → Value}
    {make : α → Value → β} {bound : Copying → Prop}
    (kept : ∀ st st' : Copying, st.copies <:+ st'.copies → bound st → bound st')
    (each : ∀ st v, Copied target h underway st → bound st → h.Finds v →
      Carries target h underway st v (copyVia copy st v).1 (copyVia copy st v).2) {l : List α}
    (finds : ∀ a ∈ l, h.Finds (val a)) {st out : Copying} {made all : List β}
    (state : Copied target h underway st) (room : bound st)
    (run : copyAll copy val make l st made = (out, all)) :
    Copied target h underway out ∧ st.heap.Extends out.heap ∧ st.copies <:+ out.copies ∧
      ∃ more, all = made ++ more ∧ List.Forall₂ (fun a b => ∃ w, b = make a w ∧
        (val a).Like (copied target h out.copies) w ∧ out.heap.Finds w) l more := by
  induction l generalizing st made with
  | nil =>
    cases run
    exact ⟨state, .refl _, List.suffix_refl _, [], (List.append_nil _).symm, .nil⟩
  | cons a rest ih =>
    have first := each st (val a) state room (finds a List.mem_cons_self)
    obtain ⟨state',grown,longer,more,same,alike⟩ := ih
      (fun b hb => finds b (List.mem_cons_of_mem _ hb)) first.state (kept _ _ first.more room) run
    refine ⟨state', first.grown.trans grown, first.more.trans longer,
      make a (copyVia copy st (val a)).2 :: more, ?_, .cons ⟨_, rfl, ?_, ?_⟩ alike⟩
    · rw [same, List.append_assoc]
      rfl
    · exact first.like.wider fun pair => copied_mono longer.subset pair
    · exact first.finds.extend grown

theorem copyVia_carries {copy : Copying → Ref → Copying × Ref}
    (each : ∀ r c, h.cell? r = some c →
      Carries target h underway st (refer c r) (copy st r).1 (refer c (copy st r).2))
    (state : Copied target h underway st) (finds : h.Finds v) :
    Carries target h underway st v (copyVia copy st v).1 (copyVia copy st v).2 := by
  cases v with
  | object r =>
    obtain ⟨o,found⟩ := finds
    exact each r _ found
  | array r =>
    obtain ⟨a,found⟩ := finds
    exact each r _ found
  | _ => exact .refl state (by constructor) trivial

/-- Once what is in a container has been copied, so is the container. -/
theorem Copied.enclose {out : Copying} {blank : Cell} (state : Copied target h (r :: underway) out)
    (grown : (st.heap.alloc blank).1.Extends out.heap)
    (longer : (r, st.heap.size) :: st.copies <:+ out.copies)
    (found : h.cell? r = some c) (like : c.Like (copied target h out.copies) d)
    (kind : refer d = refer c) (access : d.access = target)
    (finds : ∀ v ∈ d.values, out.heap.Finds v) :
    Carries target h underway st (refer c r) ⟨out.heap.write st.heap.size d, out.copies⟩
      (refer c st.heap.size) := by
  have pair : (r, st.heap.size) ∈ out.copies := longer.subset List.mem_cons_self
  have finished := state.finish pair found like kind access finds
  refine ⟨finished, ?_, (List.suffix_cons _ _).trans longer, like_refer c (Or.inl pair), ?_⟩
  · intro a e cell
    have inside := lt_size_of_cell cell
    have kept := grown a e (extends_alloc st.heap blank a e cell)
    exact (cell?_write_of_ne _ d (Nat.ne_of_gt inside)).trans kept
  · obtain ⟨_,c',d',own,there,same,_⟩ := finished.pairs r st.heap.size pair
    rw [found] at own
    cases own
    exact finds_refer.mpr ⟨d', there, same⟩

/-- What a constant copy takes over stands for the container. -/
theorem copied_constantCopy? (shares : h.Shares) (state : Copied .constant h underway st)
    (found : h.cell? r = some c) (shared : constantCopy? r c = some s) :
    copied .constant h st.copies r s ∧ st.heap.Finds (refer c s) := by
  unfold constantCopy? at shared
  split at shared
  · rename_i empty
    cases shared
    obtain ⟨d,there,same,_⟩ := cell?_sharedEmpty shares c
    exact ⟨Or.inr ⟨rfl, c, found, Or.inr ⟨List.isEmpty_iff.mp empty, rfl⟩⟩,
      finds_refer.mpr ⟨d, state.grown _ d there, same⟩⟩
  · split at shared
    · rename_i constant
      cases shared
      exact ⟨Or.inr ⟨rfl, c, found, Or.inl ⟨constant, rfl⟩⟩,
        finds_refer.mpr ⟨c, state.grown r c found, rfl⟩⟩
    · cases shared

def putEntry (target : Access) (e : String × Slot) (w : Value) : String × Slot :=
  (e.1, ⟨w, target ≠ .writable⟩)

def putItem (target : Access) (_ : Slot) (w : Value) : Slot := ⟨w, target ≠ .writable⟩

section Equations

variable {out : Copying} (new : st.copies.lookup r = none)
  (own : (if target = .constant then constantCopy? r c else none) = none)

theorem copyRef_shared (found : st.heap.cell? r = some c)
    (shared : (if target = .constant then constantCopy? r c else none) = some s) :
    copyRef target (depth + 1) st r = (st, s) := by
  rw [copyRef]
  simp only [found, shared]

include own in
theorem copyRef_known (found : st.heap.cell? r = some c) (known : st.copies.lookup r = some s) :
    copyRef target (depth + 1) st r = (st, s) := by
  rw [copyRef]
  simp only [found, own, known]

include new own in
theorem copyRef_object {o : ObjectCell} (found : st.heap.cell? r = some c) (kind : c = .object o)
    {entries : List (String × Slot)}
    (run : copyAll (copyRef target depth) (fun e => e.2.value) (putEntry target) o.entries
      ⟨(st.heap.alloc (.object ⟨target, [], none⟩)).1, (r, st.heap.size) :: st.copies⟩ [] =
        (out, entries)) :
    copyRef target (depth + 1) st r =
      (⟨out.heap.write st.heap.size (.object ⟨target, entries, none⟩), out.copies⟩,
        st.heap.size) := by
  subst kind
  have fst : out = _ := congrArg Prod.fst run.symm
  have snd : entries = _ := congrArg Prod.snd run.symm
  rw [copyRef, fst, snd]
  simp only [found, own, new]
  rfl

include new own in
theorem copyRef_array {a : ArrayCell} (found : st.heap.cell? r = some c) (kind : c = .array a)
    {slots : List Slot}
    (run : copyAll (copyRef target depth) Slot.value (putItem target) a.items
      ⟨(st.heap.alloc (.array ⟨target, [], none⟩)).1, (r, st.heap.size) :: st.copies⟩ [] =
        (out, slots)) :
    copyRef target (depth + 1) st r =
      (⟨out.heap.write st.heap.size (.array ⟨target, slots, none⟩), out.copies⟩,
        st.heap.size) := by
  subst kind
  have fst : out = _ := congrArg Prod.fst run.symm
  have snd : slots = _ := congrArg Prod.snd run.symm
  rw [copyRef, fst, snd]
  simp only [found, own, new]
  rfl

end Equations

/-- No container has more than one copy. -/
theorem Copied.few (state : Copied target h underway st) : st.copies.length ≤ h.size := by
  rw [← List.length_map (·.1)]
  refine length_le_of_nodup state.keys fun a ha => ?_
  obtain ⟨⟨a,b⟩,pair,rfl⟩ := List.mem_map.mp ha
  obtain ⟨_,c',_,own,_⟩ := state.pairs a b pair
  exact lt_size_of_cell own

/-- What copying a container comes to: something stands for it already, or a blank container has
    been filled with copies. -/
inductive Copies (target : Access) (depth : Nat) (h : Heap) (underway : List Ref) (st : Copying)
    (r : Ref) : Cell → Copying × Ref → Prop where
  | shared {c : Cell} (s : Ref)
      (shared : (if target = .constant then constantCopy? r c else none) = some s) :
      Copies target depth h underway st r c (st, s)
  | known {c : Cell} (s : Ref)
      (own : (if target = .constant then constantCopy? r c else none) = none)
      (known : st.copies.lookup r = some s) : Copies target depth h underway st r c (st, s)
  | object (o : ObjectCell) (out : Copying) (entries : List (String × Slot))
      (own : (if target = .constant then constantCopy? r (.object o) else none) = none)
      (new : st.copies.lookup r = none)
      (begun : Copied target h (r :: underway)
        ⟨(st.heap.alloc (.object ⟨target, [], none⟩)).1, (r, st.heap.size) :: st.copies⟩)
      (all : copyAll (copyRef target depth) (fun e => e.2.value) (putEntry target) o.entries
        ⟨(st.heap.alloc (.object ⟨target, [], none⟩)).1, (r, st.heap.size) :: st.copies⟩ [] =
          (out, entries)) :
      Copies target depth h underway st r (.object o)
        (⟨out.heap.write st.heap.size (.object ⟨target, entries, none⟩), out.copies⟩, st.heap.size)
  | array (a : ArrayCell) (out : Copying) (slots : List Slot)
      (own : (if target = .constant then constantCopy? r (.array a) else none) = none)
      (new : st.copies.lookup r = none)
      (begun : Copied target h (r :: underway)
        ⟨(st.heap.alloc (.array ⟨target, [], none⟩)).1, (r, st.heap.size) :: st.copies⟩)
      (all : copyAll (copyRef target depth) Slot.value (putItem target) a.items
        ⟨(st.heap.alloc (.array ⟨target, [], none⟩)).1, (r, st.heap.size) :: st.copies⟩ [] =
          (out, slots)) :
      Copies target depth h underway st r (.array a)
        (⟨out.heap.write st.heap.size (.array ⟨target, slots, none⟩), out.copies⟩, st.heap.size)

theorem copyRef_copies (state : Copied target h underway st) (found : h.cell? r = some c)
    (depth : Nat) : Copies target depth h underway st r c (copyRef target (depth + 1) st r) := by
  have there := state.grown r c found
  cases shared : (if target = .constant then constantCopy? r c else none) with
  | some s =>
    rw [copyRef_shared there shared]
    exact .shared s shared
  | none =>
    cases known : st.copies.lookup r with
    | some s =>
      rw [copyRef_known shared there known]
      exact .known s shared known
    | none =>
      cases c with
      | object o =>
        rw [copyRef_object known shared there rfl rfl]
        exact .object o _ _ shared known (state.begin found known _ rfl rfl rfl) rfl
      | array a =>
        rw [copyRef_array known shared there rfl rfl]
        exact .array a _ _ shared known (state.begin found known _ rfl rfl rfl) rfl

/-- There is room for one more copy while one step of depth is taken. -/
theorem room_begun {depth n : Nat} {b : Ref × Ref}
    (room : n + 1 ≤ depth + 1 + st.copies.length) : n + 1 ≤ depth + (b :: st.copies).length := by
  simp only [List.length_cons]
  omega

theorem room_kept {depth n : Nat} (st st' : Copying) (longer : st.copies <:+ st'.copies)
    (room : n + 1 ≤ depth + st.copies.length) : n + 1 ≤ depth + st'.copies.length :=
  Nat.le_trans room (Nat.add_le_add_left longer.length_le depth)

/-- Copying a container copies it, or takes over what stands for it already. -/
theorem copyRef_carries (intact : h.Intact) (shares : h.Shares) (target : Access) (depth : Nat) :
    ∀ (underway : List Ref) (st : Copying) (r : Ref) (c : Cell), h.cell? r = some c →
      Copied target h underway st → h.size + 1 ≤ depth + st.copies.length →
      Carries target h underway st (refer c r) (copyRef target depth st r).1
        (refer c (copyRef target depth st r).2) := by
  induction depth with
  | zero =>
    intro underway st r c found state room
    have few := state.few
    omega
  | succ depth ih =>
    intro underway st r c found state room
    have each : ∀ st v, Copied target h (r :: underway) st →
        h.size + 1 ≤ depth + st.copies.length → h.Finds v →
        Carries target h (r :: underway) st v (copyVia (copyRef target depth) st v).1
          (copyVia (copyRef target depth) st v).2 := by
      intro st v state room finds
      exact copyVia_carries (fun r c found => ih _ st r c found state room) state finds
    have copies := copyRef_copies state found depth
    generalize copyRef target (depth + 1) st r = made at copies ⊢
    cases copies with
    | shared s shared =>
      split at shared
      · rename_i constant
        subst constant
        obtain ⟨pair,finds⟩ := copied_constantCopy? shares state found shared
        exact .refl state (like_refer c pair) finds
      · cases shared
    | known s _ known =>
      obtain ⟨before,after,listed,_⟩ := List.lookup_eq_some_iff.mp known
      have pair : (r, s) ∈ st.copies := by simp [listed]
      obtain ⟨_,c',d,own,cell,same,_⟩ := state.pairs r s pair
      rw [found] at own
      cases own
      exact .refl state (like_refer c (Or.inl pair)) (finds_refer.mpr ⟨d, cell, same⟩)
    | object o out entries _ _ begun all =>
      obtain ⟨state',grown,longer,more,rfl,alike⟩ := copyAll_carries room_kept each
        (fun e he => intact.finds found _ (List.mem_map.mpr ⟨e, he, rfl⟩)) begun (room_begun room) all
      refine state'.enclose grown longer found (.object (alike.imp ?_)) rfl rfl ?_
      · rintro e _ ⟨w,rfl,like,_⟩
        exact ⟨rfl, like⟩
      · intro v held
        obtain ⟨f,hf,rfl⟩ := List.mem_map.mp held
        obtain ⟨e,w,rfl,_,finds⟩ := exists_of_forall₂ alike.flip hf
        exact finds
    | array a out slots _ _ begun all =>
      obtain ⟨state',grown,longer,more,rfl,alike⟩ := copyAll_carries room_kept each
        (fun e he => intact.finds found _ (List.mem_map.mpr ⟨e, he, rfl⟩)) begun (room_begun room) all
      refine state'.enclose grown longer found (.array (alike.imp ?_)) rfl rfl ?_
      · rintro e _ ⟨w,rfl,like,_⟩
        exact like
      · intro v held
        obtain ⟨f,hf,rfl⟩ := List.mem_map.mp held
        obtain ⟨e,w,rfl,_,finds⟩ := exists_of_forall₂ alike.flip hf
        exact finds

/-- A copy of a value, in a heap that has grown by it. -/
structure Replica (target : Access) (p : Pairing) (h : Heap) (v : Value) (k : Heap) (w : Value) :
    Prop where
  grown : h.Extends k
  intact : k.Intact
  simulates : Simulates p h k
  like : v.Like p w
  finds : k.Finds w
  /-- Everything in the copy is at the access level. -/
  level : ∀ r s, p r s → k.access s = target

theorem cell_like_empty {c d : Cell} (kind : refer d = refer c) (none : c.values = [])
    (none' : d.values = []) : c.Like p d := by
  cases c with
  | object o =>
    cases d with
    | object o' =>
      have nil : o.entries = [] := List.map_eq_nil_iff.mp none
      have nil' : o'.entries = [] := List.map_eq_nil_iff.mp none'
      refine .object ?_
      rw [nil, nil']
      exact .nil
    | array a => cases congrFun kind 0
  | array a =>
    cases d with
    | object o => cases congrFun kind 0
    | array a' =>
      have nil : a.items = [] := List.map_eq_nil_iff.mp none
      have nil' : a'.items = [] := List.map_eq_nil_iff.mp none'
      refine .array ?_
      rw [nil, nil']
      exact .nil

/-- Once no container is underway, all that has been paired holds what is paired. -/
theorem Copied.simulates (sound : h.Sound) (state : Copied target h [] st) :
    Simulates (copied target h st.copies) h st.heap := by
  rintro r s (pair | ⟨rfl,c,found,⟨constant,rfl⟩ | ⟨empty,rfl⟩⟩)
  · obtain ⟨_,c,d,own,there,_,_,done⟩ := state.pairs r s pair
    rcases done with underway | like
    · cases underway
    · exact ⟨c, d, own, there, like⟩
  · refine ⟨c, c, found, state.grown s c found, cell_like_self fun v held => ?_⟩
    have frozen : ∀ t, v.ref? = some t → ∃ e, h.cell? t = some e ∧ e.access = .constant := by
      intro t own
      have level := sound.frozen s ((access_of_cell found).trans constant) v
        (children_of_cell found ▸ held) t own
      have finds := sound.intact.finds found v held
      cases v with
      | object t' =>
        cases own
        obtain ⟨o,there⟩ := finds
        exact ⟨_, there, (access_of_cell there).symm.trans level⟩
      | array t' =>
        cases own
        obtain ⟨a,there⟩ := finds
        exact ⟨_, there, (access_of_cell there).symm.trans level⟩
      | _ => cases own
    cases v with
    | object t =>
      obtain ⟨e,there,level⟩ := frozen t rfl
      exact .object (Or.inr ⟨rfl, e, there, Or.inl ⟨level, rfl⟩⟩)
    | array t =>
      obtain ⟨e,there,level⟩ := frozen t rfl
      exact .array (Or.inr ⟨rfl, e, there, Or.inl ⟨level, rfl⟩⟩)
    | _ => constructor
  · obtain ⟨d,there,kind,_,none⟩ := cell?_sharedEmpty sound.shares c
    exact ⟨c, d, found, state.grown _ d there, cell_like_empty kind empty none⟩

theorem Copied.level (shares : h.Shares) (state : Copied target h [] st)
    (pair : copied target h st.copies r s) : st.heap.access s = target := by
  rcases pair with pair | ⟨rfl,c,found,⟨constant,rfl⟩ | ⟨_,rfl⟩⟩
  · obtain ⟨_,_,d,_,there,_,level,_⟩ := state.pairs r s pair
    exact (access_of_cell there).trans level
  · exact (access_of_cell (state.grown s c found)).trans constant
  · obtain ⟨d,there,_,level,_⟩ := cell?_sharedEmpty shares c
    exact (access_of_cell (state.grown _ d there)).trans level

/-- A copy of the graph of a value, when it is done. -/
def cloning (h : Heap) (v : Value) (target : Access) : Copying :=
  (copyVia (copyRef target (h.size + 1)) ⟨h, []⟩ v).1

/-- Copying from the start leads to a copy with nothing underway. -/
theorem deepClone_carries (sound : h.Sound) (finds : h.Finds v) (target : Access) :
    Carries target h [] ⟨h, []⟩ v (h.cloning v target) (h.deepClone v target).2 := by
  have fresh : Copied target h [] ⟨h, []⟩ := .start sound.intact target
  exact copyVia_carries (fun r c found => copyRef_carries sound.intact sound.shares target
    (h.size + 1) [] ⟨h, []⟩ r c found fresh (Nat.le_refl _)) fresh finds

/-- A deep copy reads as the value does, and all of it is at the access level. -/
theorem deepClone_replica (sound : h.Sound) (finds : h.Finds v) (target : Access) :
    ∃ p, Replica target p h v (h.deepClone v target).1 (h.deepClone v target).2 := by
  have carries := deepClone_carries sound finds target
  exact ⟨_, carries.grown, carries.state.intact, carries.state.simulates sound, carries.like,
    carries.finds, fun _ _ pair => carries.state.level sound.shares pair⟩

end Copying

end Heap

end Statechart

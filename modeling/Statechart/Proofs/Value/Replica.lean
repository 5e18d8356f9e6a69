import Statechart.Proofs.Value.Correspondence

/- Values made again from their trees. Where no container occurs twice in a value, unfolding it and
   building the tree elsewhere makes a value that is alike: each container is paired with the one
   that was built in its place. A container that occurs twice would be built twice. -/
namespace Statechart

namespace Heap

variable {p q : Pairing} {h k k' : Heap} {v w : Value} {r s : Nat} {refs : List Ref}

/-- The containers that a value unfolds through, each as often as it occurs. At most `depth` levels
    are looked at. -/
def occurrencesIn (h : Heap) : Nat → Value → List Ref
  | 0, _ => []
  | depth + 1, .object r => r :: (h.entries r).flatMap fun e => h.occurrencesIn depth e.2.value
  | depth + 1, .array r => r :: (h.items r).flatMap fun s => h.occurrencesIn depth s.value
  | _ + 1, _ => []

def occurrences (h : Heap) (v : Value) : List Ref := h.occurrencesIn (h.size + 1) v

/-- A reference leads to a container of its kind. -/
def Finds (h : Heap) : Value → Prop
  | .object r => ∃ o, h.cell? r = some (.object o)
  | .array r => ∃ a, h.cell? r = some (.array a)
  | _ => True

instance (h : Heap) : (v : Value) → Decidable (h.Finds v)
  | .object r =>
    match found : h.cell? r with
    | some (.object o) => isTrue ⟨o, found⟩
    | some (.array _) | none => isFalse fun ⟨_,there⟩ => by rw [found] at there; cases there
  | .array r =>
    match found : h.cell? r with
    | some (.array a) => isTrue ⟨a, found⟩
    | some (.object _) | none => isFalse fun ⟨_,there⟩ => by rw [found] at there; cases there
  | .undefined | .null | .bool _ | .number _ | .string _ | .dateTime _ => isTrue trivial

/-- Every reference in a container leads to a container of its kind. -/
def Intact (h : Heap) : Prop := ∀ r, ∀ v ∈ h.children r, h.Finds v

theorem intact_of_children (inside : ∀ r < h.size, ∀ v ∈ h.children r, h.Finds v) : h.Intact := by
  intro r v held
  refine inside r ?_ v held
  cases there : h.cell? r with
  | none =>
    rw [children, there] at held
    cases held
  | some c => exact lt_size_of_cell there

/-- Containers of `h` among `refs` have been paired with new ones in `k`. -/
structure Adopts (p : Pairing) (h k : Heap) (refs : List Ref) (q : Pairing) (k' : Heap) : Prop where
  wider : ∀ {r s}, p r s → q r s
  grown : k.Extends k'
  corresponds : Corresponds q h k'
  among : ∀ {r s}, q r s → p r s ∨ r ∈ refs

theorem Adopts.refl (corresponds : Corresponds p h k) : Adopts p h k [] p k :=
  ⟨id, .refl k, corresponds, Or.inl⟩

theorem Adopts.trans {t : Pairing} {k'' : Heap} {refs' : List Ref} (first : Adopts p h k refs q k')
    (second : Adopts q h k' refs' t k'') : Adopts p h k (refs ++ refs') t k'' where
  wider pair := second.wider (first.wider pair)
  grown := first.grown.trans second.grown
  corresponds := second.corresponds
  among pair := by
    rcases second.among pair with old | new
    · exact (first.among old).imp id (List.mem_append_left _)
    · exact Or.inr (List.mem_append_right _ new)

/-- A container that has no partner yet is paired with a new one that is alike. -/
theorem Corresponds.adopt (corresponds : Corresponds p h k) {c d : Cell} (found : h.cell? r = some c)
    (like : c.Like p d) (single : ∀ s, ¬ p r s) :
    Adopts p h k [r] (joined p r k.size) (k.alloc d).1 where
  wider := Or.inl
  grown := extends_alloc k d
  corresponds := {
    functional := by
      rintro a s t (pair | ⟨rfl,rfl⟩) (pair' | ⟨here,rfl⟩)
      · exact corresponds.functional pair pair'
      · exact absurd (here ▸ pair) (single s)
      · exact absurd pair' (single t)
      · rfl
    injective := by
      rintro a b t (pair | ⟨rfl,rfl⟩) (pair' | ⟨rfl,here⟩)
      · exact corresponds.injective pair pair'
      · exact absurd (corresponds.lt_right pair) (here ▸ Nat.lt_irrefl _)
      · exact absurd (corresponds.lt_right pair') (Nat.lt_irrefl _)
      · rfl
    cells := by
      rintro a s (pair | ⟨rfl,rfl⟩)
      · obtain ⟨c',d',here,there,same⟩ := corresponds.cells pair
        exact ⟨c', d', here, extends_alloc k d _ _ there, same.wider Or.inl⟩
      · exact ⟨c, d, found, cell?_alloc k d, like.wider Or.inl⟩ }
  among := by
    rintro a s (pair | ⟨rfl,_⟩)
    · exact Or.inl pair
    · exact Or.inr List.mem_cons_self

/-- Wherever the tree is built, the result is alike to the value, as long as no container of the
    value occurs twice or has a partner already. -/
def Replicates (h : Heap) (refs : List Ref) (v : Value) (t : Tree) : Prop :=
  ∀ (p : Pairing) (k : Heap), Corresponds p h k → refs.Nodup → (∀ r ∈ refs, ∀ s, ¬ p r s) →
    ∃ q, Adopts p h k refs q (k.build t).1 ∧ v.Like q (k.build t).2

/-- Containers that stand further on have no partner yet. -/
theorem Adopts.apart {refs' : List Ref} (adopts : Adopts p h k refs q k')
    (unshared : (refs ++ refs').Nodup) (single : ∀ r ∈ refs ++ refs', ∀ s, ¬ p r s) :
    ∀ r ∈ refs', ∀ s, ¬ q r s := by
  intro r later s pair
  rcases adopts.among pair with old | here
  · exact single r (List.mem_append_right _ later) s old
  · exact (List.nodup_append.mp unshared).2.2 r here r later rfl

variable {occurs : Value → List Ref}

theorem buildFields_replicates {entries : List (String × Slot)} {fields : List (String × Tree)}
    (each : List.Forall₂ (fun e f => e.1 = f.1 ∧ h.Replicates (occurs e.2.value) e.2.value f.2)
      entries fields) (corresponds : Corresponds p h k)
    (unshared : (entries.flatMap fun e => occurs e.2.value).Nodup)
    (single : ∀ r ∈ entries.flatMap fun e => occurs e.2.value, ∀ s, ¬ p r s) :
    ∃ q, Adopts p h k (entries.flatMap fun e => occurs e.2.value) q (k.buildFields fields).1 ∧
      Entries.Like q entries (k.buildFields fields).2 := by
  induction each generalizing p k with
  | nil => exact ⟨p, .refl corresponds, .nil⟩
  | @cons e f entries fields here _ ih =>
    rw [List.flatMap_cons] at unshared single ⊢
    obtain ⟨q,first,value⟩ := here.2 p k corresponds (List.nodup_append.mp unshared).1
      fun r hr => single r (List.mem_append_left _ hr)
    obtain ⟨q',later,rest⟩ := ih first.corresponds (List.nodup_append.mp unshared).2.1
      (first.apart unshared single)
    exact ⟨q', first.trans later, .cons ⟨here.1, value.wider later.wider⟩ rest⟩

theorem buildItems_replicates {slots : List Slot} {trees : List Tree}
    (each : List.Forall₂ (fun s t => h.Replicates (occurs s.value) s.value t) slots trees)
    (corresponds : Corresponds p h k) (unshared : (slots.flatMap fun s => occurs s.value).Nodup)
    (single : ∀ r ∈ slots.flatMap fun s => occurs s.value, ∀ s, ¬ p r s) :
    ∃ q, Adopts p h k (slots.flatMap fun s => occurs s.value) q (k.buildItems trees).1 ∧
      Items.Like q slots (k.buildItems trees).2 := by
  induction each generalizing p k with
  | nil => exact ⟨p, .refl corresponds, .nil⟩
  | @cons e t slots trees here _ ih =>
    rw [List.flatMap_cons] at unshared single ⊢
    obtain ⟨q,first,value⟩ := here p k corresponds (List.nodup_append.mp unshared).1
      fun r hr => single r (List.mem_append_left _ hr)
    obtain ⟨q',later,rest⟩ := ih first.corresponds (List.nodup_append.mp unshared).2.1
      (first.apart unshared single)
    exact ⟨q', first.trans later, .cons (value.wider later.wider) rest⟩

/-- A container is built after what is in it. -/
theorem Adopts.enclose {c d : Cell} (inner : Adopts p h k refs q k') (found : h.cell? r = some c)
    (like : c.Like q d) (unshared : (r :: refs).Nodup) (single : ∀ s, ¬ p r s) :
    Adopts p h k (r :: refs) (joined q r k'.size) (k'.alloc d).1 := by
  have alone : ∀ s, ¬ q r s := by
    intro s pair
    rcases inner.among pair with old | within
    · exact single s old
    · exact (List.nodup_cons.mp unshared).1 within
  have last := inner.trans (inner.corresponds.adopt found like alone)
  refine ⟨last.wider, last.grown, last.corresponds, fun pair => (last.among pair).imp id ?_⟩
  intro within
  rcases List.mem_append.mp within with deeper | here
  · exact List.mem_cons_of_mem r deeper
  · exact List.mem_cons.mpr (Or.inl (List.mem_singleton.mp here))

theorem replicates_object {depth : Nat} {o : ObjectCell} {fields : List (String × Tree)}
    (found : h.cell? r = some (.object o))
    (each : List.Forall₂ (fun e f => e.1 = f.1 ∧
      h.Replicates (h.occurrencesIn depth e.2.value) e.2.value f.2) (h.entries r) fields) :
    h.Replicates (h.occurrencesIn (depth + 1) (.object r)) (.object r) (.object fields) := by
  intro p k corresponds unshared single
  rw [occurrencesIn] at unshared single ⊢
  obtain ⟨q,inner,entries⟩ := buildFields_replicates each corresponds
    (List.nodup_cons.mp unshared).2 fun r hr => single r (List.mem_cons_of_mem _ hr)
  have own : h.entries r = o.entries := by rw [Heap.entries, object?, found]
  have like : Cell.Like q (.object o) (.object ⟨.writable, (k.buildFields fields).2, none⟩) :=
    .object (own ▸ entries)
  exact ⟨_, inner.enclose found like unshared (single r List.mem_cons_self),
    .object (Or.inr ⟨rfl, rfl⟩)⟩

theorem replicates_array {depth : Nat} {a : ArrayCell} {trees : List Tree}
    (found : h.cell? r = some (.array a))
    (each : List.Forall₂ (fun s t => h.Replicates (h.occurrencesIn depth s.value) s.value t)
      (h.items r) trees) :
    h.Replicates (h.occurrencesIn (depth + 1) (.array r)) (.array r) (.array trees) := by
  intro p k corresponds unshared single
  rw [occurrencesIn] at unshared single ⊢
  obtain ⟨q,inner,items⟩ := buildItems_replicates each corresponds
    (List.nodup_cons.mp unshared).2 fun r hr => single r (List.mem_cons_of_mem _ hr)
  have own : h.items r = a.items := by rw [Heap.items, array?, found]
  have like : Cell.Like q (.array a) (.array ⟨.writable, (k.buildItems trees).2, none⟩) :=
    .array (own ▸ items)
  exact ⟨_, inner.enclose found like unshared (single r List.mem_cons_self),
    .array (Or.inr ⟨rfl, rfl⟩)⟩

theorem replicates_of_like {t : Tree} (same : ∀ {p : Pairing} (k : Heap), k.build t = (k, w) ∧ v.Like p w) :
    h.Replicates [] v t := by
  intro p k corresponds _ _
  obtain ⟨built,like⟩ := same (p := p) k
  rw [built]
  exact ⟨p, .refl corresponds, like⟩

theorem unfoldIn_replicates (intact : h.Intact) {depth : Nat} {path : List Ref} {t : Tree}
    (finds : h.Finds v) (unfolded : h.unfoldIn depth path v = .ok t) :
    h.Replicates (h.occurrencesIn depth v) v t := by
  induction depth generalizing path v t with
  | zero =>
    cases v with
    | object r => cases unfolded
    | array r => cases unfolded
    | _ =>
      cases unfolded
      exact replicates_of_like fun k => ⟨rfl, by constructor⟩
  | succ depth ih =>
    cases v with
    | object r =>
      obtain ⟨o,found⟩ := finds
      rw [unfoldIn] at unfolded
      split at unfolded
      · cases unfolded
      · obtain ⟨fields,listed,made⟩ := Except.bind_eq_ok unfolded
        cases made
        have held : ∀ e ∈ h.entries r, h.Finds e.2.value := fun e he =>
          intact r _ (mem_children_of_entry he)
        refine replicates_object found (((List.forall₂_and_left _ _).mpr
          ⟨held, Except.forall₂_of_mapM listed⟩).imp ?_)
        rintro ⟨key,slot⟩ field ⟨finds,made⟩
        obtain ⟨t,inner,made⟩ := Except.bind_eq_ok made
        cases made
        exact ⟨rfl, ih finds inner⟩
    | array r =>
      obtain ⟨a,found⟩ := finds
      rw [unfoldIn] at unfolded
      split at unfolded
      · cases unfolded
      · obtain ⟨trees,listed,made⟩ := Except.bind_eq_ok unfolded
        cases made
        have held : ∀ s ∈ h.items r, h.Finds s.value := fun s hs =>
          intact r _ (mem_children_of_item hs)
        refine replicates_array found (((List.forall₂_and_left _ _).mpr
          ⟨held, Except.forall₂_of_mapM listed⟩).imp ?_)
        rintro slot t ⟨finds,inner⟩
        exact ih finds inner
    | _ =>
      cases unfolded
      exact replicates_of_like fun k => ⟨rfl, by constructor⟩

/-- A value without shared containers is alike to what its tree builds. -/
theorem unfold_replicates (intact : h.Intact) {t : Tree} (finds : h.Finds v)
    (unfolded : h.unfold v = .ok t) : h.Replicates (h.occurrences v) v t :=
  unfoldIn_replicates intact finds unfolded

end Heap

end Statechart

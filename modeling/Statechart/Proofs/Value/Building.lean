import Statechart.Expr.Eval
import Statechart.Proofs.Except

/- Building values. A heap grows at its end only, so what was built stays as it was made. -/
namespace Statechart

namespace Heap

variable {h h' h'' : Heap} {r : Nat} {c : Cell}

/-- The cells of `h` are still there, and as they were. -/
def Extends (h h' : Heap) : Prop := ∀ r c, h.cell? r = some c → h'.cell? r = some c

theorem Extends.refl (h : Heap) : h.Extends h := fun _ _ found => found

theorem Extends.trans (first : h.Extends h') (second : h'.Extends h'') : h.Extends h'' :=
  fun r c found => second r c (first r c found)

theorem lt_size_of_cell (found : h.cell? r = some c) : r < h.size :=
  (Array.getElem?_eq_some_iff.mp found).1

theorem cell?_of_lt (inside : r < h.size) : ∃ c, h.cell? r = some c :=
  ⟨_, Array.getElem?_eq_getElem inside⟩

@[simp] theorem size_alloc (h : Heap) (c : Cell) : (h.alloc c).1.size = h.size + 1 :=
  Array.size_push c

@[simp] theorem alloc_snd (h : Heap) (c : Cell) : (h.alloc c).2 = h.size := rfl

theorem cell?_alloc (h : Heap) (c : Cell) : (h.alloc c).1.cell? h.size = some c :=
  Array.getElem?_push_size

theorem extends_alloc (h : Heap) (c : Cell) : h.Extends (h.alloc c).1 := by
  intro r d found
  have inside := lt_size_of_cell found
  rw [cell?, alloc, Array.getElem?_push_lt inside]
  exact (Array.getElem?_eq_getElem inside).symm.trans found

theorem Extends.object? {o : ObjectCell} (grown : h.Extends h') (found : h.object? r = some o) :
    h'.object? r = some o := by
  unfold Heap.object? at found ⊢
  split at found
  · rename_i cell
    rw [grown r _ cell]
    exact found
  · cases found

theorem Extends.size (grown : h.Extends h') : h.size ≤ h'.size := by
  by_cases some : h.size = 0
  · omega
  · obtain ⟨c,found⟩ := cell?_of_lt (h := h) (r := h.size - 1) (by omega)
    have inside := lt_size_of_cell (grown _ _ found)
    omega

mutual

theorem extends_build : ∀ (h : Heap) (t : Tree), h.Extends (h.build t).1
  | h, .undefined => Extends.refl h
  | h, .null => Extends.refl h
  | h, .bool _ => Extends.refl h
  | h, .number _ => Extends.refl h
  | h, .string _ => Extends.refl h
  | h, .dateTime _ => Extends.refl h
  | h, .object fields => by
    rw [build]
    exact (extends_buildFields h fields).trans (extends_alloc _ _)
  | h, .array items => by
    rw [build]
    exact (extends_buildItems h items).trans (extends_alloc _ _)

theorem extends_buildFields : ∀ (h : Heap) (fields : List (String × Tree)),
    h.Extends (h.buildFields fields).1
  | h, [] => Extends.refl h
  | h, (_, t) :: rest => by
    rw [buildFields]
    exact (extends_build h t).trans (extends_buildFields _ rest)

theorem extends_buildItems : ∀ (h : Heap) (items : List Tree), h.Extends (h.buildItems items).1
  | h, [] => Extends.refl h
  | h, t :: rest => by
    rw [buildItems]
    exact (extends_build h t).trans (extends_buildItems _ rest)

end

/-- Evaluating an expression makes new containers at most. -/
theorem extends_eval {scope : Scope} {v : Value} (e : Expr) {h h' : Heap}
    (run : e.eval scope h = .ok (h', v)) : h.Extends h' := by
  induction e generalizing h h' v with
  | literal t =>
    have made : h.build t = (h', v) := Except.ok.inj run
    have grown := extends_build h t
    rwa [made] at grown
  | path segments =>
    cases run
    exact Extends.refl h
  | inState id =>
    cases run
    exact Extends.refl h
  | not e ih =>
    obtain ⟨⟨k,w⟩,first,run⟩ := Except.bind_eq_ok run
    cases run
    exact ih first
  | and l r left right =>
    obtain ⟨⟨k,w⟩,first,run⟩ := Except.bind_eq_ok run
    simp only at run
    split at run
    · obtain ⟨⟨k',w'⟩,second,run⟩ := Except.bind_eq_ok run
      cases run
      exact (left first).trans (right second)
    · cases run
      exact left first
  | or l r left right =>
    obtain ⟨⟨k,w⟩,first,run⟩ := Except.bind_eq_ok run
    simp only at run
    split at run
    · cases run
      exact left first
    · obtain ⟨⟨k',w'⟩,second,run⟩ := Except.bind_eq_ok run
      cases run
      exact (left first).trans (right second)
  | compare op l r left right =>
    obtain ⟨⟨k,w⟩,first,run⟩ := Except.bind_eq_ok run
    obtain ⟨⟨k',w'⟩,second,run⟩ := Except.bind_eq_ok run
    obtain ⟨b,_,run⟩ := Except.bind_eq_ok run
    cases run
    exact (left first).trans (right second)
  | arith op l r left right =>
    obtain ⟨⟨k,w⟩,first,run⟩ := Except.bind_eq_ok run
    obtain ⟨⟨k',w'⟩,second,run⟩ := Except.bind_eq_ok run
    obtain ⟨x,_,run⟩ := Except.bind_eq_ok run
    cases run
    exact (left first).trans (right second)

theorem extends_ofJson (h : Heap) (j : Json) : h.Extends (h.ofJson j).1 := extends_build h _

/-- The value was made from a JSON value, and what it was made of is still as it was. -/
def MadeFrom (h : Heap) (v : Value) (j : Json) : Prop :=
  ∃ before : Heap, (before.ofJson j).2 = v ∧ (before.ofJson j).1.Extends h

theorem MadeFrom.extend {v : Value} {j : Json} (made : h.MadeFrom v j) (grown : h.Extends h') :
    h'.MadeFrom v j := by
  obtain ⟨before,same,still⟩ := made
  exact ⟨before, same, still.trans grown⟩

theorem madeFrom_ofJson (h : Heap) (j : Json) : (h.ofJson j).1.MadeFrom (h.ofJson j).2 j :=
  ⟨h, rfl, Extends.refl _⟩

theorem buildFields_made (h : Heap) (fields : List (String × Json)) :
    List.Forall₂ (fun f e => e.1 = f.1 ∧ (h.buildFields (Tree.ofJsonFields fields)).1.MadeFrom
      e.2.value f.2) fields (h.buildFields (Tree.ofJsonFields fields)).2 := by
  induction fields generalizing h with
  | nil => exact List.Forall₂.nil
  | cons f rest ih =>
    obtain ⟨k,j⟩ := f
    rw [Tree.ofJsonFields, buildFields]
    refine List.Forall₂.cons ⟨rfl, ?_⟩ (ih _)
    exact (madeFrom_ofJson h j).extend (extends_buildFields _ _)

end Heap

theorem lookupEntry_of_forall₂ (made : Value → Json → Prop) {fields : List (String × Json)}
    {entries : List (String × Slot)}
    (each : List.Forall₂ (fun f e => e.1 = f.1 ∧ made e.2.value f.2) fields entries)
    (key : String) :
    (Json.lookup key fields = none ∧ lookupEntry key entries = none) ∨
      ∃ j slot, Json.lookup key fields = some j ∧ lookupEntry key entries = some slot ∧
        made slot.value j := by
  induction each with
  | nil => exact Or.inl ⟨rfl, rfl⟩
  | @cons f e _ _ here _ ih =>
    rw [Json.lookup, lookupEntry, here.1]
    by_cases found : f.1 = key
    · rw [if_pos found, if_pos found]
      exact Or.inr ⟨f.2, e.2, rfl, rfl, here.2⟩
    · rw [if_neg found, if_neg found]
      exact ih

end Statechart

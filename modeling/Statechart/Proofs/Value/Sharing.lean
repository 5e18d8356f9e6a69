import Statechart.Proofs.Value.Realm
import Statechart.Proofs.Value.Correspondence

/- What several have in common of one heap. Each holds some values; what two of them reach from
   theirs is constant. One of them may go on in a realm of its own: what it reaches, and whatever it
   makes. The others then find all that they reach as it was. -/
namespace Statechart.Heap

variable {ι : Type} {A B : Value → Prop} {E E' : ι → Value → Prop} {h h' k : Heap} {v w : Value}
  {i j : ι} {x y : Ref}

/-- A container that some of the values lead to. -/
inductive Reached (h : Heap) (A : Value → Prop) : Ref → Prop where
  | root {v : Value} {x : Ref} (held : A v) (own : v.ref? = some x) : Reached h A x
  | edge {x y : Ref} (before : Reached h A x) (within : h.Within x y) : Reached h A y

theorem Reached.mono (reached : h.Reached A x) (wider : ∀ v, A v → B v) : h.Reached B x := by
  induction reached with
  | root held own => exact .root (wider _ held) own
  | edge _ within ih => exact .edge ih within

/-- From an object its properties are reached. -/
theorem Reached.slot {key : String} {slot : Slot} (reached : h.Reached A x)
    (there : h.slot? x key = some slot) (own : slot.value.ref? = some y) : h.Reached A y :=
  .edge reached ⟨_, mem_children_of_slot there, own⟩

/-- It is held, by some value that leads somewhere. -/
theorem Reached.found (reached : h.Reached A x) (sound : h.Sound) (finds : ∀ v, A v → h.Finds v) :
    ∃ v, h.Finds v ∧ v.ref? = some x := by
  cases reached with
  | root held own => exact ⟨_, finds _ held, own⟩
  | edge _ within =>
    obtain ⟨v,held,own⟩ := within
    exact ⟨v, sound.intact _ v held, own⟩

theorem not_reached_of_none (none : ∀ v, ¬ A v) : ¬ h.Reached A x := by
  intro reached
  induction reached with
  | root held _ => exact none _ held
  | edge _ _ ih => exact ih

theorem Reached.lt_size (reached : h.Reached A x) (sound : h.Sound)
    (finds : ∀ v, A v → h.Finds v) : x < h.size := by
  obtain ⟨v,found,own⟩ := reached.found sound finds
  exact found.lt_size own

section Spares

/-- The containers that the values lead to are as they were. -/
def Spares (A : Value → Prop) (h h' : Heap) : Prop :=
  ∀ x, h.Reached A x → (h'.cell? x).map Cell.bare = (h.cell? x).map Cell.bare

theorem children_of_bare (same : (h'.cell? x).map Cell.bare = (h.cell? x).map Cell.bare) :
    h'.children x = h.children x := by
  have values (k : Heap) : k.children x = (((k.cell? x).map Cell.bare).map Cell.values).getD [] := by
    unfold children
    cases k.cell? x with
    | none => rfl
    | some c => exact (Cell.values_bare c).symm
  rw [values, same, ← values]

theorem access_of_bare (same : (h'.cell? x).map Cell.bare = (h.cell? x).map Cell.bare) :
    h'.access x = h.access x := by
  have level (k : Heap) :
      k.access x = (((k.cell? x).map Cell.bare).map Cell.access).getD .constant := by
    unfold access
    cases k.cell? x with
    | none => rfl
    | some c => exact (Cell.access_bare c).symm
  rw [level, same, ← level]

theorem Spares.refl (A : Value → Prop) (h : Heap) : Spares A h h := fun _ _ => rfl

theorem Spares.mono (spares : Spares A h h') (narrower : ∀ v, B v → A v) : Spares B h h' :=
  fun x reached => spares x (reached.mono narrower)

/-- So the values lead to the same as before. -/
theorem Spares.back (spares : Spares A h h') (reached : h'.Reached A x) : h.Reached A x := by
  induction reached with
  | root held own => exact .root held own
  | edge _ within ih =>
    obtain ⟨v,held,own⟩ := within
    rw [children_of_bare (spares _ ih)] at held
    exact .edge ih ⟨v, held, own⟩

theorem Spares.ahead (spares : Spares A h h') (reached : h.Reached A x) : h'.Reached A x := by
  induction reached with
  | root held own => exact .root held own
  | edge before within ih =>
    obtain ⟨v,held,own⟩ := within
    rw [← children_of_bare (spares _ before)] at held
    exact .edge ih ⟨v, held, own⟩

theorem Spares.trans (first : Spares A h h') (second : Spares A h' k) : Spares A h k :=
  fun x reached => (second x (first.ahead reached)).trans (first x reached)

theorem Spares.extend (grown : h.Extends h') (sound : h.Sound) (finds : ∀ v, A v → h.Finds v) :
    Spares A h h' := by
  intro x reached
  obtain ⟨c,found⟩ := cell?_of_lt (reached.lt_size sound finds)
  rw [found, grown x c found]

/-- Each container that the values lead to goes with itself. -/
def itself (h : Heap) (A : Value → Prop) : Pairing := fun r s => r = s ∧ h.Reached A r

theorem Spares.eval_alike {data : Ref} (spares : Spares (· = .object data) h h') (sound : h.Sound)
    (finds : h.Finds (.object data)) (e : Expr) (inState : String → Bool) :
    Expr.Alike (h.itself (· = .object data)) h h' (e.eval ⟨data, inState⟩ h)
      (e.eval ⟨data, inState⟩ h') := by
  have found (x : Ref) (reached : h.Reached (· = .object data) x) : ∃ c, h.cell? x = some c :=
    cell?_of_lt (reached.lt_size sound fun v here => here ▸ finds)
  refine Expr.eval_alike e inState ?_ ?_
  · refine ⟨?_, ?_, ?_⟩
    · rintro r s t ⟨rfl,_⟩ ⟨rfl,_⟩
      rfl
    · rintro r s t ⟨rfl,_⟩ ⟨rfl,_⟩
      rfl
    · rintro r s ⟨rfl,reached⟩
      obtain ⟨c,here⟩ := found r reached
      have same := spares r reached
      rw [here, Option.map_some] at same
      obtain ⟨d,there,bare⟩ := Option.map_eq_some_iff.mp same
      refine ⟨c, d, here, there, ?_⟩
      have held (v : Value) (within : v ∈ c.values) : v.Like (h.itself (· = .object data)) v := by
        have child : v ∈ h.children r := by rwa [children_of_cell here]
        cases v with
        | object s => exact .object ⟨rfl, .edge reached ⟨_, child, rfl⟩⟩
        | array s => exact .array ⟨rfl, .edge reached ⟨_, child, rfl⟩⟩
        | _ => constructor
      cases c with
      | object o =>
        cases d with
        | array a => cases bare
        | object o' =>
          have entries : o'.entries = o.entries := by
            cases o
            cases o'
            simp_all [Cell.bare]
          refine .object ?_
          rw [entries]
          exact List.forall₂_same.mpr fun e within =>
            ⟨rfl, held _ (List.mem_map.mpr ⟨e, within, rfl⟩)⟩
      | array a =>
        cases d with
        | object o => cases bare
        | array a' =>
          have items : a'.items = a.items := by
            cases a
            cases a'
            simp_all [Cell.bare]
          refine .array ?_
          rw [items]
          exact List.forall₂_same.mpr fun e within => held _ (List.mem_map.mpr ⟨e, within, rfl⟩)
  · exact fun path _ => .whole ⟨rfl, .root rfl rfl⟩

end Spares

section Home

/-- The realm of whoever starts from some values. -/
def home (h : Heap) (A : Value → Prop) : Realm where
  near _ := True
  own x := h.Reached A x ∨ h.size ≤ x

theorem Sound.home_closes (sound : h.Sound) (A : Value → Prop) : h.Closes (h.home A) where
  sound := sound
  fresh _ beyond := ⟨trivial, Or.inr beyond⟩
  shared := ⟨trivial, trivial⟩
  near _ _ _ _ _ _ := trivial
  own x mine v held y own := by
    rcases mine with reached | beyond
    · exact Or.inl (Or.inl (.edge reached ⟨v, held, own⟩))
    · exact absurd (lt_size_of_child held) (Nat.not_lt.mpr beyond)

theorem Finds.meets (finds : h.Finds v) : Meets (k.home A) h v := ⟨finds, fun _ _ => trivial⟩

theorem Finds.owned (finds : h.Finds v) (held : A v) : Owns (h.home A) h v :=
  ⟨finds.meets, fun _ own => Or.inl (Or.inl (.root held own))⟩

/-- What owned values lead to is one's own or constant. -/
theorem Closes.reached {D : Realm} (closes : h.Closes D) (owns : ∀ v, A v → Owns D h v)
    (reached : h.Reached A x) : D.own x ∨ h.access x = .constant := by
  suffices ∃ v, Owns D h v ∧ v.ref? = some x by
    obtain ⟨v,owned,own⟩ := this
    exact owned.own x own
  induction reached with
  | root held own => exact ⟨_, owns _ held, own⟩
  | edge _ within ih =>
    obtain ⟨v,owned,own⟩ := ih
    obtain ⟨w,held,own'⟩ := within
    exact ⟨w, closes.child owned own held, own'⟩

end Home

/-- What two of them have in common is constant. -/
structure Divided (h : Heap) (E : ι → Value → Prop) : Prop where
  sound : h.Sound
  finds : ∀ i v, E i v → h.Finds v
  apart : ∀ i j x, i ≠ j → h.Reached (E i) x → h.Reached (E j) x → h.access x = .constant

section Divided

theorem Divided.mono (divided : h.Divided E) (narrower : ∀ i v, E' i v → E i v) :
    h.Divided E' where
  sound := divided.sound
  finds i v held := divided.finds i v (narrower i v held)
  apart i j x other reached reached' :=
    divided.apart i j x other (reached.mono (narrower i)) (reached'.mono (narrower j))

/-- Whoever keeps to its home leaves the others' containers alone. -/
theorem Divided.spares (divided : h.Divided E) (confines : Confines (h.home (E i)) h h')
    (other : j ≠ i) : Spares (E j) h h' := by
  intro x reached
  by_cases mine : (h.home (E i)).own x
  · rcases mine with reached' | beyond
    · obtain ⟨v,finds,own⟩ := reached.found divided.sound (divided.finds j)
      exact confines.matures.frozen finds own (divided.apart j i x other reached reached')
    · exact absurd (reached.lt_size divided.sound (divided.finds j)) (Nat.not_lt.mpr beyond)
  · rw [confines.outside x mine]

/-- Heaps in which everyone finds everything as it was are divided in the same way. -/
theorem Divided.stay (divided : h.Divided E) (matures : h.Matures h')
    (spares : ∀ i, Spares (E i) h h') : h'.Divided E where
  sound := matures.sound
  finds i v held := matures.finds (divided.finds i v held)
  apart i j x other reached reached' := by
    have before := (spares i).back reached
    rw [access_of_bare (spares i x before)]
    exact divided.apart i j x other before ((spares j).back reached')

/-- One of them goes on, at home. Whatever it has come by is its own or constant. -/
theorem Divided.move (divided : h.Divided E) (confines : Confines (h.home (E i)) h h')
    (others : ∀ j, j ≠ i → ∀ v, E' j v → E j v)
    (mine : ∀ v, E' i v → Owns (h.home (E i)) h' v) : h'.Divided E' := by
  have matures := confines.matures
  have before (j : ι) (other : j ≠ i) {x : Ref} (reached : h'.Reached (E' j) x) :
      h.Reached (E j) x ∧ h'.access x = h.access x := by
    have spares := divided.spares confines other
    have back := spares.back (reached.mono (others j other))
    exact ⟨back, access_of_bare (spares x back)⟩
  have mover (j : ι) (other : j ≠ i) (x : Ref) (reached : h'.Reached (E' i) x)
      (reached' : h'.Reached (E' j) x) : h'.access x = .constant := by
    obtain ⟨back,level⟩ := before j other reached'
    rcases confines.closes.reached mine reached with (own | beyond) | constant
    · rw [level]
      exact divided.apart i j x (Ne.symm other) own back
    · exact absurd (back.lt_size divided.sound (divided.finds j)) (Nat.not_lt.mpr beyond)
    · exact constant
  refine ⟨matures.sound, fun j v held => ?_, fun j l x other reached reached' => ?_⟩
  · by_cases here : j = i
    · subst here
      exact (mine v held).finds
    · exact matures.finds (divided.finds j v (others j here v held))
  · by_cases here : j = i
    · subst here
      exact mover l (Ne.symm other) x reached reached'
    · by_cases there : l = i
      · subst there
        exact mover j here x reached' reached
      · obtain ⟨back,level⟩ := before j here reached
        obtain ⟨back',-⟩ := before l there reached'
        rw [level]
        exact divided.apart j l x other back back'

end Divided

/-- A literal makes containers that nobody reaches. -/
theorem literal_apart (sound : h.Sound) (finds : ∀ v, A v → h.Finds v) (t : Tree)
    (made : (h.build t).1.Reached (· = (h.build t).2) x) : ¬ (h.build t).1.Reached A x := by
  obtain ⟨newer,fresh⟩ := build_newer h t
  have beyond : h.size ≤ x := by
    induction made with
    | root here own => exact newer _ (here ▸ own)
    | edge _ within ih =>
      obtain ⟨v,held,own⟩ := within
      exact fresh _ ih v held _ own
  intro reached
  have back := (Spares.extend (extends_build h t) sound finds).back reached
  exact absurd (back.lt_size sound finds) (Nat.not_lt.mpr beyond)

end Statechart.Heap

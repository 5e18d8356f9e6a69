import Statechart.Proofs.Value.Freezing

/- What a machine may come by and what it may write to. No reference can be made up, so whoever
   starts from some containers comes by what they lead to and by what it makes itself, and writes to
   its own only. Of the rest it may hold constant containers. -/
namespace Statechart

/-- A part of a heap, as one machine sees it. Containers that are yet to be made belong to it. -/
structure Realm where
  /-- What the machine may come by. -/
  near : Ref → Prop
  /-- What it may write to. -/
  own : Ref → Prop

namespace Heap

variable {D : Realm} {h h' k : Heap} {v w : Value} {r s : Nat} {c d : Cell} {key : String}
  {slot : Slot}

/-- What is near leads to what is near, and what is own to what is own or constant. -/
structure Closes (D : Realm) (h : Heap) : Prop where
  sound : h.Sound
  fresh : ∀ r, h.size ≤ r → D.near r ∧ D.own r
  shared : D.near emptyObject ∧ D.near emptyArray
  near : ∀ r, D.near r → ∀ v ∈ h.children r, ∀ s, v.ref? = some s → D.near s
  own : ∀ r, D.own r → ∀ v ∈ h.children r, ∀ s, v.ref? = some s →
    D.own s ∨ h.access s = .constant

/-- The machine may come by a value. -/
structure Meets (D : Realm) (h : Heap) (v : Value) : Prop where
  finds : h.Finds v
  near : ∀ r, v.ref? = some r → D.near r

/-- The machine may keep a value in its data. -/
structure Owns (D : Realm) (h : Heap) (v : Value) : Prop extends Meets D h v where
  own : ∀ r, v.ref? = some r → D.own r ∨ h.access r = .constant

/-- What a machine may do to the heap. -/
structure Confines (D : Realm) (h h' : Heap) : Prop where
  matures : h.Matures h'
  closes : h'.Closes D
  outside : ∀ r, ¬ D.own r → h'.cell? r = h.cell? r

/-- Read-only entries stay where `P` says so. -/
def Respects (P : Ref → String → Prop) (h h' : Heap) : Prop := ∀ r key slot, P r key →
  h.slot? r key = some slot → slot.readOnly = true → h'.slot? r key = some slot

theorem Confines.refl (closes : h.Closes D) : h.Confines D h :=
  ⟨.refl closes.sound, closes, fun _ _ => rfl⟩

theorem Confines.trans (first : Confines D h h') (second : Confines D h' k) : Confines D h k :=
  ⟨first.matures.trans second.matures, second.closes, fun r other =>
    (second.outside r other).trans (first.outside r other)⟩

theorem Respects.refl (P : Ref → String → Prop) (h : Heap) : Respects P h h :=
  fun _ _ _ _ there _ => there

theorem Respects.trans {P : Ref → String → Prop} (first : Respects P h h')
    (second : Respects P h' k) : Respects P h k := fun r key slot kept there readOnly =>
  second r key slot kept (first r key slot kept there readOnly) readOnly

theorem Matures.still_constant (matures : h.Matures h') (finds : h.Finds v)
    (own : v.ref? = some r) (constant : h.access r = .constant) : h'.access r = .constant := by
  obtain ⟨c,found⟩ := finds.cell own
  exact matures.constant found ((access_of_cell found).symm.trans constant)

theorem Matures.frozen (matures : h.Matures h') (finds : h.Finds v) (own : v.ref? = some r)
    (constant : h.access r = .constant) : (h'.cell? r).map Cell.bare = (h.cell? r).map Cell.bare := by
  obtain ⟨c,found⟩ := finds.cell own
  obtain ⟨d,found',hardened⟩ := matures.cells r c found
  rw [found, found', Option.map_some, Option.map_some,
    hardened.frozen ((access_of_cell found).symm.trans constant)]

theorem Meets.mono (meets : Meets D h v) (matures : h.Matures h') : Meets D h' v :=
  ⟨matures.finds meets.finds, meets.near⟩

theorem Owns.mono (owns : Owns D h v) (matures : h.Matures h') : Owns D h' v :=
  ⟨owns.toMeets.mono matures, fun r own =>
    (owns.own r own).imp id (matures.still_constant owns.finds own)⟩

theorem Owns.of_bare (bare : v.ref? = none) : Owns D h v := by
  have none (r : Ref) (own : v.ref? = some r) : False := by
    rw [bare] at own
    cases own
  refine ⟨⟨?_, fun r own => (none r own).elim⟩, fun r own => (none r own).elim⟩
  cases v with
  | object r => exact (none r rfl).elim
  | array r => exact (none r rfl).elim
  | _ => trivial

section Reading

theorem Closes.child (closes : h.Closes D) (owns : Owns D h v) (own : v.ref? = some r)
    (held : w ∈ h.children r) : Owns D h w := by
  refine ⟨⟨closes.sound.intact r w held, fun s inner => ?_⟩, fun s inner => ?_⟩
  · exact closes.near r (owns.near r own) w held s inner
  · rcases owns.own r own with mine | constant
    · exact closes.own r mine w held s inner
    · exact Or.inr (closes.sound.frozen r constant w held s inner)

theorem Closes.get (closes : h.Closes D) (owns : Owns D h (.object r)) (key : String) :
    Owns D h (h.get r key) := by
  unfold Heap.get
  split
  · rename_i slot there
    exact closes.child owns rfl (mem_children_of_slot there)
  · exact .of_bare rfl

theorem Closes.getItem (closes : h.Closes D) (owns : Owns D h (.array r)) (i : Nat) :
    Owns D h (h.getItem r i) := by
  unfold Heap.getItem
  split
  · rename_i slot there
    exact closes.child owns rfl (mem_children_of_item (List.mem_of_getElem? there))
  · exact .of_bare rfl

/-- A path that starts at a value of the machine's leads to one. -/
theorem Closes.getPath (closes : h.Closes D) (owns : Owns D h v) (path : List String) :
    Owns D h (h.getPath v path) := by
  induction path generalizing v with
  | nil => exact owns
  | cons head rest ih =>
    cases v with
    | object r => exact ih (closes.get owns head)
    | array r =>
      rw [Heap.getPath]
      split
      · exact ih (closes.getItem owns _)
      · split
        · exact .of_bare rfl
        · exact .of_bare rfl
    | _ => exact .of_bare rfl

end Reading

section Growing

theorem slot?_extend (grown : h.Extends h') (there : h.slot? r key = some slot) :
    h'.slot? r key = some slot := by
  obtain ⟨o,found,look⟩ := Option.bind_eq_some_iff.mp there
  exact Option.bind_eq_some_iff.mpr ⟨o, grown.object? found, look⟩

theorem Respects.extend (P : Ref → String → Prop) (grown : h.Extends h') : Respects P h h' :=
  fun _ _ _ _ there _ => slot?_extend grown there

/-- The heap has got new cells, which hold what the machine may keep. -/
theorem Confines.extend (closes : h.Closes D) (grown : h.Extends h') (sound : h'.Sound)
    (new : ∀ r, h.size ≤ r → ∀ v ∈ h'.children r, ∀ s, v.ref? = some s →
      D.near s ∧ (D.own s ∨ h'.access s = .constant)) : Confines D h h' := by
  have size := grown.size
  have matures := Matures.extend grown sound
  have old {r : Ref} (inside : r < h.size) : h'.children r = h.children r := by
    obtain ⟨c,found⟩ := cell?_of_lt inside
    rw [children_of_cell found, children_of_cell (grown r c found)]
  refine ⟨matures, ⟨sound, fun r beyond => closes.fresh r (Nat.le_trans size beyond),
    closes.shared, ?_, ?_⟩, ?_⟩
  · intro r near v held s own
    by_cases inside : r < h.size
    · rw [old inside] at held
      exact closes.near r near v held s own
    · exact (new r (Nat.le_of_not_lt inside) v held s own).1
  · intro r mine v held s own
    by_cases inside : r < h.size
    · rw [old inside] at held
      exact (closes.own r mine v held s own).imp id
        (matures.still_constant (closes.sound.intact r v held) own)
    · exact (new r (Nat.le_of_not_lt inside) v held s own).2
  · intro r other
    have inside : r < h.size := by
      by_contra beyond
      exact other (closes.fresh r (Nat.le_of_not_lt beyond)).2
    obtain ⟨c,found⟩ := cell?_of_lt inside
    rw [found, grown r c found]

/-- The containers of a value are new. -/
def Newer (n : Nat) (v : Value) : Prop := ∀ r, v.ref? = some r → n ≤ r

/-- What has been made since the heap had `n` cells holds only what has been made since. -/
def Fresh (n : Nat) (k : Heap) : Prop := ∀ r, n ≤ r → ∀ v ∈ k.children r, Newer n v

theorem fresh_self (h : Heap) : Fresh h.size h := fun _ beyond _ held =>
  absurd (lt_size_of_child held) (Nat.not_lt.mpr beyond)

theorem Fresh.alloc {n : Nat} (fresh : Fresh n k) (values : ∀ v ∈ c.values, Newer n v) :
    Fresh n (k.alloc c).1 := by
  intro r new v held
  have inside := lt_size_of_child held
  rw [size_alloc] at inside
  by_cases last : r = k.size
  · rw [last, children_of_cell (cell?_alloc k c)] at held
    exact values v held
  · obtain ⟨d,found⟩ := cell?_of_lt (h := k) (r := r) (by omega)
    rw [children_of_cell (extends_alloc k c r d found), ← children_of_cell found] at held
    exact fresh r new v held

theorem Fresh.trans {n : Nat} (fresh : Fresh n h) (grown : h.Extends k) (later : n ≤ h.size)
    (fresh' : Fresh h.size k) : Fresh n k := by
  intro r new v held
  by_cases inside : r < h.size
  · obtain ⟨c,found⟩ := cell?_of_lt inside
    rw [children_of_cell (grown r c found), ← children_of_cell found] at held
    exact fresh r new v held
  · exact fun s own => Nat.le_trans later (fresh' r (Nat.le_of_not_lt inside) v held s own)

mutual

theorem build_newer : ∀ (h : Heap) (t : Tree), Newer h.size (h.build t).2 ∧
    Fresh h.size (h.build t).1
  | h, .undefined | h, .null | h, .bool _ | h, .number _ | h, .string _ | h, .dateTime _ =>
    ⟨fun _ own => (by cases own), fresh_self _⟩
  | h, .object fields => by
    obtain ⟨values,inner⟩ := buildFields_newer h fields
    rw [build]
    refine ⟨fun r own => ?_, inner.alloc fun v held => ?_⟩
    · cases own
      exact (extends_buildFields h fields).size
    · obtain ⟨e,within,rfl⟩ := List.mem_map.mp held
      exact values e within
  | h, .array items => by
    obtain ⟨values,inner⟩ := buildItems_newer h items
    rw [build]
    refine ⟨fun r own => ?_, inner.alloc fun v held => ?_⟩
    · cases own
      exact (extends_buildItems h items).size
    · obtain ⟨e,within,rfl⟩ := List.mem_map.mp held
      exact values e within

theorem buildFields_newer : ∀ (h : Heap) (fields : List (String × Tree)),
    (∀ e ∈ (h.buildFields fields).2, Newer h.size e.2.value) ∧
    Fresh h.size (h.buildFields fields).1
  | h, [] => ⟨fun _ none => (by cases none), fresh_self _⟩
  | h, (key, t) :: rest => by
    obtain ⟨value,inner⟩ := build_newer h t
    obtain ⟨values,inner'⟩ := buildFields_newer (h.build t).1 rest
    have grown := (extends_build h t).size
    rw [buildFields]
    refine ⟨fun e within => ?_, ?_⟩
    · rcases List.mem_cons.mp within with rfl | later
      · exact value
      · exact fun r own => Nat.le_trans grown (values e later r own)
    · exact inner.trans (extends_buildFields _ rest) grown inner'

theorem buildItems_newer : ∀ (h : Heap) (items : List Tree),
    (∀ e ∈ (h.buildItems items).2, Newer h.size e.value) ∧
    Fresh h.size (h.buildItems items).1
  | h, [] => ⟨fun _ none => (by cases none), fresh_self _⟩
  | h, t :: rest => by
    obtain ⟨value,inner⟩ := build_newer h t
    obtain ⟨values,inner'⟩ := buildItems_newer (h.build t).1 rest
    have grown := (extends_build h t).size
    rw [buildItems]
    refine ⟨fun e within => ?_, ?_⟩
    · rcases List.mem_cons.mp within with rfl | later
      · exact value
      · exact fun r own => Nat.le_trans grown (values e later r own)
    · exact inner.trans (extends_buildItems _ rest) grown inner'

end

theorem Closes.owns_newer (closes : h.Closes D) (newer : Newer h.size v) (finds : k.Finds v) :
    Owns D k v :=
  ⟨⟨finds, fun r own => (closes.fresh r (newer r own)).1⟩,
    fun r own => Or.inl (closes.fresh r (newer r own)).2⟩

theorem Closes.build (closes : h.Closes D) (t : Tree) :
    Confines D h (h.build t).1 ∧ Owns D (h.build t).1 (h.build t).2 := by
  obtain ⟨newer,fresh⟩ := build_newer h t
  obtain ⟨sound,finds⟩ := build_sound t closes.sound
  refine ⟨.extend closes (extends_build h t) sound fun r new v held s own => ?_,
    closes.owns_newer newer finds⟩
  have beyond := fresh r new v held s own
  exact ⟨(closes.fresh s beyond).1, Or.inl (closes.fresh s beyond).2⟩

theorem Closes.newObject (closes : h.Closes D) :
    Confines D h h.newObject.1 ∧ Owns D h.newObject.1 (.object h.newObject.2) := by
  have built := closes.build (.object [])
  exact built

/-- An expression leads to what the machine may keep. -/
theorem Closes.eval (closes : h.Closes D) {scope : Scope}
    (data : Owns D h (.object scope.data)) (e : Expr) (run : e.eval scope h = .ok (h', v)) :
    Confines D h h' ∧ Owns D h' v := by
  have plain {b : Bool} {k : Heap} : Owns D k (.bool b) := .of_bare rfl
  induction e generalizing h h' v with
  | literal t =>
    have made : h.build t = (h', v) := Except.ok.inj run
    have built := closes.build t
    rwa [made] at built
  | path segments =>
    cases run
    exact ⟨.refl closes, closes.getPath data segments⟩
  | inState id =>
    cases run
    exact ⟨.refl closes, plain⟩
  | not e ih =>
    obtain ⟨⟨k,w⟩,first,run⟩ := Except.bind_eq_ok run
    cases run
    exact ⟨(ih closes data first).1, plain⟩
  | and l r left right =>
    obtain ⟨⟨k,w⟩,first,run⟩ := Except.bind_eq_ok run
    have confines := (left closes data first).1
    simp only at run
    split at run
    · obtain ⟨⟨k',w'⟩,second,run⟩ := Except.bind_eq_ok run
      cases run
      have confines' := (right confines.closes (data.mono confines.matures) second).1
      exact ⟨confines.trans confines', plain⟩
    · cases run
      exact ⟨confines, plain⟩
  | or l r left right =>
    obtain ⟨⟨k,w⟩,first,run⟩ := Except.bind_eq_ok run
    have confines := (left closes data first).1
    simp only at run
    split at run
    · cases run
      exact ⟨confines, plain⟩
    · obtain ⟨⟨k',w'⟩,second,run⟩ := Except.bind_eq_ok run
      cases run
      have confines' := (right confines.closes (data.mono confines.matures) second).1
      exact ⟨confines.trans confines', plain⟩
  | compare op l r left right =>
    obtain ⟨⟨k,w⟩,first,run⟩ := Except.bind_eq_ok run
    obtain ⟨⟨k',w'⟩,second,run⟩ := Except.bind_eq_ok run
    obtain ⟨b,_,run⟩ := Except.bind_eq_ok run
    cases run
    have confines := (left closes data first).1
    have confines' := (right confines.closes (data.mono confines.matures) second).1
    exact ⟨confines.trans confines', plain⟩
  | arith op l r left right =>
    obtain ⟨⟨k,w⟩,first,run⟩ := Except.bind_eq_ok run
    obtain ⟨⟨k',w'⟩,second,run⟩ := Except.bind_eq_ok run
    obtain ⟨x,combined,run⟩ := Except.bind_eq_ok run
    cases run
    have confines := (left closes data first).1
    have confines' := (right confines.closes (data.mono confines.matures) second).1
    refine ⟨confines.trans confines', .of_bare ?_⟩
    unfold Expr.combine at combined
    split at combined
    all_goals cases combined; try rfl

end Growing

section Writing

/-- A write of what the machine may keep, to one of its own. -/
theorem Written.confines {o : ObjectCell} (closes : h.Closes D) (own : D.own r)
    (owns : Owns D h slot.value) (written : Written h r key slot o h') : Confines D h h' := by
  have matures := written.matures closes.sound owns.finds
  have size : h.size ≤ h'.size := by
    by_contra less
    have inside : h'.size < h.size := by omega
    exact absurd (matures.lt_size inside) (Nat.lt_irrefl _)
  have held {v : Value} (here : v ∈ h'.children r) : v = slot.value ∨ v ∈ h.children r := by
    rw [children_of_cell written.after] at here
    rw [children_of_cell written.before]
    exact mem_values_insertEntry here
  have other {s : Ref} (apart : s ≠ r) : h'.children s = h.children s := by
    rw [children, written.others s apart, ← children]
  refine ⟨matures, ⟨matures.sound, fun s beyond => closes.fresh s (Nat.le_trans size beyond),
    closes.shared, ?_, ?_⟩, ?_⟩
  · intro s near v within t inner
    by_cases here : s = r
    · subst here
      rcases held within with rfl | old
      · exact owns.near t inner
      · exact closes.near s near v old t inner
    · exact closes.near s near v (other here ▸ within) t inner
  · intro s mine v within t inner
    by_cases here : s = r
    · subst here
      rcases held within with rfl | old
      · exact (owns.own t inner).imp id (matures.still_constant owns.finds inner)
      · exact (closes.own s mine v old t inner).imp id
          (matures.still_constant (closes.sound.intact s v old) inner)
    · rw [other here] at within
      exact (closes.own s mine v within t inner).imp id
        (matures.still_constant (closes.sound.intact s v within) inner)
  · intro s outside
    exact written.others s fun here => outside (here ▸ own)

theorem Written.respects {o : ObjectCell} {P : Ref → String → Prop}
    (written : Written h r key slot o h')
    (spared : P r key → ∀ old, o.get? key = some old → old.readOnly = true → old = slot) :
    Respects P h h' := by
  intro s name old kept there readOnly
  obtain ⟨o',found,look⟩ := Option.bind_eq_some_iff.mp there
  by_cases here : s = r
  · subst here
    have same := written.before.symm.trans (cell?_of_object? found)
    cases same
    have after : h'.object? s = some { o with entries := insertEntry key slot o.entries } := by
      rw [object?, written.after]
    refine Option.bind_eq_some_iff.mpr ⟨_, after, ?_⟩
    simp only [ObjectCell.get?, lookupEntry_insertEntry]
    by_cases own : key = name
    · subst own
      rw [if_pos rfl, spared kept old look readOnly]
    · rw [if_neg own]
      exact look
  · refine Option.bind_eq_some_iff.mpr ⟨o', ?_, look⟩
    rw [object?, written.others s here, ← object?]
    exact found

/-- What is written with the checks on passes by read-only entries. -/
theorem writeEntry_respects (P : Ref → String → Prop)
    (run : h.writeEntry r key slot true = .ok h') : Respects P h h' := by
  obtain ⟨o,written⟩ := writeEntry_ok run
  apply written.respects
  intro _ old look readOnly
  unfold writeEntry at run
  have found : h.object? r = some o := by rw [object?, written.before]
  have refused : o.canSet key = false := by simp [ObjectCell.canSet, look, readOnly]
  simp [found, refused] at run

/-- What a machine may keep and write to is its own, for constant containers take no writes. -/
theorem Closes.writeEntry {checked : Bool} (closes : h.Closes D) (start : Owns D h (.object r))
    (owns : Owns D h slot.value) (run : h.writeEntry r key slot checked = .ok h') :
    Confines D h h' := by
  obtain ⟨o,written⟩ := writeEntry_ok run
  rcases start.own r rfl with mine | constant
  · exact written.confines closes mine owns
  · exact absurd ((access_of_cell written.before).symm.trans constant) written.open'

/-- A machine writes through a path to what is its own. -/
theorem Closes.setPath {path : List String} (closes : h.Closes D)
    (start : Owns D h (.object r)) (owns : Owns D h v) (run : h.setPath r path v = .ok h') :
    Confines D h h' := by
  induction path generalizing h r with
  | nil => cases run
  | cons segment rest ih =>
    cases rest with
    | nil => exact closes.writeEntry start owns run
    | cons next rest =>
      rw [Heap.setPath] at run
      · split at run
        · rename_i s leads
          have inner := closes.get start segment
          rw [leads] at inner
          exact ih closes inner owns run
        · obtain ⟨made,fresh⟩ := closes.newObject
          cases linked : h.newObject.1.set r segment (.object h.newObject.2) with
          | error e => simp [linked] at run
          | ok k =>
            simp only [linked] at run
            have first := made.closes.writeEntry (start.mono made.matures) fresh linked
            have both := made.trans first
            exact both.trans (ih first.closes (fresh.mono first.matures)
              (owns.mono both.matures) run)
        · cases run
      · simp

theorem setPath_respects {path : List String} (P : Ref → String → Prop)
    (run : h.setPath r path v = .ok h') : Respects P h h' := by
  induction path generalizing h r with
  | nil => cases run
  | cons segment rest ih =>
    cases rest with
    | nil => exact writeEntry_respects P run
    | cons next rest =>
      rw [Heap.setPath] at run
      · split at run
        · exact ih run
        · cases linked : h.newObject.1.set r segment (.object h.newObject.2) with
          | error e => simp [linked] at run
          | ok k =>
            simp only [linked] at run
            have made : Respects P h h.newObject.1 :=
              .extend P (extends_alloc h (.object ⟨.writable, [], none⟩))
            exact (made.trans (writeEntry_respects P linked)).trans (ih run)
        · cases run
      · simp

end Writing

section Copying

variable {target : Access} {depth : Nat} {st : Copying} {A : Ref → Prop}

/-- A copy underway of containers among `A`, in a heap that has grown from `h`. -/
structure Sources (A : Ref → Prop) (h : Heap) (st : Copying) : Prop where
  grown : h.Extends st.heap
  among : ∀ p ∈ st.copies, A p.1

theorem copyAll_sources {α β : Type} {copy : Copying → Ref → Copying × Ref} {val : α → Value}
    {make : α → Value → β} {l : List α} {made : List β}
    (each : ∀ (st : Copying) (r : Ref), A r → r < h.size → Sources A h st →
      Sources A h (copy st r).1)
    (values : ∀ a ∈ l, ∀ r, (val a).ref? = some r → A r ∧ r < h.size) (sources : Sources A h st) :
    Sources A h (copyAll copy val make l st made).1 := by
  induction l generalizing st made with
  | nil => exact sources
  | cons a rest ih =>
    have here : Sources A h (copyVia copy st (val a)).1 := by
      have own := values a List.mem_cons_self
      cases value : val a with
      | object r =>
        obtain ⟨among,inside⟩ := own r (by rw [value]; rfl)
        exact each st r among inside sources
      | array r =>
        obtain ⟨among,inside⟩ := own r (by rw [value]; rfl)
        exact each st r among inside sources
      | _ => exact sources
    exact ih (fun b later => values b (List.mem_cons_of_mem _ later)) here

theorem Sources.begin (sources : Sources A h st) (among : A r) (blank : Cell) :
    Sources A h ⟨(st.heap.alloc blank).1, (r, st.heap.size) :: st.copies⟩ := by
  refine ⟨sources.grown.trans (extends_alloc _ _), fun p within => ?_⟩
  rcases List.mem_cons.mp within with rfl | old
  · exact among
  · exact sources.among p old

theorem Sources.finish (sources : Sources A h st) (outside : h.size ≤ s) (d : Cell) :
    Sources A h ⟨st.heap.write s d, st.copies⟩ := by
  refine ⟨fun r c found => ?_, sources.among⟩
  have inside : r < h.size := lt_size_of_cell found
  have apart : s ≠ r := Nat.ne_of_gt (Nat.lt_of_lt_of_le inside outside)
  exact (cell?_write_of_ne _ d apart).trans (sources.grown r c found)

/-- Copying goes through what the value leads to only. -/
theorem copyRef_sources (intact : h.Intact)
    (closed : ∀ r, A r → ∀ v ∈ h.children r, ∀ s, v.ref? = some s → A s) (depth : Nat)
    (st : Copying) (r : Ref) (among : A r) (inside : r < h.size) (sources : Sources A h st) :
    Sources A h (copyRef target depth st r).1 := by
  induction depth generalizing st r with
  | zero => exact sources
  | succ depth ih =>
    obtain ⟨c,found⟩ := cell?_of_lt inside
    have there := sources.grown r c found
    have values (v : Value) (held : v ∈ c.values) (s : Ref) (own : v.ref? = some s) :
        A s ∧ s < h.size := by
      rw [← children_of_cell found] at held
      exact ⟨closed r among v held s own, (intact r v held).lt_size own⟩
    cases shared : (if target = .constant then constantCopy? r c else none) with
    | some s =>
      rw [copyRef_shared there shared]
      exact sources
    | none =>
      cases known : st.copies.lookup r with
      | some s =>
        rw [copyRef_known shared there known]
        exact sources
      | none =>
        have size := sources.grown.size
        cases c with
        | object o =>
          rw [copyRef_object known shared there rfl rfl]
          apply Sources.finish _ size
          apply copyAll_sources (fun st r among inside sources => ih st r among inside sources) _
            (sources.begin among _)
          exact fun e within => values _ (List.mem_map.mpr ⟨e, within, rfl⟩)
        | array a =>
          rw [copyRef_array known shared there rfl rfl]
          apply Sources.finish _ size
          apply copyAll_sources (fun st r among inside sources => ih st r among inside sources) _
            (sources.begin among _)
          exact fun e within => values _ (List.mem_map.mpr ⟨e, within, rfl⟩)

theorem cloning_sources (intact : h.Intact)
    (closed : ∀ r, A r → ∀ v ∈ h.children r, ∀ s, v.ref? = some s → A s) (finds : h.Finds v)
    (among : ∀ r, v.ref? = some r → A r) (target : Access) : Sources A h (h.cloning v target) := by
  have start : Sources A h ⟨h, []⟩ := ⟨.refl h, fun _ none => by cases none⟩
  unfold cloning
  cases v with
  | object r =>
    change Sources A h (copyRef target (h.size + 1) ⟨h, []⟩ r).1
    exact copyRef_sources intact closed _ _ r (among r rfl) (finds.lt_size rfl) start
  | array r =>
    change Sources A h (copyRef target (h.size + 1) ⟨h, []⟩ r).1
    exact copyRef_sources intact closed _ _ r (among r rfl) (finds.lt_size rfl) start
  | _ => exact start

/-- A copy is made of new containers, and of constant ones that the machine may come by. -/
theorem Closes.deepClone (closes : h.Closes D) (meets : Meets D h v) (target : Access) :
    Confines D h (h.deepClone v target).1 ∧
      Owns D (h.deepClone v target).1 (h.deepClone v target).2 := by
  have carries := deepClone_carries closes.sound meets.finds target
  have sources := cloning_sources closes.sound.intact closes.near meets.finds meets.near target
  have state := carries.state
  have heap : (h.deepClone v target).1 = (h.cloning v target).heap := rfl
  have pairs (r s : Ref) (near : D.near r) (pair : copied target h (h.cloning v target).copies r s) :
      D.near s ∧ (D.own s ∨ (h.deepClone v target).1.access s = .constant) := by
    have level := state.level closes.sound.shares pair
    rcases pair with new | ⟨constant,c,-,⟨-,rfl⟩ | ⟨-,rfl⟩⟩
    · obtain ⟨beyond,-⟩ := state.pairs r s new
      exact ⟨(closes.fresh s beyond).1, Or.inl (closes.fresh s beyond).2⟩
    · exact ⟨near, Or.inr (level.trans constant)⟩
    · refine ⟨?_, Or.inr (level.trans constant)⟩
      cases c with
      | object o => exact closes.shared.1
      | array a => exact closes.shared.2
  refine ⟨.extend closes carries.grown (state.sound closes.sound) ?_, ⟨carries.finds, ?_⟩, ?_⟩
  · intro r new w held s own
    obtain ⟨a,pair⟩ := state.made r new (lt_size_of_child held)
    obtain ⟨-,c,d,found,there,-,-,done⟩ := state.pairs a r pair
    rcases done with underway | like
    · cases underway
    · rw [heap, children_of_cell there] at held
      obtain ⟨u,inner,t,own',pair'⟩ := like_child like held own
      have near := closes.near a (sources.among _ pair) u
        (by rw [children_of_cell found]; exact inner) t own'
      exact pairs t s near pair'
  · intro s own
    obtain ⟨r,own',pair⟩ := like_ref carries.like own
    exact (pairs r s (meets.near r own') pair).1
  · intro s own
    obtain ⟨r,own',pair⟩ := like_ref carries.like own
    exact (pairs r s (meets.near r own') pair).2

theorem deepClone_level (sound : h.Sound) (finds : h.Finds v) (target : Access)
    (own : (h.deepClone v target).2.ref? = some s) : (h.deepClone v target).1.access s = target := by
  have carries := deepClone_carries sound finds target
  obtain ⟨r,-,pair⟩ := like_ref carries.like own
  exact carries.state.level sound.shares pair

end Copying

end Heap

end Statechart

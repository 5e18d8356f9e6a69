import Mathlib.Data.Finset.Card
import Statechart.Proofs.Value.Soundness

/- Constant containers stay as they are. Freezing goes through all that is reached and not constant
   yet, and each container it enters is one less, so its depth suffices. Then every operation on
   containers, in any order, keeps the levels from going down, constant containers among constant
   ones, and what is in them. -/
namespace Statechart.Heap

variable {h h' k : Heap} {v w : Value} {r s : Nat} {c d : Cell}

section Freezing

/-- Some containers have become constant, and with each of them what it holds. -/
structure Freezes (h h' : Heap) : Prop where
  size : h'.size = h.size
  cells : ∀ r c, h.cell? r = some c →
    h'.cell? r = some c ∨ h'.cell? r = some (c.withAccess .constant)
  closed : ∀ r, h.access r ≠ .constant → h'.access r = .constant →
    ∀ v ∈ h.children r, ∀ s, v.ref? = some s → h'.access s = .constant

@[simp] theorem access_withAccess (c : Cell) (level : Access) :
    (c.withAccess level).access = level := by
  cases c with
  | object o => rfl
  | array a => rfl

@[simp] theorem values_withAccess (c : Cell) (level : Access) :
    (c.withAccess level).values = c.values := by
  cases c with
  | object o => rfl
  | array a => rfl

@[simp] theorem refer_withAccess (c : Cell) (level : Access) :
    refer (c.withAccess level) = refer c := by
  cases c with
  | object o => rfl
  | array a => rfl

theorem withAccess_self {level : Access} (same : c.access = level) : c.withAccess level = c := by
  subst same
  cases c with
  | object o => rfl
  | array a => rfl

theorem cell?_none (beyond : h.size ≤ r) : h.cell? r = none := Array.getElem?_eq_none beyond

theorem access_of_none (missing : h.cell? r = none) : h.access r = .constant := by
  rw [access, missing]

theorem Freezes.refl (h : Heap) : h.Freezes h :=
  ⟨rfl, fun _ _ found => Or.inl found, fun _ loose constant => absurd constant loose⟩

theorem Freezes.constant (freezes : h.Freezes h') (constant : h.access r = .constant) :
    h'.access r = .constant := by
  by_cases inside : r < h.size
  · obtain ⟨c,found⟩ := cell?_of_lt inside
    rcases freezes.cells r c found with same | frozen
    · rw [access_of_cell same, ← access_of_cell found, constant]
    · rw [access_of_cell frozen, access_withAccess]
  · apply access_of_none (cell?_none _)
    rw [freezes.size]
    exact Nat.le_of_not_lt inside

theorem Freezes.children (freezes : h.Freezes h') (r : Ref) : h'.children r = h.children r := by
  by_cases inside : r < h.size
  · obtain ⟨c,found⟩ := cell?_of_lt inside
    rcases freezes.cells r c found with same | frozen
    · rw [children_of_cell same, children_of_cell found]
    · rw [children_of_cell frozen, children_of_cell found, values_withAccess]
  · have missing : h.cell? r = none := cell?_none (Nat.le_of_not_lt inside)
    have missing' : h'.cell? r = none := cell?_none (freezes.size ▸ Nat.le_of_not_lt inside)
    rw [Heap.children, Heap.children, missing, missing']

theorem Freezes.trans (first : h.Freezes h') (second : h'.Freezes k) : h.Freezes k where
  size := second.size.trans first.size
  cells r c found := by
    have again : (c.withAccess .constant).withAccess .constant = c.withAccess .constant :=
      withAccess_self (access_withAccess c _)
    rcases first.cells r c found with same | frozen
    · exact second.cells r c same
    · rcases second.cells r _ frozen with same | frozen'
      · exact Or.inr same
      · exact Or.inr (again ▸ frozen')
  closed r loose constant v held s own := by
    by_cases early : h'.access r = .constant
    · exact second.constant (first.closed r loose early v held s own)
    · exact second.closed r early constant v (first.children r ▸ held) s own

/-- How many containers are not constant. -/
def loose (h : Heap) : Nat := ((Finset.range h.size).filter fun r => h.access r ≠ .constant).card

theorem loose_le (h : Heap) : h.loose ≤ h.size := by
  have few := Finset.card_filter_le (Finset.range h.size) fun r => h.access r ≠ .constant
  rwa [Finset.card_range] at few

theorem Freezes.loose (freezes : h.Freezes h') : h'.loose ≤ h.loose := by
  apply Finset.card_le_card
  intro r within
  obtain ⟨inside,open'⟩ := Finset.mem_filter.mp within
  rw [freezes.size] at inside
  exact Finset.mem_filter.mpr ⟨inside, fun constant => open' (freezes.constant constant)⟩

@[simp] theorem size_write (h : Heap) (r : Ref) (c : Cell) : (h.write r c).size = h.size :=
  Array.size_setIfInBounds

theorem access_freeze (found : h.cell? r = some c) (s : Ref) :
    (h.write r (c.withAccess .constant)).access s = if s = r then .constant else h.access s := by
  by_cases here : s = r
  · subst here
    rw [access_of_cell (cell?_write (lt_size_of_cell found) _), if_pos rfl, access_withAccess]
  · rw [if_neg here, access, cell?_write_of_ne h _ (Ne.symm here), ← access]

theorem children_freeze (found : h.cell? r = some c) (s : Ref) :
    (h.write r (c.withAccess .constant)).children s = h.children s := by
  by_cases here : s = r
  · subst here
    rw [children_of_cell (cell?_write (lt_size_of_cell found) _), children_of_cell found,
      values_withAccess]
  · rw [children, cell?_write_of_ne h _ (Ne.symm here), ← children]

theorem loose_freeze (found : h.cell? r = some c) (open' : c.access ≠ .constant) :
    (h.write r (c.withAccess .constant)).loose < h.loose := by
  apply Finset.card_lt_card
  rw [Finset.ssubset_iff_of_subset]
  · refine ⟨r, ?_, ?_⟩
    · simp [lt_size_of_cell found, access_of_cell found, open']
    · simp [access_freeze found]
  · intro s within
    simp only [Finset.mem_filter, size_write, access_freeze found] at within ⊢
    obtain ⟨inside,open''⟩ := within
    refine ⟨inside, fun constant => open'' ?_⟩
    split
    · rfl
    · exact constant

def freezeVia (freeze : Heap → Ref → Heap) (h : Heap) : Value → Heap
  | .object s | .array s => freeze h s
  | _ => h

theorem freezeAll_freezes {freeze : Heap → Ref → Heap} {depth : Nat}
    (each : ∀ (h : Heap) (s : Ref), h.loose < depth →
      h.Freezes (freeze h s) ∧ (freeze h s).access s = .constant)
    (vs : List Value) (few : h.loose < depth) :
    h.Freezes (vs.foldl (freezeVia freeze) h) ∧
      ∀ v ∈ vs, ∀ s, v.ref? = some s → (vs.foldl (freezeVia freeze) h).access s = .constant := by
  induction vs generalizing h with
  | nil => exact ⟨.refl h, fun _ none => by cases none⟩
  | cons v rest ih =>
    have here : h.Freezes (freezeVia freeze h v) ∧
        ∀ s, v.ref? = some s → (freezeVia freeze h v).access s = .constant := by
      cases v with
      | object s =>
        obtain ⟨freezes,constant⟩ := each h s few
        exact ⟨freezes, fun t own => Option.some.inj own ▸ constant⟩
      | array s =>
        obtain ⟨freezes,constant⟩ := each h s few
        exact ⟨freezes, fun t own => Option.some.inj own ▸ constant⟩
      | _ => exact ⟨.refl h, fun _ own => by cases own⟩
    obtain ⟨first,constant⟩ := here
    obtain ⟨later,constant'⟩ := ih (Nat.lt_of_le_of_lt first.loose few)
    refine ⟨first.trans later, fun w within s own => ?_⟩
    rcases List.mem_cons.mp within with rfl | among
    · exact later.constant (constant s own)
    · exact constant' w among s own

/-- The container and all it holds are constant when the walk is back from it. -/
theorem freezeRef_freezes {depth : Nat} (few : h.loose < depth) (r : Ref) :
    h.Freezes (h.freezeRef depth r) ∧ (h.freezeRef depth r).access r = .constant := by
  induction depth generalizing h r with
  | zero => omega
  | succ depth ih =>
    rw [freezeRef]
    cases found : h.cell? r with
    | none => exact ⟨.refl h, access_of_none found⟩
    | some c =>
      by_cases already : c.access = .constant
      · simp only [already, if_true]
        exact ⟨.refl h, (access_of_cell found).trans already⟩
      · have fewer := loose_freeze found already
        obtain ⟨inner,held⟩ := freezeAll_freezes (fun h s few => ih few s) c.values
          (h := h.write r (c.withAccess .constant)) (by omega)
        have marked : (h.write r (c.withAccess .constant)).access r = .constant := by
          rw [access_freeze found, if_pos rfl]
        simp only [already, if_false]
        refine ⟨⟨inner.size.trans (size_write h r _), ?_, ?_⟩, inner.constant marked⟩
        · intro s e there
          by_cases here : s = r
          · subst here
            rw [found] at there
            cases there
            have own := inner.cells s _ (cell?_write (lt_size_of_cell found) _)
            rw [withAccess_self (access_withAccess c _), or_self] at own
            exact Or.inr own
          · exact inner.cells s e ((cell?_write_of_ne h _ (Ne.symm here)).trans there)
        · intro s open' constant v within t own
          by_cases here : s = r
          · subst here
            rw [children_of_cell found] at within
            exact held v within t own
          · apply inner.closed s _ constant v _ t own
            · rw [access_freeze found, if_neg here]
              exact open'
            · rw [children_freeze found]
              exact within

theorem Freezes.matures (sound : h.Sound) (freezes : h.Freezes h') : h.Matures h' := by
  have cells (s : Ref) (e : Cell) (there : h.cell? s = some e) :
      ∃ f, h'.cell? s = some f ∧ Hardened e f := by
    rcases freezes.cells s e there with same | frozen
    · exact ⟨e, same, .refl e⟩
    · refine ⟨_, frozen, refer_withAccess e _, ?_, ?_⟩
      · rw [access_withAccess]
        cases e.access with
        | writable => decide
        | readOnly => decide
        | constant => decide
      · intro constant
        rw [withAccess_self constant]
  refine ⟨cells, ?_, sound.shares.harden cells, ?_⟩
  · intro s v held
    rw [freezes.children] at held
    apply (sound.intact s v held).carry
    intro t e there
    obtain ⟨f,there',hardened⟩ := cells t e there
    exact ⟨f, there', hardened.kind⟩
  · intro s constant v held t own
    rw [freezes.children] at held
    by_cases before : h.access s = .constant
    · exact freezes.constant (sound.frozen s before v held t own)
    · exact freezes.closed s before constant v held t own

theorem freeze_freezes (h : Heap) (v : Value) :
    h.Freezes (h.freeze v) ∧ ∀ s, v.ref? = some s → (h.freeze v).access s = .constant := by
  have few : h.loose < h.size + 1 := Nat.lt_succ_of_le h.loose_le
  cases v with
  | object r =>
    obtain ⟨freezes,constant⟩ := freezeRef_freezes few r
    exact ⟨freezes, fun s own => Option.some.inj own ▸ constant⟩
  | array r =>
    obtain ⟨freezes,constant⟩ := freezeRef_freezes few r
    exact ⟨freezes, fun s own => Option.some.inj own ▸ constant⟩
  | _ => exact ⟨.refl h, fun _ own => by cases own⟩

theorem freeze_matures (sound : h.Sound) (v : Value) : h.Matures (h.freeze v) :=
  (freeze_freezes h v).1.matures sound

end Freezing

section Changing

theorem writeEntry_matures {key : String} {slot : Slot} {checked : Bool} (sound : h.Sound)
    (finds : h.Finds slot.value) (run : h.writeEntry r key slot checked = .ok h') :
    h.Matures h' := by
  obtain ⟨o,written⟩ := writeEntry_ok run
  exact written.matures sound finds

theorem mem_values_eraseEntry {key : String} {entries : List (String × Slot)}
    (held : v ∈ (eraseEntry key entries).map (·.2.value)) : v ∈ entries.map (·.2.value) := by
  induction entries with
  | nil => cases held
  | cons e rest ih =>
    rw [eraseEntry] at held
    split at held
    · exact List.mem_cons_of_mem _ held
    · rcases List.mem_cons.mp held with here | later
      · exact List.mem_cons.mpr (Or.inl here)
      · exact List.mem_cons_of_mem _ (ih later)

theorem open_of_canSet {o : ObjectCell} {key : String} (may : o.canSet key = true) :
    o.access ≠ .constant := by
  intro constant
  simp [ObjectCell.canSet, constant] at may

theorem open_of_canSetItem {a : ArrayCell} {i : Nat} (may : a.canSet i = true) :
    a.access ≠ .constant := by
  intro constant
  simp [ArrayCell.canSet, constant] at may

theorem Matures.change (sound : h.Sound) (found : h.cell? r = some c) (open' : c.access ≠ .constant)
    (kind : refer d = refer c) (level : d.access = c.access) (finds : ∀ v ∈ d.values, h.Finds v)
    (watcher : Option String) (changes : List (Bool × String × Value)) :
    h.Matures ((h.write r d).report watcher changes) := by
  apply Matures.rewrite sound found _ _ kind level open' finds
  · rw [cell?_report, cell?_write (lt_size_of_cell found)]
  · intro s other
    rw [cell?_report, cell?_write_of_ne h _ (Ne.symm other)]

theorem remove_matures {key : String} {gone : Option Value} (sound : h.Sound)
    (run : h.remove r key = .ok (h', gone)) : h.Matures h' := by
  unfold remove at run
  cases there : h.object? r with
  | none => simp [there] at run
  | some o =>
    have found := cell?_of_object? there
    simp only [there] at run
    split at run
    · cases run
    · rename_i may
      split at run
      · cases run
        exact .refl sound
      · cases run
        apply Matures.change sound found (open_of_canSet (by simpa using may))
        · rfl
        · rfl
        · intro w held
          exact sound.intact.finds found w (mem_values_eraseEntry held)

theorem setItem_matures {i : Nat} (sound : h.Sound) (finds : h.Finds v)
    (run : h.setItem r i v = .ok h') : h.Matures h' := by
  unfold setItem at run
  cases there : h.array? r with
  | none => simp [there] at run
  | some a =>
    have found := cell?_of_array? there
    simp only [there] at run
    split at run
    · cases run
    · rename_i may
      cases run
      apply Matures.change sound found (open_of_canSetItem (by simpa using may))
      · rfl
      · rfl
      · intro w held
        obtain ⟨slot,within,rfl⟩ := List.mem_map.mp held
        rcases List.mem_or_eq_of_mem_set within with before | rfl
        · rcases List.mem_append.mp before with old | gap
          · exact sound.intact.finds found _ (List.mem_map.mpr ⟨slot, old, rfl⟩)
          · rw [List.eq_of_mem_replicate gap]
            trivial
        · exact finds

theorem removeItem_matures {i : Nat} {gone : Value} (sound : h.Sound)
    (run : h.removeItem r i = .ok (h', gone)) : h.Matures h' := by
  unfold removeItem at run
  cases there : h.array? r with
  | none => simp [there] at run
  | some a =>
    have found := cell?_of_array? there
    simp only [there] at run
    split at run
    · cases run
    · rename_i may
      split at run
      · cases run
      · cases run
        apply Matures.change sound found (open_of_canSetItem (by simpa using may))
        · rfl
        · rfl
        · intro w held
          obtain ⟨slot,within,rfl⟩ := List.mem_map.mp held
          exact sound.intact.finds found _
            (List.mem_map.mpr ⟨slot, List.mem_of_mem_eraseIdx within, rfl⟩)

theorem newObject_matures (sound : h.Sound) : h.Matures h.newObject.1 :=
  alloc_matures sound (by simp [Cell.access]) fun _ none => by cases none

theorem newArray_matures (sound : h.Sound) : h.Matures h.newArray.1 :=
  alloc_matures sound (by simp [Cell.access]) fun _ none => by cases none

theorem setPath_matures {path : List String} (sound : h.Sound) (finds : h.Finds v)
    (run : h.setPath r path v = .ok h') : h.Matures h' := by
  induction path generalizing h r with
  | nil => cases run
  | cons segment rest ih =>
    cases rest with
    | nil => exact writeEntry_matures sound finds run
    | cons next rest =>
      rw [setPath] at run
      · split at run
        · exact ih sound finds run
        · have made := newObject_matures sound
          cases put : h.newObject.1.set r segment (.object h.newObject.2) with
          | error e => simp [put] at run
          | ok k =>
            simp only [put] at run
            have fresh : h.newObject.1.Finds (.object h.newObject.2) := ⟨_, cell?_alloc h _⟩
            have linked := made.trans (writeEntry_matures made.sound fresh put)
            exact linked.trans (ih linked.sound (linked.finds finds) run)
        · cases run
      · simp

theorem watch_matures (sound : h.Sound) (r : Ref) (name : String) :
    h.Matures (h.watch r name) := by
  unfold watch
  split
  · rename_i c found
    have same : (c.withWatcher name).bare = c.bare := by
      cases c with
      | object o => rfl
      | array a => rfl
    have level := Cell.access_of_bare same
    have kind : refer (c.withWatcher name) = refer c := by
      cases c with
      | object o => rfl
      | array a => rfl
    apply Matures.replace sound found (cell?_write (lt_size_of_cell found) _)
      (fun s other => cell?_write_of_ne h _ (Ne.symm other))
    · exact ⟨kind, Nat.le_of_eq (by rw [level]), fun _ => same⟩
    · intro constant
      rw [← level, constant]
    · rw [Cell.values_of_bare same]
      exact sound.intact.finds found
  · exact .refl sound

theorem makeReadOnly_matures (sound : h.Sound) (r : Ref) : h.Matures (h.makeReadOnly r) := by
  unfold makeReadOnly
  split
  · rename_i c found
    split
    · rename_i writable
      apply Matures.replace sound found (cell?_write (lt_size_of_cell found) _)
        (fun s other => cell?_write_of_ne h _ (Ne.symm other))
      · refine ⟨refer_withAccess c _, ?_, fun constant => ?_⟩
        · simp [writable, Access.rank]
        · rw [writable] at constant
          cases constant
      · intro constant
        rw [access_withAccess] at constant
        cases constant
      · rw [values_withAccess]
        exact sound.intact.finds found
    · exact .refl sound
  · exact .refl sound

theorem setAccess_matures {level : Access} (sound : h.Sound)
    (run : h.setAccess r level = .ok h') : h.Matures h' := by
  unfold setAccess at run
  simp only at run
  split at run
  · cases run
    exact .refl sound
  · split at run
    · cases run
      exact makeReadOnly_matures sound r
    · cases run
      exact freeze_matures sound _
    · cases run

end Changing

section Refusals

/-- Nothing can be done to the container any more. -/
structure Locked (h : Heap) (r : Ref) : Prop where
  set : ∀ key v, h.set r key v = .error .cannotModify
  define : ∀ key v readOnly, h.define r key v readOnly = .error .cannotModify
  remove : ∀ key, h.remove r key = .error .cannotModify
  setItem : ∀ i v, h.setItem r i v = .error .cannotModify
  push : ∀ v, h.push r v = .error .cannotModify
  removeItem : ∀ i, h.removeItem r i = .error .cannotModify
  setPath : ∀ path v, ∃ e, h.setPath r path v = .error e

theorem mem_of_lookupEntry {key : String} {slot : Slot} {entries : List (String × Slot)}
    (look : lookupEntry key entries = some slot) : (key, slot) ∈ entries := by
  induction entries with
  | nil => cases look
  | cons e rest ih =>
    rw [lookupEntry] at look
    split at look
    · rename_i here
      cases look
      rw [← here]
      exact List.mem_cons_self
    · exact List.mem_cons_of_mem _ (ih look)

theorem writeEntry_locked (found : h.cell? r = some c) (constant : c.access = .constant)
    (key : String) (slot : Slot) (checked : Bool) :
    h.writeEntry r key slot checked = .error .cannotModify := by
  cases run : h.writeEntry r key slot checked with
  | ok h' =>
    obtain ⟨o,written⟩ := writeEntry_ok run
    rw [written.before] at found
    cases found
    exact absurd constant written.open'
  | error e =>
    unfold writeEntry at run
    split at run
    · exact run.symm
    · split at run
      · exact run.symm
      · cases run

theorem setItem_locked (found : h.cell? r = some c) (constant : c.access = .constant) (i : Nat)
    (v : Value) : h.setItem r i v = .error .cannotModify := by
  unfold setItem
  cases there : h.array? r with
  | none => rfl
  | some a =>
    have same := cell?_of_array? there
    rw [found] at same
    cases same
    have closed : a.canSet i = false := by
      simp only [Cell.access] at constant
      simp [ArrayCell.canSet, constant]
    simp [closed]

theorem removeItem_locked (found : h.cell? r = some c) (constant : c.access = .constant)
    (i : Nat) : h.removeItem r i = .error .cannotModify := by
  unfold removeItem
  cases there : h.array? r with
  | none => rfl
  | some a =>
    have same := cell?_of_array? there
    rw [found] at same
    cases same
    have closed : a.canSet i = false := by
      simp only [Cell.access] at constant
      simp [ArrayCell.canSet, constant]
    simp [closed]

theorem remove_locked (found : h.cell? r = some c) (constant : c.access = .constant)
    (key : String) : h.remove r key = .error .cannotModify := by
  unfold remove
  cases there : h.object? r with
  | none => rfl
  | some o =>
    have same := cell?_of_object? there
    rw [found] at same
    cases same
    have closed : o.canSet key = false := by
      simp only [Cell.access] at constant
      simp [ObjectCell.canSet, constant]
    simp [closed]

theorem mem_children_of_slot {key : String} {slot : Slot} (there : h.slot? r key = some slot) :
    slot.value ∈ h.children r := by
  obtain ⟨o,found,look⟩ := Option.bind_eq_some_iff.mp there
  rw [children_of_cell (cell?_of_object? found)]
  exact List.mem_map.mpr ⟨(key, slot), mem_of_lookupEntry look, rfl⟩

theorem mem_children_of_get {key : String} (leads : h.get r key = v) (own : v.ref? = some s) :
    v ∈ h.children r := by
  unfold get at leads
  split at leads
  · rename_i slot entry
    exact leads ▸ mem_children_of_slot entry
  · subst leads
    cases own

/-- A path from a constant object goes through constant objects only, until it ends at one or
    misses an entry, which it cannot add. -/
theorem setPath_locked (sound : h.Sound) (path : List String) (v : Value)
    (found : h.cell? r = some c) (constant : c.access = .constant) :
    ∃ e, h.setPath r path v = .error e := by
  induction path generalizing r c with
  | nil => exact ⟨_, rfl⟩
  | cons segment rest ih =>
    cases rest with
    | nil => exact ⟨_, writeEntry_locked found constant _ _ _⟩
    | cons next rest =>
      rw [setPath]
      · split
        · rename_i s leads
          have held : Value.object s ∈ h.children r := mem_children_of_get leads rfl
          obtain ⟨o,there⟩ := sound.intact r _ held
          have level := sound.frozen r ((access_of_cell found).trans constant) _ held s rfl
          exact ih there ((access_of_cell there).symm.trans level)
        · have still := extends_alloc h (.object ⟨.writable, [], none⟩) r c found
          have refused := writeEntry_locked still constant segment
            ⟨.object h.newObject.2, false⟩ true
          have refused' : h.newObject.1.set r segment (.object h.newObject.2) =
            .error .cannotModify := refused
          simp [refused']
        · exact ⟨_, rfl⟩
      · simp

theorem locked (sound : h.Sound) (found : h.cell? r = some c) (constant : c.access = .constant) :
    h.Locked r where
  set key _ := writeEntry_locked found constant key _ _
  define key _ _ := writeEntry_locked found constant key _ _
  remove key := remove_locked found constant key
  setItem i v := setItem_locked found constant i v
  push v := setItem_locked found constant _ v
  removeItem i := removeItem_locked found constant i
  setPath path v := setPath_locked sound path v found constant

end Refusals

section Programs

/-- The operations that change containers or make new ones. -/
inductive Op where
  | newObject
  | newArray
  | ofJson (j : Json)
  | deepClone (v : Value) (target : Access)
  | set (r : Ref) (key : String) (v : Value)
  | define (r : Ref) (key : String) (v : Value) (readOnly : Bool)
  | remove (r : Ref) (key : String)
  | setPath (r : Ref) (path : List String) (v : Value)
  | setItem (r : Ref) (i : Nat) (v : Value)
  | push (r : Ref) (v : Value)
  | removeItem (r : Ref) (i : Nat)
  | watch (r : Ref) (name : String)
  | makeReadOnly (r : Ref)
  | freeze (v : Value)
  | setAccess (r : Ref) (level : Access)

/-- The values that an operation stores or copies. -/
def Op.takes : Op → List Value
  | .deepClone v _ | .set _ _ v | .define _ _ v _ | .setPath _ _ v | .setItem _ _ v | .push _ v => [v]
  | _ => []

/-- The heap after an operation. One that is refused changes nothing. -/
def Op.run (h : Heap) : Op → Heap
  | .newObject => h.newObject.1
  | .newArray => h.newArray.1
  | .ofJson j => (h.ofJson j).1
  | .deepClone v target => (h.deepClone v target).1
  | .set r key v => (h.set r key v).toOption.getD h
  | .define r key v readOnly => (h.define r key v readOnly).toOption.getD h
  | .remove r key => ((h.remove r key).toOption.map (·.1)).getD h
  | .setPath r path v => (h.setPath r path v).toOption.getD h
  | .setItem r i v => (h.setItem r i v).toOption.getD h
  | .push r v => (h.push r v).toOption.getD h
  | .removeItem r i => ((h.removeItem r i).toOption.map (·.1)).getD h
  | .watch r name => h.watch r name
  | .makeReadOnly r => h.makeReadOnly r
  | .freeze v => h.freeze v
  | .setAccess r level => (h.setAccess r level).toOption.getD h

/-- One operation of a program. References cannot be made up, so those it stores are good. -/
def Develops (h h' : Heap) : Prop := ∃ op : Op, (∀ v ∈ op.takes, h.Finds v) ∧ op.run h = h'

theorem matures_of_ok (sound : h.Sound) {result : Except ValueError Heap}
    (each : ∀ k, result = .ok k → h.Matures k) : h.Matures (result.toOption.getD h) := by
  cases result with
  | error e => exact .refl sound
  | ok k => exact each k rfl

theorem matures_of_ok_fst {α : Type} (sound : h.Sound) {result : Except ValueError (Heap × α)}
    (each : ∀ k a, result = .ok (k, a) → h.Matures k) :
    h.Matures ((result.toOption.map (·.1)).getD h) := by
  cases result with
  | error e => exact .refl sound
  | ok out => exact each out.1 out.2 rfl

theorem Develops.matures (develops : h.Develops h') (sound : h.Sound) : h.Matures h' := by
  obtain ⟨op,finds,rfl⟩ := develops
  cases op with
  | newObject => exact newObject_matures sound
  | newArray => exact newArray_matures sound
  | ofJson j => exact build_matures sound _
  | deepClone v target => exact deepClone_matures sound (finds v List.mem_cons_self) target
  | set r key v =>
    exact matures_of_ok sound fun k run =>
      writeEntry_matures sound (finds v List.mem_cons_self) run
  | define r key v readOnly =>
    exact matures_of_ok sound fun k run =>
      writeEntry_matures sound (finds v List.mem_cons_self) run
  | remove r key => exact matures_of_ok_fst sound fun k gone run => remove_matures sound run
  | setPath r path v =>
    exact matures_of_ok sound fun k run => setPath_matures sound (finds v List.mem_cons_self) run
  | setItem r i v =>
    exact matures_of_ok sound fun k run => setItem_matures sound (finds v List.mem_cons_self) run
  | push r v =>
    exact matures_of_ok sound fun k run => setItem_matures sound (finds v List.mem_cons_self) run
  | removeItem r i =>
    exact matures_of_ok_fst sound fun k gone run => removeItem_matures sound run
  | watch r name => exact watch_matures sound r name
  | makeReadOnly r => exact makeReadOnly_matures sound r
  | freeze v => exact freeze_matures sound v
  | setAccess r level => exact matures_of_ok sound fun k run => setAccess_matures sound run

theorem initial_sound : initial.Sound := sound_of_isSound (by decide)

theorem develops_matures (sound : h.Sound) (run : Relation.ReflTransGen Develops h h') :
    h.Matures h' := by
  induction run with
  | refl => exact .refl sound
  | tail _ last ih => exact ih.trans (last.matures ih.sound)

theorem Sound.reached (sound : h.Sound) (found : h.cell? r = some c)
    (constant : c.access = .constant) (reach : Relation.ReflTransGen h.Within r s) :
    ∃ d, h.cell? s = some d ∧ d.access = .constant := by
  induction reach with
  | refl => exact ⟨c, found, constant⟩
  | tail _ last ih =>
    obtain ⟨d,there,level⟩ := ih
    obtain ⟨v,held,own⟩ := last
    obtain ⟨e,there'⟩ := (sound.intact _ v held).cell own
    have frozen := sound.frozen _ ((access_of_cell there).trans level) v held _ own
    exact ⟨e, there', (access_of_cell there').symm.trans frozen⟩

/-- However containers are made, linked and changed: no level goes down, what a constant container
    reaches is constant, and a constant container never changes and refuses all that would change
    it. -/
theorem frozen_stays_frozen (built : Relation.ReflTransGen Develops initial h)
    (later : Relation.ReflTransGen Develops h h') :
    (∀ r < h.size, (h.access r).rank ≤ (h'.access r).rank) ∧
    (∀ r c, h.cell? r = some c → c.access = .constant →
      (∀ s, Relation.ReflTransGen h.Within r s →
        ∃ d, h.cell? s = some d ∧ d.access = .constant) ∧
      (∃ d, h'.cell? r = some d ∧ d.bare = c.bare) ∧ h'.Locked r) := by
  have sound := (develops_matures initial_sound built).sound
  have matures := develops_matures sound later
  refine ⟨fun r inside => ?_, fun r c found constant => ⟨fun s reach => ?_, ?_⟩⟩
  · obtain ⟨c,found⟩ := cell?_of_lt inside
    obtain ⟨d,found',hardened⟩ := matures.cells r c found
    rw [access_of_cell found, access_of_cell found']
    exact hardened.level
  · exact sound.reached found constant reach
  · obtain ⟨d,found',hardened⟩ := matures.cells r c found
    have frozen := hardened.constant constant
    exact ⟨⟨d, found', hardened.frozen constant⟩, locked matures.sound found' frozen⟩

/-- Whether every operation is given what is in the heap that it is done to. -/
def allGiven (h : Heap) : List Op → Bool
  | [] => true
  | op :: rest => (op.takes.all fun v => decide (h.Finds v)) && allGiven (op.run h) rest

theorem develops_of_given {ops : List Op} (given : h.allGiven ops = true) :
    Relation.ReflTransGen Develops h (ops.foldl Op.run h) := by
  induction ops generalizing h with
  | nil => exact .refl
  | cons op rest ih =>
    simp only [allGiven, Bool.and_eq_true, List.all_eq_true, decide_eq_true_eq] at given
    exact .head ⟨op, given.1, rfl⟩ (ih given.2)

end Programs

namespace FrozenRing

/-- An object and an array that hold each other. The object is frozen. -/
def ring : List Op :=
  [.newObject, .newArray, .set 2 "items" (.array 3), .push 3 (.object 2), .freeze (.object 2)]

def tampering : List Op :=
  [.push 3 .null, .define 2 "items" .null true, .newObject, .setPath 4 ["own"] (.array 3),
    .setPath 4 ["own", "length"] .null, .setAccess 2 .readOnly]

theorem ring_stays_frozen :
    ((tampering.foldl Op.run (ring.foldl Op.run initial)).access 3 = .constant) ∧
      (tampering.foldl Op.run (ring.foldl Op.run initial)).Locked 2 := by
  have built : Relation.ReflTransGen Develops initial (ring.foldl Op.run initial) :=
    develops_of_given (by decide)
  have tampered : Relation.ReflTransGen Develops (ring.foldl Op.run initial)
      (tampering.foldl Op.run (ring.foldl Op.run initial)) := develops_of_given (by decide)
  obtain ⟨-,frozen⟩ := frozen_stays_frozen built tampered
  exact ⟨by decide, (frozen 2 _ rfl rfl).2.2⟩

end FrozenRing

end Statechart.Heap

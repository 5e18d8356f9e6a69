import Statechart.Proofs.Value.Copying

/- How a heap gets on. Cells are never lost, their levels only go up, and what a constant cell holds
   does not change. Each operation on a sound heap leaves it sound and lets it mature in this way. -/
namespace Statechart

/-- A cell without its watcher, who is told of changes and has no say in them. -/
def Cell.bare : Cell → Cell
  | .object o => .object { o with watcher := none }
  | .array a => .array { a with watcher := none }

@[simp] theorem Cell.access_bare (c : Cell) : c.bare.access = c.access := by
  cases c with
  | object o => rfl
  | array a => rfl

@[simp] theorem Cell.values_bare (c : Cell) : c.bare.values = c.values := by
  cases c with
  | object o => rfl
  | array a => rfl

theorem Cell.access_of_bare {c d : Cell} (same : d.bare = c.bare) : d.access = c.access := by
  rw [← access_bare d, same, access_bare]

theorem Cell.values_of_bare {c d : Cell} (same : d.bare = c.bare) : d.values = c.values := by
  rw [← values_bare d, same, values_bare]

namespace Heap

variable {h h' k : Heap} {v w : Value} {r s : Nat} {c d : Cell} {target : Access}

section Facts

theorem access_extend (grown : h.Extends k) (inside : r < h.size) : k.access r = h.access r := by
  obtain ⟨c,found⟩ := cell?_of_lt inside
  rw [access_of_cell found, access_of_cell (grown r c found)]

theorem Finds.lt_size (finds : h.Finds v) (own : v.ref? = some r) : r < h.size := by
  cases v with
  | object r' =>
    cases own
    obtain ⟨o,found⟩ := finds
    exact lt_size_of_cell found
  | array r' =>
    cases own
    obtain ⟨a,found⟩ := finds
    exact lt_size_of_cell found
  | _ => cases own

/-- A new cell keeps the heap sound. If it is constant, it may lead to constant cells only. -/
theorem Sound.allocate (sound : h.Sound) (finds : ∀ v ∈ c.values, h.Finds v)
    (frozen : c.access = .constant → ∀ v ∈ c.values, ∀ s, v.ref? = some s →
      h.access s = .constant) : (h.alloc c).1.Sound := by
  have grown := extends_alloc h c
  refine ⟨sound.intact.alloc finds, ?_, ?_⟩
  · obtain ⟨⟨o,object,rest⟩,⟨a,array,rest'⟩⟩ := sound.shares
    exact ⟨⟨o, grown _ _ object, rest⟩, ⟨a, grown _ _ array, rest'⟩⟩
  · intro r constant v held s own
    by_cases inside : r < h.size
    · obtain ⟨d,found⟩ := cell?_of_lt inside
      rw [access_extend grown inside] at constant
      rw [children_of_cell (grown r d found), ← children_of_cell found] at held
      rw [access_extend grown ((sound.intact r v held).lt_size own)]
      exact sound.frozen r constant v held s own
    · by_cases last : r = h.size
      · subst last
        rw [access_of_cell (cell?_alloc h c)] at constant
        rw [children_of_cell (cell?_alloc h c)] at held
        rw [access_extend grown ((finds v held).lt_size own)]
        exact frozen constant v held s own
      · have none : (h.alloc c).1.cell? r = none := by
          refine Array.getElem?_eq_none ?_
          change (h.alloc c).1.size ≤ r
          rw [size_alloc]
          exact Nat.lt_of_le_of_ne (Nat.le_of_not_lt inside) (Ne.symm last)
        rw [children, none] at held
        cases held

theorem Sound.alloc (sound : h.Sound) (level : c.access ≠ .constant)
    (finds : ∀ v ∈ c.values, h.Finds v) : (h.alloc c).1.Sound :=
  sound.allocate finds fun constant => absurd constant level

theorem mem_values_insertEntry {key : String} {slot : Slot} {entries : List (String × Slot)}
    (held : v ∈ (insertEntry key slot entries).map (·.2.value)) :
    v = slot.value ∨ v ∈ entries.map (·.2.value) := by
  induction entries with
  | nil => exact Or.inl (List.mem_singleton.mp held)
  | cons e rest ih =>
    rw [insertEntry] at held
    split at held
    · exact (List.mem_cons.mp held).imp id (List.mem_cons_of_mem _)
    · rcases List.mem_cons.mp held with here | later
      · exact Or.inr (here ▸ List.mem_cons_self)
      · exact (ih later).imp id (List.mem_cons_of_mem _)

/-- What a write that is not refused does. -/
structure Written (h : Heap) (r : Ref) (key : String) (slot : Slot) (o : ObjectCell) (h' : Heap) :
    Prop where
  before : h.cell? r = some (.object o)
  open' : o.access ≠ .constant
  after : h'.cell? r = some (.object { o with entries := insertEntry key slot o.entries })
  others : ∀ s, s ≠ r → h'.cell? s = h.cell? s

theorem writeEntry_ok {key : String} {slot : Slot} {checked : Bool}
    (run : h.writeEntry r key slot checked = .ok h') : ∃ o, Written h r key slot o h' := by
  unfold writeEntry at run
  cases found : h.object? r with
  | none =>
    rw [found] at run
    cases run
  | some o =>
    rw [found] at run
    have there := cell?_of_object? found
    simp only at run
    split at run
    · cases run
    · rename_i allowed
      cases run
      refine ⟨o, there, ?_, ?_, ?_⟩
      · intro constant
        simp [constant] at allowed
      · rw [cell?_report]
        exact cell?_write (lt_size_of_cell there) _
      · intro s other
        rw [cell?_report]
        exact cell?_write_of_ne h _ (Ne.symm other)

/-- References stay good as long as no cell is lost or changes its kind. -/
theorem Finds.carry (finds : h.Finds v)
    (kept : ∀ s c, h.cell? s = some c → ∃ d, h'.cell? s = some d ∧ refer d = refer c) :
    h'.Finds v := by
  have good (s : Ref) (c : Cell) (there : h.cell? s = some c) : h'.Finds (refer c s) :=
    finds_refer.mpr (kept s c there)
  cases v with
  | object s =>
    obtain ⟨o,there⟩ := finds
    exact good s _ there
  | array s =>
    obtain ⟨a,there⟩ := finds
    exact good s _ there
  | _ => trivial

theorem Written.finds {key : String} {slot : Slot} {o : ObjectCell}
    (written : Written h r key slot o h') (finds : h.Finds v) : h'.Finds v := by
  apply finds.carry
  intro s c there
  by_cases own : s = r
  · subst own
    rw [written.before] at there
    cases there
    exact ⟨_, written.after, rfl⟩
  · exact ⟨c, (written.others s own).trans there, rfl⟩

theorem Written.intact {key : String} {slot : Slot} {o : ObjectCell}
    (written : Written h r key slot o h') (intact : h.Intact) (finds : h.Finds slot.value) :
    h'.Intact := by
  intro s v held
  by_cases own : s = r
  · subst own
    rw [children_of_cell written.after] at held
    rcases mem_values_insertEntry held with rfl | old
    · exact written.finds finds
    · exact written.finds (intact.finds written.before v old)
  · rw [children, written.others s own] at held
    exact written.finds (intact s v held)

theorem Finds.cell (finds : h.Finds v) (own : v.ref? = some r) : ∃ c, h.cell? r = some c :=
  cell?_of_lt (finds.lt_size own)

end Facts

/-- What may become of a cell. -/
structure Hardened (c d : Cell) : Prop where
  kind : refer d = refer c
  level : c.access.rank ≤ d.access.rank
  frozen : c.access = .constant → d.bare = c.bare

theorem Hardened.refl (c : Cell) : Hardened c c := ⟨rfl, Nat.le_refl _, fun _ => rfl⟩

theorem Hardened.constant (hardened : Hardened c d) (constant : c.access = .constant) :
    d.access = .constant :=
  (Cell.access_of_bare (hardened.frozen constant)).trans constant

theorem Hardened.trans {e : Cell} (first : Hardened c d) (second : Hardened d e) :
    Hardened c e where
  kind := second.kind.trans first.kind
  level := Nat.le_trans first.level second.level
  frozen constant := (second.frozen (first.constant constant)).trans (first.frozen constant)

/-- A sound heap that has come from `h`. -/
structure Matures (h h' : Heap) : Prop where
  cells : ∀ r c, h.cell? r = some c → ∃ d, h'.cell? r = some d ∧ Hardened c d
  sound : h'.Sound

theorem Matures.refl (sound : h.Sound) : h.Matures h :=
  ⟨fun _ c found => ⟨c, found, .refl c⟩, sound⟩

theorem Matures.trans (first : h.Matures h') (second : h'.Matures k) : h.Matures k where
  cells r c found := by
    obtain ⟨d,found',hardened⟩ := first.cells r c found
    obtain ⟨e,found'',hardened'⟩ := second.cells r d found'
    exact ⟨e, found'', hardened.trans hardened'⟩
  sound := second.sound

theorem Matures.finds (matures : h.Matures h') (finds : h.Finds v) : h'.Finds v := by
  apply finds.carry
  intro s c there
  obtain ⟨d,found,hardened⟩ := matures.cells s c there
  exact ⟨d, found, hardened.kind⟩

theorem Matures.lt_size (matures : h.Matures h') (inside : r < h.size) : r < h'.size := by
  obtain ⟨c,found⟩ := cell?_of_lt inside
  obtain ⟨d,found',-⟩ := matures.cells r c found
  exact lt_size_of_cell found'

theorem Matures.constant (matures : h.Matures h') (found : h.cell? r = some c)
    (constant : c.access = .constant) : h'.access r = .constant := by
  obtain ⟨d,found',hardened⟩ := matures.cells r c found
  exact (access_of_cell found').trans (hardened.constant constant)

/-- A heap that has only got new cells. -/
theorem Matures.extend (grown : h.Extends k) (sound : k.Sound) : h.Matures k :=
  ⟨fun r c found => ⟨c, grown r c found, .refl c⟩, sound⟩

/-- The shared empty containers stay empty, for they are constant. -/
theorem Shares.harden (shares : h.Shares)
    (cells : ∀ r c, h.cell? r = some c → ∃ d, h'.cell? r = some d ∧ Hardened c d) : h'.Shares := by
  obtain ⟨⟨o,object,constant,none⟩,⟨a,array,constant',none'⟩⟩ := shares
  constructor
  · obtain ⟨d,found,hardened⟩ := cells emptyObject _ object
    have same := hardened.frozen constant
    cases d with
    | array a' => cases same
    | object o' =>
      refine ⟨o', found, hardened.constant constant, ?_⟩
      have values := Cell.values_of_bare same
      simp only [Cell.values, none, List.map_nil, List.map_eq_nil_iff] at values
      exact values
  · obtain ⟨d,found,hardened⟩ := cells emptyArray _ array
    have same := hardened.frozen constant'
    cases d with
    | object o' => cases same
    | array a' =>
      refine ⟨a', found, hardened.constant constant', ?_⟩
      have values := Cell.values_of_bare same
      simp only [Cell.values, none', List.map_nil, List.map_eq_nil_iff] at values
      exact values

/-- One cell has been replaced; nothing has become constant. -/
theorem Matures.replace (sound : h.Sound) (found : h.cell? r = some c)
    (found' : h'.cell? r = some d) (others : ∀ s, s ≠ r → h'.cell? s = h.cell? s)
    (hardened : Hardened c d) (level : d.access = .constant → c.access = .constant)
    (finds : ∀ v ∈ d.values, h.Finds v) : h.Matures h' := by
  have cells (s : Ref) (e : Cell) (there : h.cell? s = some e) :
      ∃ f, h'.cell? s = some f ∧ Hardened e f := by
    by_cases here : s = r
    · subst here
      rw [found] at there
      cases there
      exact ⟨d, found', hardened⟩
    · exact ⟨e, (others s here).trans there, .refl e⟩
  have still {v : Value} (known : h.Finds v) : h'.Finds v := by
    apply known.carry
    intro s e there
    obtain ⟨f,there',same⟩ := cells s e there
    exact ⟨f, there', same.kind⟩
  have constant {s : Ref} {e : Cell} (there : h.cell? s = some e)
      (frozen : h.access s = .constant) : h'.access s = .constant := by
    obtain ⟨f,there',same⟩ := cells s e there
    rw [access_of_cell there']
    exact same.constant ((access_of_cell there).symm.trans frozen)
  refine ⟨cells, ?_, sound.shares.harden cells, ?_⟩
  · intro s v held
    by_cases here : s = r
    · subst here
      rw [children_of_cell found'] at held
      exact still (finds v held)
    · rw [children, others s here] at held
      exact still (sound.intact s v held)
  · intro s frozen v held t own
    by_cases here : s = r
    · subst here
      have was := level ((access_of_cell found').symm.trans frozen)
      rw [children_of_cell found', Cell.values_of_bare (hardened.frozen was)] at held
      obtain ⟨e,there⟩ := (sound.intact.finds found v held).cell own
      rw [← children_of_cell found] at held
      exact constant there (sound.frozen s ((access_of_cell found).trans was) v held t own)
    · rw [access, others s here] at frozen
      rw [children, others s here] at held
      obtain ⟨e,there⟩ := (sound.intact s v held).cell own
      exact constant there (sound.frozen s frozen v held t own)

theorem Matures.rewrite (sound : h.Sound) (found : h.cell? r = some c)
    (found' : h'.cell? r = some d) (others : ∀ s, s ≠ r → h'.cell? s = h.cell? s)
    (kind : refer d = refer c) (level : d.access = c.access) (open' : c.access ≠ .constant)
    (finds : ∀ v ∈ d.values, h.Finds v) : h.Matures h' := by
  apply Matures.replace sound found found' others _ (fun constant => level ▸ constant) finds
  exact ⟨kind, Nat.le_of_eq (by rw [level]), fun constant => absurd constant open'⟩

theorem Written.matures {key : String} {slot : Slot} {o : ObjectCell} (sound : h.Sound)
    (written : Written h r key slot o h') (finds : h.Finds slot.value) : h.Matures h' := by
  apply Matures.rewrite sound written.before written.after written.others rfl rfl written.open'
  intro v held
  rcases mem_values_insertEntry held with rfl | old
  · exact finds
  · exact sound.intact.finds written.before v old

theorem alloc_matures (sound : h.Sound) (level : c.access ≠ .constant)
    (finds : ∀ v ∈ c.values, h.Finds v) : h.Matures (h.alloc c).1 :=
  .extend (extends_alloc h c) (sound.alloc level finds)

section Building

mutual

theorem build_sound : ∀ {h : Heap} (t : Tree), h.Sound →
    (h.build t).1.Sound ∧ (h.build t).1.Finds (h.build t).2
  | _, .undefined, sound | _, .null, sound | _, .bool _, sound | _, .number _, sound
  | _, .string _, sound | _, .dateTime _, sound => ⟨sound, trivial⟩
  | h, .object fields, sound => by
    obtain ⟨sound',finds⟩ := buildFields_sound fields sound
    rw [build]
    refine ⟨sound'.alloc (c := .object _) (by simp [Cell.access]) ?_, _, cell?_alloc _ _⟩
    intro v held
    obtain ⟨e,within,rfl⟩ := List.mem_map.mp held
    exact finds e within
  | h, .array items, sound => by
    obtain ⟨sound',finds⟩ := buildItems_sound items sound
    rw [build]
    refine ⟨sound'.alloc (c := .array _) (by simp [Cell.access]) ?_, _, cell?_alloc _ _⟩
    intro v held
    obtain ⟨s,within,rfl⟩ := List.mem_map.mp held
    exact finds s within

theorem buildFields_sound : ∀ {h : Heap} (fields : List (String × Tree)), h.Sound →
    (h.buildFields fields).1.Sound ∧
      ∀ e ∈ (h.buildFields fields).2, (h.buildFields fields).1.Finds e.2.value
  | _, [], sound => ⟨sound, fun _ none => by cases none⟩
  | h, (key, t) :: rest, sound => by
    obtain ⟨sound',finds⟩ := build_sound t sound
    obtain ⟨sound'',finds'⟩ := buildFields_sound rest sound'
    rw [buildFields]
    refine ⟨sound'', fun e within => ?_⟩
    rcases List.mem_cons.mp within with rfl | later
    · exact finds.extend (extends_buildFields _ rest)
    · exact finds' e later

theorem buildItems_sound : ∀ {h : Heap} (items : List Tree), h.Sound →
    (h.buildItems items).1.Sound ∧
      ∀ s ∈ (h.buildItems items).2, (h.buildItems items).1.Finds s.value
  | _, [], sound => ⟨sound, fun _ none => by cases none⟩
  | h, t :: rest, sound => by
    obtain ⟨sound',finds⟩ := build_sound t sound
    obtain ⟨sound'',finds'⟩ := buildItems_sound rest sound'
    rw [buildItems]
    refine ⟨sound'', fun s within => ?_⟩
    rcases List.mem_cons.mp within with rfl | later
    · exact finds.extend (extends_buildItems _ rest)
    · exact finds' s later

end

theorem build_matures (sound : h.Sound) (t : Tree) : h.Matures (h.build t).1 :=
  .extend (extends_build h t) (build_sound t sound).1

end Building

section Copies

theorem mem_of_forall₂ {α β : Type} {R : α → β → Prop} {l : List α} {l' : List β}
    (each : List.Forall₂ R l l') {a : α} (within : a ∈ l) : ∃ b ∈ l', R a b := by
  induction each with
  | nil => cases within
  | cons here _ ih =>
    rcases List.mem_cons.mp within with rfl | later
    · exact ⟨_, List.mem_cons_self, here⟩
    · obtain ⟨b,among,same⟩ := ih later
      exact ⟨b, List.mem_cons_of_mem _ among, same⟩

theorem like_ref {p : Pairing} (like : v.Like p w) (own : w.ref? = some s) :
    ∃ r, v.ref? = some r ∧ p r s := by
  cases like with
  | object pair => cases own; exact ⟨_, rfl, pair⟩
  | array pair => cases own; exact ⟨_, rfl, pair⟩
  | _ => cases own

/-- What is in a container is paired with what is in its partner. -/
theorem like_child {p : Pairing} (like : c.Like p d) (held : w ∈ d.values)
    (own : w.ref? = some s) : ∃ v ∈ c.values, ∃ r, v.ref? = some r ∧ p r s := by
  cases like with
  | object entries =>
    obtain ⟨e,within,rfl⟩ := List.mem_map.mp held
    obtain ⟨f,there,same⟩ := mem_of_forall₂ entries.flip within
    exact ⟨f.2.value, List.mem_map.mpr ⟨f, there, rfl⟩, like_ref same.2 own⟩
  | array items =>
    obtain ⟨x,within,rfl⟩ := List.mem_map.mp held
    obtain ⟨y,there,same⟩ := mem_of_forall₂ items.flip within
    exact ⟨y.value, List.mem_map.mpr ⟨y, there, rfl⟩, like_ref same own⟩

/-- Copying is done: a constant copy holds what is constant. -/
theorem Copied.sound {st : Copying} (sound : h.Sound) (state : Copied target h [] st) :
    st.heap.Sound := by
  obtain ⟨⟨o,object,rest⟩,⟨a,array,rest'⟩⟩ := sound.shares
  refine ⟨state.intact, ⟨⟨o, state.grown _ _ object, rest⟩, ⟨a, state.grown _ _ array, rest'⟩⟩, ?_⟩
  intro r constant v held s own
  by_cases inside : r < h.size
  · obtain ⟨c,found⟩ := cell?_of_lt inside
    rw [children_of_cell (state.grown r c found), ← children_of_cell found] at held
    rw [access_extend state.grown inside] at constant
    rw [access_extend state.grown ((sound.intact r v held).lt_size own)]
    exact sound.frozen r constant v held s own
  · obtain ⟨b,pair⟩ := state.made r (Nat.le_of_not_lt inside) (lt_size_of_child held)
    obtain ⟨-,c,d,-,there,-,level,done⟩ := state.pairs b r pair
    rw [access_of_cell there, level] at constant
    rw [children_of_cell there] at held
    rcases done with underway | like
    · cases underway
    · obtain ⟨_,-,t,-,pair'⟩ := like_child like held own
      exact (state.level sound.shares pair').trans constant

theorem deepClone_sound (sound : h.Sound) (finds : h.Finds v) (target : Access) :
    (h.deepClone v target).1.Sound :=
  (deepClone_carries sound finds target).state.sound sound

theorem deepClone_matures (sound : h.Sound) (finds : h.Finds v) (target : Access) :
    h.Matures (h.deepClone v target).1 := by
  obtain ⟨p,replica⟩ := deepClone_replica sound finds target
  exact .extend replica.grown (deepClone_sound sound finds target)

end Copies

end Heap

end Statechart

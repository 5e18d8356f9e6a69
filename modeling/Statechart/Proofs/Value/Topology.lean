import Statechart.Proofs.Value.Sharing

/- The shape of a deep copy. A container gets its copy before what it holds is copied, so the walk
   comes back from a cycle, and it ends without a depth to stop it. Copies that are not constant
   are to each other as the containers they were made of are. A constant copy takes over what is
   constant and what is empty, so several containers can have one copy; it still unfolds to the tree
   that the value unfolds to, however far one looks. -/
namespace Statechart

/-- The read-only marks of what a container holds, in order. -/
def Cell.flags : Cell → List Bool
  | .object o => o.entries.map (·.2.readOnly)
  | .array a => a.items.map (·.readOnly)

namespace Heap

variable {target : Access} {p : Pairing} {h k : Heap} {v w u : Value}
  {r s n depth : Nat}
  {st st' out : Copying} {underway : List Ref} {flag : Bool}

section Walk

mutual

/-- Copies a container as `copyRef` does. Nothing bounds the depth: there is an outcome only where
    the walk ends. -/
inductive Clones (target : Access) : Copying → Ref → Copying → Ref → Prop where
  | stands {st : Copying} {r s : Ref} {c : Cell} (found : st.heap.cell? r = some c)
      (own : (if target = .constant then constantCopy? r c else none) = some s) :
      Clones target st r st s
  | known {st : Copying} {r s : Ref} {c : Cell} (found : st.heap.cell? r = some c)
      (own : (if target = .constant then constantCopy? r c else none) = none)
      (known : st.copies.lookup r = some s) : Clones target st r st s
  | object {st out : Copying} {r : Ref} {o : ObjectCell} {ws : List Value}
      (found : st.heap.cell? r = some (.object o))
      (own : (if target = .constant then constantCopy? r (.object o) else none) = none)
      (new : st.copies.lookup r = none)
      (inner : ClonesAll target
        ⟨(st.heap.alloc (.object ⟨target, [], none⟩)).1, (r, st.heap.size) :: st.copies⟩
        (o.entries.map fun e => e.2.value) out ws) :
      Clones target st r ⟨out.heap.write st.heap.size
        (.object ⟨target, List.zipWith (putEntry target) o.entries ws, none⟩), out.copies⟩
        st.heap.size
  | array {st out : Copying} {r : Ref} {a : ArrayCell} {ws : List Value}
      (found : st.heap.cell? r = some (.array a))
      (own : (if target = .constant then constantCopy? r (.array a) else none) = none)
      (new : st.copies.lookup r = none)
      (inner : ClonesAll target
        ⟨(st.heap.alloc (.array ⟨target, [], none⟩)).1, (r, st.heap.size) :: st.copies⟩
        (a.items.map Slot.value) out ws) :
      Clones target st r ⟨out.heap.write st.heap.size
        (.array ⟨target, List.zipWith (putItem target) a.items ws, none⟩), out.copies⟩
        st.heap.size

inductive ClonesAll (target : Access) : Copying → List Value → Copying → List Value → Prop where
  | nil (st : Copying) : ClonesAll target st [] st []
  | plain {st out : Copying} {v : Value} {vs ws : List Value} (bare : v.ref? = none)
      (rest : ClonesAll target st vs out ws) : ClonesAll target st (v :: vs) out (v :: ws)
  | object {st st' out : Copying} {r s : Ref} {vs ws : List Value} (first : Clones target st r st' s)
      (rest : ClonesAll target st' vs out ws) :
      ClonesAll target st (.object r :: vs) out (.object s :: ws)
  | array {st st' out : Copying} {r s : Ref} {vs ws : List Value} (first : Clones target st r st' s)
      (rest : ClonesAll target st' vs out ws) :
      ClonesAll target st (.array r :: vs) out (.array s :: ws)

end

theorem clonesAll_cons {copy : Copying → Ref → Copying × Ref} {vs ws : List Value}
    (each : ∀ r c, h.cell? r = some c → Clones target st r (copy st r).1 (copy st r).2)
    (finds : h.Finds v) (rest : ClonesAll target (copyVia copy st v).1 vs out ws) :
    ClonesAll target st (v :: vs) out ((copyVia copy st v).2 :: ws) := by
  cases v with
  | object r =>
    obtain ⟨o,found⟩ := finds
    exact .object (each r _ found) rest
  | array r =>
    obtain ⟨a,found⟩ := finds
    exact .array (each r _ found) rest
  | _ => exact .plain rfl rest

theorem clonesAll_copyAll {α β : Type} {copy : Copying → Ref → Copying × Ref} {val : α → Value}
    {make : α → Value → β} {bound : Copying → Prop}
    (kept : ∀ st st' : Copying, st.copies <:+ st'.copies → bound st → bound st')
    (carry : ∀ st v, Copied target h underway st → bound st → h.Finds v →
      Carries target h underway st v (copyVia copy st v).1 (copyVia copy st v).2)
    (each : ∀ st r c, Copied target h underway st → bound st → h.cell? r = some c →
      Clones target st r (copy st r).1 (copy st r).2)
    {l : List α} (finds : ∀ a ∈ l, h.Finds (val a)) {made all : List β}
    (state : Copied target h underway st) (room : bound st)
    (run : copyAll copy val make l st made = (out, all)) :
    ∃ ws, ClonesAll target st (l.map val) out ws ∧ all = made ++ List.zipWith make l ws := by
  induction l generalizing st made with
  | nil =>
    cases run
    exact ⟨[], .nil _, (List.append_nil _).symm⟩
  | cons a rest ih =>
    have good := finds a List.mem_cons_self
    have first := carry st (val a) state room good
    obtain ⟨ws,later,rfl⟩ := ih (fun b among => finds b (List.mem_cons_of_mem _ among)) first.state
      (kept _ _ first.more room) run
    refine ⟨_, clonesAll_cons (fun r c found => each st r c state room found) good later, ?_⟩
    rw [List.append_assoc]
    rfl

/-- The depth is never used up, for there are no more copies than there are containers. -/
theorem copyRef_clones (intact : h.Intact) (shares : h.Shares) (target : Access) (depth : Nat) :
    ∀ (underway : List Ref) (st : Copying) (r : Ref) (c : Cell), h.cell? r = some c →
      Copied target h underway st → h.size + 1 ≤ depth + st.copies.length →
      Clones target st r (copyRef target depth st r).1 (copyRef target depth st r).2 := by
  induction depth with
  | zero =>
    intro underway st r c found state room
    have few := state.few
    omega
  | succ depth ih =>
    intro underway st r c found state room
    have there := state.grown r c found
    have carry : ∀ st v, Copied target h (r :: underway) st →
        h.size + 1 ≤ depth + st.copies.length → h.Finds v →
        Carries target h (r :: underway) st v (copyVia (copyRef target depth) st v).1
          (copyVia (copyRef target depth) st v).2 := by
      intro st v state room finds
      exact copyVia_carries (fun r c found =>
        copyRef_carries intact shares target depth _ st r c found state room) state finds
    have each : ∀ st s d, Copied target h (r :: underway) st →
        h.size + 1 ≤ depth + st.copies.length → h.cell? s = some d →
        Clones target st s (copyRef target depth st s).1 (copyRef target depth st s).2 :=
      fun st s d state room found => ih _ st s d found state room
    have copies := copyRef_copies state found depth
    generalize copyRef target (depth + 1) st r = made at copies ⊢
    cases copies with
    | shared s shared => exact .stands there shared
    | known s shared known => exact .known there shared known
    | object o out entries shared known begun all =>
      obtain ⟨ws,inner,rfl⟩ := clonesAll_copyAll room_kept carry each
        (fun e he => intact.finds found _ (List.mem_map.mpr ⟨e, he, rfl⟩)) begun (room_begun room) all
      exact .object there shared known inner
    | array a out slots shared known begun all =>
      obtain ⟨ws,inner,rfl⟩ := clonesAll_copyAll room_kept carry each
        (fun e he => intact.finds found _ (List.mem_map.mpr ⟨e, he, rfl⟩)) begun (room_begun room) all
      exact .array there shared known inner

/-- Copying a value ends, and the outcome is that of `deepClone`. -/
theorem deepClone_clones (sound : h.Sound) (finds : h.Finds v) (target : Access) :
    ClonesAll target ⟨h, []⟩ [v] (h.cloning v target) [(h.deepClone v target).2] :=
  clonesAll_cons (fun r c found => copyRef_clones sound.intact sound.shares target (h.size + 1) []
    ⟨h, []⟩ r c found (.start sound.intact target) (Nat.le_refl _)) finds (.nil _)

end Walk

section Flags

/-- Whatever stands past the first `n` containers is marked alike. -/
def Flagged (flag : Bool) (n : Nat) (h : Heap) : Prop :=
  ∀ r c, n ≤ r → h.cell? r = some c → ∀ b ∈ c.flags, b = flag

theorem Flagged.alloc {c : Cell} (flagged : Flagged flag n h) (marked : ∀ b ∈ c.flags, b = flag) :
    Flagged flag n (h.alloc c).1 := by
  intro r d past found
  by_cases last : r = h.size
  · rw [last, cell?_alloc] at found
    cases found
    exact marked
  · have inside : r < h.size := by
      have bound := lt_size_of_cell found
      rw [size_alloc] at bound
      omega
    obtain ⟨e,there⟩ := cell?_of_lt inside
    rw [extends_alloc h c r e there] at found
    cases found
    exact flagged r _ past there

theorem Flagged.write {c : Cell} (flagged : Flagged flag n h) (marked : ∀ b ∈ c.flags, b = flag) :
    Flagged flag n (h.write s c) := by
  intro r d past found
  by_cases here : r = s
  · subst here
    have inside := lt_size_of_cell found
    rw [size_write] at inside
    rw [cell?_write inside] at found
    cases found
    exact marked
  · rw [cell?_write_of_ne h c (Ne.symm here)] at found
    exact flagged r d past found

theorem flags_putEntries (entries : List (String × Slot)) (ws : List Value) (target level : Access)
    (watcher : Option String) : ∀ b ∈ (Cell.object
      ⟨level, List.zipWith (putEntry target) entries ws, watcher⟩).flags,
      b = decide (target ≠ .writable) := by
  intro b among
  obtain ⟨e,within,rfl⟩ := List.mem_map.mp among
  obtain ⟨i,inside,same⟩ := List.getElem_of_mem within
  rw [← same, List.getElem_zipWith]
  rfl

theorem flags_putItems (items : List Slot) (ws : List Value) (target level : Access)
    (watcher : Option String) : ∀ b ∈ (Cell.array
      ⟨level, List.zipWith (putItem target) items ws, watcher⟩).flags,
      b = decide (target ≠ .writable) := by
  intro b among
  obtain ⟨slot,within,rfl⟩ := List.mem_map.mp among
  obtain ⟨i,inside,same⟩ := List.getElem_of_mem within
  rw [← same, List.getElem_zipWith]
  rfl

mutual

/-- Copies are marked by what they are for. -/
theorem Clones.flagged : ∀ {st out : Copying} {r s : Ref}, Clones target st r out s →
    Flagged (decide (target ≠ .writable)) n st.heap →
    Flagged (decide (target ≠ .writable)) n out.heap
  | _, _, _, _, .stands _ _, flagged => flagged
  | _, _, _, _, .known _ _ _, flagged => flagged
  | _, _, _, _, .object _ _ _ inner, flagged =>
    (inner.flagged (flagged.alloc (by simp [Cell.flags]))).write (flags_putEntries _ _ _ _ _)
  | _, _, _, _, .array _ _ _ inner, flagged =>
    (inner.flagged (flagged.alloc (by simp [Cell.flags]))).write (flags_putItems _ _ _ _ _)

theorem ClonesAll.flagged : ∀ {st out : Copying} {vs ws : List Value},
    ClonesAll target st vs out ws → Flagged (decide (target ≠ .writable)) n st.heap →
    Flagged (decide (target ≠ .writable)) n out.heap
  | _, _, _, _, .nil _, flagged => flagged
  | _, _, _, _, .plain _ rest, flagged => rest.flagged flagged
  | _, _, _, _, .object first rest, flagged => rest.flagged (first.flagged flagged)
  | _, _, _, _, .array first rest, flagged => rest.flagged (first.flagged flagged)

end

end Flags

section Shape

theorem like_flip (like : v.Like p w) : w.Like (fun s r => p r s) v := by
  cases like with
  | object pair => exact .object pair
  | array pair => exact .array pair
  | _ => constructor

theorem cell_like_flip {c d : Cell} (like : c.Like p d) : d.Like (fun s r => p r s) c := by
  cases like with
  | object entries =>
    exact .object (entries.flip.imp fun _ _ same => ⟨same.1.symm, like_flip same.2⟩)
  | array items => exact .array (items.flip.imp fun _ _ same => like_flip same)

theorem Simulates.flip (simulates : Simulates p h k) : Simulates (fun s r => p r s) k h := by
  intro s r pair
  obtain ⟨c,d,here,there,like⟩ := simulates pair
  exact ⟨d, c, there, here, cell_like_flip like⟩

theorem Simulates.reached (simulates : Simulates p h k) (like : v.Like p w)
    (reached : h.Reached (· = v) r) : ∃ s, p r s ∧ k.Reached (· = w) s := by
  induction reached with
  | root held own =>
    subst held
    obtain ⟨s,own',pair⟩ := like_ref (like_flip like) own
    exact ⟨s, pair, .root rfl own'⟩
  | edge _ within ih =>
    obtain ⟨s,pair,before⟩ := ih
    obtain ⟨u,held,own⟩ := within
    obtain ⟨c,d,here,there,alike⟩ := simulates pair
    rw [children_of_cell here] at held
    obtain ⟨u',held',s',own',pair'⟩ := like_child (cell_like_flip alike) held own
    exact ⟨s', pair', .edge before ⟨u', children_of_cell there ▸ held', own'⟩⟩

/-- The tree that a value unfolds to, cut off past some levels: a container there is shown without
    what is in it. -/
def cut (h : Heap) : Nat → Value → Tree
  | _, .undefined => .undefined
  | _, .null => .null
  | _, .bool b => .bool b
  | _, .number f => .number f
  | _, .string s => .string s
  | _, .dateTime t => .dateTime t
  | 0, .object _ => .object []
  | 0, .array _ => .array []
  | depth + 1, .object r => .object ((h.entries r).map fun e => (e.1, h.cut depth e.2.value))
  | depth + 1, .array r => .array ((h.items r).map fun s => h.cut depth s.value)

theorem map_eq_of_forall₂ {α β γ : Type} {f : α → γ} {g : β → γ} {l : List α} {l' : List β}
    (same : List.Forall₂ (fun a b => f a = g b) l l') : l.map f = l'.map g := by
  induction same with
  | nil => rfl
  | cons here _ ih => rw [List.map_cons, List.map_cons, here, ih]

/-- Paired values unfold to the same tree, however far one looks. -/
theorem Simulates.cut (simulates : Simulates p h k) (depth : Nat) (like : v.Like p w) :
    h.cut depth v = k.cut depth w := by
  induction depth generalizing v w with
  | zero => cases like <;> rfl
  | succ depth ih =>
    cases like with
    | @object r s pair =>
      obtain ⟨c,d,here,there,alike⟩ := simulates pair
      rw [Heap.cut, Heap.cut]
      simp only [entries, object?, here, there]
      cases alike with
      | object same =>
        rw [map_eq_of_forall₂ (same.imp fun a b alike => by rw [ih alike.2, alike.1])]
      | array => rfl
    | @array r s pair =>
      obtain ⟨c,d,here,there,alike⟩ := simulates pair
      rw [Heap.cut, Heap.cut]
      simp only [items, array?, here, there]
      cases alike with
      | array same => rw [map_eq_of_forall₂ (same.imp fun a b alike => ih alike)]
      | object => rfl
    | _ => rfl

end Shape

section Copies

/-- A copy of all that the value reaches, container for container: of the same kinds, under the same
    keys in the same order, with the same contents, and shared and tied in the same way. -/
structure Duplicates (target : Access) (p : Pairing) (h : Heap) (v : Value) (k : Heap) (w : Value) :
    Prop where
  like : v.Like p w
  source : ∀ r, (∃ s, p r s) ↔ h.Reached (· = v) r
  image : ∀ s, (∃ r, p r s) ↔ k.Reached (· = w) s
  corresponds : Corresponds p h k
  new : ∀ r s, p r s → h.size ≤ s
  level : ∀ r s, p r s → k.access s = target
  flags : ∀ r s, p r s → ∀ d, k.cell? s = some d → ∀ b ∈ d.flags, b = decide (target ≠ .writable)

/-- A constant copy reads as the value does. What it takes over was constant. -/
structure Settles (h : Heap) (v : Value) (k : Heap) (w : Value) : Prop where
  same : ∀ depth, h.cut depth v = k.cut depth w
  level : ∀ s, k.Reached (· = w) s → k.access s = .constant
  reused : ∀ s, k.Reached (· = w) s → s < h.size → h.access s = .constant ∧
    (h.Reached (· = v) s ∨ s = emptyObject ∨ s = emptyArray)

/-- Unless it is constant, a copy is paired with what it was made of only. -/
theorem copied_iff_mem {copies : List (Ref × Ref)} (loose : target ≠ .constant) :
    copied target h copies r s ↔ (r, s) ∈ copies :=
  or_iff_left fun taken => loose taken.1

theorem flagged_size (flag : Bool) (h : Heap) : Flagged flag h.size h :=
  fun _ _ past found => absurd (lt_size_of_cell found) (Nat.not_lt.mpr past)

theorem deepClone_simulates (sound : h.Sound) (finds : h.Finds v) (target : Access) :
    Simulates (copied target h (h.cloning v target).copies) h (h.cloning v target).heap :=
  (deepClone_carries sound finds target).state.simulates sound

/-- The containers that the value reaches and their copies. -/
def partners (target : Access) (h : Heap) (v : Value) : Pairing := fun r s =>
  (r, s) ∈ (h.cloning v target).copies ∧ h.Reached (· = v) r

theorem like_partners (loose : target ≠ .constant)
    (like : w.Like (copied target h (h.cloning v target).copies) u)
    (reached : ∀ r, w.ref? = some r → h.Reached (· = v) r) : w.Like (partners target h v) u := by
  cases like with
  | object pair => exact .object ⟨(copied_iff_mem loose).mp pair, reached _ rfl⟩
  | array pair => exact .array ⟨(copied_iff_mem loose).mp pair, reached _ rfl⟩
  | _ => constructor

theorem partners_correspond (sound : h.Sound) (finds : h.Finds v) (loose : target ≠ .constant) :
    Corresponds (partners target h v) h (h.cloning v target).heap where
  functional := by
    rintro r s t ⟨pair,_⟩ ⟨pair',_⟩
    have state := (deepClone_carries sound finds target).state
    exact congrArg Prod.snd (List.inj_on_of_nodup_map state.keys pair pair' rfl)
  injective := by
    rintro r s t ⟨pair,_⟩ ⟨pair',_⟩
    have state := (deepClone_carries sound finds target).state
    exact congrArg Prod.fst (List.inj_on_of_nodup_map state.values pair pair' rfl)
  cells := by
    rintro r s ⟨pair,reached⟩
    obtain ⟨c,d,here,there,like⟩ :=
      deepClone_simulates sound finds target ((copied_iff_mem loose).mpr pair)
    refine ⟨c, d, here, there, cell_like_of_values like fun w held u alike => ?_⟩
    exact like_partners loose alike fun t own =>
      .edge reached ⟨w, children_of_cell here ▸ held, own⟩

theorem deepClone_duplicates (sound : h.Sound) (finds : h.Finds v) (loose : target ≠ .constant) :
    Duplicates target (partners target h v) h v (h.deepClone v target).1
      (h.deepClone v target).2 := by
  have carries := deepClone_carries sound finds target
  have simulates := @deepClone_simulates h v sound finds target
  have corresponds := partners_correspond sound finds loose
  have forth {r : Ref} (reached : h.Reached (· = v) r) : ∃ s, partners target h v r s ∧
      (h.cloning v target).heap.Reached (· = (h.deepClone v target).2) s := by
    obtain ⟨s,pair,reached'⟩ := Simulates.reached simulates carries.like reached
    exact ⟨s, ⟨(copied_iff_mem loose).mp pair, reached⟩, reached'⟩
  refine ⟨like_partners loose carries.like fun r own => .root rfl own,
    fun r => ⟨?_, fun reached => ?_⟩, fun s => ⟨?_, fun reached => ?_⟩,
    corresponds, fun r s pair => (carries.state.pairs r s pair.1).1,
    fun r s pair => carries.state.level sound.shares (Or.inl pair.1), fun r s pair d there => ?_⟩
  · rintro ⟨s,pair⟩
    exact pair.2
  · obtain ⟨s,pair,_⟩ := forth reached
    exact ⟨s, pair⟩
  · rintro ⟨r,pair⟩
    obtain ⟨s',pair',reached⟩ := forth pair.2
    rwa [corresponds.functional pair pair']
  · obtain ⟨r,pair,reached'⟩ :=
      Simulates.reached (Simulates.flip simulates) (like_flip carries.like) reached
    exact ⟨r, (copied_iff_mem loose).mp pair, reached'⟩
  · have past := (carries.state.pairs r s pair.1).1
    exact (deepClone_clones sound finds target).flagged (flagged_size _ h) s d past there

theorem deepClone_settles (sound : h.Sound) (finds : h.Finds v) :
    Settles h v (h.deepClone v .constant).1 (h.deepClone v .constant).2 := by
  have carries := deepClone_carries sound finds .constant
  have simulates := @deepClone_simulates h v sound finds .constant
  have back : ∀ s, (h.cloning v .constant).heap.Reached (· = (h.deepClone v .constant).2) s →
      ∃ r, copied .constant h (h.cloning v .constant).copies r s ∧ h.Reached (· = v) r :=
    fun s reached => Simulates.reached (Simulates.flip simulates) (like_flip carries.like) reached
  refine ⟨fun depth => Simulates.cut simulates depth carries.like, fun s reached => ?_,
    fun s reached inside => ?_⟩
  · obtain ⟨r,pair,_⟩ := back s reached
    exact carries.state.level sound.shares pair
  · obtain ⟨r,pair,before⟩ := back s reached
    rcases pair with pair | ⟨_,c,found,⟨constant,rfl⟩ | ⟨_,rfl⟩⟩
    · obtain ⟨past,_⟩ := carries.state.pairs r s pair
      exact absurd inside (Nat.not_lt.mpr past)
    · exact ⟨(access_of_cell found).trans constant, Or.inl before⟩
    · obtain ⟨d,there,_,level,_⟩ := cell?_sharedEmpty sound.shares c
      refine ⟨(access_of_cell there).trans level, Or.inr ?_⟩
      cases c with
      | object o => exact Or.inl rfl
      | array a => exact Or.inr rfl

end Copies

/-- A deep copy has the shape of what it copies, cycles and sharing included. Making it ends and
    leaves every container there is as it was. A copy that is not constant is made of new containers
    throughout, one for each that the value reaches, all at the level asked for. A constant copy
    unfolds to the same tree, is constant throughout, and shares only what was constant. -/
theorem deepClone_copies (built : Relation.ReflTransGen Develops initial h) (finds : h.Finds v)
    (target : Access) :
    (∃ copies, ClonesAll target ⟨h, []⟩ [v] ⟨(h.deepClone v target).1, copies⟩
      [(h.deepClone v target).2]) ∧
    h.Extends (h.deepClone v target).1 ∧
    (target ≠ .constant →
      ∃ p, Duplicates target p h v (h.deepClone v target).1 (h.deepClone v target).2) ∧
    (target = .constant → Settles h v (h.deepClone v target).1 (h.deepClone v target).2) := by
  have sound := (develops_matures initial_sound built).sound
  refine ⟨⟨_, deepClone_clones sound finds target⟩, ?_,
    fun loose => ⟨_, deepClone_duplicates sound finds loose⟩, ?_⟩
  · exact (deepClone_carries sound finds target).grown
  · rintro rfl
    exact deepClone_settles sound finds

namespace CopiedKnot

/-- An object and an array that hold each other, and an object that holds a frozen one and an empty
    one. -/
def knot : List Op :=
  [.newObject, .newArray, .set 2 "items" (.array 3), .push 3 (.object 2), .push 3 (.object 2),
    .newObject, .newObject, .set 5 "on" (.bool true), .freeze (.object 5), .newObject,
    .set 4 "inner" (.object 5), .set 4 "none" (.object 6)]

theorem knot_copied :
    (∃ p : Pairing, p 2 7 ∧ Duplicates .readOnly p (knot.foldl Op.run initial) (.object 2)
      ((knot.foldl Op.run initial).deepClone (.object 2) .readOnly).1 (.object 7)) ∧
    Settles (knot.foldl Op.run initial) (.object 4)
      ((knot.foldl Op.run initial).deepClone (.object 4) .constant).1 (.object 7) := by
  have built : Relation.ReflTransGen Develops initial (knot.foldl Op.run initial) :=
    develops_of_given (by decide)
  obtain ⟨-,-,loose,-⟩ := deepClone_copies built (v := .object 2) ⟨_, rfl⟩ .readOnly
  obtain ⟨-,-,-,constant⟩ := deepClone_copies built (v := .object 4) ⟨_, rfl⟩ .constant
  obtain ⟨p,duplicates⟩ := loose (by decide)
  have pair : Value.Like p (.object 2) (.object 7) := duplicates.like
  cases pair with
  | object pair => exact ⟨⟨p, pair, duplicates⟩, constant rfl⟩

end CopiedKnot

end Heap

end Statechart

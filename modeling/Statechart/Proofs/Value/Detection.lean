import Statechart.Proofs.Value.Freezing

/- Cycle detection. The walks through a value look at nothing but the containers they are inside of,
   and these are all different. So a walk ends on every heap, without a depth to stop it; what has
   been left is not remembered, so a shared container is gone through wherever it stands, and only
   one that is inside itself is told. -/
namespace Statechart.Heap

variable {h : Heap} {v : Value} {r : Nat} {path : List Ref} {depth : Nat}

section Walks

mutual

/-- The walk that makes JSON, inside of the containers of `path`. Nothing bounds its depth: there is
    a result only where the walk ends. -/
inductive Converts (h : Heap) : List Ref → Value → Except ValueError Json → Prop where
  | undefined (path : List Ref) : Converts h path .undefined (.ok .null)
  | null (path : List Ref) : Converts h path .null (.ok .null)
  | bool (path : List Ref) (b : Bool) : Converts h path (.bool b) (.ok (.bool b))
  | number (path : List Ref) (f : Float) :
      Converts h path (.number f) (.ok (Tree.numberToJson f))
  | string (path : List Ref) (s : String) : Converts h path (.string s) (.ok (.string s))
  | dateTime (path : List Ref) (t : DateTime) :
      Converts h path (.dateTime t) (.ok (.string t.text))
  | objectAgain {path : List Ref} {r : Ref} (again : r ∈ path) :
      Converts h path (.object r) (.error .cyclic)
  | arrayAgain {path : List Ref} {r : Ref} (again : r ∈ path) :
      Converts h path (.array r) (.error .cyclic)
  | object {path : List Ref} {r : Ref} {result : Except ValueError (List (String × Json))}
      (new : r ∉ path) (inner : ConvertsEntries h (r :: path) (h.entries r) result) :
      Converts h path (.object r) (result.map Json.mkObject)
  | array {path : List Ref} {r : Ref} {result : Except ValueError (List Json)}
      (new : r ∉ path) (inner : ConvertsItems h (r :: path) (h.items r) result) :
      Converts h path (.array r) (result.map Json.array)

/-- Entry after entry, up to the first that fails; an undefined one is passed over. -/
inductive ConvertsEntries (h : Heap) : List Ref → List (String × Slot) →
    Except ValueError (List (String × Json)) → Prop where
  | nil (path : List Ref) : ConvertsEntries h path [] (.ok [])
  | skip {path : List Ref} {key : String} {slot : Slot} {entries : List (String × Slot)}
      {result : Except ValueError (List (String × Json))} (missing : slot.value = .undefined)
      (rest : ConvertsEntries h path entries result) :
      ConvertsEntries h path ((key, slot) :: entries) result
  | fail {path : List Ref} {key : String} {slot : Slot} {entries : List (String × Slot)}
      {e : ValueError} (there : slot.value ≠ .undefined)
      (first : Converts h path slot.value (.error e)) :
      ConvertsEntries h path ((key, slot) :: entries) (.error e)
  | entry {path : List Ref} {key : String} {slot : Slot} {entries : List (String × Slot)} {j : Json}
      {result : Except ValueError (List (String × Json))} (there : slot.value ≠ .undefined)
      (first : Converts h path slot.value (.ok j)) (rest : ConvertsEntries h path entries result) :
      ConvertsEntries h path ((key, slot) :: entries) (result.map ((key, j) :: ·))

/-- Item after item, up to the first that fails. -/
inductive ConvertsItems (h : Heap) : List Ref → List Slot → Except ValueError (List Json) →
    Prop where
  | nil (path : List Ref) : ConvertsItems h path [] (.ok [])
  | fail {path : List Ref} {slot : Slot} {items : List Slot} {e : ValueError}
      (first : Converts h path slot.value (.error e)) :
      ConvertsItems h path (slot :: items) (.error e)
  | item {path : List Ref} {slot : Slot} {items : List Slot} {j : Json}
      {result : Except ValueError (List Json)} (first : Converts h path slot.value (.ok j))
      (rest : ConvertsItems h path items result) :
      ConvertsItems h path (slot :: items) (result.map (j :: ·))

end

mutual

/-- The walk that shows a value, inside of the containers of `path`. Nothing bounds its depth. -/
inductive Shows (h : Heap) : List Ref → Value → String → Prop where
  | undefined (path : List Ref) : Shows h path .undefined "undefined"
  | null (path : List Ref) : Shows h path .null "null"
  | bool (path : List Ref) (b : Bool) : Shows h path (.bool b) (if b then "true" else "false")
  | number (path : List Ref) (f : Float) : Shows h path (.number f) (Decimal.displayText f)
  | string (path : List Ref) (s : String) : Shows h path (.string s) s
  | dateTime (path : List Ref) (t : DateTime) : Shows h path (.dateTime t) t.text
  | objectAgain {path : List Ref} {r : Ref} (again : r ∈ path) : Shows h path (.object r) "(...)"
  | arrayAgain {path : List Ref} {r : Ref} (again : r ∈ path) : Shows h path (.array r) "[...]"
  | object {path : List Ref} {r : Ref} {parts : List String} (new : r ∉ path)
      (inner : ShowsEntries h (r :: path) (h.entries r) parts) :
      Shows h path (.object r) ("(" ++ String.intercalate "," parts ++ ")")
  | array {path : List Ref} {r : Ref} {parts : List String} (new : r ∉ path)
      (inner : ShowsItems h (r :: path) (h.items r) parts) :
      Shows h path (.array r) ("[" ++ String.intercalate "," parts ++ "]")

inductive ShowsEntries (h : Heap) : List Ref → List (String × Slot) → List String → Prop where
  | nil (path : List Ref) : ShowsEntries h path [] []
  | entry {path : List Ref} {key text : String} {slot : Slot} {entries : List (String × Slot)}
      {parts : List String} (first : Shows h path slot.value text)
      (rest : ShowsEntries h path entries parts) :
      ShowsEntries h path ((key, slot) :: entries) ((key ++ "=" ++ text) :: parts)

inductive ShowsItems (h : Heap) : List Ref → List Slot → List String → Prop where
  | nil (path : List Ref) : ShowsItems h path [] []
  | item {path : List Ref} {text : String} {slot : Slot} {items : List Slot} {parts : List String}
      (first : Shows h path slot.value text) (rest : ShowsItems h path items parts) :
      ShowsItems h path (slot :: items) (text :: parts)

end

mutual

/-- The value stands for the JSON tree: a container for what it holds, wherever and however often
    it is met, but for the undefined entries of an object. -/
inductive Spells (h : Heap) : Value → Json → Prop where
  | undefined : Spells h .undefined .null
  | null : Spells h .null .null
  | bool (b : Bool) : Spells h (.bool b) (.bool b)
  | number (f : Float) : Spells h (.number f) (Tree.numberToJson f)
  | string (s : String) : Spells h (.string s) (.string s)
  | dateTime (t : DateTime) : Spells h (.dateTime t) (.string t.text)
  | object {r : Ref} {fields : List (String × Json)} (inner : SpellsEntries h (h.entries r) fields) :
      Spells h (.object r) (Json.mkObject fields)
  | array {r : Ref} {items : List Json} (inner : SpellsItems h (h.items r) items) :
      Spells h (.array r) (.array items)

inductive SpellsEntries (h : Heap) : List (String × Slot) → List (String × Json) → Prop where
  | nil : SpellsEntries h [] []
  | skip {key : String} {slot : Slot} {entries : List (String × Slot)}
      {fields : List (String × Json)} (missing : slot.value = .undefined)
      (rest : SpellsEntries h entries fields) : SpellsEntries h ((key, slot) :: entries) fields
  | entry {key : String} {slot : Slot} {entries : List (String × Slot)} {j : Json}
      {fields : List (String × Json)} (there : slot.value ≠ .undefined)
      (first : Spells h slot.value j) (rest : SpellsEntries h entries fields) :
      SpellsEntries h ((key, slot) :: entries) ((key, j) :: fields)

inductive SpellsItems (h : Heap) : List Slot → List Json → Prop where
  | nil : SpellsItems h [] []
  | item {slot : Slot} {items : List Slot} {j : Json} {js : List Json}
      (first : Spells h slot.value j) (rest : SpellsItems h items js) :
      SpellsItems h (slot :: items) (j :: js)

end

end Walks

section Ends

/-- Where a walk through a value can be: inside of different containers, each within the one
    before, with as much depth left as there are containers it has not been to. -/
structure Room (h : Heap) (depth : Nat) (path : List Ref) (v : Value) : Prop where
  trail : ∀ r, v.ref? = some r → h.Trail path r
  distinct : path.Nodup
  deep : h.size + 1 ≤ depth + path.length

theorem Room.start (h : Heap) (v : Value) : Room h (h.size + 1) [] v :=
  ⟨fun r _ => .start r, List.nodup_nil, Nat.le_refl _⟩

/-- There is no container left to go into when the depth is used up. -/
theorem Room.not_zero (room : Room h 0 path v) (own : v.ref? = some r) : False := by
  have few := length_le_of_nodup room.distinct (room.trail r own).lt_size
  have deep := room.deep
  omega

theorem Room.inside {w : Value} (room : Room h (depth + 1) path v) (own : v.ref? = some r)
    (new : r ∉ path) (held : w ∈ h.children r) : Room h depth (r :: path) w where
  trail _ within := .step (room.trail r own) ⟨w, held, within⟩
  distinct := List.nodup_cons.mpr ⟨new, room.distinct⟩
  deep := by
    have deep := room.deep
    rw [List.length_cons]
    omega

theorem treeIn_undefined_iff : h.treeIn depth v = .ok .undefined ↔ v = .undefined := by
  constructor
  · intro tree
    cases v with
    | object r =>
      cases depth with
      | zero => cases tree
      | succ depth =>
        obtain ⟨_,made,_⟩ := forall₂_of_treeIn_object tree
        cases made
    | array r =>
      cases depth with
      | zero => cases tree
      | succ depth =>
        obtain ⟨_,made,_⟩ := forall₂_of_treeIn_array tree
        cases made
    | undefined => rfl
    | _ => cases depth <;> cases tree
  · rintro rfl
    cases depth <;> rfl

theorem unfoldIn_undefined_iff : h.unfoldIn depth path v = .ok .undefined ↔ v = .undefined := by
  constructor
  · exact fun unfolded => treeIn_undefined_iff.mp (treeIn_of_unfoldIn unfolded)
  · rintro rfl
    cases depth <;> rfl

def unfoldEntries (unfold : Value → Except ValueError Tree) (entries : List (String × Slot)) :
    Except ValueError (List (String × Tree)) :=
  entries.mapM fun e => do
    let t ← unfold e.2.value
    return (e.1, t)

theorem unfoldEntries_cons (unfold : Value → Except ValueError Tree) (key : String) (slot : Slot)
    (entries : List (String × Slot)) :
    unfoldEntries unfold ((key, slot) :: entries) = (do
      let t ← unfold slot.value
      let fields ← unfoldEntries unfold entries
      return (key, t) :: fields) := by
  rw [unfoldEntries, List.mapM_cons]
  cases unfold slot.value with
  | error e => rfl
  | ok t => rfl

theorem convertsEntries {unfold : Value → Except ValueError Tree} {entries : List (String × Slot)}
    (undefined : ∀ w, unfold w = .ok .undefined ↔ w = .undefined)
    (each : ∀ e ∈ entries, Converts h path e.2.value ((unfold e.2.value).map Tree.toJson)) :
    ConvertsEntries h path entries ((unfoldEntries unfold entries).map Tree.toJsonFields) := by
  induction entries with
  | nil => exact .nil path
  | cons e rest ih =>
    obtain ⟨key,slot⟩ := e
    have first := each _ List.mem_cons_self
    have later := ih fun e among => each e (List.mem_cons_of_mem _ among)
    rw [unfoldEntries_cons]
    by_cases none : slot.value = .undefined
    · rw [(undefined _).mpr none]
      refine .skip none ?_
      cases others : unfoldEntries unfold rest with
      | error e => rw [others] at later; exact later
      | ok fields => rw [others] at later; exact later
    · cases run : unfold slot.value with
      | error e =>
        rw [run] at first
        exact .fail none first
      | ok t =>
        rw [run] at first
        have made : ConvertsEntries h path ((key, slot) :: rest) _ := .entry none first later
        cases others : unfoldEntries unfold rest with
        | error e => rw [others] at made; exact made
        | ok fields =>
          rw [others] at made
          cases t with
          | undefined => exact absurd ((undefined _).mp run) none
          | _ => exact made

theorem convertsItems (unfold : Value → Except ValueError Tree) {items : List Slot}
    (each : ∀ s ∈ items, Converts h path s.value ((unfold s.value).map Tree.toJson)) :
    ConvertsItems h path items
      ((items.mapM fun (s : Slot) => unfold s.value).map Tree.toJsonItems) := by
  induction items with
  | nil => exact .nil path
  | cons slot rest ih =>
    have first := each _ List.mem_cons_self
    have later := ih fun s among => each s (List.mem_cons_of_mem _ among)
    rw [List.mapM_cons]
    cases run : unfold slot.value with
    | error e =>
      rw [run] at first
      exact .fail first
    | ok t =>
      rw [run] at first
      have made := ConvertsItems.item first later
      cases others : rest.mapM fun (s : Slot) => unfold s.value with
      | error e => rw [others] at made; exact made
      | ok trees => rw [others] at made; exact made

theorem unfoldIn_object (new : r ∉ path) : h.unfoldIn (depth + 1) path (.object r) =
    (unfoldEntries (h.unfoldIn depth (r :: path)) (h.entries r)).map Tree.object := by
  rw [unfoldIn, if_neg (mt List.contains_iff_mem.mp new)]
  exact bind_pure_comp Tree.object (unfoldEntries (h.unfoldIn depth (r :: path)) (h.entries r))

theorem unfoldIn_array (new : r ∉ path) : h.unfoldIn (depth + 1) path (.array r) =
    ((h.items r).mapM fun (s : Slot) => h.unfoldIn depth (r :: path) s.value).map Tree.array := by
  rw [unfoldIn, if_neg (mt List.contains_iff_mem.mp new)]
  exact bind_pure_comp Tree.array _

/-- With room enough the walk is the one that nothing bounds. -/
theorem converts_unfoldIn (room : Room h depth path v) :
    Converts h path v ((h.unfoldIn depth path v).map Tree.toJson) := by
  induction depth generalizing path v with
  | zero =>
    cases v with
    | object r => exact (room.not_zero rfl).elim
    | array r => exact (room.not_zero rfl).elim
    | _ => constructor
  | succ depth ih =>
    cases v with
    | object r =>
      by_cases again : r ∈ path
      · rw [unfoldIn, if_pos (List.contains_iff_mem.mpr again)]
        exact .objectAgain again
      · have made := Converts.object again (convertsEntries (fun _ => unfoldIn_undefined_iff)
          fun e held => ih (room.inside rfl again (mem_children_of_entry held)))
        rw [unfoldIn_object again]
        cases run : unfoldEntries (h.unfoldIn depth (r :: path)) (h.entries r) with
        | error e => rw [run] at made; exact made
        | ok fields => rw [run] at made; exact made
    | array r =>
      by_cases again : r ∈ path
      · rw [unfoldIn, if_pos (List.contains_iff_mem.mpr again)]
        exact .arrayAgain again
      · have made := Converts.array again (convertsItems (h.unfoldIn depth (r :: path))
          fun s held => ih (room.inside rfl again (mem_children_of_item held)))
        rw [unfoldIn_array again]
        cases run : (h.items r).mapM fun (s : Slot) => h.unfoldIn depth (r :: path) s.value with
        | error e => rw [run] at made; exact made
        | ok trees => rw [run] at made; exact made
    | _ => constructor

theorem showsEntries (text : Value → String) {entries : List (String × Slot)}
    (each : ∀ e ∈ entries, Shows h path e.2.value (text e.2.value)) :
    ShowsEntries h path entries (entries.map fun e => e.1 ++ "=" ++ text e.2.value) := by
  induction entries with
  | nil => exact .nil path
  | cons e rest ih =>
    exact .entry (each e List.mem_cons_self) (ih fun e among => each e (List.mem_cons_of_mem _ among))

theorem showsItems (text : Value → String) {items : List Slot}
    (each : ∀ s ∈ items, Shows h path s.value (text s.value)) :
    ShowsItems h path items (items.map fun s => text s.value) := by
  induction items with
  | nil => exact .nil path
  | cons s rest ih =>
    exact .item (each s List.mem_cons_self) (ih fun s among => each s (List.mem_cons_of_mem _ among))

theorem shows_showIn (room : Room h depth path v) : Shows h path v (h.showIn depth path v) := by
  induction depth generalizing path v with
  | zero =>
    cases v with
    | object r => exact (room.not_zero rfl).elim
    | array r => exact (room.not_zero rfl).elim
    | _ => constructor
  | succ depth ih =>
    cases v with
    | object r =>
      rw [showIn_object]
      by_cases again : r ∈ path
      · rw [if_pos (List.contains_iff_mem.mpr again)]
        exact .objectAgain again
      · rw [if_neg (mt List.contains_iff_mem.mp again)]
        exact .object again (showsEntries (h.showIn depth (r :: path))
          fun e held => ih (room.inside rfl again (mem_children_of_entry held)))
    | array r =>
      rw [showIn_array]
      by_cases again : r ∈ path
      · rw [if_pos (List.contains_iff_mem.mpr again)]
        exact .arrayAgain again
      · rw [if_neg (mt List.contains_iff_mem.mp again)]
        exact .array again (showsItems (h.showIn depth (r :: path))
          fun s held => ih (room.inside rfl again (mem_children_of_item held)))
    | _ => constructor

end Ends

section Spelling

/-- The entries unfold to the fields within some levels. -/
def EntriesIn (h : Heap) (depth : Nat) (entries : List (String × Slot))
    (fields : List (String × Tree)) : Prop :=
  List.Forall₂ (fun e f => e.1 = f.1 ∧ h.treeIn depth e.2.value = .ok f.2) entries fields

def ItemsIn (h : Heap) (depth : Nat) (items : List Slot) (trees : List Tree) : Prop :=
  List.Forall₂ (fun s t => h.treeIn depth s.value = .ok t) items trees

theorem toJsonFields_cons {key : String} {t : Tree} {fields : List (String × Tree)}
    (there : t ≠ .undefined) :
    Tree.toJsonFields ((key, t) :: fields) = (key, t.toJson) :: Tree.toJsonFields fields := by
  cases t with
  | undefined => exact absurd rfl there
  | _ => rfl

theorem spellsEntries_of_treeIn (inner : ∀ w t, h.treeIn depth w = .ok t → h.Spells w t.toJson)
    {entries : List (String × Slot)} {fields : List (String × Tree)}
    (each : h.EntriesIn depth entries fields) :
    h.SpellsEntries entries (Tree.toJsonFields fields) := by
  induction each with
  | nil => exact .nil
  | @cons e f entries fields same _ ih =>
    obtain ⟨key,slot⟩ := e
    obtain ⟨key',t⟩ := f
    obtain ⟨rfl,tree⟩ := same
    by_cases none : slot.value = .undefined
    · have blank : t = .undefined := Except.ok.inj (tree.symm.trans (treeIn_undefined_iff.mpr none))
      subst blank
      exact .skip none ih
    · rw [toJsonFields_cons fun blank => none (treeIn_undefined_iff.mp (blank ▸ tree))]
      exact .entry none (inner _ _ tree) ih

theorem spellsItems_of_treeIn (inner : ∀ w t, h.treeIn depth w = .ok t → h.Spells w t.toJson)
    {items : List Slot} {trees : List Tree} (each : h.ItemsIn depth items trees) :
    h.SpellsItems items (Tree.toJsonItems trees) := by
  induction each with
  | nil => exact .nil
  | cons tree _ ih => exact .item (inner _ _ tree) ih

theorem spells_of_treeIn {t : Tree} (tree : h.treeIn depth v = .ok t) : h.Spells v t.toJson := by
  induction depth generalizing v t with
  | zero =>
    cases v with
    | object r => cases tree
    | array r => cases tree
    | _ => cases tree; constructor
  | succ depth ih =>
    cases v with
    | object r =>
      obtain ⟨fields,rfl,each⟩ := forall₂_of_treeIn_object tree
      exact .object (spellsEntries_of_treeIn (fun w t => ih) each)
    | array r =>
      obtain ⟨trees,rfl,each⟩ := forall₂_of_treeIn_array tree
      exact .array (spellsItems_of_treeIn (fun w t => ih) each)
    | _ => cases tree; constructor

mutual

/-- What is spelled is finite, so it is there within some levels. -/
theorem Spells.tree : ∀ {v : Value} {j : Json}, h.Spells v j →
    ∃ depth t, h.treeIn depth v = .ok t ∧ t.toJson = j
  | _, _, .undefined => ⟨0, _, rfl, rfl⟩
  | _, _, .null => ⟨0, _, rfl, rfl⟩
  | _, _, .bool _ => ⟨0, _, rfl, rfl⟩
  | _, _, .number _ => ⟨0, _, rfl, rfl⟩
  | _, _, .string _ => ⟨0, _, rfl, rfl⟩
  | _, _, .dateTime _ => ⟨0, _, rfl, rfl⟩
  | _, _, .object inner => by
    obtain ⟨depth,fields,each,rfl⟩ := inner.fields
    exact ⟨depth + 1, _, treeIn_object each, rfl⟩
  | _, _, .array inner => by
    obtain ⟨depth,trees,each,rfl⟩ := inner.trees
    exact ⟨depth + 1, _, treeIn_array each, rfl⟩

theorem SpellsEntries.fields : ∀ {entries : List (String × Slot)} {js : List (String × Json)},
    h.SpellsEntries entries js →
    ∃ depth fields, h.EntriesIn depth entries fields ∧ Tree.toJsonFields fields = js
  | _, _, .nil => ⟨0, [], .nil, rfl⟩
  | _, _, .skip missing rest => by
    obtain ⟨depth,fields,each,rfl⟩ := rest.fields
    exact ⟨depth, (_, .undefined) :: fields, .cons ⟨rfl, treeIn_undefined_iff.mpr missing⟩ each, rfl⟩
  | _, _, .entry there first rest => by
    obtain ⟨depth,t,tree,rfl⟩ := first.tree
    obtain ⟨depth',fields,each,rfl⟩ := rest.fields
    refine ⟨max depth depth', (_, t) :: fields, .cons ⟨rfl, treeIn_mono (Nat.le_max_left _ _) tree⟩
      (each.imp fun _ _ same => ⟨same.1, treeIn_mono (Nat.le_max_right _ _) same.2⟩), ?_⟩
    exact toJsonFields_cons fun blank => there (treeIn_undefined_iff.mp (blank ▸ tree))

theorem SpellsItems.trees : ∀ {items : List Slot} {js : List Json}, h.SpellsItems items js →
    ∃ depth trees, h.ItemsIn depth items trees ∧ Tree.toJsonItems trees = js
  | _, _, .nil => ⟨0, [], .nil, rfl⟩
  | _, _, .item first rest => by
    obtain ⟨depth,t,tree,rfl⟩ := first.tree
    obtain ⟨depth',trees,each,rfl⟩ := rest.trees
    exact ⟨max depth depth', t :: trees, .cons (treeIn_mono (Nat.le_max_left _ _) tree)
      (each.imp fun _ _ same => treeIn_mono (Nat.le_max_right _ _) same), rfl⟩

end

theorem toJson_eq_ok_iff (intact : h.Intact) (finds : h.Finds v) {j : Json} :
    h.toJson v = .ok j ↔ h.Spells v j := by
  rw [toJson_iff]
  constructor
  · rintro ⟨t,unfolded,rfl⟩
    exact spells_of_treeIn (treeIn_of_unfoldIn unfolded)
  · intro spells
    obtain ⟨depth,t,tree,rfl⟩ := spells.tree
    exact ⟨t, (unfold_iff intact finds).mpr ⟨depth, tree⟩, rfl⟩

end Spelling

section Failing

theorem unfoldIn_error_cyclic {e : ValueError} (failed : h.unfoldIn depth path v = .error e) :
    e = .cyclic := by
  induction depth generalizing path v e with
  | zero =>
    cases v with
    | object r => exact (Except.error.inj failed).symm
    | array r => exact (Except.error.inj failed).symm
    | _ => cases failed
  | succ depth ih =>
    cases v with
    | object r =>
      by_cases again : r ∈ path
      · rw [unfoldIn, if_pos (List.contains_iff_mem.mpr again)] at failed
        exact (Except.error.inj failed).symm
      · rw [unfoldIn_object again] at failed
        cases run : unfoldEntries (h.unfoldIn depth (r :: path)) (h.entries r) with
        | ok fields =>
          rw [run] at failed
          cases failed
        | error e' =>
          rw [run] at failed
          cases failed
          obtain ⟨entry,_,error⟩ := Except.mapM_error run
          rcases Except.bind_eq_error error with inner | ⟨t,_,error⟩
          · exact ih inner
          · cases error
    | array r =>
      by_cases again : r ∈ path
      · rw [unfoldIn, if_pos (List.contains_iff_mem.mpr again)] at failed
        exact (Except.error.inj failed).symm
      · rw [unfoldIn_array again] at failed
        cases run : (h.items r).mapM fun (s : Slot) => h.unfoldIn depth (r :: path) s.value with
        | ok trees =>
          rw [run] at failed
          cases failed
        | error e' =>
          rw [run] at failed
          cases failed
          obtain ⟨slot,_,inner⟩ := Except.mapM_error run
          exact ih inner
    | _ => cases failed

/-- The only failure is that a container is inside itself. -/
theorem toJson_error {e : ValueError} (failed : h.toJson v = .error e) : e = .cyclic := by
  unfold toJson at failed
  cases tree : h.unfold v with
  | ok t =>
    rw [tree] at failed
    cases failed
  | error e' =>
    rw [tree] at failed
    cases failed
    exact unfoldIn_error_cyclic tree

/-- A value that reaches a cycle has no JSON form. -/
theorem toJson_error_of_reachesCycle (intact : h.Intact) (finds : h.Finds v)
    (cycle : h.ReachesCycle v) : h.toJson v = .error .cyclic := by
  cases run : h.toJson v with
  | error e => rw [toJson_error run]
  | ok j =>
    obtain ⟨depth,t,tree,_⟩ := ((toJson_eq_ok_iff intact finds).mp run).tree
    exact (treeIn_of_reachesCycle intact finds cycle tree).elim

end Failing

/-- Cycle detection is exact. Both walks end on every heap. Making JSON fails just where a container
    that is reached can be reached from itself, and otherwise gives the tree that the value stands
    for. -/
theorem toJson_exact (intact : h.Intact) (finds : h.Finds v) :
    h.Converts [] v (h.toJson v) ∧ h.Shows [] v (h.display v) ∧
      (h.toJson v = .error .cyclic ↔ h.ReachesCycle v) ∧
      (∀ e, h.toJson v = .error e → e = .cyclic) ∧
      ∀ j, h.toJson v = .ok j ↔ h.Spells v j :=
  ⟨converts_unfoldIn (.start h v), shows_showIn (.start h v),
    ⟨reachesCycle_of_toJson_error, toJson_error_of_reachesCycle intact finds⟩,
    fun _ => toJson_error, fun _ => toJson_eq_ok_iff intact finds⟩

namespace SharedAndTied

/-- An object that is met twice, directly and in an array, and an object and an array that hold each
    other. -/
def sample : Heap where
  cells := #[.object ⟨.constant, [], none⟩, .array ⟨.constant, [], none⟩,
    .object ⟨.writable, [("left", ⟨.object 3, false⟩), ("none", ⟨.undefined, false⟩),
      ("right", ⟨.array 4, false⟩)], none⟩,
    .object ⟨.readOnly, [("on", ⟨.bool true, false⟩)], none⟩,
    .array ⟨.writable, [⟨.object 3, false⟩], none⟩,
    .object ⟨.writable, [("items", ⟨.array 6, false⟩)], none⟩,
    .array ⟨.writable, [⟨.null, false⟩, ⟨.object 5, false⟩], none⟩]

theorem told_apart :
    sample.ReachesCycle (.array 6) ∧
      sample.Spells (.object 2) (.object [("left", .object [("on", .bool true)]),
        ("right", .array [.object [("on", .bool true)]])]) := by
  have intact : sample.Intact := (sound_of_isSound (by decide)).intact
  obtain ⟨_,_,tied,_,_⟩ := toJson_exact intact (v := .array 6) ⟨_, rfl⟩
  obtain ⟨_,_,_,_,shared⟩ := toJson_exact intact (v := .object 2) ⟨_, rfl⟩
  exact ⟨tied.mp rfl, (shared _).mp rfl⟩

end SharedAndTied

end Statechart.Heap

import Statechart.Proofs.Value.Detection

/- Writing through a path. The walk makes the objects that are missing before the last write, but
   it makes the first of them only after it has been let into the object it leaves, and every later
   write goes to an object that it has just made. So nothing is refused once something is changed. -/
namespace Statechart.Heap

variable {h h' k : Heap} {o r s n : Nat} {c : ObjectCell} {key : String} {v w : Value}
  {path after : List String}

section Steps

/-- Sets a property, with the heap that is left behind either way. -/
def setLeaving (h : Heap) (r : Ref) (key : String) (v : Value) : Heap × Except ValueError Unit :=
  match h.set r key v with
  | .ok h' => (h', .ok ())
  | .error e => (h, .error e)

/-- Writes through a path step by step, with the heap that is left behind either way: what has been
    made or written when a step is refused is not taken back. -/
def setPathLeaving (h : Heap) (r : Ref) (path : List String) (v : Value) :
    Heap × Except ValueError Unit :=
  match path with
  | [] => (h, .error (.invalidPath "empty path"))
  | [last] => h.setLeaving r last v
  | segment :: rest =>
    match h.get r segment with
    | .object next => h.setPathLeaving next rest v
    | .undefined =>
      let (h, fresh) := h.newObject
      match h.setLeaving r segment (.object fresh) with
      | (h, .ok ()) => h.setPathLeaving fresh rest v
      | (h, .error e) => (h, .error e)
    | other => (h, .error (.typeMismatch "object" other.typeName))

/-- What is answered, out of what is left behind. -/
def answered (left : Heap × Except ValueError Unit) : Except ValueError Heap :=
  left.2.map fun _ => left.1

theorem set_eq_answered (h : Heap) (r : Ref) (key : String) (v : Value) :
    h.set r key v = answered (h.setLeaving r key v) := by
  unfold setLeaving answered
  cases h.set r key v with
  | ok h' => rfl
  | error e => rfl

/-- The steps are those of `setPath`. -/
theorem setPath_eq_answered (h : Heap) (r : Ref) (path : List String) (v : Value) :
    h.setPath r path v = answered (h.setPathLeaving r path v) := by
  induction path generalizing h r with
  | nil => rfl
  | cons segment rest ih =>
    cases rest with
    | nil => exact set_eq_answered h r segment v
    | cons next rest =>
      rw [setPath, setPathLeaving]
      · cases leads : h.get r segment with
        | object s => exact ih h s
        | undefined =>
          simp only [setLeaving]
          cases h.newObject.1.set r segment (.object h.newObject.2) with
          | ok k => exact ih k _
          | error e => rfl
        | _ => rfl
      · simp
      · simp

end Steps

section Shape

/-- The path leads from one object through objects to another. -/
inductive Follows (h : Heap) : Ref → List String → Ref → Prop where
  | here (r : Ref) : Follows h r [] r
  | on {r s t : Ref} {key : String} {path : List String} (leads : h.get r key = .object s)
      (rest : Follows h s path t) : Follows h r (key :: path) t

/-- What a chain of new objects hangs on: the first of them, or `v` when there are none. -/
def chainHead (n : Ref) (v : Value) : List String → Value
  | [] => v
  | _ :: _ => .object n

/-- New writable objects, the first at `n`: each holds the next one under its name and nothing
    else, the last one holds `v`. -/
def chain (n : Ref) (v : Value) : List String → List Cell
  | [] => []
  | key :: rest =>
    .object ⟨.writable, [(key, ⟨chainHead (n + 1) v rest, false⟩)], none⟩ :: chain (n + 1) v rest

/-- `h'` is `h` with one entry of the object `s` written and a chain of new objects at its end, so
    that the entry leads along the names `after` to `v`. -/
structure Threads (h : Heap) (s : Ref) (c : ObjectCell) (key : String) (after : List String)
    (v : Value) (h' : Heap) : Prop where
  found : h.cell? s = some (.object c)
  may : c.canSet key = true
  cells : h'.cells.toList =
    h.cells.toList.set s
        (.object { c with entries := insertEntry key ⟨chainHead h.size v after, false⟩ c.entries })
      ++ chain h.size v after

theorem cell?_eq_toList (h : Heap) (r : Ref) : h.cell? r = h.cells.toList[r]? :=
  (Array.getElem?_toList).symm

theorem size_eq_toList (h : Heap) : h.size = h.cells.toList.length := Array.length_toList.symm

theorem Threads.others (threads : Threads h s c key after v h') (inside : r < h.size)
    (other : r ≠ s) : h'.cell? r = h.cell? r := by
  rw [cell?_eq_toList, cell?_eq_toList, threads.cells, List.getElem?_append_left,
    List.getElem?_set_ne other.symm]
  rwa [List.length_set, ← size_eq_toList]

theorem Threads.written (threads : Threads h s c key after v h') :
    h'.cell? s = some (.object
      { c with entries := insertEntry key ⟨chainHead h.size v after, false⟩ c.entries }) := by
  have inside := lt_size_of_cell threads.found
  rw [size_eq_toList] at inside
  rw [cell?_eq_toList, threads.cells, List.getElem?_append_left, List.getElem?_set_self inside]
  rwa [List.length_set]

theorem Threads.new (threads : Threads h s c key after v h') (i : Nat) :
    h'.cell? (h.size + i) = (chain h.size v after)[i]? := by
  rw [cell?_eq_toList, threads.cells, List.getElem?_append_right]
  · simp [size_eq_toList]
  · simp [size_eq_toList]

end Shape

section Writing

theorem cells_report (h : Heap) (watcher : Option String) (changes : List (Bool × String × Value)) :
    (h.report watcher changes).cells = h.cells := by
  unfold report
  split <;> rfl

/-- A property can be set where the object lets it, and then one entry is written. -/
theorem setLeaving_of_canSet (found : h.cell? s = some (.object c)) (may : c.canSet key = true)
    (v : Value) : ∃ h', h.setLeaving s key v = (h', .ok ()) ∧ Threads h s c key [] v h' := by
  have there : h.object? s = some c := by rw [object?, found]
  have allowed : (decide (c.access = .constant) || (true && !c.canSet key)) = false := by
    simp [may, open_of_canSet may]
  unfold setLeaving Heap.set writeEntry
  simp only [there, allowed]
  refine ⟨_, rfl, found, may, ?_⟩
  simp [cells_report, Heap.write, chain, chainHead]

theorem setLeaving_cases (h : Heap) (found : h.cell? s = some (.object c)) (key : String)
    (v : Value) :
    (∃ e, h.setLeaving s key v = (h, .error e)) ∨
      ∃ h', h.setLeaving s key v = (h', .ok ()) ∧ Threads h s c key [] v h' := by
  by_cases may : c.canSet key = true
  · exact Or.inr (setLeaving_of_canSet found may v)
  · have there : h.object? s = some c := by rw [object?, found]
    refine Or.inl ⟨.cannotModify, ?_⟩
    unfold setLeaving Heap.set writeEntry
    simp [there, may]

theorem Threads.cells_of_new (link : Threads h.newObject.1 s c key [] (.object h.size) k)
    (inside : s < h.size) :
    k.cells.toList = h.cells.toList.set s (.object
        { c with entries := insertEntry key ⟨.object h.size, false⟩ c.entries }) ++
      [.object ⟨.writable, [], none⟩] := by
  rw [link.cells]
  simp only [chain, chainHead, List.append_nil, newObject, alloc, Array.toList_push]
  rw [List.set_append_left _ _ (size_eq_toList h ▸ inside)]

theorem Threads.lengthen {next : String} (found : h.cell? s = some (.object c))
    (link : Threads h.newObject.1 s c key [] (.object h.size) k)
    (rest : Threads k h.size ⟨.writable, [], none⟩ next after v h') :
    Threads h s c key (next :: after) v h' := by
  have shape := link.cells_of_new (lt_size_of_cell found)
  have size : k.size = h.size + 1 := by
    rw [size_eq_toList, shape]
    simp [size_eq_toList]
  refine ⟨found, link.may, ?_⟩
  rw [rest.cells, shape, size, List.set_append_right]
  · simp [size_eq_toList, chain, chainHead, insertEntry]
  · simp [size_eq_toList]

theorem Threads.new_found (link : Threads h.newObject.1 s c key [] (.object h.size) k)
    (inside : s < h.size) : k.cell? h.size = some (.object ⟨.writable, [], none⟩) := by
  rw [cell?_eq_toList, link.cells_of_new inside, List.getElem?_append_right]
  · simp [size_eq_toList]
  · simp [size_eq_toList]

/-- Writing on from an object that has just been made is never refused. -/
theorem setPathLeaving_fresh (found : h.cell? s = some (.object ⟨.writable, [], none⟩))
    (key : String) (after : List String) (v : Value) :
    ∃ h', h.setPathLeaving s (key :: after) v = (h', .ok ()) ∧
      Threads h s ⟨.writable, [], none⟩ key after v h' := by
  induction after generalizing h s key with
  | nil => exact setLeaving_of_canSet found rfl v
  | cons next rest ih =>
    have missing : h.get s key = .undefined := by
      simp [Heap.get, slot?, object?, found, ObjectCell.get?, lookupEntry]
    have still := extends_alloc h (.object ⟨.writable, [], none⟩) s _ found
    obtain ⟨k,put,link⟩ := setLeaving_of_canSet still (rfl : ObjectCell.canSet _ key = true) (.object h.size)
    obtain ⟨h',run,threads⟩ := ih (link.new_found (lt_size_of_cell found)) next
    refine ⟨h', ?_, link.lengthen found threads⟩
    rw [setPathLeaving]
    · have put' : h.newObject.1.setLeaving s key (.object h.newObject.2) = (k, .ok ()) := put
      simp only [missing, put']
      exact run
    · simp

/-- The walk is refused before a container is changed, or it writes one entry. -/
theorem setPathLeaving_cases (intact : h.Intact) (finds : h.Finds (.object r))
    (path : List String) (v : Value) :
    (∃ k e, h.setPathLeaving r path v = (k, .error e) ∧ h.Extends k) ∨
    ∃ h' before key after s c, h.setPathLeaving r path v = (h', .ok ()) ∧
      path = before ++ key :: after ∧ h.Follows r before s ∧ Threads h s c key after v h' ∧
      (after ≠ [] → h.get s key = .undefined) := by
  induction path generalizing r with
  | nil => exact Or.inl ⟨h, _, rfl, .refl h⟩
  | cons segment rest ih =>
    obtain ⟨c,found⟩ := finds
    cases rest with
    | nil =>
      rcases setLeaving_cases h found segment v with ⟨e,refused⟩ | ⟨h',done,threads⟩
      · exact Or.inl ⟨h, e, refused, .refl h⟩
      · exact Or.inr ⟨h', [], segment, [], r, c, done, rfl, .here r, threads,
          fun more => absurd rfl more⟩
    | cons next rest =>
      rw [setPathLeaving]
      · cases leads : h.get r segment with
        | object s =>
          have held : h.Finds (.object s) := intact r _ (mem_children_of_get leads rfl)
          rcases ih held with refused | ⟨h',before,key,after,t,d,done,split,follows,rest'⟩
          · exact Or.inl refused
          · exact Or.inr ⟨h', segment :: before, key, after, t, d, done, by rw [split]; rfl,
              .on leads follows, rest'⟩
        | undefined =>
          have grown : h.Extends h.newObject.1 := extends_alloc h _
          rcases setLeaving_cases h.newObject.1 (grown r _ found) segment (.object h.newObject.2)
            with ⟨e,refused⟩ | ⟨k,put,link⟩
          · refine Or.inl ⟨h.newObject.1, e, ?_, grown⟩
            simp only [refused]
          · -- From here on the objects are new, and the rest of the path goes through.
            obtain ⟨h',run,threads⟩ :=
              setPathLeaving_fresh (link.new_found (lt_size_of_cell found)) next rest v
            refine Or.inr ⟨h', [], segment, next :: rest, r, c, ?_, rfl, .here r,
              link.lengthen found threads, fun _ => leads⟩
            simp only [put]
            exact run
        | _ => exact Or.inl ⟨h, _, rfl, .refl h⟩
      · simp

end Writing

section Reading

theorem get_of_cell? (found : h.cell? r = some (.object c)) {slot : Slot}
    (look : c.get? key = some slot) : h.get r key = slot.value := by
  simp [Heap.get, slot?, object?, found, look]

theorem get_eq_of_cell? (same : h'.cell? r = h.cell? r) (key : String) :
    h'.get r key = h.get r key := by
  simp only [Heap.get, slot?, object?, same]

/-- A chain leads to what it ends in. -/
theorem getPath_chainHead (links : ∀ i d, (chain n v after)[i]? = some d → k.cell? (n + i) = some d) :
    k.getPath (chainHead n v after) after = v := by
  induction after generalizing n with
  | nil =>
    rw [chainHead, getPath]
  | cons next rest ih =>
    have first : k.cell? n = some (.object _) := links 0 _ rfl
    rw [chainHead, getPath, get_of_cell? first (if_pos rfl)]
    refine ih fun i d there => ?_
    rw [Nat.add_assoc, Nat.add_comm 1 i]
    exact links (i + 1) d there

theorem Follows.reaches (follows : h.Follows r path s) : Relation.ReflTransGen h.Within r s := by
  induction follows with
  | here => exact .refl
  | on leads _ ih => exact .head ⟨_, mem_children_of_get leads rfl, rfl⟩ ih

/-- Without a cycle the path does not come through the object that is written until it ends there,
    so it is still what it was. -/
theorem Threads.getPath {before : List String} (threads : Threads h s c key after v h')
    (follows : h.Follows r before s) (inside : h.Finds (.object r)) (intact : h.Intact)
    (acyclic : ¬ h.ReachesCycle (.object r)) :
    h'.getPath (.object r) (before ++ key :: after) = v := by
  induction follows with
  | here r =>
    have entry := lookupEntry_insertEntry key key ⟨chainHead h.size v after, false⟩ c.entries
    rw [if_pos rfl] at entry
    rw [List.nil_append, Heap.getPath, get_of_cell? threads.written entry]
    exact getPath_chainHead fun i d there => (threads.new i).trans there
  | @on r t s key' path leads rest ih =>
    have step : h.Within r t := ⟨_, mem_children_of_get leads rfl, rfl⟩
    have other : r ≠ s := by
      rintro rfl
      exact acyclic ⟨r, r, rfl, .refl, .head' step rest.reaches⟩
    obtain ⟨d,found⟩ := inside
    have same := get_eq_of_cell? (threads.others (lt_size_of_cell found) other) key'
    rw [List.cons_append, Heap.getPath, same, leads]
    exact ih threads (intact r _ (mem_children_of_get leads rfl)) fun cycle =>
      acyclic (cycle.of_child (mem_children_of_get leads rfl) rfl)

theorem Threads.slot? (threads : Threads h s c key after v h') (name : String) :
    h'.slot? s name =
      if key = name then some ⟨chainHead h.size v after, false⟩ else h.slot? s name := by
  simp only [Heap.slot?, object?, threads.written, threads.found, Option.bind_some, ObjectCell.get?,
    lookupEntry_insertEntry]

end Reading

/-- Writing through a path is all or nothing. A refusal leaves every container that there was as it
    was. Otherwise one entry of one of them has been written: the path leads to its object through
    objects that were there, and the entry now leads on, through new objects for the names that are
    left, to the value; everything else is as it was. If no container was inside itself, the path
    then leads to the value. -/
theorem setPath_all_or_nothing (intact : h.Intact) (finds : h.Finds (.object o))
    (path : List String) (v : Value) :
    (∀ e, h.setPath o path v = .error e →
      ∃ left, h.setPathLeaving o path v = (left, .error e) ∧ h.Extends left) ∧
    (∀ h', h.setPath o path v = .ok h' →
      (∃ before key after s c, path = before ++ key :: after ∧ h.Follows o before s ∧
        h.cell? s = some (.object c) ∧ (after ≠ [] → h.get s key = .undefined) ∧
        h'.cell? s = some (.object
          { c with entries := insertEntry key ⟨chainHead h.size v after, false⟩ c.entries }) ∧
        (∀ name, h'.slot? s name =
          if key = name then some ⟨chainHead h.size v after, false⟩ else h.slot? s name) ∧
        (∀ r < h.size, r ≠ s → h'.cell? r = h.cell? r) ∧
        ∀ i, h'.cell? (h.size + i) = (chain h.size v after)[i]?) ∧
      (¬ h.ReachesCycle (.object o) → h'.getPath (.object o) path = v)) := by
  rw [setPath_eq_answered]
  rcases setPathLeaving_cases intact finds path v with
    ⟨k,e,run,grown⟩ | ⟨k,before,key,after,s,c,run,split,follows,threads,missing⟩
  · refine ⟨fun e' refused => ?_, fun h' done => ?_⟩
    · rw [run] at refused ⊢
      cases refused
      exact ⟨k, rfl, grown⟩
    · rw [run] at done
      cases done
  · refine ⟨fun e refused => ?_, fun h' done => ?_⟩
    · rw [run] at refused
      cases refused
    · rw [run] at done
      cases done
      refine ⟨⟨before, key, after, s, c, split, follows, threads.found, missing, threads.written,
        threads.slot?, fun r inside other => threads.others inside other, threads.new⟩, ?_⟩
      intro acyclic
      rw [split]
      exact threads.getPath follows finds intact acyclic

namespace HalfMadePath

/-- An object that holds another one, which holds a closed one and an undefined entry. -/
def sample : Heap where
  cells := #[.object ⟨.constant, [], none⟩, .array ⟨.constant, [], none⟩,
    .object ⟨.writable, [("order", ⟨.object 3, false⟩)], none⟩,
    .object ⟨.writable, [("paid", ⟨.object 4, false⟩), ("by", ⟨.undefined, false⟩)], none⟩,
    .object ⟨.readOnly, [], none⟩]

theorem made_or_refused :
    (∃ h', sample.setPath 2 ["order", "by", "name", "last"] (.bool true) = .ok h' ∧
      h'.getPath (.object 2) ["order", "by", "name", "last"] = .bool true) ∧
    ∃ left, sample.setPathLeaving 2 ["order", "paid", "on", "day"] .null =
      (left, .error .cannotModify) ∧ sample.Extends left := by
  have intact : sample.Intact := (sound_of_isSound (by decide)).intact
  have finds : sample.Finds (.object 2) := ⟨_, rfl⟩
  have acyclic : ¬ sample.ReachesCycle (.object 2) := by
    intro cycle
    have refused := toJson_error_of_reachesCycle intact finds cycle
    cases refused
  obtain ⟨-,made⟩ := setPath_all_or_nothing intact finds ["order", "by", "name", "last"] (.bool true)
  obtain ⟨refused,-⟩ := setPath_all_or_nothing intact finds ["order", "paid", "on", "day"] .null
  exact ⟨⟨_, rfl, (made _ rfl).2 acyclic⟩, refused _ rfl⟩

end HalfMadePath

end Statechart.Heap

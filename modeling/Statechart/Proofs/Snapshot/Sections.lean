import Statechart.Machine.Snapshot
import Statechart.Proofs.Chart.Numbering
import Statechart.Proofs.Snapshot.Reading
import Statechart.Proofs.Value.Cycle

/- Snapshots are read back. The parts of a context that name states are stored by the states'
   positions in the document, which tell them apart; the others are stored as JSON. -/
namespace Statechart

namespace Json

@[simp] theorem nat?_ofNat (n : Nat) : (ofNat n).nat? = some n := by
  simp [ofNat, ofInt, nat?]

end Json

@[simp] theorem NodeType.ofJson?_name (t : NodeType) : ofJson? (.string t.name) = some t := by
  cases t <;> decide

theorem insertIndex_last {l : List Nat} {s : Nat} (last : ∀ t ∈ l, t < s) :
    insertIndex s l = l ++ [s] := by
  induction l with
  | nil => rfl
  | cons t rest ih =>
    have before := last t List.mem_cons_self
    rw [insertIndex, if_neg (Nat.lt_asymm before), if_neg (Nat.ne_of_gt before),
      ih fun u hu => last u (List.mem_cons_of_mem t hu)]
    rfl

/-- Sets are kept in ascending order, so putting their members in one after another gives them
    back. -/
theorem foldl_insertIndex {l : List Nat} (acc : List Nat) (ascending : (acc ++ l).Pairwise (· < ·)) :
    l.foldl (fun acc s => insertIndex s acc) acc = acc ++ l := by
  induction l generalizing acc with
  | nil => exact (List.append_nil acc).symm
  | cons s rest ih =>
    have last : ∀ t ∈ acc, t < s := fun t ht =>
      (List.pairwise_append.mp ascending).2.2 t ht s List.mem_cons_self
    rw [List.append_cons] at ascending
    rw [List.foldl_cons, insertIndex_last last, ih _ ascending, List.append_cons acc s rest]

namespace Chart

variable {library : ActionLibrary} {source : Source.ChartDef} {c : Chart}

theorem stateAt_document (accepted : compile library source = .ok c) {s : Nat}
    (inside : s < c.states.size) : c.stateAt (c.state s).document = .ok s := by
  rw [stateAt, findDocument_document accepted inside]

theorem resolve_eq (accepted : compile library source = .ok c) {s : Nat}
    (inside : s < c.states.size) {b : Bucket}
    (document : b.nat? .document = some (c.state s).document)
    (type : b.type? = some (c.state s).nodeType) : c.resolve b = .ok s := by
  rw [resolve, document]
  simp only [stateAt_document accepted inside]
  change (if b.type? = some (c.state s).nodeType then _ else _) = _
  rw [if_pos type]
  rfl

theorem resolve_store (accepted : compile library source = .ok c) {s : Nat}
    (inside : s < c.states.size) : c.resolve (c.state s).store = .ok s := by
  refine resolve_eq accepted inside ?_ ?_
  · simp [StateNode.store, Bucket.nat?, Bucket.addText, Bucket.addNat, Key.text]
  · simp [StateNode.store, Bucket.type?, Bucket.addText, Bucket.addNat, Bucket.addType, Key.text]

theorem restoreStates_store (accepted : compile library source = .ok c) {states : List Nat}
    (ascending : states.Pairwise (· < ·)) (inside : ∀ s ∈ states, s < c.states.size) {b : Bucket}
    {key : Key} (stored : b.nested? key = some (c.storeStates states)) :
    c.restoreStates b key = .ok states := by
  have resolved : (states.map fun s => (c.state s).store).mapM c.resolve = .ok (states.map id) :=
    Except.mapM_map_ok fun s hs => resolve_store accepted (inside s hs)
  rw [List.map_id] at resolved
  rw [restoreStates, stored]
  simp only [storeStates, Bucket.indexed_ofList, resolved]
  change Except.ok (states.foldl (fun acc s => insertIndex s acc) []) = _
  rw [foldl_insertIndex [] ascending]
  rfl

end Chart

/-- The records of a context are looked up by their states. -/
theorem lookup_eq_some_iff {α : Type} {l : List (Nat × α)} (distinct : (l.map (·.1)).Nodup)
    {s : Nat} {a : α} : l.lookup s = some a ↔ (s, a) ∈ l := by
  induction l with
  | nil => simp
  | cons p rest ih =>
    obtain ⟨t,b⟩ := p
    obtain ⟨fresh,others⟩ := List.nodup_cons.mp distinct
    rw [List.lookup_cons, List.mem_cons]
    by_cases here : s = t
    · subst here
      have absent : (s, a) ∉ rest := fun within => fresh (List.mem_map.mpr ⟨_, within, rfl⟩)
      simp [absent, eq_comm]
    · have other : (s == t) = false := by simpa using here
      simp [other, here, ih others]

theorem lookup_of_perm {α : Type} {l l' : List (Nat × α)} (perm : l'.Perm l)
    (distinct : (l.map (·.1)).Nodup) (s : Nat) : l'.lookup s = l.lookup s := by
  have distinct' : (l'.map (·.1)).Nodup := (perm.map (·.1)).nodup_iff.mpr distinct
  refine Option.ext fun a => ?_
  rw [lookup_eq_some_iff distinct', lookup_eq_some_iff distinct, perm.mem_iff]

namespace Context

variable {library : ActionLibrary} {source : Source.ChartDef} {c : Chart} {x : Context} {h : Heap}

/-- A context of a chart: its states are states of the chart, sets are in ascending order, and a
    history state has one record. -/
structure Placed (c : Chart) (x : Context) : Prop where
  configuration : x.configuration.Pairwise (· < ·)
  active : ∀ s ∈ x.configuration, s < c.states.size
  statesToInvoke : x.statesToInvoke.Pairwise (· < ·)
  entered : ∀ s ∈ x.statesToInvoke, s < c.states.size
  histories : (x.history.map (·.1)).Nodup
  recorded : ∀ r ∈ x.history, r.1 < c.states.size ∧ ∀ s ∈ r.2, s < c.states.size
  services : ∀ i ∈ x.invocations, i.state < c.states.size

theorem restoreRecord_store (accepted : Chart.compile library source = .ok c)
    {r : StateIndex × List StateIndex} (history : r.1 < c.states.size)
    (recorded : ∀ s ∈ r.2, s < c.states.size) : restoreRecord c (storeRecord c r) = .ok r := by
  have resolved : c.resolve (storeRecord c r) = .ok r.1 := by
    refine Chart.resolve_eq accepted history ?_ ?_
    · simp [storeRecord, StateNode.store, Bucket.nat?, Bucket.addText, Bucket.addNat, Key.text]
    · simp [storeRecord, StateNode.store, Bucket.type?, Bucket.addText, Bucket.addNat,
        Bucket.addType, Key.text]
  have list : (storeRecord c r).get? (.named "recorded") =
      some (.array (r.2.map fun s => Json.ofNat (c.state s).document)) := by
    simp [storeRecord]
  unfold restoreRecord
  rw [resolved, list]
  change (List.mapM _ (r.2.map fun s => Json.ofNat (c.state s).document) >>= fun states =>
    pure (r.1, states) : Except Fault (StateIndex × List StateIndex)) = _
  rw [Except.mapM_map_ok fun s hs => ?_, List.map_id]
  · rfl
  · simp only [Json.nat?_ofNat]
    exact Chart.stateAt_document accepted (recorded s hs)

theorem foldl_records {l : List (StateIndex × List StateIndex)}
    (acc : List (StateIndex × List StateIndex))
    (distinct : ((acc ++ l).map (·.1)).Nodup) :
    l.foldl (fun acc r => r :: acc.filter (·.1 ≠ r.1)) acc = l.reverse ++ acc := by
  induction l generalizing acc with
  | nil => rfl
  | cons r rest ih =>
    have moved : ((r :: acc) ++ rest).Perm (acc ++ r :: rest) := List.perm_middle.symm
    have apart : ((r :: acc ++ rest).map (·.1)).Nodup := (moved.map (·.1)).nodup_iff.mpr distinct
    have others : acc.filter (·.1 ≠ r.1) = acc := by
      refine List.filter_eq_self.mpr fun q hq => ?_
      have fresh := (List.nodup_cons.mp apart).1
      rw [List.mem_map] at fresh
      simp only [ne_eq, decide_not, Bool.not_eq_true', decide_eq_false_iff_not]
      exact fun same => fresh ⟨q, List.mem_append_left rest hq, same⟩
    rw [List.foldl_cons, others, ih _ apart, List.reverse_cons, List.append_assoc]
    rfl

theorem restoreHistory_store (accepted : Chart.compile library source = .ok c)
    (placed : x.Placed c) {b : Bucket}
    (stored : b.nested? .history = some (Bucket.ofList (x.sortedHistory.map (storeRecord c)))) :
    ∃ history, restoreHistory c b = .ok history ∧ ∀ s, history.lookup s = x.history.lookup s := by
  have sorted : x.sortedHistory.Perm x.history := List.mergeSort_perm _ _
  have distinct : (x.sortedHistory.map (·.1)).Nodup :=
    (sorted.map (·.1)).nodup_iff.mpr placed.histories
  have records : (x.sortedHistory.map (storeRecord c)).mapM (restoreRecord c) =
      .ok (x.sortedHistory.map id) := by
    refine Except.mapM_map_ok fun r hr => ?_
    obtain ⟨history,recorded⟩ := placed.recorded r (sorted.mem_iff.mp hr)
    exact restoreRecord_store accepted history recorded
  rw [List.map_id] at records
  have folded := foldl_records [] distinct
  rw [List.append_nil] at folded
  refine ⟨x.sortedHistory.reverse, ?_, ?_⟩
  · unfold restoreHistory
    simp only [stored, Bucket.indexed_ofList, records]
    exact congrArg Except.ok folded
  · exact lookup_of_perm ((List.reverse_perm _).trans sorted) placed.histories

theorem restoreInvocation_store (accepted : Chart.compile library source = .ok c) {i : Invocation}
    (inside : i.state < c.states.size) : restoreInvocation c (storeInvocation c i) = .ok i := by
  have id : (storeInvocation c i).text? .id = some i.invokeId := by
    simp [storeInvocation, Bucket.text?, Bucket.addText, Bucket.addNat, Key.text, Json.string?]
  have unique : (storeInvocation c i).text? (.named "unique_id") = some i.uniqueId := by
    simp [storeInvocation, Bucket.text?, Bucket.addText, Bucket.addNat, Key.text, Json.string?]
  have document : (storeInvocation c i).nat? .document = some (c.state i.state).document := by
    simp [storeInvocation, Bucket.nat?, Bucket.addText, Bucket.addNat, Key.text]
  have node : (storeInvocation c i).nat? (.named "node") = some i.node := by
    simp [storeInvocation, Bucket.nat?, Bucket.addNat, Key.text]
  have autoforward : (storeInvocation c i).bool? (.named "autoforward") = some i.autoforward := by
    simp [storeInvocation, Bucket.bool?, Json.bool?]
  rw [restoreInvocation, id, document]
  simp only [Chart.stateAt_document accepted inside, unique, node, autoforward, Option.getD_some]
  rfl

theorem restoreInvocations_store (accepted : Chart.compile library source = .ok c)
    (placed : x.Placed c) {b : Bucket} (stored : b.nested? .invocations =
      some (Bucket.ofList (x.invocations.map (storeInvocation c)))) :
    restoreInvocations c b = .ok x.invocations := by
  rw [restoreInvocations, stored]
  simp only [Bucket.indexed_ofList]
  have each : (x.invocations.map (storeInvocation c)).mapM (restoreInvocation c) =
      .ok (x.invocations.map id) :=
    Except.mapM_map_ok fun i hi => restoreInvocation_store accepted (placed.services i hi)
  rwa [List.map_id] at each

/-- An event that was stored and read back: only its data has been made anew. -/
def Requeued (h h' : Heap) (e e' : Event) : Prop :=
  ∃ j, h.toJson e.data = .ok j ∧ h'.MadeFrom e'.data j ∧ e' = { e with data := e'.data }

theorem Requeued.extend {h h' h'' : Heap} {e e' : Event} (requeued : Requeued h h' e e')
    (grown : h'.Extends h'') : Requeued h h'' e e' := by
  obtain ⟨j,json,made,same⟩ := requeued
  exact ⟨j, json, made.extend grown, same⟩

def storeEvent (h : Heap) (e : Event) : Except Fault Json :=
  match h.toJson e.data with
  | .ok data => .ok (Json.mkObject (e.fieldsWith data))
  | .error _ => .error .json

theorem storeQueue_eq (x : Context) (h : Heap) :
    x.storeQueue h = (x.internalQueue.mapM (storeEvent h)).map Json.array := by
  unfold storeQueue
  refine (congrArg (fun store => x.internalQueue.mapM store >>= fun events =>
    pure (Json.array events)) (funext fun e => ?_ : _ = storeEvent h)).trans ?_
  · simp only [Event.toFields_eq, storeEvent]
    cases h.toJson e.data with
    | error f => rfl
    | ok data => rfl
  · cases x.internalQueue.mapM (storeEvent h) with
    | error f => rfl
    | ok events => rfl

def readEvent (acc : Heap × List Event) (j : Json) : Except Fault (Heap × List Event) :=
  match (Manuscript.ofJson j).read (Event.read acc.1) with
  | some (h, e) => .ok (h, acc.2 ++ [e])
  | none => .error .json

theorem restoreQueue_eq (h : Heap) (b : Bucket) : restoreQueue h b =
    (((b.get? .internalQueue).bind Json.array?).getD []).foldlM readEvent (h, []) := rfl

theorem canonical_of_toJson {v : Value} {j : Json} (json : h.toJson v = .ok j) : j.Canonical := by
  unfold Heap.toJson at json
  cases tree : h.unfold v with
  | error e =>
    rw [tree] at json
    cases json
  | ok t =>
    rw [tree] at json
    cases json
    exact t.canonical_toJson

theorem readEvent_store {e : Event} {j : Json} (proper : e.name.Proper)
    (stored : storeEvent h e = .ok j) (acc : Heap × List Event) :
    ∃ h' e', readEvent acc j = .ok (h', acc.2 ++ [e']) ∧ acc.1.Extends h' ∧ Requeued h h' e e' := by
  unfold storeEvent at stored
  cases json : h.toJson e.data with
  | error f =>
    rw [json] at stored
    cases stored
  | ok data =>
    rw [json] at stored
    cases stored
    refine ⟨(acc.1.ofJson data).1, { e with data := (acc.1.ofJson data).2 }, ?_, ?_, ?_⟩
    · unfold readEvent
      rw [Event.read_ofJson proper (canonical_of_toJson json)]
    · exact Heap.extends_ofJson acc.1 data
    · exact ⟨data, json, Heap.madeFrom_ofJson acc.1 data, rfl⟩

theorem foldlM_readEvent {queue : List Event} {stored : List Json}
    (each : List.Forall₂ (fun e j => storeEvent h e = .ok j) queue stored)
    (proper : ∀ e ∈ queue, e.name.Proper) (acc : Heap × List Event) :
    ∃ h' events, stored.foldlM readEvent acc = .ok (h', acc.2 ++ events) ∧ acc.1.Extends h' ∧
      List.Forall₂ (Requeued h h') queue events := by
  induction each generalizing acc with
  | nil => exact ⟨acc.1, [], by rw [List.append_nil]; rfl, Heap.Extends.refl _, .nil⟩
  | @cons e j queue stored first _ ih =>
    obtain ⟨h₁,e',read,grown,requeued⟩ :=
      readEvent_store (proper e List.mem_cons_self) first acc
    obtain ⟨h₂,events,rest,grown',requeued'⟩ :=
      ih (fun d hd => proper d (List.mem_cons_of_mem e hd)) (h₁, acc.2 ++ [e'])
    refine ⟨h₂, e' :: events, ?_, grown.trans grown', .cons (requeued.extend grown') requeued'⟩
    rw [List.foldlM_cons, read]
    change stored.foldlM readEvent (h₁, acc.2 ++ [e']) = _
    rw [rest, List.append_assoc]
    rfl

/-- The internal queue is read back in order. -/
theorem restoreQueue_store {q : Json} (stored : x.storeQueue h = .ok q)
    (proper : ∀ e ∈ x.internalQueue, e.name.Proper) {b : Bucket}
    (found : b.get? .internalQueue = some q) (h₀ : Heap) :
    ∃ h' events, restoreQueue h₀ b = .ok (h', events) ∧ h₀.Extends h' ∧
      List.Forall₂ (Requeued h h') x.internalQueue events := by
  rw [storeQueue_eq] at stored
  cases list : x.internalQueue.mapM (storeEvent h) with
  | error f =>
    rw [list] at stored
    cases stored
  | ok events =>
    rw [list] at stored
    cases stored
    obtain ⟨h',events',run,grown,requeued⟩ :=
      foldlM_readEvent (Except.forall₂_of_mapM list) proper (h₀, [])
    refine ⟨h', events', ?_, grown, requeued⟩
    rw [restoreQueue_eq, found]
    exact run

/-- The entries of the data model that are stored. -/
def kept (x : Context) (h : Heap) : List (String × Slot) :=
  (h.entries x.dataModel).filter fun (key, slot) =>
    !systemVariables.contains key && !slot.value.isUndefined

def storeEntry (h : Heap) (entry : String × Slot) : Except Fault (String × Json) :=
  match h.toJson entry.2.value with
  | .ok j => .ok (entry.1, j)
  | .error e => .error (.value e)

theorem storeData_eq (x : Context) (h : Heap) :
    x.storeData h = ((x.kept h).mapM (storeEntry h)).map Json.mkObject := by
  unfold storeData
  change ((x.kept h).mapM (storeEntry h) >>= fun fields => pure (Json.mkObject fields)) = _
  cases (x.kept h).mapM (storeEntry h) with
  | error f => rfl
  | ok fields => rfl

theorem storeEntry_ok {entry : String × Slot} {field : String × Json}
    (stored : storeEntry h entry = .ok field) :
    entry.1 = field.1 ∧ h.toJson entry.2.value = .ok field.2 := by
  unfold storeEntry at stored
  cases json : h.toJson entry.2.value with
  | error e =>
    rw [json] at stored
    cases stored
  | ok j =>
    rw [json] at stored
    cases stored
    exact ⟨rfl, rfl⟩

theorem keys_kept (distinct : ((h.entries x.dataModel).map (·.1)).Nodup) :
    ((x.kept h).map (·.1)).Nodup :=
  List.Nodup.sublist (List.filter_sublist.map _) distinct

theorem storeData_ok {d : Json} (stored : x.storeData h = .ok d) : ∃ fields,
    d = Json.mkObject fields ∧
      List.Forall₂ (fun f e => e.1 = f.1 ∧ h.toJson e.2.value = .ok f.2) fields (x.kept h) := by
  rw [storeData_eq] at stored
  cases list : (x.kept h).mapM (storeEntry h) with
  | error f =>
    rw [list] at stored
    cases stored
  | ok fields =>
    rw [list] at stored
    cases stored
    refine ⟨fields, rfl, List.Forall₂.flip ?_⟩
    exact (Except.forall₂_of_mapM list).imp fun _ _ => storeEntry_ok

theorem keys_eq (made : Value → Json → Prop) {fields : List (String × Json)}
    {entries : List (String × Slot)}
    (each : List.Forall₂ (fun f e => e.1 = f.1 ∧ made e.2.value f.2) fields entries) :
    entries.map (·.1) = fields.map (·.1) := by
  induction each with
  | nil => rfl
  | cons here _ ih => rw [List.map_cons, List.map_cons, here.1, ih]

theorem restoreData_eq {fields : List (String × Json)} {b : Bucket}
    (found : b.get? .dataModel = some (Json.mkObject fields)) (h₀ : Heap) :
    restoreData h₀ b =
      (h₀.buildFields (Tree.ofJsonFields (Json.insertAll fields []))).1.alloc (.object
        ⟨.writable, (h₀.buildFields (Tree.ofJsonFields (Json.insertAll fields []))).2, none⟩) := by
  unfold restoreData
  rw [found]
  rfl

/-- The data model that is made from a snapshot: a writable object with the entries that were
    stored, each made from the JSON form of its value. -/
theorem restoreData_store {d : Json} (stored : x.storeData h = .ok d)
    (distinct : ((h.entries x.dataModel).map (·.1)).Nodup) {b : Bucket}
    (found : b.get? .dataModel = some d) (h₀ : Heap) :
    h₀.Extends (restoreData h₀ b).1 ∧ ∃ entries,
      (restoreData h₀ b).1.object? (restoreData h₀ b).2 = some ⟨.writable, entries, none⟩ ∧
      ∀ key, (lookupEntry key (x.kept h) = none ∧ lookupEntry key entries = none) ∨
        ∃ slot slot' j, lookupEntry key (x.kept h) = some slot ∧
          lookupEntry key entries = some slot' ∧ h.toJson slot.value = .ok j ∧
          (restoreData h₀ b).1.MadeFrom slot'.value j := by
  obtain ⟨fields,rfl,written⟩ := storeData_ok stored
  have keys : (fields.map (·.1)).Nodup := by
    rw [← keys_eq (fun v j => h.toJson v = .ok j) written]
    exact keys_kept distinct
  rw [restoreData_eq found]
  have made := Heap.buildFields_made h₀ (Json.insertAll fields [])
  have built := Heap.extends_buildFields h₀ (Tree.ofJsonFields (Json.insertAll fields []))
  generalize h₀.buildFields (Tree.ofJsonFields (Json.insertAll fields [])) = p at made built ⊢
  obtain ⟨h₁,entries⟩ := p
  have grown := Heap.extends_alloc h₁ (.object ⟨.writable, entries, none⟩)
  refine ⟨built.trans grown, entries, ?_, ?_⟩
  · unfold Heap.object?
    rw [Heap.alloc_snd, Heap.cell?_alloc]
  · intro key
    have same : Json.lookup key (Json.insertAll fields []) = Json.lookup key fields := by
      rw [Json.lookup_insertAll keys, Json.lookup, Option.or_none]
    rcases lookupEntry_of_forall₂ (fun v j => h.toJson v = .ok j) written key with
      ⟨absent,none⟩ | ⟨j,slot,present,some,json⟩
    · refine Or.inl ⟨none, ?_⟩
      rcases lookupEntry_of_forall₂ _ made key with ⟨_,none'⟩ | ⟨j',_,present',_,_⟩
      · exact none'
      · rw [same, absent] at present'
        cases present'
    · rcases lookupEntry_of_forall₂ _ made key with ⟨absent',_⟩ | ⟨j',slot',present',some',made'⟩
      · rw [same, present] at absent'
        cases absent'
      · rw [same, present] at present'
        cases present'
        exact Or.inr ⟨slot, slot', j, some, some', json, made'.extend grown⟩

/-- The result that a snapshot holds. -/
def restoreResult (h : Heap) (b : Bucket) : Heap × Value :=
  match b.get? .result with
  | some j => h.ofJson j
  | none => (h, .undefined)

/-- What the parts of a context are read from, if a snapshot is not refused. -/
theorem restore_ok {c : Chart} {h h' : Heap} {b : Bucket} {x : Context}
    (restored : restore c h b = .ok (h', x)) : ∃ k,
    c.restoreStates b .configuration = .ok x.configuration ∧
    c.restoreStates b .statesToInvoke = .ok x.statesToInvoke ∧
    restoreHistory c b = .ok x.history ∧ restoreQueue h b = .ok (k, x.internalQueue) ∧
    restoreInvocations c b = .ok x.invocations ∧ x.dataModel = (restoreData k b).2 ∧
    restoreResult (restoreData k b).1 b = (h', x.result) := by
  unfold restore at restored
  dsimp only at restored
  split at restored
  · cases restored
  · split at restored
    · cases restored
    · obtain ⟨configuration,active,restored⟩ := Except.bind_eq_ok restored
      obtain ⟨statesToInvoke,entered,restored⟩ := Except.bind_eq_ok restored
      obtain ⟨history,recorded,restored⟩ := Except.bind_eq_ok restored
      obtain ⟨⟨k,queue⟩,queued,restored⟩ := Except.bind_eq_ok restored
      obtain ⟨invocations,invoked,restored⟩ := Except.bind_eq_ok restored
      cases restored
      exact ⟨k, active, entered, recorded, queued, invoked, rfl, rfl⟩

end Context

end Statechart

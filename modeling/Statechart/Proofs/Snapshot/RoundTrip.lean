import Statechart.Proofs.Snapshot.Sections

/- Snapshots round trip. A context is stored unless a value in it holds itself, and what has been
   stored is read back: states, records, services and queue as they were, and every value as the
   one that its JSON form makes. -/
namespace Statechart

namespace Bucket

theorem nested?_of_get? {b : Bucket} {key : Key} {inner : Bucket}
    (found : b.get? key = some (.object inner.fields)) : b.nested? key = some inner := by
  rw [nested?, found]

end Bucket

namespace Context

variable {library : ActionLibrary} {source : Source.ChartDef} {c : Chart} {x y : Context}
  {h h' : Heap} {b : Bucket} {queue data : Json}

/-- The values of a context that a snapshot holds. -/
inductive Stores (x : Context) (h : Heap) : Value → Prop where
  | entry {key : String} {slot : Slot} (held : (key, slot) ∈ h.entries x.dataModel)
      (own : key ∉ systemVariables) : Stores x h slot.value
  | queued {e : Event} (held : e ∈ x.internalQueue) : Stores x h e.data
  | result (done : x.done = true) : Stores x h x.result

/-- All of a snapshot but the result. -/
def sections (x : Context) (c : Chart) (queue data : Json) : Bucket :=
  let b := Bucket.empty.addType .context
  let b := b.addText .checksum c.checksum
  let b := b.add .done (.bool x.done)
  let b := b.nest .configuration (c.storeStates x.configuration)
  let b := b.nest .statesToInvoke (c.storeStates x.statesToInvoke)
  let b := b.nest .history (Bucket.ofList (x.sortedHistory.map (storeRecord c)))
  let b := b.add .internalQueue queue
  let b := b.add .dataModel data
  b.nest .invocations (Bucket.ofList (x.invocations.map (storeInvocation c)))

/-- The result and the snapshot that ends with it. -/
def storeResult (x : Context) (h : Heap) (b : Bucket) : Except Fault Bucket :=
  if x.done then
    match h.toJson x.result with
    | .ok j => .ok (b.add .result j)
    | .error e => .error (.value e)
  else .ok b

theorem store_eq (x : Context) (c : Chart) (h : Heap) : x.store c h =
    (x.storeQueue h >>= fun queue => x.storeData h >>= fun data =>
      x.storeResult h (x.sections c queue data)) := rfl

theorem storeQueue_error {f : Fault} (failed : x.storeQueue h = .error f) :
    ∃ v, x.Stores h v ∧ h.ReachesCycle v := by
  rw [storeQueue_eq] at failed
  cases events : x.internalQueue.mapM (storeEvent h) with
  | ok stored =>
    rw [events] at failed
    cases failed
  | error f' =>
    obtain ⟨e,held,error⟩ := Except.mapM_error events
    unfold storeEvent at error
    cases json : h.toJson e.data with
    | ok j =>
      rw [json] at error
      cases error
    | error e' => exact ⟨e.data, .queued held, Heap.reachesCycle_of_toJson_error json⟩

theorem storeData_error {f : Fault} (failed : x.storeData h = .error f) :
    ∃ v, x.Stores h v ∧ h.ReachesCycle v := by
  rw [storeData_eq] at failed
  cases fields : (x.kept h).mapM (storeEntry h) with
  | ok stored =>
    rw [fields] at failed
    cases failed
  | error f' =>
    obtain ⟨⟨key,slot⟩,held,error⟩ := Except.mapM_error fields
    obtain ⟨held,keeps⟩ := List.mem_filter.mp held
    have own : key ∉ systemVariables := by
      simp only [Bool.and_eq_true, Bool.not_eq_true', List.contains_eq_mem,
        decide_eq_false_iff_not] at keeps
      exact keeps.1
    unfold storeEntry at error
    cases json : h.toJson slot.value with
    | ok j =>
      rw [json] at error
      cases error
    | error e' => exact ⟨slot.value, .entry held own, Heap.reachesCycle_of_toJson_error json⟩

theorem storeResult_error {f : Fault} (failed : x.storeResult h b = .error f) :
    ∃ v, x.Stores h v ∧ h.ReachesCycle v := by
  unfold storeResult at failed
  split at failed
  · rename_i done
    cases json : h.toJson x.result with
    | ok j =>
      rw [json] at failed
      cases failed
    | error e => exact ⟨x.result, .result done, Heap.reachesCycle_of_toJson_error json⟩
  · cases failed

/-- Storing fails only over a value that holds itself. -/
theorem reachesCycle_of_store_error {f : Fault} (failed : x.store c h = .error f) :
    ∃ v, x.Stores h v ∧ h.ReachesCycle v := by
  rw [store_eq] at failed
  cases queue : x.storeQueue h with
  | error f' => exact storeQueue_error queue
  | ok q =>
    cases data : x.storeData h with
    | error f' => exact storeData_error data
    | ok d =>
      rw [queue, data] at failed
      exact storeResult_error failed

/-- What stands in the snapshot of a context. -/
structure Written (x : Context) (c : Chart) (h : Heap) (b : Bucket) : Prop where
  type : b.type? = some .context
  checksum : b.text? .checksum = some c.checksum
  done : b.bool? .done = some x.done
  configuration : b.nested? .configuration = some (c.storeStates x.configuration)
  statesToInvoke : b.nested? .statesToInvoke = some (c.storeStates x.statesToInvoke)
  history : b.nested? .history = some (Bucket.ofList (x.sortedHistory.map (storeRecord c)))
  invocations : b.nested? .invocations =
    some (Bucket.ofList (x.invocations.map (storeInvocation c)))
  queue : ∃ j, b.get? .internalQueue = some j ∧ x.storeQueue h = .ok j
  data : ∃ j, b.get? .dataModel = some j ∧ x.storeData h = .ok j
  result : x.done = false ∧ b.get? .result = none ∨
    ∃ j, b.get? .result = some j ∧ h.toJson x.result = .ok j

theorem written_of_get? (queued : x.storeQueue h = .ok queue) (kept : x.storeData h = .ok data)
    (same : ∀ key : Key, key.text ≠ "result" → b.get? key = (x.sections c queue data).get? key)
    (result : x.done = false ∧ b.get? .result = none ∨
      ∃ j, b.get? .result = some j ∧ h.toJson x.result = .ok j) : x.Written c h b where
  type := by
    rw [Bucket.type?, same .type (by decide)]
    simp [sections, Bucket.addType, Bucket.addText, Bucket.nest, Key.text]
  checksum := by
    rw [Bucket.text?, same .checksum (by decide)]
    simp [sections, Bucket.addText, Bucket.nest, Key.text, Json.string?]
  done := by
    rw [Bucket.bool?, same .done (by decide)]
    simp [sections, Bucket.nest, Key.text, Json.bool?]
  configuration := by
    refine Bucket.nested?_of_get? ?_
    rw [same .configuration (by decide)]
    simp [sections, Bucket.nest, Key.text]
  statesToInvoke := by
    refine Bucket.nested?_of_get? ?_
    rw [same .statesToInvoke (by decide)]
    simp [sections, Bucket.nest, Key.text]
  history := by
    refine Bucket.nested?_of_get? ?_
    rw [same .history (by decide)]
    simp [sections, Bucket.nest, Key.text]
  invocations := by
    refine Bucket.nested?_of_get? ?_
    rw [same .invocations (by decide)]
    simp [sections, Bucket.nest, Key.text]
  queue := by
    refine ⟨queue, ?_, queued⟩
    rw [same .internalQueue (by decide)]
    simp [sections, Bucket.nest, Key.text]
  data := by
    refine ⟨data, ?_, kept⟩
    rw [same .dataModel (by decide)]
    simp [sections, Bucket.nest, Key.text]
  result := result

theorem written_of_store (stored : x.store c h = .ok b) : x.Written c h b := by
  rw [store_eq] at stored
  obtain ⟨queue,queued,stored⟩ := Except.bind_eq_ok stored
  obtain ⟨data,kept,stored⟩ := Except.bind_eq_ok stored
  unfold storeResult at stored
  split at stored
  · cases json : h.toJson x.result with
    | error e =>
      rw [json] at stored
      cases stored
    | ok j =>
      rw [json] at stored
      cases stored
      refine written_of_get? queued kept ?_ ?_
      · intro key other
        rw [Bucket.get?_add, if_neg fun same => other (same.symm.trans rfl)]
      · exact Or.inr ⟨j, by rw [Bucket.get?_add, if_pos rfl], json⟩
  · rename_i going
    cases stored
    refine written_of_get? queued kept (fun _ _ => rfl) (Or.inl ⟨by simpa using going, ?_⟩)
    simp [sections, Bucket.addType, Bucket.addText, Bucket.nest, Key.text]

/-- The context `y` is `x` as a snapshot keeps it. Values have been made anew from their JSON
    forms, and system variables and undefined data are gone. -/
structure Restores (x : Context) (h : Heap) (y : Context) (h' : Heap) : Prop where
  configuration : y.configuration = x.configuration
  statesToInvoke : y.statesToInvoke = x.statesToInvoke
  history : ∀ s, y.history.lookup s = x.history.lookup s
  invocations : y.invocations = x.invocations
  done : y.done = x.done
  queue : List.Forall₂ (Requeued h h') x.internalQueue y.internalQueue
  data : ∀ key, h'.contains y.dataModel key = true ↔
    key ∉ systemVariables ∧ (h.get x.dataModel key).isUndefined = false
  values : ∀ key, h'.contains y.dataModel key = true →
    ∃ j, h.toJson (h.get x.dataModel key) = .ok j ∧ h'.MadeFrom (h'.get y.dataModel key) j
  result : x.done = true → ∃ j, h.toJson x.result = .ok j ∧ h'.MadeFrom y.result j

theorem lookupEntry_eq_none {key : String} {entries : List (String × Slot)}
    (absent : key ∉ entries.map (·.1)) : lookupEntry key entries = none := by
  induction entries with
  | nil => rfl
  | cons e rest ih =>
    rw [List.map_cons, List.mem_cons, not_or] at absent
    rw [lookupEntry, if_neg (Ne.symm absent.1)]
    exact ih absent.2

theorem lookupEntry_filter {entries : List (String × Slot)} (p : String × Slot → Bool)
    (distinct : (entries.map (·.1)).Nodup) (key : String) :
    lookupEntry key (entries.filter p) = (lookupEntry key entries).filter fun s => p (key, s) := by
  induction entries with
  | nil => rfl
  | cons e rest ih =>
    obtain ⟨fresh,others⟩ := List.nodup_cons.mp distinct
    obtain ⟨k,slot⟩ := e
    rw [List.filter_cons, lookupEntry]
    by_cases here : k = key
    · subst here
      have gone : lookupEntry k (rest.filter p) = none :=
        lookupEntry_eq_none fun within =>
          fresh ((List.filter_sublist.map Prod.fst).subset within)
      by_cases keeps : p (k, slot) = true
      · simp [lookupEntry, Option.filter, keeps]
      · simp [gone, Option.filter, keeps]
    · rw [if_neg here, ← ih others]
      split
      · rw [lookupEntry, if_neg here]
      · rfl

theorem lookupEntry_kept (distinct : ((h.entries x.dataModel).map (·.1)).Nodup) (key : String) :
    lookupEntry key (x.kept h) = (h.slot? x.dataModel key).filter fun s =>
      !systemVariables.contains key && !s.value.isUndefined := by
  rw [kept, lookupEntry_filter _ distinct]
  unfold Heap.entries Heap.slot? ObjectCell.get?
  cases h.object? x.dataModel with
  | none => rfl
  | some o => rfl

theorem restored_data (distinct : ((h.entries x.dataModel).map (·.1)).Nodup) {r : Ref}
    {entries : List (String × Slot)} (made : h'.object? r = some ⟨.writable, entries, none⟩)
    (each : ∀ key, (lookupEntry key (x.kept h) = none ∧ lookupEntry key entries = none) ∨
      ∃ slot slot' j, lookupEntry key (x.kept h) = some slot ∧
        lookupEntry key entries = some slot' ∧ h.toJson slot.value = .ok j ∧
        h'.MadeFrom slot'.value j) (key : String) :
    (h'.contains r key = true ↔
      key ∉ systemVariables ∧ (h.get x.dataModel key).isUndefined = false) ∧
    (h'.contains r key = true →
      ∃ j, h.toJson (h.get x.dataModel key) = .ok j ∧ h'.MadeFrom (h'.get r key) j) := by
  have found : h'.slot? r key = lookupEntry key entries := by
    rw [Heap.slot?, made]
    rfl
  have stored := lookupEntry_kept distinct key
  unfold Heap.contains Heap.get
  rw [found]
  rcases each key with ⟨none,gone⟩ | ⟨slot,slot',j,some,there,json,value⟩
  · rw [none] at stored
    rw [gone]
    cases slot : h.slot? x.dataModel key with
    | none => simp [Value.isUndefined]
    | some s =>
      rw [slot] at stored
      simpa [Option.filter] using stored
  · rw [some] at stored
    obtain ⟨own,keeps⟩ := Option.filter_eq_some_iff.mp stored.symm
    rw [there, own]
    simp only [Bool.and_eq_true, Bool.not_eq_true', List.contains_eq_mem,
      decide_eq_false_iff_not] at keeps
    exact ⟨⟨fun _ => keeps, fun _ => rfl⟩, fun _ => ⟨j, json, value⟩⟩

theorem extends_restoreResult (h : Heap) (b : Bucket) : h.Extends (restoreResult h b).1 := by
  unfold restoreResult
  split
  · exact Heap.extends_ofJson _ _
  · exact Heap.Extends.refl _

theorem Written.restoreResult (written : x.Written c h b) (done : x.done = true) (h' : Heap) :
    ∃ j, h.toJson x.result = .ok j ∧
      (restoreResult h' b).1.MadeFrom (restoreResult h' b).2 j := by
  rcases written.result with ⟨going,_⟩ | ⟨j,found,json⟩
  · rw [done] at going
    cases going
  · refine ⟨j, json, ?_⟩
    rw [Context.restoreResult, found]
    exact Heap.madeFrom_ofJson h' j

/-- The heap and the context that a snapshot makes once its queue and its records have been read. -/
def reread (x : Context) (b : Bucket) (h : Heap) (queue : List Event)
    (history : List (StateIndex × List StateIndex)) : Heap × Context :=
  ((restoreResult (restoreData h b).1 b).1,
    { configuration := x.configuration
      statesToInvoke := x.statesToInvoke
      history
      internalQueue := queue
      dataModel := (restoreData h b).2
      invocations := x.invocations
      initialized := true
      done := x.done
      result := (restoreResult (restoreData h b).1 b).2 })

/-- Reads the sections of a snapshot. -/
def restoreSections (c : Chart) (h : Heap) (b : Bucket) : Except Fault (Heap × Context) := do
  let configuration ← c.restoreStates b .configuration
  let statesToInvoke ← c.restoreStates b .statesToInvoke
  let history ← restoreHistory c b
  let (h, internalQueue) ← restoreQueue h b
  let (h, dataModel) := restoreData h b
  let invocations ← restoreInvocations c b
  let (h, result) := restoreResult h b
  return (h, { configuration, statesToInvoke, history, internalQueue, dataModel, invocations
               initialized := true
               done := (b.bool? .done).getD false
               result })

/-- A snapshot of the chart is not refused. -/
theorem Written.restore_eq (written : x.Written c h b) (h' : Heap) :
    restore c h' b = restoreSections c h' b := by
  unfold restore
  rw [written.type, written.checksum]
  simp only [ne_eq, not_true_eq_false, if_false]
  rfl

theorem restore_of_sections {history : List (StateIndex × List StateIndex)} {queue : List Event}
    {h₁ : Heap} (written : x.Written c h b)
    (active : c.restoreStates b .configuration = .ok x.configuration)
    (entered : c.restoreStates b .statesToInvoke = .ok x.statesToInvoke)
    (records : restoreHistory c b = .ok history) (queued : restoreQueue h' b = .ok (h₁, queue))
    (services : restoreInvocations c b = .ok x.invocations) :
    restore c h' b = .ok (x.reread b h₁ queue history) := by
  rw [written.restore_eq, restoreSections, active, entered, records, queued, services, written.done]
  rfl

/-- What has been stored is read, whatever else is on the heap. -/
theorem restore_written (accepted : Chart.compile library source = .ok c) (placed : x.Placed c)
    (given : ∀ e ∈ x.internalQueue, e.name.Given) (written : x.Written c h b) (h₀ : Heap) :
    ∃ h₁ queue history, restore c h₀ b = .ok (x.reread b h₁ queue history) ∧
      (∀ s, history.lookup s = x.history.lookup s) ∧
      List.Forall₂ (Requeued h h₁) x.internalQueue queue := by
  obtain ⟨queue,queueAt,queued⟩ := written.queue
  obtain ⟨history,records,recorded⟩ := restoreHistory_store accepted placed written.history
  obtain ⟨h₁,events,readQueue,_,requeued⟩ :=
    restoreQueue_store queued (fun e he => (given e he).proper) queueAt h₀
  exact ⟨h₁, events, history, restore_of_sections written
    (Chart.restoreStates_store accepted placed.configuration placed.active written.configuration)
    (Chart.restoreStates_store accepted placed.statesToInvoke placed.entered
      written.statesToInvoke) records readQueue
    (restoreInvocations_store accepted placed written.invocations), recorded, requeued⟩

/-- What is read is what was stored. -/
theorem Written.restores (written : x.Written c h b)
    (distinct : ((h.entries x.dataModel).map (·.1)).Nodup) {h₁ : Heap} {queue : List Event}
    {history : List (StateIndex × List StateIndex)}
    (recorded : ∀ s, history.lookup s = x.history.lookup s)
    (requeued : List.Forall₂ (Requeued h h₁) x.internalQueue queue) :
    x.Restores h (x.reread b h₁ queue history).2 (x.reread b h₁ queue history).1 := by
  obtain ⟨data,dataAt,kept⟩ := written.data
  obtain ⟨grown,entries,object,each⟩ := restoreData_store kept distinct dataAt h₁
  have last := extends_restoreResult (restoreData h₁ b).1 b
  -- The result is made last, and what was made before stays.
  have later := restored_data distinct (last.object? object) fun key => (each key).imp id
    fun ⟨slot,slot',j,held,there,json,made⟩ =>
      ⟨slot, slot', j, held, there, json, made.extend last⟩
  exact {
    configuration := rfl
    statesToInvoke := rfl
    history := recorded
    invocations := rfl
    done := rfl
    queue := requeued.imp fun _ _ own => own.extend (grown.trans last)
    data := fun key => (later key).1
    values := fun key => (later key).2
    result := fun done => written.restoreResult done _ }

/-- A snapshot fails only over a value that reaches a container holding itself, and a snapshot that
    was taken is restored to the context it was taken of: the same states, records, services and
    queue, the same flags, and exactly the data that is neither the machine's own nor undefined,
    every value made anew from its JSON form. -/
theorem snapshot_round_trip (accepted : Chart.compile library source = .ok c) (placed : x.Placed c)
    (distinct : ((h.entries x.dataModel).map (·.1)).Nodup)
    (given : ∀ e ∈ x.internalQueue, e.name.Given) :
    (∀ f, x.store c h = .error f → ∃ v, x.Stores h v ∧ h.ReachesCycle v) ∧
      ∀ b, x.store c h = .ok b → ∀ h₀, ∃ h' y,
        restore c h₀ b = .ok (h', y) ∧ x.Restores h y h' := by
  refine ⟨fun f failed => reachesCycle_of_store_error failed, fun b stored h₀ => ?_⟩
  have written := written_of_store stored
  obtain ⟨h₁,queue,history,restored,recorded,requeued⟩ :=
    restore_written accepted placed given written h₀
  exact ⟨_, _, restored, written.restores distinct recorded requeued⟩

end Context

namespace Suspended

open Source

/-- A compound state with a history. -/
def source : ChartDef where
  name := none
  initial := none
  data := []
  extra := none
  states :=
    [.mk (.simple "outer" .state [])
        [.mk (.simple "a" .state []) [], .mk (.simple "b" .state []) [],
          .mk (.simple "h" .history [⟨none, none, some ["a"], .external, []⟩]) []],
      .mk (.simple "other" .state []) []]

def chart : Chart := Chart.compiled [] source

/-- Session, an object in an array, and a name without a value. -/
def heap : Heap where
  cells := Heap.initial.cells ++
    #[.object ⟨.writable, [("_sessionid", ⟨.string "s", true⟩), ("list", ⟨.array 3, false⟩),
        ("open", ⟨.undefined, false⟩)], none⟩,
      .array ⟨.writable, [⟨.object 4, false⟩, ⟨.null, false⟩], none⟩,
      .object ⟨.writable, [("text", ⟨.string "kept", false⟩)], none⟩]

def context : Context where
  configuration := [5]
  statesToInvoke := [5]
  history := [(4, [3])]
  internalQueue := [{ name := ⟨["to", "do"]⟩, type := .internal, data := .object 4 }]
  dataModel := 2
  invocations := [⟨"kid", "1", 5, 0, true⟩]

theorem context_placed : context.Placed chart where
  configuration := by decide +kernel
  active := by decide +kernel
  statesToInvoke := by decide +kernel
  entered := by decide +kernel
  histories := by decide +kernel
  recorded := by decide +kernel
  services := by decide +kernel

theorem names_given : ∀ e ∈ context.internalQueue, e.name.Given := by
  intro e he
  rw [List.mem_singleton.mp he]
  have parsed : EventName.parse "to.do" = .ok ⟨["to", "do"]⟩ := by decide +kernel
  exact .parsed parsed

/-- The context is stored and read back. -/
theorem context_restored : ∃ b h' y, context.store chart heap = .ok b ∧
    Context.restore chart Heap.initial b = .ok (h', y) ∧ context.Restores heap y h' ∧
    y.invocations.map (·.invokeId) = ["kid"] ∧ y.history.lookup 4 = some [3] ∧
    h'.contains y.dataModel "list" = true ∧ h'.contains y.dataModel "open" = false ∧
    h'.contains y.dataModel "_sessionid" = false := by
  have compiled : Chart.compile [] source = .ok chart := Chart.compile_eq_compiled (by decide +kernel)
  have kept : (context.store chart heap).isOk = true := by decide +kernel
  obtain ⟨-,again⟩ := Context.snapshot_round_trip compiled context_placed (h := heap)
    (by decide +kernel) names_given
  cases stored : context.store chart heap with
  | error f =>
    rw [stored] at kept
    cases kept
  | ok b =>
    obtain ⟨h',y,restored,same⟩ := again b stored Heap.initial
    refine ⟨b, h', y, rfl, restored, same, ?_, ?_, ?_, ?_, ?_⟩
    · rw [same.invocations]
      rfl
    · rw [same.history]
      rfl
    · exact (same.data "list").mpr (by decide +kernel)
    · exact Bool.eq_false_iff.mpr fun there => absurd ((same.data "open").mp there) (by decide +kernel)
    · exact Bool.eq_false_iff.mpr fun there =>
        absurd ((same.data "_sessionid").mp there) (by decide +kernel)

end Suspended

end Statechart

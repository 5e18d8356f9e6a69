import Statechart.Machine.Basic
import Statechart.Chart.Store

/- Snapshots: a machine's context as a bucket, and back.

   System variables and undefined data are not kept; the machine that takes up the run binds the
   first anew and declares the second again. -/
namespace Statechart

namespace Chart

def storeStates (c : Chart) (states : List StateIndex) : Bucket :=
  Bucket.ofList (states.map fun s => (c.state s).store)

def stateAt (c : Chart) (document : Nat) : Except Fault StateIndex :=
  match c.findDocument? document with
  | some s => .ok s
  | none => .error (.storage .unknownState)

/-- The state that a stored node refers to; its kind has to be the same still. -/
def resolve (c : Chart) (b : Bucket) : Except Fault StateIndex :=
  match b.nat? .document with
  | none => .error (.storage .nodeWithoutDocument)
  | some document => do
    let s ← c.stateAt document
    if b.type? = some (c.state s).nodeType then return s
    else throw (.storage .nodeOfOtherKind)

def restoreStates (c : Chart) (b : Bucket) (key : Key) : Except Fault (List StateIndex) :=
  match b.nested? key with
  | none => .ok []
  | some inner => do
    let states ← inner.indexed.mapM c.resolve
    return states.foldl (fun acc s => insertIndex s acc) []

end Chart

namespace Context

def storeRecord (c : Chart) (record : StateIndex × List StateIndex) : Bucket :=
  (c.state record.1).store.add (.named "recorded")
    (.array (record.2.map fun s => Json.ofNat (c.state s).document))

def sortedHistory (x : Context) : List (StateIndex × List StateIndex) :=
  x.history.mergeSort fun a b => a.1 ≤ b.1

def storeInvocation (c : Chart) (i : Invocation) : Bucket :=
  ((((((Bucket.empty.addType .invocation).addText .id i.invokeId).addText
    (.named "unique_id") i.uniqueId).addNat .document (c.state i.state).document).addNat
    (.named "node") i.node).add (.named "autoforward") (.bool i.autoforward))

def storeQueue (x : Context) (h : Heap) : Except Fault Json := do
  let events ← x.internalQueue.mapM fun e =>
    match e.toFields h with
    | .ok fields => .ok (Json.mkObject fields)
    | .error _ => .error .json
  return .array events

def storeData (x : Context) (h : Heap) : Except Fault Json := do
  let kept := (h.entries x.dataModel).filter fun (key, slot) =>
    !systemVariables.contains key && !slot.value.isUndefined
  let fields ← kept.mapM fun (key, slot) =>
    match h.toJson slot.value with
    | .ok j => .ok (key, j)
    | .error e => .error (.value e)
  return Json.mkObject fields

def store (x : Context) (c : Chart) (h : Heap) : Except Fault Bucket := do
  let queue ← x.storeQueue h
  let data ← x.storeData h
  let b := Bucket.empty.addType .context
  let b := b.addText .checksum c.checksum
  let b := b.add .done (.bool x.done)
  let b := b.nest .configuration (c.storeStates x.configuration)
  let b := b.nest .statesToInvoke (c.storeStates x.statesToInvoke)
  let b := b.nest .history (Bucket.ofList (x.sortedHistory.map (storeRecord c)))
  let b := b.add .internalQueue queue
  let b := b.add .dataModel data
  let b := b.nest .invocations (Bucket.ofList (x.invocations.map (storeInvocation c)))
  if x.done then
    match h.toJson x.result with
    | .ok j => return b.add .result j
    | .error e => throw (.value e)
  else return b

def restoreRecord (c : Chart) (b : Bucket) : Except Fault (StateIndex × List StateIndex) := do
  let s ← c.resolve b
  let recorded := ((b.get? (.named "recorded")).bind Json.array?).getD []
  let states ← recorded.mapM fun j =>
    match j.nat? with
    | some document => c.stateAt document
    | none => .error (.storage .historyEntryNotADocument)
  return (s, states)

/-- All records; of two for one history state the later stays. -/
def restoreHistory (c : Chart) (b : Bucket) :
    Except Fault (List (StateIndex × List StateIndex)) :=
  match b.nested? .history with
  | none => .ok []
  | some inner => do
    let records ← inner.indexed.mapM (restoreRecord c)
    return records.foldl (fun acc r => r :: acc.filter (·.1 ≠ r.1)) []

def restoreQueue (h : Heap) (b : Bucket) : Except Fault (Heap × List Event) :=
  let stored := ((b.get? .internalQueue).bind Json.array?).getD []
  stored.foldlM
    (fun (acc : Heap × List Event) j =>
      match (Manuscript.ofJson j).read (Event.read acc.1) with
      | some (h, e) => .ok (h, acc.2 ++ [e])
      | none => .error .json)
    (h, [])

def restoreData (h : Heap) (b : Bucket) : Heap × Ref :=
  let fields := ((b.get? .dataModel).bind Json.object?).getD []
  let (h, entries) := h.buildFields (Tree.ofJsonFields fields)
  h.alloc (.object ⟨.writable, entries, none⟩)

def restoreInvocation (c : Chart) (b : Bucket) : Except Fault Invocation :=
  match b.text? .id, b.nat? .document with
  | none, _ => .error (.storage .invocationWithoutId)
  | some _, none => .error (.storage .invocationWithoutState)
  | some invokeId, some document => do
    let state ← c.stateAt document
    return { invokeId
             uniqueId := (b.text? (.named "unique_id")).getD ""
             state
             node := (b.nat? (.named "node")).getD 0
             autoforward := (b.bool? (.named "autoforward")).getD false }

def restoreInvocations (c : Chart) (b : Bucket) : Except Fault (List Invocation) :=
  match b.nested? .invocations with
  | none => .ok []
  | some inner => inner.indexed.mapM (restoreInvocation c)

def restore (c : Chart) (h : Heap) (b : Bucket) : Except Fault (Heap × Context) := do
  if b.type? ≠ some .context then throw (.storage .notASnapshot)
  if b.text? .checksum ≠ some c.checksum then throw (.storage .otherChart)
  let configuration ← c.restoreStates b .configuration
  let statesToInvoke ← c.restoreStates b .statesToInvoke
  let history ← restoreHistory c b
  let (h, internalQueue) ← restoreQueue h b
  let (h, dataModel) := restoreData h b
  let invocations ← restoreInvocations c b
  let (h, result) := match b.get? .result with
    | some j => h.ofJson j
    | none => (h, .undefined)
  return (h, { configuration, statesToInvoke, history, internalQueue, dataModel, invocations
               initialized := true
               done := (b.bool? .done).getD false
               result })

end Context

def Machine.snapshot (m : Machine) : Except Fault Bucket := m.context.store m.chart m.heap

end Statechart

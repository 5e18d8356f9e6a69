import Statechart.Chart.Basic
import Statechart.Snapshot.Bucket

/- Charts and their nodes as buckets. -/
namespace Statechart

def StateNode.nodeType (s : StateNode) : NodeType :=
  match s.kind with
  | .state => .state
  | .parallel => .parallel
  | .final => .final
  | .history _ => .history

def StateNode.store (s : StateNode) : Bucket :=
  ((Bucket.empty.addType s.nodeType).addNat .document s.document).addText .id s.id

def TransitionNode.store (t : TransitionNode) : Bucket :=
  (Bucket.empty.addType .transition).addNat .document t.document

def InvokeNode.store (i : InvokeNode) : Bucket :=
  (Bucket.empty.addType .invoke).addNat .document i.document

namespace Chart

def storeState (c : Chart) : Nat → StateIndex → Bucket
  | 0, s => (c.state s).store
  | depth + 1, s =>
    let node := c.state s
    ((node.store.nest .transitions
        (Bucket.ofList (node.transitions.map fun t => (c.transition t).store))).nest .invokes
        (Bucket.ofList (node.invokes.map InvokeNode.store))).nest .children
        (Bucket.ofList (node.children.map (c.storeState depth)))

def store (c : Chart) : Bucket :=
  let b := Bucket.empty.addType .model
  let b := match c.name with
    | some name => b.addText .name name
    | none => b
  (b.addText .checksum c.checksum).nest .root (c.storeState c.states.size root)

end Chart

end Statechart

import Statechart.Expr.Basic
import Statechart.Value.Copy
import Statechart.Fault

/- Evaluating expressions over a heap. -/
namespace Statechart

structure Scope where
  data : Ref
  inState : String → Bool

namespace Expr

def holds (op : CompareOp) (o : Ordering) : Bool :=
  match op with
  | .eq => o == .eq
  | .ne => o != .eq
  | .gt => o == .gt
  | .ge => o != .lt
  | .lt => o == .lt
  | .le => o != .gt

/-- Equality is loose. Order against a missing value is false, and an error between values
    that have no order. -/
def compareValues (op : CompareOp) (l r : Value) : Except Failure Bool :=
  match op with
  | .eq => .ok (l.looseEq r)
  | .ne => .ok (!l.looseEq r)
  | _ =>
    if !l.isPresent || !r.isPresent then .ok false
    else
      match l.compare r with
      | some o => .ok (holds op o)
      | none =>
        .error (.execution ("cannot order " ++ l.typeName ++ " and " ++ r.typeName))

def combine (h : Heap) (op : ArithOp) (l r : Value) : Except Failure Value :=
  match op, l, r with
  | .add, .number a, .number b => .ok (.number (a + b))
  | .sub, .number a, .number b => .ok (.number (a - b))
  | .add, .string a, b => .ok (.string (a ++ h.display b))
  | .add, a, .string b => .ok (.string (h.display a ++ b))
  | _, _, _ =>
    .error (.execution ("cannot apply arithmetic to " ++ l.typeName ++ " and " ++ r.typeName))

def eval (scope : Scope) (h : Heap) : Expr → Except Failure (Heap × Value)
  | .literal t => .ok (h.build t)
  | .path segments => .ok (h, h.getPath (.object scope.data) segments)
  | .inState id => .ok (h, .bool (scope.inState id))
  | .not e => do
    let (h, v) ← eval scope h e
    return (h, .bool (!v.isTruthy))
  | .and l r => do
    let (h, v) ← eval scope h l
    if v.isTruthy then
      let (h, w) ← eval scope h r
      return (h, .bool w.isTruthy)
    else return (h, .bool false)
  | .or l r => do
    let (h, v) ← eval scope h l
    if v.isTruthy then return (h, .bool true)
    else
      let (h, w) ← eval scope h r
      return (h, .bool w.isTruthy)
  | .compare op l r => do
    let (h, v) ← eval scope h l
    let (h, w) ← eval scope h r
    let b ← compareValues op v w
    return (h, .bool b)
  | .arith op l r => do
    let (h, v) ← eval scope h l
    let (h, w) ← eval scope h r
    let x ← combine h op v w
    return (h, x)

end Expr

end Statechart

import Statechart.Value.Basic
import Statechart.Decimal.Layout
import Statechart.Text.Quoted

/- The expression language of conditions and values: abstract form and text. -/
namespace Statechart

inductive CompareOp where
  | eq | ne | gt | ge | lt | le
deriving DecidableEq, Repr

inductive ArithOp where
  | add | sub
deriving DecidableEq, Repr

inductive Expr where
  /-- A constant. Containers are built anew at each evaluation. -/
  | literal (t : Tree)
  | path (segments : List String)
  | inState (id : String)
  | not (e : Expr)
  | and (l r : Expr)
  | or (l r : Expr)
  | compare (op : CompareOp) (l r : Expr)
  | arith (op : ArithOp) (l r : Expr)

namespace Tree

mutual

def display : Tree → String
  | .undefined => "undefined"
  | .null => "null"
  | .bool b => if b then "true" else "false"
  | .number f => Decimal.displayText f
  | .string s => s
  | .dateTime t => t.text
  | .object fields => "(" ++ displayFields fields ++ ")"
  | .array items => "[" ++ displayItems items ++ "]"

def displayItems : List Tree → String
  | [] => ""
  | [t] => display t
  | t :: rest => display t ++ "," ++ displayItems rest

def displayFields : List (String × Tree) → String
  | [] => ""
  | [(k, t)] => k ++ "=" ++ display t
  | (k, t) :: rest => k ++ "=" ++ display t ++ "," ++ displayFields rest

end

end Tree

namespace CompareOp

def symbol : CompareOp → String
  | .eq => "=="
  | .ne => "!="
  | .gt => ">"
  | .ge => ">="
  | .lt => "<"
  | .le => "<="

end CompareOp

namespace ArithOp

def symbol : ArithOp → String
  | .add => "+"
  | .sub => "-"

end ArithOp

namespace Expr

def text : Expr → String
  | .literal (.string s) => Text.quoted s
  | .literal t => t.display
  | .path segments => String.intercalate "." segments
  | .inState id => "In('" ++ id ++ "')"
  | .not e => "!" ++ e.text
  | .and l r => "(" ++ l.text ++ " && " ++ r.text ++ ")"
  | .or l r => "(" ++ l.text ++ " || " ++ r.text ++ ")"
  | .compare op l r => l.text ++ " " ++ op.symbol ++ " " ++ r.text
  | .arith op l r => "(" ++ l.text ++ " " ++ op.symbol ++ " " ++ r.text ++ ")"

end Expr

end Statechart

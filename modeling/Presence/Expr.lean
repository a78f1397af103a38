import Presence.Token

/-! Condition expressions. -/
namespace Presence

inductive UnaryOp
  | not
  | minus
  /-- An operator without a meaning in formulas. -/
  | other (symbol : String)
  deriving DecidableEq, Repr

def UnaryOp.symbol : UnaryOp → String
  | not => "!"
  | minus => "-"
  | other s => s

def UnaryOp.ofSymbol (s : String) : UnaryOp :=
  if s = "!" then not else if s = "-" then minus else other s

inductive Comparison
  | eq | ne | lt | le | gt | ge
  deriving DecidableEq, Repr

namespace Comparison

def symbol : Comparison → String
  | eq => "=="
  | ne => "!="
  | lt => "<"
  | le => "<="
  | gt => ">"
  | ge => ">="

/-- The comparison that holds of `y`, `x` when this one holds of `x`, `y`. -/
def swap : Comparison → Comparison
  | eq => eq
  | ne => ne
  | lt => gt
  | le => ge
  | gt => lt
  | ge => le

@[simp] theorem swap_swap (c : Comparison) : c.swap.swap = c := by
  cases c <;> rfl

def all : List Comparison :=
  [eq, ne, lt, le, gt, ge]

end Comparison

inductive BinaryOp
  | or
  | and
  | compare (c : Comparison)
  /-- An operator without a meaning in formulas. -/
  | other (symbol : String)
  deriving DecidableEq, Repr

def BinaryOp.symbol : BinaryOp → String
  | or => "||"
  | and => "&&"
  | compare c => c.symbol
  | other s => s

def BinaryOp.ofSymbol (s : String) : BinaryOp :=
  if s = "||" then or
  else if s = "&&" then and
  else match Comparison.all.find? (·.symbol = s) with
    | some c => compare c
    | none => other s

/-- An integer keeps its spelling beside its value. `absent` is an operand that is not there: a
call without an argument has one. -/
inductive Expr
  | integer (spelling : String) (value : Int)
  | identifier (name : String)
  | call (function : String) (argument : Expr)
  | unary (op : UnaryOp) (operand : Expr)
  | binary (op : BinaryOp) (left right : Expr)
  | conditional (condition thenExpr elseExpr : Expr)
  | absent
  deriving DecidableEq, Repr, Inhabited

end Presence

/-! Boolean formulas over named variables. -/
namespace Presence

inductive Formula
  | const (b : Bool)
  | var (name : String)
  | not (f : Formula)
  | and (l r : Formula)
  | or (l r : Formula)
  deriving DecidableEq, Repr, Inhabited

namespace Formula

def eval (v : String → Bool) : Formula → Bool
  | const b => b
  | var name => v name
  | not f => !f.eval v
  | and l r => l.eval v && r.eval v
  | or l r => l.eval v || r.eval v

def isBinary : Formula → Bool
  | and _ _ | or _ _ => true
  | _ => false

/-- Parentheses around the text of a conjunction or disjunction that is an operand. -/
def enclose (f : Formula) (text : String) : String :=
  if f.isBinary then "(" ++ text ++ ")" else text

def render : Formula → String
  | const b => if b then "1" else "0"
  | var name => name
  | not f => "!" ++ f.enclose f.render
  | and l r => l.enclose l.render ++ " && " ++ r.enclose r.render
  | or l r => l.enclose l.render ++ " || " ++ r.enclose r.render

def count (name : String) : Formula → Nat
  | const _ => 0
  | var n => if n = name then 1 else 0
  | not f => f.count name
  | and l r => l.count name + r.count name
  | or l r => l.count name + r.count name

/-- The levels of operands. -/
def depth : Formula → Nat
  | const _ | var _ => 1
  | not f => f.depth + 1
  | and l r | or l r => max l.depth r.depth + 1

/-- The text of a formula, of which each level of operands takes a unit of the budget. -/
def render? : (budget : Nat) → Formula → Option String
  | 0, _ => none
  | n + 1, f =>
    match f with
    | const b => some (if b then "1" else "0")
    | var name => some name
    | not f => do
      let text ← f.render? n
      return "!" ++ f.enclose text
    | and l r => do
      let left ← l.render? n
      let right ← r.render? n
      return l.enclose left ++ " && " ++ r.enclose right
    | or l r => do
      let left ← l.render? n
      let right ← r.render? n
      return l.enclose left ++ " || " ++ r.enclose right

def count? (name : String) : (budget : Nat) → Formula → Option Nat
  | 0, _ => none
  | n + 1, f =>
    match f with
    | const _ => some 0
    | var other => some (if other = name then 1 else 0)
    | not f => f.count? name n
    | and l r | or l r => do
      let left ← l.count? name n
      let right ← r.count? name n
      return left + right

/-- The conjunction of `f` and then each of `fs`, nested to the left. -/
def andAll (f : Formula) (fs : List Formula) : Formula :=
  fs.foldl and f

/-- The left-nested conjunction of a list; an empty list has none. -/
def conjoin? : List Formula → Option Formula
  | [] => none
  | f :: fs => some (andAll f fs)

def emptyConjunctionMessage : String :=
  "Cannot conjoin an empty sequence of formulas"

def noneOf (f : Formula) (fs : List Formula) : Formula :=
  andAll (not f) (fs.map not)

theorem depth_pos (f : Formula) : 0 < f.depth := by
  cases f <;> simp [depth]

/-- What takes two operands is there when both of them are. -/
theorem binary_within {α β : Type} {m k n : Nat} (a b : α) (g : α → α → β) :
    ((if m ≤ n then some a else none) >>= fun x => (if k ≤ n then some b else none) >>= fun y =>
      pure (g x y)) = if max m k + 1 ≤ n + 1 then some (g a b) else none := by
  simp only [Nat.add_le_add_iff_right, Nat.max_le]
  by_cases hm : m ≤ n <;> by_cases hk : k ≤ n <;> simp [hm, hk]

/-- There is a text when the budget has a unit for each level. -/
theorem render?_eq (n : Nat) (f : Formula) :
    f.render? n = if f.depth ≤ n then some f.render else none := by
  induction n generalizing f with
  | zero => rw [render?, if_neg (Nat.not_le.mpr f.depth_pos)]
  | succ n ih =>
    cases f with
    | const b | var name => simp [render?, depth, render]
    | not f =>
      by_cases hf : f.depth ≤ n <;> simp [render?, ih, depth, render, hf]
    | and l r | or l r =>
      rw [render?, ih, ih]
      exact binary_within _ _ _

theorem count?_eq (name : String) (n : Nat) (f : Formula) :
    f.count? name n = if f.depth ≤ n then some (f.count name) else none := by
  induction n generalizing f with
  | zero => rw [count?, if_neg (Nat.not_le.mpr f.depth_pos)]
  | succ n ih =>
    cases f with
    | const b | var other => simp [count?, depth, count]
    | not f =>
      simp only [count?, ih, depth, count, Nat.add_le_add_iff_right]
    | and l r | or l r =>
      rw [count?, ih, ih]
      exact binary_within _ _ _

@[simp] theorem andAll_nil (f : Formula) : andAll f [] = f := rfl

@[simp] theorem andAll_cons (f g : Formula) (fs : List Formula) :
    andAll f (g :: fs) = andAll (and f g) fs := rfl

theorem andAll_append (f : Formula) (fs gs : List Formula) :
    andAll f (fs ++ gs) = andAll (andAll f fs) gs := by
  simp [andAll]

@[simp] theorem eval_andAll (v : String → Bool) (f : Formula) (fs : List Formula) :
    (andAll f fs).eval v = (f.eval v && fs.all (·.eval v)) := by
  induction fs generalizing f with
  | nil => simp
  | cons g gs ih => simp [ih, eval, Bool.and_assoc]

@[simp] theorem eval_noneOf (v : String → Bool) (f : Formula) (fs : List Formula) :
    (noneOf f fs).eval v = !(f :: fs).any (·.eval v) := by
  simp only [noneOf, eval_andAll, eval, List.any_cons, Bool.not_or, List.all_map]
  congr 1
  induction fs with
  | nil => rfl
  | cons g gs ih => simp [eval, ih]

end Formula
end Presence

/-! What a caller can choose, and the depth of calls that is left to a run. -/
namespace Presence

/-- What becomes of a condition that has no formula: the file fails, the condition counts as true,
or a variable stands in for it. -/
inductive InvalidHandling
  | fail
  | assumeTrue
  | errorVariable
  deriving DecidableEq, Repr

def InvalidHandling.word : InvalidHandling → String
  | .fail => "exception"
  | .assumeTrue => "true"
  | .errorVariable => "error_variable"

def InvalidHandling.all : List InvalidHandling :=
  [.fail, .assumeTrue, .errorVariable]

theorem InvalidHandling.mem_all (h : InvalidHandling) : h ∈ all := by
  cases h <;> decide

/-- With `linux`, the kernel's configuration tests have a meaning. With `fuzzy`, comparisons and
bare names become variables of their own. With `pseudoBlock`, a file with lines outside every
conditional is wrapped in one block. -/
structure Options where
  linux : Bool := false
  fuzzy : Bool := false
  invalid : InvalidHandling := .fail
  pseudoBlock : Bool := true
  deriving DecidableEq, Repr

/-- The fewest calls that a run is left with. A condition without parentheses needs no more. -/
def leastCalls : Nat := 100

/-- How many calls can still be made inside each other. -/
structure CallBudget where
  calls : Nat := 1000
  room : leastCalls ≤ calls := by decide
  deriving DecidableEq, Repr

namespace CallBudget

/-- What a run starts with. -/
def full : CallBudget := {}

/-- What is left to a function that is one call further from the start. -/
def below (b : CallBudget) : CallBudget where
  calls := max leastCalls (b.calls - 1)
  room := Nat.le_max_left _ _

theorem calls_below_le (b : CallBudget) : b.below.calls ≤ b.calls :=
  Nat.max_le.mpr ⟨b.room, Nat.sub_le _ _⟩

/-- The levels of operands that can be translated, at two calls each. -/
def translatedLevels (b : CallBudget) : Nat := b.calls / 2

theorem exists_calls_eq (b : CallBudget) {k : Nat} (hk : k ≤ leastCalls) :
    ∃ n, b.calls = n + k :=
  Nat.exists_eq_add_of_le' (Nat.le_trans hk b.room)

theorem exists_translatedLevels_eq (b : CallBudget) {k : Nat} (hk : k ≤ leastCalls / 2) :
    ∃ n, b.translatedLevels = n + k :=
  Nat.exists_eq_add_of_le' (Nat.le_trans hk (Nat.div_le_div_right b.room))

end CallBudget

/-- The levels of a formula that can be printed, at four calls each. -/
def printedLevels (calls : Nat) : Nat := calls / 4

structure Context extends Options where
  budget : CallBudget := .full
  deriving DecidableEq, Repr

def Context.below (o : Context) : Context :=
  { o with budget := o.budget.below }

end Presence

import Presence.Formula

/-! Blocks: the branches of conditionals, nested as in the file. -/
namespace Presence

/-- The lines `first` to `last` of a file, the branch's own condition, and the presence condition,
which takes in the enclosing branches. -/
structure Block where
  first : Nat
  last : Nat
  file : String
  condition : Formula
  presence : Formula
  children : List Block
  deriving Repr

namespace Block

/-- A block around a whole file. -/
def whole (file : String) (last : Nat) (children : List Block) : Block :=
  ⟨1, last, file, .const true, .const true, children⟩

end Block
end Presence

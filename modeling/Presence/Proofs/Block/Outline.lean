import Mathlib.Data.List.Forall2
import Presence.Proofs.Block.Printing
import Presence.Proofs.Block.Siblings
import Presence.Proofs.Block.Traversal

/-!
Blocks as indented lines. There is one line for each block, and the presence condition stands on
those of the blocks that lie in a branch.
-/
namespace Presence

namespace Block

def plainLine (depth : Nat) (b : Block) : String :=
  indentation depth ++ toString b.first ++ "-" ++ toString b.last ++ ": " ++ b.condition.render

def presenceNote (b : Block) : String :=
  "  [pc: " ++ b.presence.render ++ "]"

theorem headline_eq (depth : Nat) (b : Block) :
    headline depth b =
      plainLine depth b ++ if b.presence = b.condition then "" else b.presenceNote := by
  simp only [headline, plainLine, presenceNote, rangeText, noteText, String.append_assoc]
  split
  · rw [String.append_empty]
  · rfl

end Block

open Block

variable {o : Context} {file : String} {lines : List LogicalLine} {forest path : List Block}
  {b : Block}

end Presence

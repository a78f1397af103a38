import Presence.Proofs.Block.Transfer

/-!
Runs that differ in their conditions alone. When each tested condition of one run is the image of
the other's, so are the conditions of all blocks, which include copies of earlier ones.
-/
namespace Presence

namespace Block

mutual

def mapConditions (g : Formula → Formula) : Block → Block
  | ⟨first, last, file, condition, presence, children⟩ =>
    ⟨first, last, file, g condition, g presence, mapAllConditions g children⟩

def mapAllConditions (g : Formula → Formula) : List Block → List Block
  | [] => []
  | b :: bs => mapConditions g b :: mapAllConditions g bs

end

theorem mapAllConditions_eq_map (g : Formula → Formula) (bs : List Block) :
    mapAllConditions g bs = bs.map (mapConditions g) := by
  induction bs with
  | nil => rfl
  | cons b bs ih => rw [mapAllConditions, ih, List.map_cons]

theorem mapConditions_mk (g : Formula → Formula) (first last : Nat) (file : String)
    (condition presence : Formula) (children : List Block) :
    mapConditions g ⟨first, last, file, condition, presence, children⟩ =
      ⟨first, last, file, g condition, g presence, children.map (mapConditions g)⟩ := by
  rw [mapConditions, mapAllConditions_eq_map]

end Block

def OpenBranch.mapConditions (g : Formula → Formula) (b : OpenBranch) : OpenBranch :=
  ⟨b.first, g b.condition, g b.presence, b.children.map (Block.mapConditions g), b.earlier.map g⟩

def Transfer.conditions (g : Formula → Formula) : Transfer :=
  ⟨g, id, id, Block.mapConditions g, OpenBranch.mapConditions g⟩

theorem Transfer.lawful_conditions {g : Formula → Formula} (hg : Formula.KeepsShape g) :
    (conditions g).Lawful where
  keepsShape := hg
  opened _ _ _ _ := rfl
  filled b block := by simp [conditions, OpenBranch.mapConditions]
  first _ := rfl
  presence _ := rfl
  earlier _ := rfl
  closed b file n _ :=
    Block.mapConditions_mk g b.first (n - 1) file b.condition b.presence b.children

theorem Transfer.error_conditions (g : Formula → Formula) : (conditions g).error = id := by
  funext e
  simp [error, conditions]

/-- If each condition that is tested has an image in the other run, so has each condition of the
blocks, and the outcome is otherwise the same. -/
theorem readBlocks_mapConditions {o o' : Context} {file : String} {lines : List (List Char)}
    {g : Formula → Formula} (hg : Formula.KeepsShape g) (hpseudo : o'.pseudoBlock = o.pseudoBlock)
    (h : ∀ l e, TestedAt o file lines l e → condition o' e = (condition o e).map g) :
    readBlocks o' file lines =
      (readBlocks o file lines).map (List.map (Block.mapConditions g)) := by
  have hrun : readBlocks o' file lines = (Transfer.conditions g).outcome
      (List.map (Block.mapConditions g)) (readBlocks o file lines) := by
    apply readBlocks_transfer (Transfer.lawful_conditions hg) (fun _ => rfl) hpseudo _ h
    intro n blocks
    simp [Transfer.conditions, Block.whole, Block.mapConditions_mk, hg.const]
  rw [hrun]
  cases readBlocks o file lines with
  | ok blocks => rfl
  | error e => simp [Transfer.outcome, Transfer.error_conditions, Except.map]

end Presence

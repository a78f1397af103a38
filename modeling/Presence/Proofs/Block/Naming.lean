import Presence.Proofs.Block.Transfer

/-!
The name of a file is a tag. Read under another name, a text has the same blocks and fails alike.
-/
namespace Presence

namespace Block

mutual

def mapFiles (g : String → String) : Block → Block
  | ⟨first, last, file, condition, presence, children⟩ =>
    ⟨first, last, g file, condition, presence, mapAllFiles g children⟩

def mapAllFiles (g : String → String) : List Block → List Block
  | [] => []
  | b :: bs => mapFiles g b :: mapAllFiles g bs

end

theorem mapAllFiles_eq_map (g : String → String) (bs : List Block) :
    mapAllFiles g bs = bs.map (mapFiles g) := by
  induction bs with
  | nil => rfl
  | cons b bs ih => rw [mapAllFiles, ih, List.map_cons]

theorem mapFiles_mk (g : String → String) (first last : Nat) (file : String)
    (condition presence : Formula) (children : List Block) :
    mapFiles g ⟨first, last, file, condition, presence, children⟩ =
      ⟨first, last, g file, condition, presence, children.map (mapFiles g)⟩ := by
  rw [mapFiles, mapAllFiles_eq_map]

end Block

def OpenBranch.mapFiles (g : String → String) (b : OpenBranch) : OpenBranch :=
  { b with children := b.children.map (Block.mapFiles g) }

def Transfer.files (g : String → String) : Transfer :=
  ⟨id, id, g, Block.mapFiles g, OpenBranch.mapFiles g⟩

theorem Transfer.lawful_files (g : String → String) : (files g).Lawful where
  keepsShape := Formula.KeepsShape.id
  opened _ _ _ cs := by simp [files, OpenBranch.mapFiles]
  filled b block := by simp [files, OpenBranch.mapFiles]
  first _ := rfl
  presence _ := rfl
  earlier b := by simp [files, OpenBranch.mapFiles]
  closed b file n _ := by
    simp [files, OpenBranch.close, OpenBranch.mapFiles, Block.mapFiles_mk]

/-- Under another name a text has the same outcome, but for the name. -/
theorem readBlocks_rename (o : Context) (g : String → String) (file : String)
    (lines : List (List Char)) :
    readBlocks o (g file) lines =
      (Transfer.files g).outcome (List.map (Block.mapFiles g)) (readBlocks o file lines) := by
  apply readBlocks_transfer (Transfer.lawful_files g) (fun _ => rfl) rfl
  · intro n blocks
    exact Block.mapFiles_mk g 1 (n + 1) file (.const true) (.const true) blocks
  · intro l e _
    exact (congrFun Except.map_id (condition o e)).symm

end Presence

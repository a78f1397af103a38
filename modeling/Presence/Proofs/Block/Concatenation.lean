import Presence.Proofs.Block.Session
import Presence.Proofs.Block.Transfer
import Presence.Proofs.Nesting.Acceptance
import Presence.Proofs.Source.LineNumber

/-!
Texts one behind the other. When the first is complete in itself, the second has the same blocks as
alone, further down, and fails alike.
-/
namespace Presence

namespace Block

mutual

def mapLines (s : Nat → Nat) : Block → Block
  | ⟨first, last, file, condition, presence, children⟩ =>
    ⟨s first, s last, file, condition, presence, mapAllLines s children⟩

def mapAllLines (s : Nat → Nat) : List Block → List Block
  | [] => []
  | b :: bs => mapLines s b :: mapAllLines s bs

end

theorem mapAllLines_eq_map (s : Nat → Nat) (bs : List Block) :
    mapAllLines s bs = bs.map (mapLines s) := by
  induction bs with
  | nil => rfl
  | cons b bs ih => rw [mapAllLines, ih, List.map_cons]

theorem mapLines_mk (s : Nat → Nat) (first last : Nat) (file : String)
    (condition presence : Formula) (children : List Block) :
    mapLines s ⟨first, last, file, condition, presence, children⟩ =
      ⟨s first, s last, file, condition, presence, children.map (mapLines s)⟩ := by
  rw [mapLines, mapAllLines_eq_map]

end Block

def OpenBranch.mapLines (s : Nat → Nat) (b : OpenBranch) : OpenBranch :=
  ⟨s b.first, b.condition, b.presence, b.children.map (Block.mapLines s), b.earlier⟩

def Transfer.lines (s : Nat → Nat) : Transfer :=
  ⟨id, s, id, Block.mapLines s, OpenBranch.mapLines s⟩

theorem Transfer.lawful_lines {s : Nat → Nat} (hs : ∀ n, 0 < n → s (n - 1) = s n - 1) :
    (lines s).Lawful where
  keepsShape := Formula.KeepsShape.id
  opened _ _ _ cs := by simp [lines, OpenBranch.mapLines]
  filled b block := by simp [lines, OpenBranch.mapLines]
  first _ := rfl
  presence _ := rfl
  earlier b := by simp [lines, OpenBranch.mapLines]
  closed b file n hn := by
    simp [lines, OpenBranch.close, OpenBranch.mapLines, Block.mapLines_mk, hs n hn]

namespace Builder

variable {o : Context} {file : String} {b : Builder}

theorem conclude_eq_ok_iff {run : Builder × Option ReadError} {blocks : List Block} :
    conclude o file run = .ok blocks ↔
      ∃ b, run = (b, none) ∧ b.result o file = .ok blocks := by
  rcases run with ⟨b, _ | e⟩ <;> simp [conclude]

/-- Without a block around the whole file, the line at which a builder stands when a call begins
does not matter. -/
theorem conclude_line (ho : o.pseudoBlock = false) (n : Nat) (ls : List LogicalLine) :
    conclude o file (acceptAll { b with line := n } o file ls) =
      conclude o file (b.acceptAll o file ls) := by
  cases ls with
  | nil => simp [acceptAll, conclude, result, ho]
  | cons l ls => rfl

/-- Where no branch is left open, later lines are read as from the start, behind the blocks and the
content that are there. -/
theorem conclude_behind (ho : o.pseudoBlock = false) (hs : b.stack = []) (k : Nat)
    {ls : List LogicalLine} (hls : ∀ l ∈ ls, 0 < l.number) :
    conclude o file (b.acceptAll o file (ls.map (·.renumber (· + k)))) =
      (Transfer.lines (· + k)).outcome (fun more => b.finished ++ more.map (Block.mapLines (· + k)))
        (conclude o file (acceptAll {} o file ls)) := by
  have ht : (Transfer.lines (· + k)).Lawful :=
    Transfer.lawful_lines fun n hn => by show n - 1 + k = n + k - 1; omega
  have hb : { b with line := k } =
      transfer (.lines (· + k)) b.finished b.contentOutside {} := by
    simp [transfer, Transfer.lines, hs]
  have hrun : (transfer (.lines (· + k)) b.finished b.contentOutside {}).acceptAll o file
        (ls.map (·.renumber (· + k))) =
      ((acceptAll {} o file ls).1.transfer (.lines (· + k)) b.finished b.contentOutside,
        (acceptAll {} o file ls).2.map (Transfer.lines (· + k)).error) :=
    acceptAll_transfer ht hls fun _ _ _ _ e _ _ _ =>
      (congrFun Except.map_id (condition o e)).symm
  rw [← conclude_line ho k, hb, hrun]
  exact conclude_transfer ht ho _

end Builder

/-- Behind a text that is complete in itself, a text has the outcome it has alone, on other lines. -/
theorem readBlocks_append_eq {o : Context} {file : String} {xs : List (List Char)}
    {blocks : List Block} (ho : o.pseudoBlock = false)
    (hblocks : readBlocks o file xs = .ok blocks) (hsettled : LineReader.Settled xs)
    (ys : List (List Char)) :
    readBlocks o file (xs ++ ys) =
      (Transfer.lines (· + xs.length)).outcome
        (fun more => blocks ++ more.map (Block.mapLines (· + xs.length)))
        (readBlocks o file ys) := by
  rw [Builder.readBlocks_eq_conclude] at hblocks
  obtain ⟨b, hb, hresult⟩ := Builder.conclude_eq_ok_iff.mp hblocks
  obtain ⟨hs, hfinished⟩ := Builder.result_eq_ok_iff.mp hresult
  rw [ho, Bool.and_false] at hfinished
  rw [Builder.readBlocks_eq_conclude, logicalLines_append hsettled,
    Builder.acceptAll_append_of_ok hb, Builder.conclude_behind ho hs _ (logicalLines_numbered ys).2,
    ← Builder.readBlocks_eq_conclude, hfinished]
  rfl

/-- Extraction is compositional. Where the first text has blocks and leaves neither a comment nor a
directive open, the blocks of both texts are those of the first and then those of the second, as
many lines further down as the first has; and if the second alone is refused, so are both, for a
problem of the same kind and as many lines further down. There is to be no block around a whole
file. -/
theorem readBlocks_append {o : Context} {file : String} {xs : List (List Char)}
    {blocks : List Block} (ho : o.pseudoBlock = false)
    (hblocks : readBlocks o file xs = .ok blocks) (hsettled : LineReader.Settled xs)
    (ys : List (List Char)) :
    (∀ more, readBlocks o file ys = .ok more →
      readBlocks o file (xs ++ ys) = .ok (blocks ++ more.map (Block.mapLines (· + xs.length)))) ∧
    (∀ e, readBlocks o file ys = .error (.format e) → ∃ e' : FormatError,
      readBlocks o file (xs ++ ys) = .error (.format e') ∧ e'.line = e.line + xs.length ∧
        e'.file = e.file ∧ e'.problem = e.problem.renumber (· + xs.length) ∧
        (e'.problem.IsStructural ↔ e.problem.IsStructural)) ∧
    ∀ e, readBlocks o file ys = .error (.digitLimit e) →
      readBlocks o file (xs ++ ys) = .error (.digitLimit e) := by
  rw [readBlocks_append_eq ho hblocks hsettled]
  refine ⟨fun more h => by rw [h]; rfl, fun e h => ?_, fun e h => by rw [h]; rfl⟩
  rw [h]
  refine ⟨e.renumber (· + xs.length), rfl, rfl, rfl, rfl, ?_⟩
  rcases e with ⟨p, line, file⟩
  cases p <;> rfl

theorem readBlocks_append_commented :
    let o : Context := { pseudoBlock := false }
    let xs := ["/* one".toList, "two */".toList, "#ifdef A \\".toList, "/* B */".toList,
      "#endif".toList]
    let ys := ["#if defined B".toList, "#else".toList, "#endif".toList]
    let b : Formula := .var "B"
    o.pseudoBlock = false ∧ LineReader.Settled xs ∧
      readBlocks o "a.c" xs = .ok [⟨3, 4, "a.c", .var "A", .var "A", []⟩] ∧
      readBlocks o "a.c" (xs ++ ys) = .ok [⟨3, 4, "a.c", .var "A", .var "A", []⟩,
        ⟨6, 6, "a.c", b, b, []⟩, ⟨7, 7, "a.c", .not b, .not b, []⟩] ∧
      ∃ e : FormatError, readBlocks o "a.c" (xs ++ ["#ifdef C".toList]) = .error (.format e) ∧
        e.line = 6 ∧ e.problem = .unclosed 6 := by
  intro o xs ys b
  have hsettled : LineReader.Settled xs := by
    with_unfolding_all exact ⟨rfl, rfl⟩
  have hxs : readBlocks o "a.c" xs = .ok [⟨3, 4, "a.c", .var "A", .var "A", []⟩] := by
    with_unfolding_all rfl
  have hys : readBlocks o "a.c" ys =
      .ok [⟨1, 1, "a.c", b, b, []⟩, ⟨2, 2, "a.c", .not b, .not b, []⟩] := by
    with_unfolding_all rfl
  have hopen : readBlocks o "a.c" ["#ifdef C".toList] =
      .error (.format ⟨.unclosed 1, 1, "a.c"⟩) := by
    with_unfolding_all rfl
  have hboth := (readBlocks_append rfl hxs hsettled ys).1 _ hys
  obtain ⟨e, he, hline, -, hproblem, -⟩ := (readBlocks_append rfl hxs hsettled _).2.1 _ hopen
  exact ⟨rfl, hsettled, hxs, hboth, e, he, hline, hproblem⟩

end Presence

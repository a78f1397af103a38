import Presence.Proofs.Block.Inclusion
import Presence.Proofs.Block.Innermost
import Presence.Proofs.Block.Printing
import Presence.Proofs.Block.Session

/-!
A conditional with many branches. The conditions of the earlier branches stand in that of a later
one, a level for each, so no number of calls is enough for the conditions of every file.
-/
namespace Presence

namespace Formula

/-- A conjunction has a level for each further operand. -/
theorem add_length_le_depth_andAll (f : Formula) (fs : List Formula) :
    f.depth + fs.length ≤ (andAll f fs).depth := by
  induction fs generalizing f with
  | nil => exact Nat.le_refl _
  | cons g gs ih =>
    have hone : f.depth + 1 ≤ (and f g).depth := Nat.succ_le_succ (Nat.le_max_left _ _)
    calc f.depth + (gs.length + 1)
      _ = f.depth + 1 + gs.length := by omega
      _ ≤ (and f g).depth + gs.length := Nat.add_le_add_right hone _
      _ ≤ (andAll (and f g) gs).depth := ih _

theorem length_lt_depth_noneOf (f : Formula) (fs : List Formula) :
    (f :: fs).length < (noneOf f fs).depth := by
  have hdepth := add_length_le_depth_andAll (not f) (fs.map not)
  have hpos := f.depth_pos
  rw [List.length_map, depth] at hdepth
  rw [List.length_cons, noneOf]
  omega

end Formula

/-- What the lines of the conditional test. -/
theorem formulaOf_zero (o : Context) : formulaOf o " 0".toList = .ok (.const false) := by
  obtain ⟨n, hn⟩ := o.budget.exists_calls_eq (k := 14) (by decide)
  obtain ⟨m, hm⟩ := o.budget.exists_translatedLevels_eq (k := 1) (by decide)
  have hexpr : Expr.ofChars o.budget " 0".toList = .ok (.integer "0" 0) := by
    rw [Expr.ofChars, hn]
    with_unfolding_all rfl
  rw [formulaOf, hexpr, hm]
  rfl

theorem condition_zero (o : Context) : condition o " 0".toList = .ok (.const false) := by
  rw [condition, formulaOf_zero]

/-- The lines that open the conditional, go on with it and close it. -/
def openingText : List Char := "#if 0".toList

def furtherText : List Char := "#elif 0".toList

def closingText : List Char := "#endif".toList

/-- A conditional with `n` branches behind its first. -/
def longChain (n : Nat) : List (List Char) :=
  openingText :: List.replicate n furtherText ++ [closingText]

theorem eq_of_mem_longChain {n : Nat} {text : List Char} (h : text ∈ longChain n) :
    text = openingText ∨ text = furtherText ∨ text = closingText := by
  simp only [longChain, List.cons_append, List.mem_cons, List.mem_append, List.mem_replicate,
    List.not_mem_nil, or_false] at h
  exact h.imp_right (Or.imp_left And.right)

namespace Builder

variable {b : Builder} {n : Nat} {branch : OpenBranch}

/-- Only the last of `n` branches is open, and its condition has a level for each of them. -/
structure AtBranch (n : Nat) (b : Builder) (branch : OpenBranch) : Prop where
  stack : b.stack = [branch]
  contentOutside : b.contentOutside = false
  earlier : branch.earlier.length = n
  deep : n ≤ branch.condition.depth

theorem atBranch_opening (o : Context) (file : String) (line : Nat) :
    ∃ b branch, accept {} o file ⟨line, openingText⟩ = (b, none) ∧ AtBranch 1 b branch := by
  have hd : Directive.ofLine? openingText = some ⟨.ifHolds, " 0".toList⟩ := by decide
  have hopen : accept {} o file ⟨line, openingText⟩ =
      (openBranch { line := line } (.const false) [.const false], none) := by
    rw [accept, handle, hd]
    simp only [direct, testedCondition, Directive.expression, condition_zero]
    rfl
  exact ⟨_, _, hopen, ⟨rfl, rfl, rfl, Formula.depth_pos _⟩⟩

theorem AtBranch.next (h : AtBranch (n + 1) b branch) (o : Context) (file : String) (line : Nat) :
    ∃ b' branch', b.accept o file ⟨line, furtherText⟩ = (b', none) ∧
      AtBranch (n + 2) b' branch' := by
  have hd : Directive.ofLine? furtherText = some ⟨.elseIf, " 0".toList⟩ := by decide
  obtain ⟨f, fs, hearlier⟩ := List.exists_cons_of_length_eq_add_one h.earlier
  have hlength : (f :: fs).length = n + 1 := hearlier ▸ h.earlier
  let c : Formula := .and (.noneOf f fs) (.const false)
  have hnext : b.accept o file ⟨line, furtherText⟩ =
      ((closeBranch { b with line := line } file).openBranch c (f :: fs ++ [.const false]),
        none) := by
    rw [accept, handle, hd]
    simp only [direct, chain, h.stack, hearlier, testedCondition, Directive.expression,
      condition_zero]
    rfl
  refine ⟨_, ⟨line, c, c, [], f :: fs ++ [.const false]⟩, hnext, ?_⟩
  constructor
  · simp only [openBranch, closeBranch, h.stack]
  · simp only [openBranch, closeBranch, h.stack, h.contentOutside]
  · rw [List.length_append, hlength, List.length_singleton]
  · have hdepth := Formula.length_lt_depth_noneOf f fs
    show n + 2 ≤ max (Formula.noneOf f fs).depth 1 + 1
    omega

theorem AtBranch.acceptAll (h : AtBranch (n + 1) b branch) (o : Context) (file : String)
    {lines : List LogicalLine} (hlines : ∀ l ∈ lines, l.text = furtherText) :
    ∃ b' branch', b.acceptAll o file lines = (b', none) ∧
      AtBranch (n + lines.length + 1) b' branch' := by
  induction lines generalizing n b branch with
  | nil => exact ⟨b, branch, rfl, h⟩
  | cons l lines ih =>
    obtain ⟨htext, hlines⟩ := List.forall_mem_cons.mp hlines
    obtain ⟨b₁, branch₁, hl, h₁⟩ := h.next o file l.number
    obtain ⟨b', branch', hrest, h'⟩ := ih h₁ hlines
    rw [← htext] at hl
    rw [Nat.add_assoc n, Nat.add_comm 1] at h'
    exact ⟨b', branch', acceptAll_cons.mpr ⟨b₁, hl, hrest⟩, h'⟩

theorem AtBranch.closing (h : AtBranch n b branch) (o : Context) (file : String) (line : Nat) :
    ∃ b', b.accept o file ⟨line, closingText⟩ = (b', none) ∧ b'.stack = [] ∧
      b'.contentOutside = false ∧ ∃ block ∈ b'.finished, n ≤ block.condition.depth := by
  have hd : Directive.ofLine? closingText = some ⟨.endIf, []⟩ := by decide
  have hclose : b.accept o file ⟨line, closingText⟩ =
      (closeBranch { b with line := line } file, none) := by
    rw [accept, handle, hd]
    simp only [direct, h.stack]
  refine ⟨_, hclose, ?_, ?_, branch.close file (line - 1), ?_, h.deep⟩
  · simp only [closeBranch, h.stack]
  · simp only [closeBranch, h.stack, h.contentOutside]
  · simp [closeBranch, h.stack]

end Builder

namespace LineReader

/-- Lines that are logical lines as they stand. -/
theorem feedAll_of_whole {lines : List (List Char)}
    (h : ∀ text ∈ lines, ∀ k, feed { number := k } text = ({ number := k + 1 }, some ⟨k + 1, text⟩))
    (k : Nat) :
    feedAll { number := k } lines =
      ({ number := k + lines.length }, lines.mapIdx fun i text => ⟨k + i + 1, text⟩) := by
  induction lines generalizing k with
  | nil => rfl
  | cons text lines ih =>
    obtain ⟨htext, hlines⟩ := List.forall_mem_cons.mp h
    have hnumber (i : Nat) : k + 1 + i = k + (i + 1) := by omega
    simp only [feedAll, htext k, ih hlines, List.mapIdx_cons, List.length_cons, hnumber,
      Option.toList_some, List.singleton_append, Nat.add_zero]

end LineReader

theorem logicalLines_longChain (n : Nat) :
    logicalLines (longChain n) = (longChain n).mapIdx fun i text => ⟨i + 1, text⟩ := by
  have hwhole : ∀ text ∈ longChain n, ∀ k,
      LineReader.feed { number := k } text = ({ number := k + 1 }, some ⟨k + 1, text⟩) := by
    intro text htext k
    rcases eq_of_mem_longChain htext with rfl | rfl | rfl <;> with_unfolding_all rfl
  have hlines := LineReader.feedAll_of_whole hwhole 0
  simp only [Nat.zero_add] at hlines
  rw [logicalLines, hlines]
  exact List.append_nil _

/-- The file is accepted, and one of its conditions has more than `n` levels. -/
theorem exists_deep_condition (o : Context) (file : String) (n : Nat) :
    ∃ blocks, readBlocks o file (longChain n) = .ok blocks ∧
      ∃ b ∈ Block.preorders blocks, n < b.condition.depth := by
  let further := (List.replicate n furtherText).mapIdx fun i text => LogicalLine.mk (i + 2) text
  have hlines : logicalLines (longChain n) =
      ⟨1, openingText⟩ :: further ++ [⟨n + 2, closingText⟩] := by
    rw [logicalLines_longChain, longChain, List.mapIdx_append, List.mapIdx_cons]
    simp [further]
  have hfurther : ∀ l ∈ further, l.text = furtherText := by
    intro l hl
    obtain ⟨i, hi, rfl⟩ := List.mem_mapIdx.mp hl
    exact List.getElem_replicate _
  have hlength : further.length = n := by simp [further]
  obtain ⟨b₁, first, hopen, h₁⟩ := Builder.atBranch_opening o file 1
  obtain ⟨b₂, last, hgo, h₂⟩ := Builder.AtBranch.acceptAll (n := 0) h₁ o file hfurther
  obtain ⟨b₃, hclose, hstack, hcontent, block, hblock, hdeep⟩ := h₂.closing o file (n + 2)
  have hacc : Builder.acceptAll {} o file (logicalLines (longChain n)) = (b₃, none) := by
    rw [hlines, List.cons_append, Builder.acceptAll_cons]
    refine ⟨b₁, hopen, Builder.acceptAll_append.mpr ⟨b₂, hgo, ?_⟩⟩
    exact Builder.acceptAll_cons.mpr ⟨b₃, hclose, rfl⟩
  have hresult : b₃.result o file = .ok b₃.finished :=
    Builder.result_eq_ok_iff.mpr ⟨hstack, by rw [hcontent]; rfl⟩
  refine ⟨b₃.finished, ?_, block, Block.mem_preorders_of_mem hblock, ?_⟩
  · rw [readBlocks, Builder.read, hacc]
    exact hresult
  · rw [hlength] at hdeep
    omega

/-- With no more calls than it has branches, the blocks of the conditional are neither counted nor
printed. -/
theorem longChain_too_deep (o : Context) (file : String) {calls n : Nat} (h : calls ≤ n) :
    ∃ blocks, readBlocks o file (longChain n) = .ok blocks ∧
      Block.conditionCounts? calls blocks = none ∧
      ∀ depth, Block.outlines? calls depth blocks = none := by
  obtain ⟨blocks, hread, b, hb, hdeep⟩ := exists_deep_condition o file n
  have hnot : ¬ Block.Countable calls blocks := by
    intro hcountable
    have hlevels : b.condition.depth ≤ calls := hcountable b hb
    omega
  refine ⟨blocks, hread, ?_, fun depth => ?_⟩
  · rw [Option.eq_none_iff_forall_ne_some]
    intro c hc
    exact hnot (Block.conditionCounts?_eq_some_iff.mp hc).1
  · rw [Option.eq_none_iff_forall_ne_some]
    intro lines hlines
    exact hnot (Block.countable_of_outlines? hlines)

end Presence

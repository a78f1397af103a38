import Presence.Proofs.Block.Enclosing
import Presence.Proofs.Nesting.Acceptance

/-!
The blocks of a file in the order of their directives. Each branch that a directive begins has one
block, as deep as conditionals are open around the directive, up to the one that ends the branch.
-/
namespace Presence

open Nesting

def LogicalLine.startsBranch (l : LogicalLine) : Bool :=
  (Keyword.ofLine? l.text).any (·.startsBranch)

theorem LogicalLine.startsBranch_of_plain {l : LogicalLine}
    (h : Directive.ofLine? l.text = none) : l.startsBranch = false := by
  have hk : Keyword.ofLine? l.text = none := by simpa [Directive.ofLine?] using h
  simp [startsBranch, hk]

theorem LogicalLine.startsBranch_of_directive {l : LogicalLine} {d : Directive}
    (h : Directive.ofLine? l.text = some d) : l.startsBranch = d.keyword.startsBranch := by
  simp [startsBranch, Directive.keyword_of_ofLine? h]

namespace Nesting

/-- Behind these directives `n` conditionals are open. -/
def Open (w : List Keyword) (n : Nat) : Prop :=
  w.countP (·.opensChain) = w.count .endIf + n

theorem length_of_step {s s' : List Bool} {k : Keyword} (h : step s k = some s') :
    s.length + [k].countP (·.opensChain) = [k].count .endIf + s'.length := by
  unfold step at h
  split at h <;> cases h <;> simp [Keyword.opensChain]
  omega

theorem length_of_run {s s' : List Bool} {w : List Keyword} (h : run s w = some s') :
    s.length + w.countP (·.opensChain) = w.count .endIf + s'.length := by
  induction w generalizing s with
  | nil =>
    cases h
    simp
  | cons k w ih =>
    obtain ⟨s₁, hs, hr⟩ := Option.bind_eq_some_iff.mp h
    have hk := length_of_step hs
    have hw := ih hr
    rw [← List.singleton_append, List.countP_append, List.count_append]
    omega

theorem open_of_run {s : List Bool} {w : List Keyword} (h : run [] w = some s) :
    Open w s.length := by
  simpa [Open] using length_of_run h

/-- Whole conditionals leave the number of open ones as it was. -/
theorem Open.of_append_balanced {u w : List Keyword} {n : Nat} (h : Open (u ++ w) n)
    (hw : Balanced w) : Open u n := by
  have hclosed : Open w 0 := open_of_run (run_eq_nil_iff.mpr hw)
  unfold Open at h hclosed ⊢
  rw [List.countP_append, List.count_append] at h
  omega

end Nesting

/-- The block lies where a branch does: its first line is that of the directive that begins the
branch, around which `depth` conditionals are open, and behind its last line comes the directive
that ends the branch, with whole conditionals between the two. -/
def Block.Spans (lines : List LogicalLine) (depth : Nat) (b : Block) : Prop :=
  ∃ before l inner l' after k, lines = before ++ l :: inner ++ l' :: after ∧
    l.number = b.first ∧ l.startsBranch = true ∧ Open (keywords (before ++ [l])) (depth + 1) ∧
    Balanced (keywords inner) ∧ Keyword.ofLine? l'.text = some k ∧ k.opensChain = false ∧
    l'.number = b.last + 1

open Block

variable {o : Context} {file : String} {lines done rest : List LogicalLine} {l : LogicalLine}

namespace Focus

def firstLines : List Frame → List Nat
  | [] => []
  | g :: around => firstLines around ++ (preorders g.before).map (·.first) ++ [g.first]

/-- The first lines of all that has been begun. -/
def begun (f : Focus) : List Nat :=
  firstLines f.around ++ (preorders f.blocks).map (·.first)

theorem begun_enter (f : Focus) (n : Nat) (condition : Formula) (earlier : List Formula) :
    (f.enter n condition earlier).begun = f.begun ++ [n] := by
  simp [begun, enter, firstLines, preorders]

/-- A branch that ends has its place in the order already. -/
theorem begun_leave (blocks : List Block) (g : Frame) (around : List Frame) (file : String)
    (n : Nat) : (leave g file n blocks around).begun = begun ⟨blocks, g :: around⟩ := by
  simp [begun, leave, firstLines, preorders, preorder_eq, Frame.close]

theorem begun_of_step {f f' : Focus} (h : Step o file l f f') :
    f'.begun = f.begun ++ if l.startsBranch then [l.number] else [] := by
  cases h with
  | plain hd => simp [LogicalLine.startsBranch_of_plain hd]
  | opening hd hk hc =>
    have hstarts := Keyword.startsBranch_of_opensChain hk
    simp [LogicalLine.startsBranch_of_directive hd, hstarts, begun_enter]
  | elseIf hd hk he hc =>
    simp [LogicalLine.startsBranch_of_directive hd, hk, Keyword.startsBranch, begun_enter,
      begun_leave]
  | otherwise hd hk he =>
    simp [LogicalLine.startsBranch_of_directive hd, hk, Keyword.startsBranch, begun_enter,
      begun_leave]
  | endIf hd hk =>
    simp [LogicalLine.startsBranch_of_directive hd, hk, Keyword.startsBranch, begun_leave]

/-- The blocks of a level that has `depth` branches around it span branches. -/
def AllSpan (lines : List LogicalLine) (depth : Nat) : List Block → Prop :=
  Along fun path b => b.Spans lines (depth + path.length)

/-- So do the blocks before open branches, each on its own level. -/
def Spanned (lines : List LogicalLine) : List Frame → Prop
  | [] => True
  | g :: around => AllSpan lines around.length g.before ∧ Spanned lines around

/-- A directive that ends the innermost open branch makes it a block that spans it. -/
theorem spans_close {blocks : List Block} {g : Frame} {around : List Frame} {k : Keyword}
    (h : Anchored done ⟨blocks, g :: around⟩)
    (hshape : run [] (keywords done) = some (shape ⟨blocks, g :: around⟩))
    (hlines : lines = done ++ l :: rest) (hpos : 0 < l.number)
    (hk : Keyword.ofLine? l.text = some k) (hends : k.opensChain = false) :
    (g.close file (l.number - 1) blocks).Spans lines around.length := by
  obtain ⟨before, l₀, inner, k₀, rfl, hk₀, hstarts, hfirst, hinner⟩ := h [] g around rfl
  have hbalanced : Balanced (keywords inner) := run_eq_nil_iff.mp hinner
  have hopen : Open (keywords (before ++ l₀ :: inner)) (around.length + 1) := by
    simpa [shape] using open_of_run hshape
  have hsplit : before ++ l₀ :: inner = (before ++ [l₀]) ++ inner := by simp
  rw [hsplit, keywords_append] at hopen
  refine ⟨before, l₀, inner, l, rest, k, hlines, hfirst, ?_, hopen.of_append_balanced hbalanced,
    hbalanced, hk, hends, ?_⟩
  · simp [LogicalLine.startsBranch, hk₀, hstarts]
  · show l.number = l.number - 1 + 1
    omega

/-- What is finished and what is before open branches spans branches. -/
structure SpansAll (lines : List LogicalLine) (f : Focus) : Prop where
  blocks : AllSpan lines f.around.length f.blocks
  around : Spanned lines f.around

theorem SpansAll.enter {f : Focus} (h : SpansAll lines f) (n : Nat) (c : Formula)
    (earlier : List Formula) : SpansAll lines (f.enter n c earlier) :=
  ⟨Along.nil _, h.blocks, h.around⟩

theorem SpansAll.leave {blocks : List Block} {g : Frame} {around : List Frame} {d : Directive}
    (h : SpansAll lines ⟨blocks, g :: around⟩) (ha : Anchored done ⟨blocks, g :: around⟩)
    (hshape : run [] (keywords done) = some (shape ⟨blocks, g :: around⟩))
    (hlines : lines = done ++ l :: rest) (hpos : 0 < l.number)
    (hd : Directive.ofLine? l.text = some d) (hends : d.keyword.opensChain = false) :
    SpansAll lines (leave g file l.number blocks around) := by
  obtain ⟨hbefore, haround⟩ := h.around
  have hclose : (g.close file (l.number - 1) blocks).Spans lines around.length :=
    spans_close ha hshape hlines hpos (Directive.keyword_of_ofLine? hd) hends
  refine ⟨Along.concat hbefore hclose (h.blocks.mono fun path b hb => ?_), haround⟩
  have hdepth : (g :: around).length + path.length = around.length + (path.length + 1) := by
    rw [List.length_cons]
    omega
  rw [hdepth] at hb
  exact hb

theorem SpansAll.step {f f' : Focus} (h : SpansAll lines f) (ha : Anchored done f)
    (hshape : run [] (keywords done) = some f.shape) (hlines : lines = done ++ l :: rest)
    (hpos : 0 < l.number) (hs : Step o file l f f') : SpansAll lines f' := by
  cases hs with
  | plain hd => exact h
  | opening hd hk hc => exact h.enter _ _ _
  | elseIf hd hk he hc =>
    exact (h.leave ha hshape hlines hpos hd (by rw [hk]; rfl)).enter _ _ _
  | otherwise hd hk he =>
    exact (h.leave ha hshape hlines hpos hd (by rw [hk]; rfl)).enter _ _ _
  | endIf hd hk => exact h.leave ha hshape hlines hpos hd (by rw [hk]; rfl)

end Focus

namespace Builder

theorem begun_of_acceptAll {b : Builder} (h : Builder.acceptAll {} o file lines = (b, none)) :
    b.focus.begun = (lines.filter (·.startsBranch)).map (·.number) := by
  refine acceptAll_induction
    (P := fun done f => f.begun = (done.filter (·.startsBranch)).map (·.number)) ?_ rfl h
  intro done l rest f f' _ hf hs
  rw [Focus.begun_of_step hs, hf, List.filter_append, List.map_append]
  congr 1
  cases hl : l.startsBranch <;> simp [hl]

theorem spansAll_of_acceptAll {b : Builder} (hnum : Numbered lines)
    (h : Builder.acceptAll {} o file lines = (b, none)) : Focus.SpansAll lines b.focus := by
  have hrun : Focus.SpansAll lines b.focus ∧ Focus.Anchored lines b.focus ∧
      run [] (keywords lines) = some b.focus.shape := by
    refine acceptAll_induction (P := fun done f => Focus.SpansAll lines f ∧
      Focus.Anchored done f ∧ run [] (keywords done) = some f.shape) ?_ ?_ h
    · rintro done l rest f f' hlines ⟨hf, ha, hshape⟩ hs
      have hpos := hnum.2 l (by simp [hlines])
      refine ⟨hf.step ha hshape hlines hpos hs, Focus.anchored_of_step ha hs, ?_⟩
      rw [keywords_append, run_append, hshape]
      exact Focus.run_shape_of_step hs
    · refine ⟨⟨Along.nil _, trivial⟩, ?_, rfl⟩
      intro above g below hf
      simp at hf
  exact hrun.1

end Builder

/-- No branch is lost, doubled or misplaced. In preorder, and without the block around a whole file,
the blocks that are returned begin on the lines whose directives begin a branch, each once and in
the order of the file. Each block spans a branch, and is as deep as conditionals are open around the
directive that begins it. -/
theorem branches_in_order {source : List (List Char)} {blocks : List Block}
    (h : readBlocks o file source = .ok blocks) :
    ∃ forest, (blocks = forest ∨ ∃ last, blocks = [.whole file last forest]) ∧
      (preorders forest).map (·.first) =
        ((logicalLines source).filter (·.startsBranch)).map (·.number) ∧
      (preorders forest).Pairwise (·.first < ·.first) ∧
      ∀ b ∈ preorders forest, (∃ path, Nested forest path b) ∧
        ∀ path, Nested forest path b → b.Spans (logicalLines source) path.length := by
  obtain ⟨b, hacc, hend, hblocks⟩ := readBlocks_eq_ok h
  have hnum := logicalLines_numbered source
  have hbegun := Builder.begun_of_acceptAll hacc
  have hspans := (Builder.spansAll_of_acceptAll hnum hacc).blocks
  rw [hend] at hbegun hspans
  have horder : (preorders b.finished).map (·.first) =
      ((logicalLines source).filter (·.startsBranch)).map (·.number) := hbegun
  refine ⟨b.finished, hblocks.imp_right fun hwhole => ⟨_, hwhole⟩, horder, ?_, fun c hc =>
    ⟨exists_nested_of_mem_preorders hc, fun path hpath => ?_⟩⟩
  · have hincreasing := List.pairwise_map.mpr (hnum.1.filter (·.startsBranch))
    rw [← horder] at hincreasing
    exact List.pairwise_map.mp hincreasing
  · simpa using hspans path c hpath

/-- The `#else` branch of the first conditional has a conditional in it, two of whose branches are
empty, and the second conditional begins with a directive of two lines. -/
theorem branches_in_order_nested :
    let source := ["x".toList, "#ifdef A".toList, "#else".toList, "#ifdef B".toList,
      "#elif defined C".toList, "#endif".toList, "#endif".toList, "#if defined \\".toList,
      "D".toList, "y".toList, "#endif".toList]
    let a : Formula := .var "A"
    let b : Formula := .var "B"
    let c : Formula := .and (.not b) (.var "C")
    let inner : Block := ⟨5, 5, "a.c", c, .and (.not a) c, []⟩
    let outer : Block := ⟨3, 6, "a.c", .not a, .not a,
      [⟨4, 4, "a.c", b, .and (.not a) b, []⟩, inner]⟩
    let forest : List Block := [⟨2, 2, "a.c", a, a, []⟩, outer,
      ⟨8, 10, "a.c", .var "D", .var "D", []⟩]
    readBlocks {} "a.c" source = .ok [.whole "a.c" 12 forest] ∧
      ((logicalLines source).filter (·.startsBranch)).map (·.number) = [2, 3, 4, 5, 8] ∧
      ∃ forest', ([Block.whole "a.c" 12 forest] = forest' ∨
          ∃ last, [Block.whole "a.c" 12 forest] = [.whole "a.c" last forest']) ∧
        (preorders forest').map (·.first) = [2, 3, 4, 5, 8] ∧
        (preorders forest').Pairwise (·.first < ·.first) ∧
        ∀ b ∈ preorders forest', (∃ path, Nested forest' path b) ∧
          ∀ path, Nested forest' path b → b.Spans (logicalLines source) path.length := by
  intro source a b c inner outer forest
  have h : readBlocks {} "a.c" source = .ok [.whole "a.c" 12 forest] := by
    with_unfolding_all rfl
  have hlines : ((logicalLines source).filter (·.startsBranch)).map (·.number) =
      [2, 3, 4, 5, 8] := by
    with_unfolding_all rfl
  obtain ⟨forest', hforest, horder, hspans⟩ := branches_in_order h
  exact ⟨h, hlines, forest', hforest, horder.trans hlines, hspans⟩

end Presence

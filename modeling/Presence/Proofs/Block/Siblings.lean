import Mathlib.Data.List.Chain
import Mathlib.Data.List.Nodup
import Mathlib.Logic.Relation
import Presence.Proofs.Block.Inclusion
import Presence.Proofs.Nesting.Acceptance

/-!
Neighbours among the blocks of one level. They lie apart, and one begins on the line after the other
ends just when both are branches of one conditional.
-/
namespace Presence

def BeginsBranch (lines : List LogicalLine) (n : Nat) : Prop :=
  ∃ l ∈ lines, l.number = n ∧ ∃ k, Keyword.ofLine? l.text = some k ∧ k.startsBranch = true

/-- Line `n` begins a branch and line `m` the next one of the same conditional: between the two
there are whole conditionals only. -/
def NextBranch (lines : List LogicalLine) (n m : Nat) : Prop :=
  ∃ before l inner l' after k k', lines = before ++ l :: inner ++ l' :: after ∧
    l.number = n ∧ Keyword.ofLine? l.text = some k ∧ k.startsBranch = true ∧
    Nesting.Balanced (keywords inner) ∧
    l'.number = m ∧ Keyword.ofLine? l'.text = some k' ∧ (k' = .elseIf ∨ k' = .otherwise)

/-- Line `m` begins a branch of the conditional that has the branch of line `n` before it. -/
def SameChain (lines : List LogicalLine) : Nat → Nat → Prop :=
  Relation.TransGen (NextBranch lines)

theorem Numbered.eq_of_number_eq {lines : List LogicalLine} {l l' : LogicalLine}
    (h : Numbered lines) (hl : l ∈ lines) (hl' : l' ∈ lines) (hn : l.number = l'.number) :
    l = l' := by
  have hnodup : (lines.map (·.number)).Nodup := List.pairwise_map.mpr (h.1.imp Nat.ne_of_lt)
  exact List.inj_on_of_nodup_map hnodup hl hl' hn

/-- A conditional that begins on a line is no part of an earlier one. -/
theorem not_sameChain_of_opensChain {lines : List LogicalLine} {l : LogicalLine} {k : Keyword}
    {n : Nat} (hlines : Numbered lines) (hl : l ∈ lines)
    (hk : Keyword.ofLine? l.text = some k) (hopens : k.opensChain = true) :
    ¬ SameChain lines n l.number := by
  intro h
  obtain ⟨m, -, before, l₁, inner, l', after, k₁, k', hsplit, -, -, -, -, hn, hk', hcont⟩ :=
    Relation.TransGen.tail'_iff.mp h
  have hl' : l' ∈ lines := by simp [hsplit]
  obtain rfl := hlines.eq_of_number_eq hl' hl hn
  have hkk' : k = k' := Option.some.inj (hk.symm.trans hk')
  subst hkk'
  rcases hcont with rfl | rfl <;> cases hopens

namespace Block

def EveryLevel (P : List Block → Prop) (bs : List Block) : Prop :=
  P bs ∧ ∀ b ∈ preorders bs, P b.children

theorem EveryLevel.nil {P : List Block → Prop} (h : P []) : EveryLevel P [] :=
  ⟨h, by simp [preorders]⟩

theorem EveryLevel.concat {P : List Block → Prop} {bs : List Block} {b : Block}
    (hbs : EveryLevel P bs) (hb : EveryLevel P b.children) (h : P (bs ++ [b])) :
    EveryLevel P (bs ++ [b]) := by
  refine ⟨h, fun c hc => ?_⟩
  rw [preorders_append, List.mem_append, mem_preorders_cons] at hc
  rcases hc with hc | rfl | hc | hc
  · exact hbs.2 c hc
  · exact hb.1
  · exact hb.2 c hc
  · cases hc

theorem Within.children {lo hi : Nat} {b : Block} {bs : List Block} (h : Within lo hi bs)
    (hb : b ∈ preorders bs) : Within b.first b.last b.children := by
  induction h with
  | nil => simp [preorders] at hb
  | cons hlo hle hhi hin hrest ihin ihrest =>
    rcases mem_preorders_cons.mp hb with rfl | hb | hb
    · exact hin
    · exact ihin hb
    · exact ihrest hb

/-- What begins at line `n` comes after the block, and without a gap just when it goes on with the
block's conditional. -/
def Precedes (lines : List LogicalLine) (b : Block) (n : Nat) : Prop :=
  b.last < n ∧ (SameChain lines b.first n ↔ n = b.last + 1)

/-- The blocks of one level: each begins with a directive and comes after the one before it. -/
structure Siblings (lines : List LogicalLine) (bs : List Block) : Prop where
  begins : ∀ b ∈ bs, BeginsBranch lines b.first
  precedes : bs.IsChain fun b b' => b.Precedes lines b'.first

theorem Siblings.nil (lines : List LogicalLine) : Siblings lines [] :=
  ⟨by simp, List.isChain_nil⟩

theorem Siblings.concat {lines : List LogicalLine} {bs : List Block} {b : Block}
    (h : Siblings lines bs) (hb : BeginsBranch lines b.first)
    (hlast : ∀ b' ∈ bs.getLast?, b'.Precedes lines b.first) : Siblings lines (bs ++ [b]) := by
  constructor
  · intro b' hb'
    rcases List.mem_append.mp hb' with hb' | hb'
    · exact h.begins b' hb'
    · obtain rfl := List.mem_singleton.mp hb'
      exact hb
  · refine List.isChain_append.mpr ⟨h.precedes, List.isChain_singleton b, ?_⟩
    intro b' hb' b'' hb''
    obtain rfl : b = b'' := by simpa using hb''
    exact hlast b' hb'

end Block

open Block

variable {o : Context} {file : String} {lines done rest : List LogicalLine} {l : LogicalLine}

namespace Focus

/-- What is finished lies level by level, and each open branch comes after what is before it. -/
structure Spaced (lines : List LogicalLine) (f : Focus) : Prop where
  blocks : EveryLevel (Siblings lines) f.blocks
  around : ∀ g ∈ f.around, EveryLevel (Siblings lines) g.before ∧ BeginsBranch lines g.first ∧
    ∀ b ∈ g.before.getLast?, b.Precedes lines g.first

theorem Spaced.enter {f : Focus} {n : Nat} (h : Spaced lines f) (hn : BeginsBranch lines n)
    (hlast : ∀ b ∈ f.blocks.getLast?, b.Precedes lines n) (condition : Formula)
    (earlier : List Formula) : Spaced lines (f.enter n condition earlier) := by
  constructor
  · exact .nil (Siblings.nil lines)
  · exact List.forall_mem_cons.mpr ⟨⟨h.blocks, hn, hlast⟩, h.around⟩

theorem Spaced.leave {blocks : List Block} {g : Frame} {around : List Frame}
    (h : Spaced lines ⟨blocks, g :: around⟩) (file : String) (n : Nat) :
    Spaced lines (leave g file n blocks around) := by
  obtain ⟨⟨hbefore, hbegins, hlast⟩, haround⟩ := List.forall_mem_cons.mp h.around
  have hlevel : Siblings lines (g.before ++ [g.close file (n - 1) blocks]) :=
    hbefore.1.concat hbegins hlast
  exact ⟨hbefore.concat h.blocks hlevel, haround⟩

/-- A directive that goes on with the conditional of the innermost open branch. -/
theorem nextBranch_of_anchored {blocks : List Block} {g : Frame} {around : List Frame}
    {k : Keyword} (h : Anchored done ⟨blocks, g :: around⟩)
    (hk : Keyword.ofLine? l.text = some k) (hcont : k = .elseIf ∨ k = .otherwise) :
    NextBranch (done ++ l :: rest) g.first l.number := by
  obtain ⟨before, l', inner, k', rfl, hk', hb, hn, hr⟩ := h [] g around rfl
  exact ⟨before, l', inner, l, rest, k', k, rfl, hn, hk', hb, Nesting.run_eq_nil_iff.mp hr, rfl,
    hk, hcont⟩

theorem Spaced.next {blocks : List Block} {g : Frame} {around : List Frame} {d : Directive}
    (h : Spaced lines ⟨blocks, g :: around⟩) (ha : Anchored done ⟨blocks, g :: around⟩)
    (hlines : lines = done ++ l :: rest) (hpos : 0 < l.number)
    (hd : Directive.ofLine? l.text = some d)
    (hcont : d.keyword = .elseIf ∨ d.keyword = .otherwise) (condition : Formula)
    (earlier : List Formula) :
    Spaced lines ((Focus.leave g file l.number blocks around).enter l.number condition earlier) := by
  have hk := Directive.keyword_of_ofLine? hd
  have hnext : NextBranch lines g.first l.number := by
    rw [hlines]
    exact nextBranch_of_anchored ha hk hcont
  have hbegins : BeginsBranch lines l.number := by
    refine ⟨l, by simp [hlines], rfl, d.keyword, hk, ?_⟩
    rcases hcont with hcont | hcont <;> rw [hcont] <;> rfl
  refine (h.leave file l.number).enter hbegins ?_ condition earlier
  intro b hb
  obtain rfl : g.close file (l.number - 1) blocks = b := by simpa [Focus.leave] using hb
  have hlast : (g.close file (l.number - 1) blocks).last = l.number - 1 := rfl
  constructor
  · omega
  · exact iff_of_true (Relation.TransGen.single hnext) (by omega)

theorem Spaced.step {f f' : Focus} (h : Spaced lines f) (ha : Anchored done f)
    (hp : Placed (lastNumber done) f) (hnum : Numbered lines)
    (hlines : lines = done ++ l :: rest) (hs : Step o file l f f') : Spaced lines f' := by
  have hl : l ∈ lines := by simp [hlines]
  have hpos := hnum.2 l hl
  cases hs with
  | plain hd => exact h
  | @opening f d c hd hk hc =>
    have hkey := Directive.keyword_of_ofLine? hd
    have hbegins : BeginsBranch lines l.number :=
      ⟨l, hl, rfl, d.keyword, hkey, Keyword.startsBranch_of_opensChain hk⟩
    refine h.enter hbegins (fun b hb => ?_) c [c]
    have hrange := hp.1.range (mem_preorders_of_mem (List.mem_of_getLast? hb))
    have hlt : lastNumber done < l.number := by
      rw [hlines] at hnum
      exact hnum.lastNumber_lt
    constructor
    · omega
    · exact iff_of_false (not_sameChain_of_opensChain hnum hl hkey hk) (by omega)
  | elseIf hd hk he hc => exact h.next ha hlines hpos hd (.inl hk) _ _
  | otherwise hd hk he => exact h.next ha hlines hpos hd (.inr hk) _ _
  | endIf hd hk => exact h.leave file l.number

end Focus

namespace Builder

theorem spaced_of_acceptAll {b : Builder} (hl : Numbered lines)
    (h : Builder.acceptAll {} o file lines = (b, none)) : Focus.Spaced lines b.focus := by
  have hrun : Focus.Spaced lines b.focus ∧ Focus.Anchored lines b.focus ∧
      Focus.Placed (lastNumber lines) b.focus := by
    refine acceptAll_induction (P := fun done f => Focus.Spaced lines f ∧
      Focus.Anchored done f ∧ Focus.Placed (lastNumber done) f) ?_ ?_ h
    · rintro done l rest f f' hlines ⟨hf, ha, hp⟩ hs
      refine ⟨hf.step ha hp hl hlines hs, Focus.anchored_of_step ha hs, ?_⟩
      rw [lastNumber_concat]
      rw [hlines] at hl
      exact hp.step hl.lastNumber_lt hs
    · refine ⟨⟨.nil (Siblings.nil lines), by simp⟩, ?_, .nil, trivial⟩
      intro above g below hf
      simp at hf
  exact hrun.1

theorem line_of_acceptAll {b b' : Builder} (h : b.acceptAll o file lines = (b', none)) :
    b'.line = (lines.getLast?.map (·.number)).getD b.line := by
  induction lines generalizing b with
  | nil =>
    cases h
    rfl
  | cons l lines ih =>
    obtain ⟨b₁, hline, hrest⟩ := acceptAll_cons.mp h
    rw [ih hrest, (step_of_accept hline).2, List.getLast?_cons]
    cases lines.getLast? <;> rfl

end Builder

/-- The blocks that are returned form a tree of line ranges. Without the block around a whole file,
each begins with a directive of its own, ends no earlier, and holds the blocks in it strictly
between its first and its last line. The block around a whole file ends after all in it. Blocks of
one level come one after the other, and two neighbours without a line between them are those of one
conditional. -/
theorem ranges_form_tree {source : List (List Char)} {blocks : List Block}
    (h : readBlocks o file source = .ok blocks) :
    ∃ forest, (blocks = forest ∨ ∃ last, blocks = [.whole file last forest] ∧ 1 ≤ last ∧
        ∀ b ∈ forest, 1 ≤ b.first ∧ b.last < last) ∧
      (∀ b ∈ preorders forest, 1 ≤ b.first ∧ b.first ≤ b.last ∧
        ∀ c ∈ b.children, b.first < c.first ∧ c.last < b.last) ∧
      EveryLevel (fun level =>
        (∀ b ∈ level, BeginsBranch (logicalLines source) b.first) ∧
        level.IsChain fun b b' => b.last < b'.first ∧
          (SameChain (logicalLines source) b.first b'.first ↔ b'.first = b.last + 1)) forest := by
  obtain ⟨b, hacc, hend, hblocks⟩ := readBlocks_eq_ok h
  have hnum := logicalLines_numbered source
  have hplaced := Builder.placed_of_acceptAll hnum hacc
  have hspaced := (Builder.spaced_of_acceptAll hnum hacc).blocks
  have hline : b.line = lastNumber (logicalLines source) := Builder.line_of_acceptAll hacc
  rw [hend] at hplaced hspaced
  have hwithin : Within 0 (lastNumber (logicalLines source)) b.finished := hplaced.1
  refine ⟨b.finished, hblocks.imp_right fun hwhole => ?_, ?_, ?_⟩
  · refine ⟨b.line + 1, hwhole, by omega, fun c hc => ?_⟩
    have := hwithin.range (mem_preorders_of_mem hc)
    omega
  · intro c hc
    have hrange := hwithin.range hc
    refine ⟨hrange.1, hrange.2.1, fun c' hc' => ?_⟩
    have hinner := (hwithin.children hc).range (mem_preorders_of_mem hc')
    exact ⟨hinner.1, hinner.2.2⟩
  · exact ⟨⟨hspaced.1.begins, hspaced.1.precedes⟩,
      fun c hc => ⟨(hspaced.2 c hc).begins, (hspaced.2 c hc).precedes⟩⟩

/-- The second conditional begins on the line after the `#endif` of the first, whose directive takes
up two lines; its own two branches touch. -/
theorem ranges_form_tree_continued :
    let source := ["#if defined(A) \\".toList, "&& defined(B)".toList, "#endif".toList,
      "#ifdef C".toList, "#ifdef D".toList, "#endif".toList, "#else".toList, "#endif".toList,
      "x".toList]
    let ab : Formula := .and (.var "A") (.var "B")
    let c : Formula := .var "C"
    let forest : List Block := [⟨1, 2, "a.c", ab, ab, []⟩,
      ⟨4, 6, "a.c", c, c, [⟨5, 5, "a.c", .var "D", .and c (.var "D"), []⟩]⟩,
      ⟨7, 7, "a.c", .not c, .not c, []⟩]
    readBlocks {} "a.c" source = .ok [.whole "a.c" 10 forest] ∧
      ∃ forest', ([Block.whole "a.c" 10 forest] = forest' ∨
          ∃ last, [Block.whole "a.c" 10 forest] = [.whole "a.c" last forest'] ∧ 1 ≤ last ∧
            ∀ b ∈ forest', 1 ≤ b.first ∧ b.last < last) ∧
        (∀ b ∈ preorders forest', 1 ≤ b.first ∧ b.first ≤ b.last ∧
          ∀ c ∈ b.children, b.first < c.first ∧ c.last < b.last) ∧
        EveryLevel (fun level =>
          (∀ b ∈ level, BeginsBranch (logicalLines source) b.first) ∧
          level.IsChain fun b b' => b.last < b'.first ∧
            (SameChain (logicalLines source) b.first b'.first ↔ b'.first = b.last + 1))
          forest' := by
  intro source ab c forest
  have h : readBlocks {} "a.c" source = .ok [.whole "a.c" 10 forest] := by
    with_unfolding_all rfl
  exact ⟨h, ranges_form_tree h⟩

end Presence

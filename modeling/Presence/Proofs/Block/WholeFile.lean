import Presence.Proofs.Block.Siblings
import Presence.Proofs.Block.Transfer
import Presence.Proofs.Condition.Handling
import Presence.Proofs.Source.Grouping

/-!
The block around a whole file. It is there just when a line of text stands outside every
conditional, and apart from it nothing depends on whether it is asked for.
-/
namespace Presence

open Text Nesting

/-- A line of text that is no directive stands where no conditional is open. -/
def HasContentOutside (lines : List LogicalLine) : Prop :=
  ∃ before l after, lines = before ++ l :: after ∧ ¬ Blank l.text ∧
    Keyword.ofLine? l.text = none ∧ Balanced (keywords before)

theorem not_hasContentOutside_nil : ¬ HasContentOutside [] := by
  rintro ⟨before, l, after, h, -⟩
  simp at h

/-- The last of some lines is outside if all conditionals before it are complete. -/
theorem hasContentOutside_concat {lines : List LogicalLine} {l : LogicalLine} :
    HasContentOutside (lines ++ [l]) ↔ HasContentOutside lines ∨
      (¬ Blank l.text ∧ Keyword.ofLine? l.text = none ∧ Balanced (keywords lines)) := by
  constructor
  · rintro ⟨before, l', after, h, hl'⟩
    rcases List.eq_nil_or_concat after with rfl | ⟨after, l'', rfl⟩
    · obtain ⟨rfl, hlast⟩ := List.append_inj' h rfl
      obtain rfl : l = l' := by simpa using hlast
      exact .inr hl'
    · rw [List.concat_eq_append, ← List.cons_append, ← List.append_assoc] at h
      exact .inl ⟨before, l', after, (List.append_inj' h rfl).1, hl'⟩
  · rintro (⟨before, l', after, rfl, hl'⟩ | hl)
    · exact ⟨before, l', after ++ [l], by simp, hl'⟩
    · exact ⟨lines, l, [], rfl, hl⟩

namespace Builder

variable {b b' : Builder} {o : Context} {file : String} {l : LogicalLine}

theorem contentOutside_closeBranch (b : Builder) (file : String) :
    (b.closeBranch file).contentOutside = b.contentOutside := by
  unfold closeBranch
  split
  · rfl
  · split <;> rfl

theorem contentOutside_direct {d : Directive} (h : b.direct o file d = .ok b') :
    b'.contentOutside = b.contentOutside := by
  unfold direct at h
  split at h
  case h_1 | h_2 | h_3 =>
    obtain ⟨c, -, hb⟩ := bind_eq_ok_iff.mp h
    cases hb
    rfl
  case h_4 =>
    obtain ⟨⟨c, cs⟩, -, h⟩ := bind_eq_ok_iff.mp h
    obtain ⟨e, -, hb⟩ := bind_eq_ok_iff.mp h
    cases hb
    exact contentOutside_closeBranch b file
  case h_5 =>
    obtain ⟨⟨c, cs⟩, -, hb⟩ := bind_eq_ok_iff.mp h
    cases hb
    exact contentOutside_closeBranch b file
  case h_6 =>
    split at h
    · cases h
    · cases h
      exact contentOutside_closeBranch b file

/-- A line is content outside if it is not empty, no directive, and no branch is open. -/
theorem contentOutside_accept (h : b.accept o file l = (b', none)) :
    b'.contentOutside = true ↔ b.contentOutside = true ∨
      (l.text ≠ [] ∧ Keyword.ofLine? l.text = none ∧ b.stack = []) := by
  have hkeyword : Directive.ofLine? l.text = none ↔ Keyword.ofLine? l.text = none := by
    simp [Directive.ofLine?]
  simp only [accept] at h
  split at h
  · next b'' hb =>
    cases h
    unfold handle at hb
    split at hb
    · next d hd =>
      rw [contentOutside_direct hb]
      simp [Directive.keyword_of_ofLine? hd]
    · next hd =>
      split at hb
      · next hplain =>
        cases hb
        simp only [Bool.or_eq_true, List.isEmpty_iff, Bool.not_eq_true',
          List.isEmpty_eq_false_iff] at hplain
        refine ⟨.inl, ?_⟩
        rintro (hcontent | ⟨htext, -, hstack⟩)
        · exact hcontent
        · exact (hplain.elim htext (absurd hstack)).elim
      · next hplain =>
        cases hb
        simp only [Bool.or_eq_true, List.isEmpty_iff, Bool.not_eq_true',
          List.isEmpty_eq_false_iff, not_or, not_not] at hplain
        exact iff_of_true rfl (.inr ⟨hplain.1, hkeyword.mp hd, hplain.2⟩)
  · cases h

/-- No branch is open just where the conditionals so far are complete. -/
theorem stack_eq_nil_iff {lines : List LogicalLine} (h : acceptAll {} o file lines = (b, none)) :
    b.stack = [] ↔ Balanced (keywords lines) := by
  rw [← run_eq_nil_iff, run_of_acceptAll h, Option.some.injEq]
  cases hs : b.stack with
  | nil => simp [focus_of_stack_nil hs, Focus.shape]
  | cons branch stack => simp [focus_of_stack_cons hs, Focus.shape]

theorem contentOutside_of_acceptAll {lines : List LogicalLine}
    (hlines : ∀ l ∈ lines, Blank l.text → l.text = [])
    (h : acceptAll {} o file lines = (b, none)) :
    b.contentOutside = true ↔ HasContentOutside lines := by
  induction lines using List.reverseRecOn generalizing b with
  | nil =>
    cases h
    exact iff_of_false Bool.false_ne_true not_hasContentOutside_nil
  | append_singleton lines l ih =>
    obtain ⟨b₁, hbefore, hlast⟩ := acceptAll_append.mp h
    obtain ⟨b₂, hl, hnone⟩ := acceptAll_cons.mp hlast
    cases hnone
    have hblank : Blank l.text ↔ l.text = [] :=
      ⟨hlines l (by simp), fun hnil => by simp [hnil, Blank]⟩
    rw [contentOutside_accept hl, hasContentOutside_concat, hblank, stack_eq_nil_iff hbefore,
      ih (fun l hl => hlines l (by simp [hl])) hbefore]

/-- No condition that is tested depends on whether the block is asked for. -/
theorem acceptAll_pseudoBlock (b : Builder) (o : Context) (file : String) (p q : Bool)
    (lines : List LogicalLine) :
    b.acceptAll { o with pseudoBlock := p } file lines =
      b.acceptAll { o with pseudoBlock := q } file lines := by
  apply acceptAll_congr
  intro before l after b₁ e _ _ _
  have hformula : formulaOf { o with pseudoBlock := p } e =
      formulaOf { o with pseudoBlock := q } e := by
    apply formulaOf_congr
    · rfl
    · rfl
    · rfl
  unfold condition
  rw [hformula]

theorem result_pseudoBlock (b : Builder) (o : Context) (file : String) :
    b.result { o with pseudoBlock := true } file =
      (b.result { o with pseudoBlock := false } file).map fun blocks =>
        if b.contentOutside then [.whole file (b.line + 1) blocks] else blocks := by
  unfold result
  split
  · rfl
  · cases b.contentOutside <;> rfl

end Builder

theorem eq_nil_of_blank {lines : List (List Char)} {l : LogicalLine} (h : l ∈ logicalLines lines)
    (hl : Blank l.text) : l.text = [] := by
  obtain ⟨state, g, -, htext⟩ := exists_standsAt h
  have hends : EndsPlain ([] ++ l.text) := by
    rw [List.nil_append, htext]
    exact endsPlain_trim _
  exact hends.eq_nil_of_blank hl

/-- The block around a whole file is a mere wrapper. A file fails with it just as it does without
it. A file that has blocks has them either way, and they are wrapped just when some line of text is
outside all conditionals: in one block without a condition, from the first line to the one after
the last logical line. -/
theorem readBlocks_whole (o : Context) (file : String) (lines : List (List Char)) :
    (∀ e, readBlocks { o with pseudoBlock := true } file lines = .error e ↔
      readBlocks { o with pseudoBlock := false } file lines = .error e) ∧
    ∀ blocks, readBlocks { o with pseudoBlock := false } file lines = .ok blocks →
      (HasContentOutside (logicalLines lines) →
        readBlocks { o with pseudoBlock := true } file lines =
          .ok [⟨1, lastNumber (logicalLines lines) + 1, file, .const true, .const true, blocks⟩]) ∧
      (¬ HasContentOutside (logicalLines lines) →
        readBlocks { o with pseudoBlock := true } file lines = .ok blocks) := by
  have hrun := Builder.acceptAll_pseudoBlock {} o file true false (logicalLines lines)
  rw [Builder.readBlocks_eq_conclude, Builder.readBlocks_eq_conclude, hrun]
  rcases hacc : Builder.acceptAll {} { o with pseudoBlock := false } file (logicalLines lines)
    with ⟨b, _ | x⟩
  · have hcontent : b.contentOutside = true ↔ HasContentOutside (logicalLines lines) :=
      Builder.contentOutside_of_acceptAll (fun _ => eq_nil_of_blank) hacc
    have hline : b.line = lastNumber (logicalLines lines) := Builder.line_of_acceptAll hacc
    simp only [Builder.conclude, b.result_pseudoBlock o file]
    cases hresult : b.result { o with pseudoBlock := false } file with
    | error e => simp [Except.map]
    | ok blocks =>
      refine ⟨by simp [Except.map], ?_⟩
      rintro forest hforest
      cases hforest
      rw [← hcontent, ← hline]
      refine ⟨fun hc => ?_, fun hc => ?_⟩
      · simp [Except.map, hc, Block.whole]
      · simp [Except.map, hc]
  · simp [Builder.conclude]

/-- Content stands between two conditionals here, and the last directive takes up two lines. -/
theorem readBlocks_whole_between_conditionals :
    let source := ["#ifdef A".toList, "#ifdef B".toList, "#endif".toList, "#endif".toList,
      "x".toList, "#ifdef A".toList, "y".toList, "#endif \\".toList, "".toList]
    let a : Formula := .var "A"
    let b : Block := ⟨2, 2, "a.c", .var "B", .and a (.var "B"), []⟩
    let forest : List Block := [⟨1, 3, "a.c", a, a, [b]⟩, ⟨6, 7, "a.c", a, a, []⟩]
    HasContentOutside (logicalLines source) ∧
      readBlocks { pseudoBlock := false } "a.c" source = .ok forest ∧
      readBlocks { pseudoBlock := true } "a.c" source =
        .ok [⟨1, 9, "a.c", .const true, .const true, forest⟩] := by
  intro source a b forest
  have hcontent : HasContentOutside (logicalLines source) := by
    refine ⟨(logicalLines source).take 4, ⟨5, ['x']⟩, (logicalLines source).drop 5, by decide, ?_⟩
    have hplain : ¬ Blank ['x'] := fun hblank => absurd (hblank 'x' (by simp)) (by decide)
    exact ⟨hplain, by decide, run_eq_nil_iff.mp (by decide)⟩
  have hforest : readBlocks { pseudoBlock := false } "a.c" source = .ok forest := by
    with_unfolding_all rfl
  exact ⟨hcontent, hforest, ((readBlocks_whole {} "a.c" source).2 forest hforest).1 hcontent⟩

end Presence

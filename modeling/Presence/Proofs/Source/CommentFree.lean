import Mathlib.Data.List.Chain
import Presence.Proofs.Source.CommentScan
import Presence.Proofs.Source.Grouping

/-!
Text without comments. Stripping puts no slash in front of a slash or a star, not even of one that
stood behind a comment, so that a second time there is nothing to strip.
-/
namespace Presence

open Text

def BeginComment (c d : Char) : Prop :=
  c = '/' ∧ (d = '/' ∨ d = '*')

def HasOpener (s : List Char) : Prop :=
  "//".toList <:+: s ∨ "/*".toList <:+: s

theorem hasOpener_iff {s : List Char} :
    HasOpener s ↔ ∃ c d, BeginComment c d ∧ [c, d] <:+: s := by
  constructor
  · rintro (h | h)
    · exact ⟨'/', '/', ⟨rfl, .inl rfl⟩, h⟩
    · exact ⟨'/', '*', ⟨rfl, .inr rfl⟩, h⟩
  · rintro ⟨c, d, ⟨rfl, rfl | rfl⟩, h⟩
    · exact .inl h
    · exact .inr h

theorem not_hasOpener_iff_isChain {s : List Char} :
    ¬ HasOpener s ↔ s.IsChain fun c d => ¬ BeginComment c d := by
  rw [hasOpener_iff]
  constructor
  · intro h
    apply (List.isChain_isInfix s).imp
    intro c d hinfix hbegin
    exact h ⟨c, d, hbegin, hinfix⟩
  · rintro h ⟨c, d, hbegin, hinfix⟩
    have hpair := List.IsChain.infix h hinfix
    exact List.isChain_pair.mp hpair hbegin

theorem HasOpener.mono {s t : List Char} (h : HasOpener s) (hst : s <:+: t) : HasOpener t :=
  h.imp (·.trans hst) (·.trans hst)

/-- In code a character is kept if no comment begins with it and the next one. -/
theorem stripComments_cons_of_plain {c : Char} {s : List Char}
    (h : ∀ d ∈ s.head?, ¬ BeginComment c d) :
    stripComments .code (c :: s) = (c :: (stripComments .code s).1, (stripComments .code s).2) := by
  rw [stripComments]
  · rintro u rfl rfl
    exact h '/' rfl ⟨rfl, .inl rfl⟩
  · rintro u rfl rfl
    exact h '*' rfl ⟨rfl, .inr rfl⟩

theorem stripComments_of_isChain {s : List Char} (h : s.IsChain fun c d => ¬ BeginComment c d) :
    stripComments .code s = (s, .code) := by
  induction s with
  | nil => rfl
  | cons c s ih =>
    obtain ⟨hhead, hrest⟩ := List.isChain_cons.mp h
    rw [stripComments_cons_of_plain hhead, ih hrest]

theorem head?_stripComments {s : List Char} (h : s.head? ≠ some '/') :
    (stripComments .code s).1.head? = s.head? := by
  cases s with
  | nil => rfl
  | cons c s =>
    rw [stripComments_cons_of_plain]
    · rfl
    · rintro d - ⟨rfl, -⟩
      exact h rfl

/-- A slash that is kept has the character behind it that it had before: a comment that could part
the two would begin with a slash, and that slash would make a line comment of both. -/
theorem isChain_stripComments (state : CommentState) (line : List Char) :
    (stripComments state line).1.IsChain fun c d => ¬ BeginComment c d := by
  fun_induction stripComments state line with
  | case1 s ih => exact ih
  | case2 c s hclose ih => exact ih
  | case3 => exact List.isChain_nil
  | case4 s => exact List.isChain_nil
  | case5 s ih => exact ih
  | case6 c s hline hblock ih =>
    apply ih.cons
    rintro d hd ⟨rfl, hbegin⟩
    have hslash : s.head? ≠ some '/' := by
      intro hs
      obtain ⟨u, rfl⟩ := List.head?_eq_some_iff.mp hs
      exact hline u rfl rfl
    rw [head?_stripComments hslash] at hd
    obtain ⟨u, rfl⟩ := List.head?_eq_some_iff.mp hd
    rcases hbegin with rfl | rfl
    · exact hslash rfl
    · exact hblock u rfl rfl
  | case7 => exact List.isChain_nil

/-- Stripping leaves a text as it is just when no comment begins in it. -/
theorem stripComments_code_eq_self_iff {s : List Char} :
    stripComments .code s = (s, .code) ↔ ¬ HasOpener s := by
  rw [not_hasOpener_iff_isChain]
  constructor
  · intro h
    have hchain := isChain_stripComments .code s
    rwa [h] at hchain
  · exact stripComments_of_isChain

/-- No comment begins in what is left of a line, wherever the line starts. Stripped again it stays
as it is and leaves code behind. So no comment begins in a logical line either. -/
theorem stripComments_leaves_no_opener (state : CommentState) (line : List Char) :
    ¬ HasOpener (stripComments state line).1 ∧
      stripComments .code (stripComments state line).1 = ((stripComments state line).1, .code) ∧
      ∀ lines, ∀ l ∈ logicalLines lines, ¬ HasOpener l.text := by
  have hstripped (state : CommentState) (line : List Char) :
      ¬ HasOpener (stripComments state line).1 :=
    not_hasOpener_iff_isChain.mpr (isChain_stripComments state line)
  refine ⟨hstripped state line, stripComments_code_eq_self_iff.mpr (hstripped state line), ?_⟩
  intro lines l hl hopener
  obtain ⟨state, g, -, htext⟩ := exists_standsAt hl
  rw [htext] at hopener
  exact hstripped state g.text (hopener.mono (trim_infix_self _))

/-- A slash right behind one comment and a star right behind another begin none together. -/
theorem stripComments_leaves_no_opener_between_comments :
    let lines := ["#if A /* x".toList, "y *//B/*/*/* / //C".toList, "#endif".toList]
    let kept := "/B* / ".toList
    stripComments .comment "y *//B/*/*/* / //C".toList = (kept, .code) ∧ ¬ HasOpener kept ∧
      stripComments .code kept = (kept, .code) ∧
      (⟨2, "/B* /".toList⟩ : LogicalLine) ∈ logicalLines lines ∧ ¬ HasOpener "/B* /".toList := by
  intro lines kept
  have hkept : stripComments .comment "y *//B/*/*/* / //C".toList = (kept, .code) := by decide
  have hmem : (⟨2, "/B* /".toList⟩ : LogicalLine) ∈ logicalLines lines := by decide
  obtain ⟨hopener, hagain, hlogical⟩ :=
    stripComments_leaves_no_opener .comment "y *//B/*/*/* / //C".toList
  rw [hkept] at hopener hagain
  exact ⟨hkept, hopener, hagain, hmem, hlogical lines _ hmem⟩

end Presence

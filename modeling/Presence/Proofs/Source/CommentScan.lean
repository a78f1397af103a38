import Presence.Source.Comment
import Mathlib.Data.List.Basic

/-!
Comments of a whole text. A scanner that goes over the line feeds of a text keeps of it what is kept
of its lines one after the other.
-/
namespace Presence

inductive SourceRegion
  | code
  | lineComment
  | blockComment
  deriving DecidableEq, Repr

/-- What a scanner keeps of a text, and where it stops. The star that opens a block comment does not
close it too, and a line comment ends before the line feed. -/
def scanComments : SourceRegion → List Char → List Char × SourceRegion
  | .code, '/' :: '/' :: s => scanComments .lineComment s
  | .code, '/' :: '*' :: s => scanComments .blockComment s
  | .code, c :: s => (c :: (scanComments .code s).1, (scanComments .code s).2)
  | .lineComment, '\n' :: s => ('\n' :: (scanComments .code s).1, (scanComments .code s).2)
  | .lineComment, _ :: s => scanComments .lineComment s
  | .blockComment, '*' :: '/' :: s => scanComments .code s
  | .blockComment, '\n' :: s =>
    ('\n' :: (scanComments .blockComment s).1, (scanComments .blockComment s).2)
  | .blockComment, _ :: s => scanComments .blockComment s
  | region, [] => ([], region)

example : scanComments .code "a//*b\nc/*/d*/e".toList = ("a\nce".toList, .code) := by decide

def SourceRegion.nextLine : SourceRegion → SourceRegion
  | lineComment => code
  | region => region

def CommentState.region : CommentState → SourceRegion
  | code => .code
  | comment => .blockComment

/-- What is kept of each line when it starts where the line before it ended. -/
def stripLines : CommentState → List (List Char) → List (List Char) × CommentState
  | state, [] => ([], state)
  | state, line :: lines =>
    ((stripComments state line).1 :: (stripLines (stripComments state line).2 lines).1,
      (stripLines (stripComments state line).2 lines).2)

/-- What does not begin the second part of a text begins the first. -/
theorem eq_cons_of_append {s t u : List Char} {c : Char} (hc : t.head? ≠ some c)
    (h : s ++ t = c :: u) : ∃ s', s = c :: s' := by
  cases s with
  | nil => exact absurd (congrArg List.head? h) hc
  | cons d s => exact ⟨s, by rw [(List.cons.inj h).1]⟩

/-- The scanner looks no further than a line feed. -/
theorem scanComments_line_feed (region : SourceRegion) (s t : List Char) :
    scanComments region (s ++ '\n' :: t) =
      ((scanComments region s).1 ++
          '\n' :: (scanComments (scanComments region s).2.nextLine t).1,
        (scanComments (scanComments region s).2.nextLine t).2) := by
  fun_induction scanComments region s with
  | case1 s ih => exact ih
  | case2 s ih => exact ih
  | case3 c s hline hblock ih =>
    rw [List.cons_append, scanComments, ih]
    · rfl
    · rintro u rfl hu
      obtain ⟨s', rfl⟩ := eq_cons_of_append (by simp) hu
      exact hline s' rfl rfl
    · rintro u rfl hu
      obtain ⟨s', rfl⟩ := eq_cons_of_append (by simp) hu
      exact hblock s' rfl rfl
  | case4 s ih =>
    rw [List.cons_append, scanComments, ih]
    rfl
  | case5 c s hc ih =>
    rw [List.cons_append, scanComments, ih]
    exact hc
  | case6 s ih => exact ih
  | case7 s ih =>
    rw [List.cons_append, scanComments, ih]
    rfl
  | case8 c s hclose hfeed ih =>
    rw [List.cons_append, scanComments, ih]
    · rintro u rfl hu
      obtain ⟨s', rfl⟩ := eq_cons_of_append (by simp) hu
      exact hclose s' rfl rfl
    · exact hfeed
  | case9 region => cases region <;> rfl

theorem scanComments_lineComment {s : List Char} (h : '\n' ∉ s) :
    scanComments .lineComment s = ([], .lineComment) := by
  induction s with
  | nil => rfl
  | cons c s ih =>
    obtain ⟨hc, hs⟩ := List.ne_and_not_mem_of_not_mem_cons h
    rw [scanComments, ih hs]
    exact fun heq => hc heq.symm

/-- Within a line the scanner does what stripping does, but for the end of a line comment, which
stripping does not wait for. -/
theorem scanComments_line (state : CommentState) {line : List Char} (h : '\n' ∉ line) :
    (scanComments state.region line).1 = (stripComments state line).1 ∧
      (scanComments state.region line).2.nextLine = (stripComments state line).2.region := by
  fun_induction stripComments state line with
  | case1 s ih => exact ih (by simp_all)
  | case2 c s hclose ih =>
    obtain ⟨hc, hs⟩ := List.ne_and_not_mem_of_not_mem_cons h
    rw [CommentState.region, scanComments]
    · exact ih hs
    · exact hclose
    · exact fun heq => hc heq.symm
  | case3 => exact ⟨rfl, rfl⟩
  | case4 s =>
    have hs : '\n' ∉ s := fun hmem => h (by simp [hmem])
    rw [CommentState.region, scanComments, scanComments_lineComment hs]
    exact ⟨rfl, rfl⟩
  | case5 s ih => exact ih (by simp_all)
  | case6 c s hline hblock ih =>
    obtain ⟨-, hs⟩ := List.ne_and_not_mem_of_not_mem_cons h
    obtain ⟨htext, hregion⟩ := ih hs
    rw [CommentState.region, scanComments]
    · exact ⟨by rw [← htext]; rfl, hregion⟩
    · exact hline
    · exact hblock
  | case7 => exact ⟨rfl, rfl⟩

/-- The state that a line leaves, told from where the scanner stands behind it. -/
theorem CommentState.eq_comment_iff {state : CommentState} {region : SourceRegion}
    (h : region.nextLine = state.region) : state = .comment ↔ region = .blockComment := by
  cases state <;> cases region <;> simp_all [SourceRegion.nextLine, CommentState.region]

theorem scanComments_lines (state : CommentState) {lines : List (List Char)}
    (h : ∀ line ∈ lines, '\n' ∉ line) :
    (scanComments state.region (['\n'].intercalate lines)).1 =
        ['\n'].intercalate (stripLines state lines).1 ∧
      (scanComments state.region (['\n'].intercalate lines)).2.nextLine =
        (stripLines state lines).2.region := by
  induction lines generalizing state with
  | nil => cases state <;> exact ⟨rfl, rfl⟩
  | cons line lines ih =>
    obtain ⟨hline, hlines⟩ := List.forall_mem_cons.mp h
    obtain ⟨htext, hregion⟩ := scanComments_line state hline
    cases lines with
    | nil => simpa [stripLines] using ⟨htext, hregion⟩
    | cons line' lines =>
      obtain ⟨hrest, hlast⟩ := ih (stripComments state line).2 hlines
      rw [List.intercalate_cons_cons, List.append_assoc, List.singleton_append,
        scanComments_line_feed, hregion, htext, hrest]
      refine ⟨?_, hlast⟩
      simp only [stripLines, List.intercalate_cons_cons, List.append_assoc, List.singleton_append]

/-- Stripping line by line, with the state of each line carried to the next one, keeps of the lines
what the scanner keeps of them as one text. It ends in a comment just when the scanner ends in a
block comment. -/
theorem stripLines_eq_scanComments (state : CommentState) {lines : List (List Char)}
    (h : ∀ line ∈ lines, '\n' ∉ line) :
    ['\n'].intercalate (stripLines state lines).1 =
        (scanComments state.region (['\n'].intercalate lines)).1 ∧
      ((stripLines state lines).2 = .comment ↔
        (scanComments state.region (['\n'].intercalate lines)).2 = .blockComment) := by
  obtain ⟨htext, hregion⟩ := scanComments_lines state h
  exact ⟨htext.symm, CommentState.eq_comment_iff hregion⟩

/-- The first line ends in a slash and the second begins with one, a star opens a comment and does
not close it, a line comment hides what would open one, and the last line leaves one open. -/
theorem stripLines_eq_scanComments_overlapping :
    let lines := ["a/".toList, "/b/*/c*".toList, "/*/d//*".toList, "e/**/f/*".toList]
    (∀ line ∈ lines, '\n' ∉ line) ∧
      (stripLines .code lines).1 = ["a/".toList, "/b".toList, "d".toList, "ef".toList] ∧
      ['\n'].intercalate (stripLines .code lines).1 =
        (scanComments .code (['\n'].intercalate lines)).1 ∧
      (scanComments .code (['\n'].intercalate lines)).2 = .blockComment := by
  intro lines
  have hlines : ∀ line ∈ lines, '\n' ∉ line := by decide
  have hkept : stripLines .code lines =
      (["a/".toList, "/b".toList, "d".toList, "ef".toList], .comment) := by decide
  obtain ⟨htext, hstate⟩ := stripLines_eq_scanComments .code hlines
  exact ⟨hlines, by rw [hkept], htext, hstate.mp (by rw [hkept])⟩

end Presence

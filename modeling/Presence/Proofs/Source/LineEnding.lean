import Presence.Source.LogicalLine
import Presence.Text.Lines

/-!
Styles of line ends. Whether lines end in a line feed or in a carriage return before it, they hold
the same apart from their ends, and nothing else of them is ever looked at.
-/
namespace Presence

namespace Text

/-- A line feed comes right after each carriage return. -/
def ReturnsPaired : List Char → Prop
  | [] => True
  | c :: s => (c = '\r' → s.head? = some '\n') ∧ ReturnsPaired s

instance decidableReturnsPaired : (s : List Char) → Decidable (ReturnsPaired s)
  | [] => isTrue trivial
  | c :: s =>
    have := decidableReturnsPaired s
    inferInstanceAs (Decidable ((c = '\r' → s.head? = some '\n') ∧ ReturnsPaired s))

/-- Puts a carriage return before each line feed that has none. -/
def insertReturns : List Char → List Char
  | [] => []
  | '\r' :: '\n' :: s => '\r' :: '\n' :: insertReturns s
  | '\n' :: s => '\r' :: '\n' :: insertReturns s
  | c :: s => c :: insertReturns s

def isLineEnd (c : Char) : Bool :=
  c = '\r' || c = '\n'

/-- What is left of a line without its end is decided by its first character and the others
without their end. -/
theorem chomp_cons (c : Char) (l : List Char) :
    chomp (c :: l) = if (chomp l).isEmpty && isLineEnd c then [] else c :: chomp l := by
  unfold chomp
  rw [List.reverse_cons, List.dropWhile_append]
  cases hrest : l.reverse.dropWhile fun c => c = '\r' || c = '\n' with
  | nil => cases hc : isLineEnd c <;> simp_all [isLineEnd]
  | cons d ds => simp

def lineContents (s : List Char) : List (List Char) :=
  (splitLines s).map chomp

theorem lineContents_line_feed (s : List Char) :
    lineContents ('\n' :: s) = [] :: lineContents s := by
  simp [lineContents, splitLines_line_feed, chomp_cons, isLineEnd]

theorem lineContents_return (s : List Char) :
    lineContents ('\r' :: '\n' :: s) = [] :: lineContents s := by
  simp [lineContents, splitLines, chomp_cons, isLineEnd]

/-- One more character in front makes no difference between texts whose lines hold the same. -/
theorem lineContents_cons_congr (c : Char) {s t : List Char} (h : lineContents s = lineContents t) :
    lineContents (c :: s) = lineContents (c :: t) := by
  by_cases hc : c = '\n'
  · rw [hc, lineContents_line_feed, lineContents_line_feed, h]
  · unfold lineContents at h ⊢
    simp only [splitLines, if_neg hc]
    cases hs : splitLines s with
    | nil =>
      rw [hs] at h
      have ht : splitLines t = [] := List.map_eq_nil_iff.mp h.symm
      rw [ht]
    | cons l ls =>
      cases ht : splitLines t with
      | nil =>
        rw [hs, ht] at h
        cases h
      | cons l' ls' =>
        rw [hs, ht] at h
        obtain ⟨hl, hls⟩ := List.cons.inj h
        simp only [List.map_cons, chomp_cons, hl, hls]

theorem lineContents_insertReturns (s : List Char) :
    lineContents (insertReturns s) = lineContents s := by
  fun_induction insertReturns s with
  | case1 => rfl
  | case2 s ih => rw [lineContents_return, lineContents_return, ih]
  | case3 s ih => rw [lineContents_return, lineContents_line_feed, ih]
  | case4 c s _ _ ih => exact lineContents_cons_congr c ih

theorem lineContents_unifyNewlines {s : List Char} (h : ReturnsPaired s) :
    lineContents (unifyNewlines s) = lineContents s := by
  fun_induction unifyNewlines s with
  | case1 => rfl
  | case2 s ih => rw [lineContents_line_feed, lineContents_return, ih h.2.2]
  | case3 s hs ih =>
    have hfeed : s.head? = some '\n' := h.1 rfl
    cases s with
    | nil => cases hfeed
    | cons c s =>
      obtain rfl : c = '\n' := Option.some.inj hfeed
      exact absurd rfl (hs s)
  | case4 c s _ _ ih => exact lineContents_cons_congr c (ih h.2)

end Text

open Text

theorem LineReader.feed_congr (r : LineReader) {line line' : List Char}
    (h : chomp line = chomp line') : r.feed line = r.feed line' := by
  simp only [feed, h]

theorem LineReader.feedAll_congr (r : LineReader) {lines lines' : List (List Char)}
    (h : lines.map chomp = lines'.map chomp) : r.feedAll lines = r.feedAll lines' := by
  induction lines generalizing r lines' with
  | nil =>
    obtain rfl : lines' = [] := List.map_eq_nil_iff.mp h.symm
    rfl
  | cons line lines ih =>
    cases lines' with
    | nil => cases h
    | cons line' lines' =>
      obtain ⟨hline, hlines⟩ := List.cons.inj h
      simp only [feedAll, r.feed_congr hline, ih _ hlines]

/-- Logical lines do not depend on how the physical ones end. -/
theorem logicalLines_congr {s t : List Char} (h : lineContents s = lineContents t) :
    logicalLines (splitLines s) = logicalLines (splitLines t) := by
  rw [logicalLines, logicalLines, LineReader.feedAll_congr {} h]

end Presence

import Presence.Source.LogicalLine

/-!
Lines read behind others. What a reader makes of them depends on the lines before only through the
comment and the directive that these leave open, and through their number.
-/
namespace Presence

def LogicalLine.renumber (s : Nat → Nat) (l : LogicalLine) : LogicalLine :=
  ⟨s l.number, l.text⟩

namespace LineReader

/-- The reader with `n` more lines before all that it has read. -/
def behind (r : LineReader) (n : Nat) : LineReader where
  number := r.number + n
  state := r.state
  waiting := r.waiting.map fun w => (w.1 + n, w.2)

variable {n : Nat}

theorem complete_behind (r : LineReader) (start : Nat) (text : List Char) :
    (r.behind n).complete (start + n) text =
      ((r.complete start text).1.behind n, (r.complete start text).2.renumber (· + n)) := rfl

theorem directive_behind (r : LineReader) (start : Nat) (text : List Char) :
    (r.behind n).directive (start + n) text =
      ((r.directive start text).1.behind n,
        (r.directive start text).2.map (·.renumber (· + n))) := by
  unfold directive
  split
  · rfl
  · simp only [complete_behind, Option.map_some]

theorem advance_behind (r : LineReader) (n : Nat) :
    { r.behind n with number := (r.behind n).number + 1 } =
      ({ r with number := r.number + 1 } : LineReader).behind n := by
  simp only [behind, LineReader.mk.injEq, and_true]
  omega

theorem feed_behind (r : LineReader) (line : List Char) :
    (r.behind n).feed line =
      ((r.feed line).1.behind n, (r.feed line).2.map (·.renumber (· + n))) := by
  unfold feed
  rw [advance_behind]
  obtain ⟨number, state, _ | ⟨start, text⟩⟩ := r
  · simp only [behind, Option.map_none]
    split
    · exact directive_behind ⟨number + 1, state, none⟩ (number + 1) _
    · rfl
  · exact directive_behind ⟨number + 1, state, some (start, text)⟩ start _

theorem feedAll_behind (r : LineReader) (lines : List (List Char)) :
    (r.behind n).feedAll lines =
      ((r.feedAll lines).1.behind n, (r.feedAll lines).2.map (·.renumber (· + n))) := by
  induction lines generalizing r with
  | nil => rfl
  | cons line lines ih =>
    simp only [feedAll, feed_behind, ih, List.map_append]
    cases (r.feed line).2 <;> rfl

theorem finish_behind (r : LineReader) :
    (r.behind n).finish.2 = r.finish.2.map (·.renumber (· + n)) := by
  obtain ⟨number, state, _ | ⟨start, text⟩⟩ := r <;> rfl

theorem number_directive (r : LineReader) (start : Nat) (text : List Char) :
    (r.directive start text).1.number = r.number := by
  unfold directive
  split <;> rfl

theorem number_feed (r : LineReader) (line : List Char) :
    (r.feed line).1.number = r.number + 1 := by
  simp only [feed]
  split
  · exact number_directive _ _ _
  · split
    · exact number_directive _ _ _
    · rfl

theorem number_feedAll (r : LineReader) (lines : List (List Char)) :
    (r.feedAll lines).1.number = r.number + lines.length := by
  induction lines generalizing r with
  | nil => rfl
  | cons line lines ih =>
    simp only [feedAll, ih, number_feed, List.length_cons]
    omega

/-- The lines leave neither a comment nor a directive open. -/
def Settled (lines : List (List Char)) : Prop :=
  (feedAll {} lines).1.state = .code ∧ (feedAll {} lines).1.waiting = none

/-- Behind such lines reading starts anew. -/
theorem Settled.feedAll_eq {lines : List (List Char)} (h : Settled lines) :
    (feedAll {} lines).1 = behind {} lines.length := by
  have hnumber := number_feedAll {} lines
  obtain ⟨hstate, hwaiting⟩ := h
  rcases hr : (feedAll {} lines).1 with ⟨number, state, waiting⟩
  simp only [hr] at hnumber hstate hwaiting
  simp [behind, hnumber, hstate, hwaiting]

end LineReader

open LineReader

theorem logicalLines_append {xs : List (List Char)} (h : Settled xs) (ys : List (List Char)) :
    logicalLines (xs ++ ys) =
      logicalLines xs ++ (logicalLines ys).map (·.renumber (· + xs.length)) := by
  have hfinish : (behind {} xs.length).finish.2 = none := rfl
  simp only [logicalLines, feedAll_append, h.feedAll_eq, hfinish, feedAll_behind, finish_behind,
    Option.toList_none, List.append_nil, List.append_assoc, List.map_append]
  cases (feedAll {} ys).1.finish.2 <;> rfl

end Presence

import Presence.Source.LogicalLine

/-! The numbers of logical lines increase. -/
namespace Presence

open Text

namespace LineReader

/-- The number of the logical line that is completed next. -/
def next (r : LineReader) : Nat :=
  match r.waiting with
  | some (start, _) => start
  | none => r.number + 1

/-- A directive that waits was begun on a line that was read. -/
def Timely (r : LineReader) : Prop :=
  r.next ≤ r.number + 1

theorem timely_start : Timely {} := by
  simp [Timely, next]

theorem next_complete (r : LineReader) (start : Nat) (text : List Char) :
    (r.complete start text).1.next = r.number + 1 := rfl

theorem timely_complete (r : LineReader) (start : Nat) (text : List Char) :
    (r.complete start text).1.Timely := by
  simp [Timely, next, complete]

/-- What reading a line does to the number that comes next: a completed line has it, and a later
one takes its place. -/
def Advances (r : LineReader) (after : LineReader × Option LogicalLine) : Prop :=
  after.1.Timely ∧
    match after.2 with
    | none => after.1.next = r.next
    | some l => l.number = r.next ∧ r.next < after.1.next

theorem advances_complete {r s : LineReader} {start : Nat} {text : List Char}
    (hs : start = r.next) (hn : start ≤ s.number) :
    r.Advances ((s.complete start text).1, some (s.complete start text).2) := by
  refine ⟨timely_complete s start text, hs, ?_⟩
  rw [next_complete]
  omega

theorem advances_directive {r s : LineReader} {start : Nat} {text : List Char}
    (hs : start = r.next) (hn : start ≤ s.number) : r.Advances (s.directive start text) := by
  unfold directive
  split
  · refine ⟨?_, hs⟩
    simp only [Timely, next]
    omega
  · exact advances_complete hs hn

theorem advances_feed {r : LineReader} (hr : r.Timely) (line : List Char) :
    r.Advances (r.feed line) := by
  simp only [Timely] at hr
  simp only [feed]
  split
  · next start text hw =>
    have hs : start = r.next := by simp [next, hw]
    exact advances_directive hs (by simp only; omega)
  · next hw =>
    have hs : r.number + 1 = r.next := by simp [next, hw]
    split
    · exact advances_directive hs (Nat.le_refl _)
    · exact advances_complete hs (Nat.le_refl _)

/-- The lines completed by a run of the reader, in order, lie from the first number that can come
next up to the one that can after the run. -/
theorem numbers_feedAll {r : LineReader} (hr : r.Timely) (lines : List (List Char)) :
    (r.feedAll lines).1.Timely ∧ r.next ≤ (r.feedAll lines).1.next ∧
      (r.feedAll lines).2.Pairwise (·.number < ·.number) ∧
      ∀ l ∈ (r.feedAll lines).2, r.next ≤ l.number ∧ l.number < (r.feedAll lines).1.next := by
  induction lines generalizing r with
  | nil => simpa [feedAll] using hr
  | cons line lines ih =>
    obtain ⟨ht, hl⟩ := advances_feed hr line
    obtain ⟨ht', hle, hp, hm⟩ := ih ht
    cases h : (r.feed line).2 with
    | none =>
      simp only [h] at hl
      simp only [feedAll, h, Option.toList_none, List.nil_append]
      exact ⟨ht', by omega, hp, fun l hl' => by have := hm l hl'; omega⟩
    | some l =>
      simp only [h] at hl
      simp only [feedAll, h, Option.toList_some, List.singleton_append, List.pairwise_cons,
        List.mem_cons]
      refine ⟨ht', by omega, ⟨fun l' hl' => ?_, hp⟩, fun l' hl' => ?_⟩
      · have := hm l' hl'
        omega
      · rcases hl' with rfl | hl'
        · omega
        · have := hm l' hl'
          omega

/-- At the end of the text a waiting directive gets the number that comes next. -/
theorem finish_cases (r : LineReader) :
    r.finish.2 = none ∨ ∃ l, r.finish.2 = some l ∧ l.number = r.next := by
  unfold finish
  split
  · next start text hw => exact .inr ⟨_, rfl, by simp [next, complete, hw]⟩
  · exact .inl rfl

end LineReader

/-- Numbers from 1 on, each above the one before. -/
def Numbered (lines : List LogicalLine) : Prop :=
  lines.Pairwise (·.number < ·.number) ∧ ∀ l ∈ lines, 0 < l.number

/-- The number of the last of some lines, or 0 before the first. -/
def lastNumber (lines : List LogicalLine) : Nat :=
  (lines.getLast?.map (·.number)).getD 0

@[simp] theorem lastNumber_nil : lastNumber [] = 0 := rfl

@[simp] theorem lastNumber_concat (lines : List LogicalLine) (l : LogicalLine) :
    lastNumber (lines ++ [l]) = l.number := by
  simp [lastNumber]

theorem Numbered.left {xs ys : List LogicalLine} (h : Numbered (xs ++ ys)) : Numbered xs :=
  ⟨(List.pairwise_append.mp h.1).1, fun l hl => h.2 l (List.mem_append_left _ hl)⟩

theorem Numbered.lastNumber_lt {xs ys : List LogicalLine} {l : LogicalLine}
    (h : Numbered (xs ++ l :: ys)) : lastNumber xs < l.number := by
  rcases List.eq_nil_or_concat xs with rfl | ⟨xs, x, rfl⟩
  · exact h.2 l (by simp)
  · rw [List.concat_eq_append] at h ⊢
    rw [lastNumber_concat]
    exact (List.pairwise_append.mp h.1).2.2 x (by simp) l (by simp)

theorem logicalLines_numbered (lines : List (List Char)) : Numbered (logicalLines lines) := by
  obtain ⟨-, hle, hp, hm⟩ := LineReader.numbers_feedAll LineReader.timely_start lines
  have hstart : LineReader.next {} = 1 := rfl
  rw [hstart] at hle hm
  unfold logicalLines
  rcases LineReader.finish_cases (LineReader.feedAll {} lines).1 with hf | ⟨l, hf, hl⟩
  · simp only [hf, Option.toList_none, List.append_nil]
    exact ⟨hp, fun l hl => (hm l hl).1⟩
  · simp only [Numbered, hf, Option.toList_some, List.pairwise_append, List.mem_append,
      List.mem_singleton]
    refine ⟨⟨hp, List.pairwise_singleton _ _, ?_⟩, ?_⟩
    · rintro l' hl' _ rfl
      have := hm l' hl'
      omega
    · rintro l' (hl' | rfl)
      · exact (hm l' hl').1
      · omega

end Presence

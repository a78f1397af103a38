import Mathlib.Data.List.TakeWhile
import Presence.Proofs.Token.Composition

/-!
Scanning a text up to a closing parenthesis. No token goes on at one, so the text in front becomes
what it becomes by itself, or scanning fails in both places.
-/
namespace Presence

/-- Scanning fails, wherever the text stands. -/
def Unscannable (s : List Char) : Prop :=
  ∀ column, ∃ e, scanFrom column s = .error e

namespace Scans

variable {s rest : List Char} {w : List Lexeme}

theorem unscannable (h : Scans s w rest) (hrest : Unscannable rest) : Unscannable (s ++ rest) := by
  intro column
  obtain ⟨ts, -, hscan⟩ := h column
  obtain ⟨e, he⟩ := hrest (column + s.length)
  exact ⟨e, by rw [hscan, he]; rfl⟩

end Scans

variable {rest : List Char}

/-- The text becomes the same lexemes at the end and in front of a closing parenthesis, or none in
both places. -/
def SettledBefore (rest s : List Char) : Prop :=
  (∃ w, Scans s w [] ∧ Scans s w (')' :: rest)) ∨
    (Unscannable s ∧ Unscannable (s ++ ')' :: rest))

theorem SettledBefore.prepend {p s : List Char} {w : List Lexeme} (hend : Scans p w s)
    (hclosing : Scans p w (s ++ ')' :: rest)) (h : SettledBefore rest s) :
    SettledBefore rest (p ++ s) := by
  rcases h with ⟨v, hs, hs'⟩ | ⟨hs, hs'⟩
  · refine .inl ⟨w ++ v, ?_, hclosing.append hs'⟩
    rw [← List.append_nil s] at hend
    exact hend.append hs
  · refine .inr ⟨hend.unscannable hs, ?_⟩
    rw [List.append_assoc]
    exact hclosing.unscannable hs'

/-- A run of characters ends at a parenthesis at the latest. -/
theorem span_append_closing (runs : Char → Bool) (hruns : runs ')' = false) (s rest : List Char) :
    (s ++ ')' :: rest).takeWhile runs = s.takeWhile runs ∧
      Breaks runs (s.dropWhile runs) ∧ Breaks runs (s.dropWhile runs ++ ')' :: rest) := by
  have hbreaks : Breaks runs (s.dropWhile runs) := by
    intro c hc
    have h := List.head?_dropWhile_not runs s
    rw [Option.mem_def.mp hc] at h
    exact h
  have hclosing : Breaks runs (s.dropWhile runs ++ ')' :: rest) := by
    intro c hc
    cases htail : s.dropWhile runs with
    | nil =>
      rw [htail] at hc
      obtain rfl : ')' = c := Option.some.inj hc
      exact hruns
    | cons d tail =>
      rw [htail] at hbreaks hc
      exact hbreaks c hc
  refine ⟨?_, hbreaks, hclosing⟩
  have hall : ∀ c ∈ s.takeWhile runs, runs c = true := fun _ => List.mem_takeWhile_imp
  have hspan := (span_of_breaks hall hclosing).1
  rwa [← List.append_assoc, List.takeWhile_append_dropWhile] at hspan

theorem Punctuator.longest?_append_closing (c : Char) (s rest : List Char) :
    longest? (c :: s ++ ')' :: rest) = longest? (c :: s) := by
  cases s with
  | nil =>
    have hpair : pair? c ')' = none := by
      unfold pair?
      split <;> simp_all
    simp [longest?, hpair]
  | cons d s => rfl

theorem Punctuator.eq_append_of_longest? {c : Char} {s : List Char} {p : Punctuator}
    (h : longest? (c :: s) = some p) : c :: s = p.chars ++ s.drop (p.chars.length - 1) := by
  obtain ⟨t, ht⟩ := chars_prefix_of_longest? h
  cases hchars : p.chars with
  | nil => exact absurd hchars p.chars_ne_nil
  | cons d ds =>
    rw [hchars] at ht
    obtain ⟨rfl, rfl⟩ := List.cons.inj ht
    simp

/-- By recursion of scanning: what it cuts off becomes the same token in both places. -/
theorem settledBefore (s rest : List Char) : SettledBefore rest s := by
  fun_induction scanFrom 1 s
  case case1 => exact .inl ⟨[], .nil _, .nil _⟩
  case case2 hseparator ih =>
    exact .prepend (.separator hseparator) (.separator hseparator) ih
  case case3 c s hseparator hdigit run hvalue ih =>
    obtain ⟨-, hend, hclosing⟩ := span_append_closing continuesNumber (by decide) s rest
    have hsplit : c :: s = run ++ s.dropWhile continuesNumber := by simp [run]
    have hplain : isSeparator c = false := by simpa using hseparator
    have hrun : ∀ d ∈ s.takeWhile continuesNumber, continuesNumber d = true :=
      fun _ => List.mem_takeWhile_imp
    rw [hsplit]
    exact .prepend (.integer hplain hdigit hrun hvalue hend)
      (.integer hplain hdigit hrun hvalue hclosing) ih
  case case4 c s hseparator hdigit run hvalue =>
    obtain ⟨hrun, -, -⟩ := span_append_closing continuesNumber (by decide) s rest
    refine .inr ⟨fun column => ⟨.invalidInteger column, ?_⟩,
      fun column => ⟨.invalidInteger column, ?_⟩⟩
    · rw [scanFrom, if_neg hseparator, if_pos hdigit, if_neg hvalue]
    · rw [List.cons_append, scanFrom, if_neg hseparator, if_pos hdigit, hrun, if_neg hvalue]
  case case5 c s hseparator hdigit hstart run ih =>
    obtain ⟨-, hend, hclosing⟩ := span_append_closing continuesIdentifier (by decide) s rest
    have hsplit : c :: s = run ++ s.dropWhile continuesIdentifier := by simp [run]
    have hname : IsIdentifier run :=
      ⟨by simpa using hseparator, by simpa using hdigit, hstart, fun _ => List.mem_takeWhile_imp⟩
    rw [hsplit]
    exact .prepend (.identifier hname hend) (.identifier hname hclosing) ih
  case case6 c s hseparator hdigit hstart p hp ih =>
    have hsplit := Punctuator.eq_append_of_longest? hp
    have hp' := Punctuator.longest?_append_closing c s rest
    rw [hp, hsplit, List.append_assoc] at hp'
    rw [hsplit] at hp ⊢
    exact .prepend (.punctuator hp) (.punctuator hp') ih
  case case7 c s hseparator hdigit hstart hnone =>
    have hnone' := (Punctuator.longest?_append_closing c s rest).trans hnone
    refine .inr ⟨fun column => ⟨.unexpectedCharacter c column, ?_⟩,
      fun column => ⟨.unexpectedCharacter c column, ?_⟩⟩
    · rw [scanFrom, if_neg hseparator, if_neg hdigit, if_neg hstart, hnone]
    · rw [List.cons_append, scanFrom, if_neg hseparator, if_neg hdigit, if_neg hstart]
      rw [← List.cons_append, hnone']

end Presence

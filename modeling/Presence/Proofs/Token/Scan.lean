import Presence.Token.Scan

/-! What scanning leaves: the end of the text is the last token and no other. -/
namespace Presence

/-- Tokens of a text, and the end after them. -/
def EndsText (tokens : List Token) : Prop :=
  ∃ ts column, tokens = ts ++ [⟨.endOfText, column⟩] ∧ ∀ t ∈ ts, t.lexeme ≠ .endOfText

theorem EndsText.cons {t : Token} {tokens : List Token} (ht : t.lexeme ≠ .endOfText)
    (h : EndsText tokens) : EndsText (t :: tokens) := by
  obtain ⟨ts, column, rfl, hts⟩ := h
  exact ⟨t :: ts, column, rfl, List.forall_mem_cons.mpr ⟨ht, hts⟩⟩

theorem EndsText.of_map {x : Except ScanError (List Token)} {t : Token} {tokens : List Token}
    (ht : t.lexeme ≠ .endOfText) (hx : ∀ ts, x = .ok ts → EndsText ts)
    (h : x.map (t :: ·) = .ok tokens) : EndsText tokens := by
  cases x with
  | error e => cases h
  | ok ts =>
    cases h
    exact (hx ts rfl).cons ht

theorem endsText_of_scanFrom {column : Nat} {s : List Char} {tokens : List Token}
    (h : scanFrom column s = .ok tokens) : EndsText tokens := by
  fun_induction scanFrom column s generalizing tokens
  case case1 column =>
    cases h
    exact ⟨[], column, rfl, by simp⟩
  case case2 ih => exact ih h
  case case3 ih => exact .of_map (by simp) (fun _ => ih) h
  case case4 => cases h
  case case5 ih => exact .of_map (by simp) (fun _ => ih) h
  case case6 ih => exact .of_map (by simp) (fun _ => ih) h
  case case7 => cases h

theorem endsText_of_scan {expression : List Char} {tokens : List Token}
    (h : scan expression = .ok tokens) : EndsText tokens :=
  endsText_of_scanFrom h

end Presence

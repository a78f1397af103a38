import Mathlib.Data.List.TakeWhile
import Presence.Proofs.Token.Composition

/-!
The spellings of integer constants as a grammar. Reading one splits it at the first character that
is no digit, and no suffix begins with a digit of any radix.
-/
namespace Presence

/-- Decimal digits without a zero at the front, octal ones behind a zero or hexadecimal ones behind
`0x`, and a suffix. -/
inductive IntegerSpelling : List Char → Prop
  | decimal {c : Char} {digits suffix : List Char} (hc : Radix.decimal.isDigit c = true)
      (hzero : c ≠ '0') (hdigits : ∀ d ∈ digits, Radix.decimal.isDigit d = true)
      (hsuffix : suffix ∈ integerSuffixes) : IntegerSpelling (c :: digits ++ suffix)
  | octal {digits suffix : List Char} (hdigits : ∀ d ∈ digits, Radix.octal.isDigit d = true)
      (hsuffix : suffix ∈ integerSuffixes) : IntegerSpelling ('0' :: digits ++ suffix)
  | hexadecimal {x : Char} {digits suffix : List Char} (hx : x = 'x' ∨ x = 'X')
      (hne : digits ≠ []) (hdigits : ∀ d ∈ digits, Radix.hexadecimal.isDigit d = true)
      (hsuffix : suffix ∈ integerSuffixes) : IntegerSpelling ('0' :: x :: digits ++ suffix)

theorem letter_of_mem_integerSuffixes {suffix : List Char} (h : suffix ∈ integerSuffixes)
    {c : Char} (hc : c ∈ suffix) : c ∈ ['u', 'U', 'l', 'L'] := by
  have hall : ∀ suffix ∈ integerSuffixes, suffix.all (['u', 'U', 'l', 'L'].contains ·) := by
    decide
  simpa using List.all_eq_true.mp (hall suffix h) c hc

theorem breaks_of_mem_integerSuffixes (r : Radix) {suffix : List Char}
    (h : suffix ∈ integerSuffixes) : Breaks r.isDigit suffix := by
  intro c hc
  have hletter := letter_of_mem_integerSuffixes h (List.mem_of_mem_head? hc)
  simp only [List.mem_cons, List.not_mem_nil, or_false] at hletter
  rcases hletter with rfl | rfl | rfl | rfl <;> cases r <;> rfl

namespace IntegerConstant

variable {s : List Char} {r : Radix}

theorem ofDigits?_append {digits suffix : List Char} (hne : digits ≠ [])
    (hdigits : ∀ d ∈ digits, r.isDigit d = true) (hsuffix : suffix ∈ integerSuffixes) :
    ofDigits? r (digits ++ suffix) = some ⟨r, digits, suffix⟩ := by
  obtain ⟨htake, hdrop⟩ := span_of_breaks hdigits (breaks_of_mem_integerSuffixes r hsuffix)
  rw [ofDigits?_eq_some_iff, htake, hdrop]
  exact ⟨hne, hsuffix, rfl⟩

theorem isSome_ofDigits?_iff : (ofDigits? r s).isSome = true ↔ ∃ digits suffix, digits ≠ [] ∧
    (∀ d ∈ digits, r.isDigit d = true) ∧ suffix ∈ integerSuffixes ∧ s = digits ++ suffix := by
  constructor
  · intro h
    obtain ⟨c, hc⟩ := Option.isSome_iff_exists.mp h
    obtain ⟨hne, hsuffix, -⟩ := ofDigits?_eq_some_iff.mp hc
    exact ⟨s.takeWhile r.isDigit, s.dropWhile r.isDigit, hne, fun _ => List.mem_takeWhile_imp,
      hsuffix, List.takeWhile_append_dropWhile.symm⟩
  · rintro ⟨digits, suffix, hne, hdigits, hsuffix, rfl⟩
    rw [ofDigits?_append hne hdigits hsuffix]
    rfl

/-- No octal digit and no suffix is taken for the mark of hexadecimal digits. -/
theorem head_ne_of_octal {digits suffix : List Char}
    (hdigits : ∀ d ∈ digits, Radix.octal.isDigit d = true) (hsuffix : suffix ∈ integerSuffixes) :
    ∀ c ∈ (digits ++ suffix).head?, c ≠ 'x' ∧ c ≠ 'X' := by
  intro c hc
  have hmem := List.mem_append.mp (List.mem_of_mem_head? hc)
  rcases hmem with hdigit | hletter
  · have hoctal := hdigits c hdigit
    constructor <;> rintro rfl <;> cases hoctal
  · have hletter := letter_of_mem_integerSuffixes hsuffix hletter
    constructor <;> rintro rfl <;> simp at hletter

section Parts

variable {c x : Char} {digits suffix : List Char}

theorem ofSpelling?_decimal (hc : Radix.decimal.isDigit c = true) (hzero : c ≠ '0')
    (hdigits : ∀ d ∈ digits, Radix.decimal.isDigit d = true) (hsuffix : suffix ∈ integerSuffixes) :
    ofSpelling? (c :: digits ++ suffix) = some ⟨.decimal, c :: digits, suffix⟩ := by
  have hradix : ofSpelling? (c :: digits ++ suffix) =
      ofDigits? .decimal (c :: digits ++ suffix) := by
    rw [List.cons_append]
    unfold ofSpelling?
    split <;> simp_all
  rw [hradix]
  exact ofDigits?_append (by simp) (List.forall_mem_cons.mpr ⟨hc, hdigits⟩) hsuffix

theorem ofSpelling?_octal (hdigits : ∀ d ∈ digits, Radix.octal.isDigit d = true)
    (hsuffix : suffix ∈ integerSuffixes) :
    ofSpelling? ('0' :: digits ++ suffix) = some ⟨.octal, '0' :: digits, suffix⟩ := by
  have hradix : ofSpelling? ('0' :: digits ++ suffix) =
      ofDigits? .octal ('0' :: digits ++ suffix) := by
    have hplain := head_ne_of_octal hdigits hsuffix
    rw [List.cons_append]
    generalize digits ++ suffix = t at hplain
    unfold ofSpelling?
    split <;> simp_all
  rw [hradix]
  exact ofDigits?_append (by simp) (List.forall_mem_cons.mpr ⟨rfl, hdigits⟩) hsuffix

theorem ofSpelling?_hexadecimal (hx : x = 'x' ∨ x = 'X') (hne : digits ≠ [])
    (hdigits : ∀ d ∈ digits, Radix.hexadecimal.isDigit d = true)
    (hsuffix : suffix ∈ integerSuffixes) :
    ofSpelling? ('0' :: x :: digits ++ suffix) = some ⟨.hexadecimal, digits, suffix⟩ := by
  have hradix : ofSpelling? ('0' :: x :: digits ++ suffix) =
      ofDigits? .hexadecimal (digits ++ suffix) := by
    rcases hx with rfl | rfl <;> rfl
  rw [hradix]
  exact ofDigits?_append hne hdigits hsuffix

end Parts

theorem isSome_ofSpelling?_of_integerSpelling (h : IntegerSpelling s) :
    (ofSpelling? s).isSome = true := by
  cases h with
  | decimal hc hzero hdigits hsuffix =>
    rw [ofSpelling?_decimal hc hzero hdigits hsuffix]
    rfl
  | octal hdigits hsuffix =>
    rw [ofSpelling?_octal hdigits hsuffix]
    rfl
  | hexadecimal hx hne hdigits hsuffix =>
    rw [ofSpelling?_hexadecimal hx hne hdigits hsuffix]
    rfl

theorem integerSpelling_of_isSome_ofSpelling? (h : (ofSpelling? s).isSome = true) :
    IntegerSpelling s := by
  unfold ofSpelling? at h
  split at h
  case h_1 s =>
    obtain ⟨digits, suffix, hne, hdigits, hsuffix, rfl⟩ := isSome_ofDigits?_iff.mp h
    exact .hexadecimal (.inl rfl) hne hdigits hsuffix
  case h_2 s =>
    obtain ⟨digits, suffix, hne, hdigits, hsuffix, rfl⟩ := isSome_ofDigits?_iff.mp h
    exact .hexadecimal (.inr rfl) hne hdigits hsuffix
  case h_3 s _ _ =>
    obtain ⟨digits, suffix, hne, hdigits, hsuffix, hs⟩ := isSome_ofDigits?_iff.mp h
    obtain ⟨d, digits, rfl⟩ := List.exists_cons_of_ne_nil hne
    obtain ⟨rfl, rfl⟩ := List.cons.inj hs
    exact .octal (List.forall_mem_cons.mp hdigits).2 hsuffix
  case h_4 hzero =>
    obtain ⟨digits, suffix, hne, hdigits, hsuffix, rfl⟩ := isSome_ofDigits?_iff.mp h
    obtain ⟨d, digits, rfl⟩ := List.exists_cons_of_ne_nil hne
    obtain ⟨hd, hdigits⟩ := List.forall_mem_cons.mp hdigits
    refine .decimal hd ?_ hdigits hsuffix
    rintro rfl
    exact hzero _ rfl

theorem isSome_ofSpelling?_iff : (ofSpelling? s).isSome = true ↔ IntegerSpelling s :=
  ⟨integerSpelling_of_isSome_ofSpelling?, isSome_ofSpelling?_of_integerSpelling⟩

end IntegerConstant

end Presence

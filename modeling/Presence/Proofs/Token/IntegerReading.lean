import Presence.Proofs.Token.IntegerSpelling

/-!
Reading an integer constant. To cut off the letters of a suffix and to look for a mark in front of
what is left finds the radix and the digits that were found when the spelling was checked.
-/
namespace Presence

theorem isSuffixLetter_of_mem {suffix : List Char} (h : suffix ∈ integerSuffixes) {c : Char}
    (hc : c ∈ suffix) : isSuffixLetter c = true := by
  have hletter := letter_of_mem_integerSuffixes h hc
  simpa [isSuffixLetter, or_assoc] using hletter

theorem Radix.isSuffixLetter_of_isDigit {r : Radix} {c : Char} (h : r.isDigit c = true) :
    isSuffixLetter c = false := by
  cases hc : isSuffixLetter c with
  | false => rfl
  | true =>
    simp only [isSuffixLetter, Bool.or_eq_true, decide_eq_true_eq] at hc
    rcases hc with ((rfl | rfl) | rfl) | rfl <;> cases r <;> cases h

namespace IntegerConstant

variable {r : Radix} {s digits suffix : List Char}

theorem dropSuffix_append (hs : ∀ c ∈ s.getLast?, isSuffixLetter c = false)
    (hsuffix : ∀ c ∈ suffix, isSuffixLetter c = true) : dropSuffix (s ++ suffix) = s := by
  have hdrop : (s ++ suffix).reverse.dropWhile isSuffixLetter =
      s.reverse.dropWhile isSuffixLetter := by
    rw [List.reverse_append, List.dropWhile_append_of_pos (by simpa using hsuffix)]
  rw [← List.head?_reverse] at hs
  rw [dropSuffix, hdrop]
  cases hreverse : s.reverse with
  | nil => simpa using hreverse.symm
  | cons c t =>
    rw [hreverse] at hs
    rw [List.dropWhile_cons_of_neg (by simp [hs c rfl]), ← hreverse, List.reverse_reverse]

/-- Behind digits nothing but the suffix is cut off, whatever stands in front of them. -/
theorem dropSuffix_of_digits (mark : List Char) (hne : digits ≠ [])
    (hdigits : ∀ d ∈ digits, r.isDigit d = true) (hsuffix : suffix ∈ integerSuffixes) :
    dropSuffix (mark ++ digits ++ suffix) = mark ++ digits := by
  refine dropSuffix_append (fun c hc => ?_) fun c => isSuffixLetter_of_mem hsuffix
  rw [List.getLast?_append, List.getLast?_eq_some_getLast hne, Option.some_or] at hc
  obtain rfl := Option.some.inj hc
  exact Radix.isSuffixLetter_of_isDigit (hdigits _ (List.getLast_mem hne))

theorem readDigits?_of_digits (hne : digits ≠ []) (hdigits : ∀ d ∈ digits, r.isDigit d = true)
    (suffix : List Char) : readDigits? r digits = some (read ⟨r, digits, suffix⟩) := by
  rw [readDigits?, if_pos ⟨hne, List.all_eq_true.mpr hdigits⟩]
  rfl

section Parts

variable {c x : Char}

theorem readSpelling?_decimal (hc : Radix.decimal.isDigit c = true) (hzero : c ≠ '0')
    (hdigits : ∀ d ∈ digits, Radix.decimal.isDigit d = true) (hsuffix : suffix ∈ integerSuffixes) :
    readSpelling? (c :: digits ++ suffix) = some (read ⟨.decimal, c :: digits, suffix⟩) := by
  have hall : ∀ d ∈ c :: digits, Radix.decimal.isDigit d = true :=
    List.forall_mem_cons.mpr ⟨hc, hdigits⟩
  have hne : c :: digits ≠ [] := List.cons_ne_nil _ _
  have hdrop : dropSuffix (c :: digits ++ suffix) = c :: digits :=
    dropSuffix_of_digits [] hne hall hsuffix
  rw [← readDigits?_of_digits hne hall suffix, readSpelling?, hdrop]
  split <;> simp_all

/-- The zero in front is a digit of its own where no other digit follows. -/
theorem readSpelling?_octal (hdigits : ∀ d ∈ digits, Radix.octal.isDigit d = true)
    (hsuffix : suffix ∈ integerSuffixes) :
    readSpelling? ('0' :: digits ++ suffix) = some (read ⟨.octal, '0' :: digits, suffix⟩) := by
  have hall : ∀ d ∈ '0' :: digits, Radix.octal.isDigit d = true :=
    List.forall_mem_cons.mpr ⟨rfl, hdigits⟩
  have hne : '0' :: digits ≠ [] := List.cons_ne_nil _ _
  have hdrop : dropSuffix ('0' :: digits ++ suffix) = '0' :: digits :=
    dropSuffix_of_digits [] hne hall hsuffix
  cases digits with
  | nil =>
    rw [readSpelling?, hdrop]
    rfl
  | cons d digits =>
    have hd := hdigits d List.mem_cons_self
    have hlower : d ≠ 'x' := by
      rintro rfl
      cases hd
    have hupper : d ≠ 'X' := by
      rintro rfl
      cases hd
    rw [← readDigits?_of_digits hne hall suffix, readSpelling?, hdrop]
    split <;> simp_all

theorem readSpelling?_hexadecimal (hx : x = 'x' ∨ x = 'X') (hne : digits ≠ [])
    (hdigits : ∀ d ∈ digits, Radix.hexadecimal.isDigit d = true)
    (hsuffix : suffix ∈ integerSuffixes) :
    readSpelling? ('0' :: x :: digits ++ suffix) = some (read ⟨.hexadecimal, digits, suffix⟩) := by
  have hdrop : dropSuffix ('0' :: x :: digits ++ suffix) = '0' :: x :: digits :=
    dropSuffix_of_digits ['0', x] hne hdigits hsuffix
  rw [← readDigits?_of_digits hne hdigits suffix, readSpelling?, hdrop]
  rcases hx with rfl | rfl <;> rfl

end Parts

/-- What was checked is read as the constant that was found. -/
theorem readSpelling?_of_ofSpelling? {c : IntegerConstant} (h : ofSpelling? s = some c) :
    readSpelling? s = some c.read := by
  have hspelling : IntegerSpelling s := by
    rw [← isSome_ofSpelling?_iff, h]
    rfl
  cases hspelling with
  | decimal hc hzero hdigits hsuffix =>
    obtain rfl := Option.some.inj ((ofSpelling?_decimal hc hzero hdigits hsuffix).symm.trans h)
    exact readSpelling?_decimal hc hzero hdigits hsuffix
  | octal hdigits hsuffix =>
    obtain rfl := Option.some.inj ((ofSpelling?_octal hdigits hsuffix).symm.trans h)
    exact readSpelling?_octal hdigits hsuffix
  | hexadecimal hx hne hdigits hsuffix =>
    obtain rfl := Option.some.inj ((ofSpelling?_hexadecimal hx hne hdigits hsuffix).symm.trans h)
    exact readSpelling?_hexadecimal hx hne hdigits hsuffix

end IntegerConstant

theorem Expr.readInteger_eq (spelling : String) (tokens rest : List Token) :
    readInteger spelling tokens rest =
      match IntegerConstant.ofSpelling? spelling.toList with
      | none => .error (.grammar ⟨.unexpected, tokens⟩)
      | some c =>
        match c.read with
        | .ok value => .ok (.integer spelling value, rest)
        | .error e => .error (.digitLimit e) := by
  cases h : IntegerConstant.ofSpelling? spelling.toList with
  | none => simp only [readInteger, h]
  | some c =>
    have hread := IntegerConstant.readSpelling?_of_ofSpelling? h
    simp only [readInteger, h, hread]
    cases c.read <;> rfl

end Presence

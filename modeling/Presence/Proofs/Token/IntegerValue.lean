import Mathlib.Data.Nat.Digits.Lemmas
import Presence.Proofs.Token.IntegerReading
import Presence.Proofs.Token.Spacing

/-!
The values of integers. A spelling of a number is put together of a mark, digits and a suffix, and
its value is the positional one of the digits. Scanning makes one integer of it and of nothing else,
and reading gives the value.
-/
namespace Presence

/-- What stands in front of the digits of a radix and tells it. -/
def Radix.marks : Radix → List (List Char)
  | .octal => [['0']]
  | .decimal => [[]]
  | .hexadecimal => [['0', 'x'], ['0', 'X']]

/-- A number as it can be spelled. Behind a mark the digits may begin with any number of zeros, and
behind the octal one, which is a zero itself, there may be none. -/
structure NumberSpelling where
  radix : Radix
  mark : List Char
  digits : List Char
  suffix : List Char
  mark_mem : mark ∈ radix.marks
  isDigit : ∀ d ∈ digits, radix.isDigit d = true
  ne_nil : radix ≠ .octal → digits ≠ []
  head_ne_zero : radix = .decimal → digits.head? ≠ some '0'
  suffix_mem : suffix ∈ integerSuffixes

namespace NumberSpelling

def text (k : NumberSpelling) : List Char :=
  k.mark ++ k.digits ++ k.suffix

/-- The positional value of the digits, whatever the suffix. -/
def value (k : NumberSpelling) : Nat :=
  Nat.ofDigits k.radix.base (k.digits.reverse.map digitValue)

def IsShort (k : NumberSpelling) : Prop :=
  k.radix = .decimal → k.digits.length ≤ decimalDigitLimit

instance (k : NumberSpelling) : Decidable k.IsShort :=
  inferInstanceAs (Decidable (k.radix = .decimal → k.digits.length ≤ decimalDigitLimit))

/-- The parts that are found when the spelling is checked: an octal mark is taken for a digit. -/
def constant (k : NumberSpelling) : IntegerConstant where
  radix := k.radix
  digits :=
    match k.radix with
    | .octal => '0' :: k.digits
    | _ => k.digits
  suffix := k.suffix

end NumberSpelling

theorem Radix.valueOf_eq_ofDigits (r : Radix) (digits : List Char) :
    r.valueOf digits = Nat.ofDigits r.base (digits.reverse.map digitValue) := by
  rw [Nat.ofDigits_eq_foldr, List.foldr_map, List.foldr_reverse, valueOf]
  congr 1
  funext n c
  exact Nat.add_comm _ _

namespace NumberSpelling

theorem ofSpelling?_text (k : NumberSpelling) :
    IntegerConstant.ofSpelling? k.text = some k.constant := by
  obtain ⟨radix, mark, digits, suffix, hmark, hdigits, hne, hzero, hsuffix⟩ := k
  cases radix with
  | octal =>
    obtain rfl : mark = ['0'] := List.mem_singleton.mp hmark
    exact IntegerConstant.ofSpelling?_octal hdigits hsuffix
  | decimal =>
    obtain rfl : mark = [] := List.mem_singleton.mp hmark
    obtain ⟨c, digits, rfl⟩ := List.exists_cons_of_ne_nil (hne (by decide))
    obtain ⟨hc, hdigits⟩ := List.forall_mem_cons.mp hdigits
    have hplain : c ≠ '0' := by simpa using hzero rfl
    exact IntegerConstant.ofSpelling?_decimal hc hplain hdigits hsuffix
  | hexadecimal =>
    obtain ⟨x, hx, rfl⟩ : ∃ x, (x = 'x' ∨ x = 'X') ∧ mark = ['0', x] := by
      simp only [Radix.marks, List.mem_cons, List.not_mem_nil, or_false] at hmark
      rcases hmark with rfl | rfl
      · exact ⟨'x', .inl rfl, rfl⟩
      · exact ⟨'X', .inr rfl, rfl⟩
    exact IntegerConstant.ofSpelling?_hexadecimal hx (hne (by decide)) hdigits hsuffix

/-- The mark is a leading zero where it is taken for a digit. -/
theorem value_constant (k : NumberSpelling) : k.constant.value = k.value := by
  obtain ⟨radix, mark, digits, suffix, -, -, -, -, -⟩ := k
  rw [value, ← Radix.valueOf_eq_ofDigits]
  cases radix with
  | octal => rfl
  | decimal | hexadecimal => rfl

theorem read_constant {k : NumberSpelling} (h : k.IsShort) : k.constant.read = .ok k.value := by
  rw [IntegerConstant.read, value_constant, if_neg]
  rintro ⟨hradix, hlong⟩
  have hdigits : k.constant.digits = k.digits := by
    simp only [constant] at hradix ⊢
    rw [hradix]
  have hshort := h hradix
  rw [hdigits] at hlong
  omega

theorem readSpelling?_text {k : NumberSpelling} (h : k.IsShort) :
    IntegerConstant.readSpelling? k.text = some (.ok k.value) := by
  rw [IntegerConstant.readSpelling?_of_ofSpelling? k.ofSpelling?_text, read_constant h]

theorem integerSpelling (k : NumberSpelling) : IntegerSpelling k.text := by
  rw [← IntegerConstant.isSome_ofSpelling?_iff, ofSpelling?_text]
  rfl

theorem scan_text (k : NumberSpelling) : scan k.text =
    .ok [⟨.integer (String.ofList k.text), 1⟩, ⟨.endOfText, k.text.length + 1⟩] := by
  have hx : Lexeme.WellFormed (.integer (String.ofList k.text)) := by
    simpa only [Lexeme.WellFormed, String.toList_ofList] using k.integerSpelling
  simpa only [Lexeme.text, String.toList_ofList] using hx.scan

end NumberSpelling

theorem IntegerSpelling.exists_numberSpelling {s : List Char} (h : IntegerSpelling s) :
    ∃ k : NumberSpelling, k.text = s := by
  cases h with
  | @decimal c digits suffix hc hzero hdigits hsuffix =>
    exact ⟨⟨.decimal, [], c :: digits, suffix, by decide, List.forall_mem_cons.mpr ⟨hc, hdigits⟩,
      by simp, by simpa using hzero, hsuffix⟩, rfl⟩
  | @octal digits suffix hdigits hsuffix =>
    exact ⟨⟨.octal, ['0'], digits, suffix, by decide, hdigits, by simp, by simp, hsuffix⟩, rfl⟩
  | @hexadecimal x digits suffix hx hne hdigits hsuffix =>
    have hmark : ['0', x] ∈ Radix.hexadecimal.marks := by
      rcases hx with rfl | rfl <;> decide
    exact ⟨⟨.hexadecimal, ['0', x], digits, suffix, hmark, hdigits, fun _ => hne, by simp,
      hsuffix⟩, rfl⟩

namespace Radix

variable (r : Radix) (n : Nat)

/-- The digits of a number, none of zero, with small letters. -/
def numeral : List Char :=
  (r.base.digits n).reverse.map Nat.digitChar

theorem digitValue_digitChar {r : Radix} {d : Nat} (h : d < r.base) :
    digitValue (Nat.digitChar d) = d ∧ r.isDigit (Nat.digitChar d) = true := by
  have hall : ∀ d < r.base, digitValue (Nat.digitChar d) = d ∧
      r.isDigit (Nat.digitChar d) = true := by
    cases r <;> decide
  exact hall d h

theorem lt_base_of_mem_digits {d : Nat} (hd : d ∈ r.base.digits n) : d < r.base :=
  Nat.digits_lt_base (by cases r <;> decide) hd

theorem isDigit_of_mem_numeral {c : Char} (hc : c ∈ r.numeral n) : r.isDigit c = true := by
  obtain ⟨d, hd, rfl⟩ := List.mem_map.mp hc
  exact (digitValue_digitChar (r.lt_base_of_mem_digits n (List.mem_reverse.mp hd))).2

theorem ofDigits_numeral : Nat.ofDigits r.base ((r.numeral n).reverse.map digitValue) = n := by
  have hdigits : (r.numeral n).reverse.map digitValue = r.base.digits n := by
    rw [numeral, ← List.map_reverse, List.reverse_reverse, List.map_map]
    calc
      _ = (r.base.digits n).map id := List.map_congr_left fun d hd =>
        (digitValue_digitChar (r.lt_base_of_mem_digits n hd)).1
      _ = r.base.digits n := List.map_id _
  rw [hdigits, Nat.ofDigits_digits]

theorem ofDigits_zero_numeral :
    Nat.ofDigits r.base (('0' :: r.numeral n).reverse.map digitValue) = n := by
  have hzero : digitValue '0' = 0 := rfl
  rw [List.reverse_cons, List.map_append, List.map_singleton, hzero, Nat.ofDigits_append_zero,
    ofDigits_numeral]

theorem numeral_ne_nil (hn : n ≠ 0) : r.numeral n ≠ [] := by
  simpa [numeral, Nat.digits_ne_nil_iff_ne_zero] using hn

theorem head?_numeral_ne_zero (hn : n ≠ 0) : (r.numeral n).head? ≠ some '0' := by
  have hlast := Nat.getLast_digit_ne_zero r.base hn
  have hne : r.base.digits n ≠ [] := Nat.digits_ne_nil_iff_ne_zero.mpr hn
  intro hhead
  rw [numeral, List.head?_map, List.head?_reverse, List.getLast?_eq_some_getLast hne] at hhead
  have hzero := congrArg digitValue (Option.some.inj hhead)
  have hlt := r.lt_base_of_mem_digits n (List.getLast_mem hne)
  rw [(digitValue_digitChar hlt).1] at hzero
  exact hlast hzero

end Radix

/-- Every number has a spelling in every radix, but zero has none in decimal. -/
theorem NumberSpelling.exists_of_value (r : Radix) {n : Nat} (h : r = .decimal → n ≠ 0) :
    ∃ k : NumberSpelling, k.radix = r ∧ k.value = n := by
  have hdigits : ∀ d ∈ r.numeral n, r.isDigit d = true := fun _ => r.isDigit_of_mem_numeral n
  cases r with
  | octal =>
    exact ⟨⟨.octal, ['0'], _, [], by decide, hdigits, by simp, by simp, by decide⟩, rfl,
      Radix.ofDigits_numeral .octal n⟩
  | decimal =>
    have hn := h rfl
    exact ⟨⟨.decimal, [], _, [], by decide, hdigits, fun _ => Radix.numeral_ne_nil _ n hn,
      fun _ => Radix.head?_numeral_ne_zero _ n hn, by decide⟩, rfl,
      Radix.ofDigits_numeral .decimal n⟩
  | hexadecimal =>
    have hzero : Radix.hexadecimal.isDigit '0' = true := rfl
    exact ⟨⟨.hexadecimal, ['0', 'x'], _, [], by decide, List.forall_mem_cons.mpr ⟨hzero, hdigits⟩,
      by simp, by simp, by decide⟩, rfl,
      Radix.ofDigits_zero_numeral .hexadecimal n⟩

/-- Integers are read at their value. Every integer that scanning finds is a spelling of a number,
and it is read as this number unless it has more decimal digits than can be read. Every spelling of
a number, in any radix and with any suffix, becomes one integer and is read as that number. -/
theorem integers_read_at_value :
    (∀ {s : List Char} {tokens : List Token} {spelling : String}, scan s = .ok tokens →
      .integer spelling ∈ lexemes tokens →
      (∃ k : NumberSpelling, k.text = spelling.toList) ∧
        ∀ k : NumberSpelling, k.text = spelling.toList → k.IsShort →
          IntegerConstant.readSpelling? spelling.toList = some (.ok k.value)) ∧
    (∀ (n : Nat) (k : NumberSpelling), k.value = n → k.IsShort →
      scan k.text = .ok [⟨.integer (String.ofList k.text), 1⟩, ⟨.endOfText, k.text.length + 1⟩] ∧
        IntegerConstant.readSpelling? k.text = some (.ok n)) ∧
    ∀ (n : Nat) (r : Radix), (r = .decimal → n ≠ 0) →
      ∃ k : NumberSpelling, k.radix = r ∧ k.value = n := by
  refine ⟨fun {s tokens spelling} hscan hmem => ⟨?_, ?_⟩, ?_, ?_⟩
  · have hspelling : IntegerSpelling spelling.toList :=
      wellFormed_of_scan hscan hmem (by simp)
    exact hspelling.exists_numberSpelling
  · intro k hk hshort
    rw [← hk]
    exact NumberSpelling.readSpelling?_text hshort
  · rintro n k rfl hshort
    exact ⟨k.scan_text, NumberSpelling.readSpelling?_text hshort⟩
  · intro n r hr
    exact NumberSpelling.exists_of_value r hr

/-- Letters of both cases that are digits, beside letters of both cases that are the suffix. -/
theorem integers_read_at_value_hexadecimal :
    let tokens : List Token := [⟨.identifier "A", 1⟩, ⟨.punctuator .less, 2⟩,
      ⟨.integer "0X0aFUll", 3⟩, ⟨.endOfText, 11⟩]
    let k : NumberSpelling := ⟨.hexadecimal, ['0', 'X'], ['0', 'a', 'F'], ['U', 'l', 'l'],
      by decide, List.all_eq_true.mp rfl, by decide, by decide, by decide⟩
    scan "A<0X0aFUll".toList = .ok tokens ∧ .integer "0X0aFUll" ∈ lexemes tokens ∧
      k.text = "0X0aFUll".toList ∧ k.value = 175 ∧ k.IsShort ∧
      IntegerConstant.readSpelling? "0X0aFUll".toList = some (.ok 175) ∧
      scan k.text = .ok [⟨.integer (String.ofList k.text), 1⟩, ⟨.endOfText, k.text.length + 1⟩] ∧
      ∃ k' : NumberSpelling, k'.radix = .decimal ∧ k'.value = 175 := by
  intro tokens k
  have hscan : scan "A<0X0aFUll".toList = .ok tokens := by with_unfolding_all rfl
  have hmem : .integer "0X0aFUll" ∈ lexemes tokens := by simp [tokens]
  have htext : k.text = "0X0aFUll".toList := by decide
  have hvalue : k.value = 175 := by decide
  have hshort : k.IsShort := by decide
  obtain ⟨hread, hwhole, hexists⟩ := integers_read_at_value
  have hresult := (hread hscan hmem).2 k htext hshort
  rw [hvalue] at hresult
  exact ⟨hscan, hmem, htext, hvalue, hshort, hresult, (hwhole 175 k hvalue hshort).1,
    hexists 175 .decimal (by decide)⟩

end Presence

import Presence.Proofs.Token.IntegerSpelling

/-!
What stands at the start of a text: a separator, the longest lexeme that the text begins with, or
something that no lexeme begins with. Scanning takes one step for each.
-/
namespace Presence

open Text

namespace Punctuator

theorem longest?_chars (p : Punctuator) : longest? p.chars = some p := by
  cases p <;> rfl

theorem chars_injective {p q : Punctuator} (h : p.chars = q.chars) : p = q := by
  have hlongest := longest?_chars p
  rw [h, longest?_chars] at hlongest
  exact (Option.some.inj hlongest).symm

theorem chars_eq_single_or_pair (p : Punctuator) :
    (∃ c, p.chars = [c] ∧ single? c = some p) ∨
      ∃ c d, p.chars = [c, d] ∧ pair? c d = some p := by
  cases p <;> first | exact .inl ⟨_, rfl, rfl⟩ | exact .inr ⟨_, _, rfl, rfl⟩

/-- Where a punctuator fits, one is found that is not shorter. -/
theorem exists_longest?_of_prefix {s : List Char} {q : Punctuator} (h : q.chars <+: s) :
    ∃ p, longest? s = some p ∧ q.chars.length ≤ p.chars.length := by
  obtain ⟨t, rfl⟩ := h
  obtain ⟨c, hq, hsingle⟩ | ⟨c, d, hq, hpair⟩ := q.chars_eq_single_or_pair
  · rw [hq]
    cases t with
    | nil => exact ⟨q, hsingle, by rw [hq]⟩
    | cons d t =>
      cases hpair : pair? c d with
      | none => exact ⟨q, by simp [longest?, hpair, hsingle], by rw [hq]⟩
      | some p => exact ⟨p, by simp [longest?, hpair], p.chars_length_pos⟩
  · rw [hq]
    exact ⟨q, by simp [longest?, hpair], by rw [hq]⟩

theorem longest?_eq_some_iff {s : List Char} {p : Punctuator} : longest? s = some p ↔
    p.chars <+: s ∧ ∀ q : Punctuator, q.chars <+: s → q.chars.length ≤ p.chars.length := by
  constructor
  · intro h
    refine ⟨chars_prefix_of_longest? h, fun q hq => ?_⟩
    obtain ⟨p', hp', hlength⟩ := exists_longest?_of_prefix hq
    rw [h] at hp'
    rwa [Option.some.inj hp']
  · rintro ⟨hp, hlongest⟩
    obtain ⟨p', hp', hlength⟩ := exists_longest?_of_prefix hp
    have hprefix := chars_prefix_of_longest? hp'
    have hchars : p'.chars = p.chars :=
      (List.prefix_of_prefix_length_le hprefix hp (hlongest p' hprefix)).eq_of_length_le hlength
    rw [hp', chars_injective hchars]

theorem longest?_eq_none_iff {s : List Char} :
    longest? s = none ↔ ∀ p : Punctuator, ¬ p.chars <+: s := by
  constructor
  · intro h p hp
    obtain ⟨p', hp', -⟩ := exists_longest?_of_prefix hp
    rw [h] at hp'
    cases hp'
  · intro h
    cases hlongest : longest? s with
    | none => rfl
    | some p => exact absurd (chars_prefix_of_longest? hlongest) (h p)

end Punctuator

namespace Lexeme

def text : Lexeme → List Char
  | identifier name => name.toList
  | integer spelling => spelling.toList
  | punctuator p => p.chars
  | endOfText => []

/-- The lexeme cannot be longer at the start of the text: a run goes on as far as its characters do,
and no other punctuator that fits is longer. -/
def LongestIn (s : List Char) : Lexeme → Prop
  | identifier name => IsIdentifier name.toList ∧ name.toList = s.takeWhile continuesIdentifier
  | integer spelling =>
    IntegerSpelling spelling.toList ∧ spelling.toList = s.takeWhile continuesNumber
  | punctuator p => ∀ q : Punctuator, q.chars <+: s → q.chars.length ≤ p.chars.length
  | endOfText => False

structure StandsAt (s : List Char) (x : Lexeme) : Prop where
  nonempty : x.text ≠ []
  isPrefix : x.text <+: s
  longest : x.LongestIn s

end Lexeme

theorem isSeparator_of_isDigit {c : Char} (h : isDigit c = true) : isSeparator c = false := by
  cases hseparator : isSeparator c with
  | false => rfl
  | true =>
    simp only [isSeparator, Bool.or_eq_true, decide_eq_true_eq] at hseparator
    rcases hseparator with ((((rfl | rfl) | rfl) | rfl) | rfl) | rfl <;> cases h

theorem isDigit_of_decimal {c : Char} (h : Radix.decimal.isDigit c = true) : isDigit c = true := by
  have hascii : c.toNat < 0x80 := by
    simp only [Radix.isDigit, Char.isDigit, Bool.and_eq_true, decide_eq_true_eq] at h
    have hle : c.val.toNat ≤ 57 := UInt32.le_iff_toNat_le.mp h.2
    exact Nat.lt_of_le_of_lt hle (by decide)
  simp only [isDigit, isDecimal, if_pos hascii, Bool.or_eq_true]
  exact .inl h

theorem IntegerSpelling.exists_digit {s : List Char} (h : IntegerSpelling s) :
    ∃ c t, s = c :: t ∧ isDigit c = true := by
  cases h with
  | decimal hc => exact ⟨_, _, rfl, isDigit_of_decimal hc⟩
  | octal => exact ⟨_, _, rfl, by decide⟩
  | hexadecimal => exact ⟨_, _, rfl, by decide⟩

theorem continuesNumber_of_isDigit {c : Char} (h : isDigit c = true) :
    continuesNumber c = true := by
  simp [continuesNumber, isAlphanumeric_of_isDigit h]

theorem continuesIdentifier_of_starts {c : Char} (h : startsIdentifier c = true) :
    continuesIdentifier c = true := by
  simp only [startsIdentifier, continuesIdentifier, Bool.or_eq_true] at h ⊢
  exact h.imp_right isAlphanumeric_of_isLetter

theorem IsIdentifier.continues {s : List Char} (h : IsIdentifier s) :
    ∀ c ∈ s, continuesIdentifier c = true := by
  cases s with
  | nil => exact h.elim
  | cons c s =>
    obtain ⟨-, -, hstart, hrest⟩ := h
    exact List.forall_mem_cons.mpr ⟨continuesIdentifier_of_starts hstart, hrest⟩

section Step

variable {s : List Char} {x : Lexeme} {e : ScanError}

/-- Scanning cuts off the longest lexeme. -/
theorem Lexeme.StandsAt.scanFrom (h : x.StandsAt (x.text ++ s)) (column : Nat) :
    scanFrom column (x.text ++ s) =
      (scanFrom (column + x.text.length) s).map (⟨x, column⟩ :: ·) := by
  cases x with
  | identifier name =>
    obtain ⟨hname, hrun⟩ := h.longest
    have hstep := scanFrom_identifier hname (breaks_of_takeWhile hrun).2 column
    rwa [String.ofList_toList] at hstep
  | integer spelling =>
    obtain ⟨hspelling, hrun⟩ := h.longest
    obtain ⟨c, t, hc, hdigit⟩ := hspelling.exists_digit
    change spelling.toList = (spelling.toList ++ s).takeWhile continuesNumber at hrun
    rw [hc] at hspelling hrun
    obtain ⟨hruns, hrest⟩ := breaks_of_takeWhile hrun
    have hstep := scanFrom_integer (isSeparator_of_isDigit hdigit) hdigit
      (List.forall_mem_cons.mp hruns).2 (IntegerConstant.isSome_ofSpelling?_iff.mpr hspelling)
      hrest column
    rwa [← hc, String.ofList_toList] at hstep
  | punctuator p =>
    exact scanFrom_punctuator (Punctuator.longest?_eq_some_iff.mpr ⟨h.isPrefix, h.longest⟩) column
  | endOfText => exact h.longest.elim

/-- Nothing can be cut off: a run begins with a digit and is no integer constant, or the first
character begins no token at all. -/
inductive Obstructs (s : List Char) (column : Nat) : ScanError → Prop
  | invalidInteger {c : Char} (hc : s.head? = some c) (hdigit : isDigit c = true)
      (h : ¬ IntegerSpelling (s.takeWhile continuesNumber)) :
      Obstructs s column (.invalidInteger column)
  | unexpectedCharacter {c : Char} (hc : s.head? = some c) (hseparator : isSeparator c = false)
      (hdigit : isDigit c = false) (hstart : startsIdentifier c = false)
      (h : ∀ p : Punctuator, ¬ p.chars <+: s) :
      Obstructs s column (.unexpectedCharacter c column)

theorem Obstructs.ne_nil {column : Nat} (h : Obstructs s column e) : s ≠ [] := by
  rintro rfl
  cases h with
  | invalidInteger hc => cases hc
  | unexpectedCharacter hc => cases hc

theorem Obstructs.scanFrom {column : Nat} (h : Obstructs s column e) :
    scanFrom column s = .error e := by
  cases h with
  | @invalidInteger c hc hdigit h =>
    obtain ⟨t, rfl⟩ := List.head?_eq_some_iff.mp hc
    rw [List.takeWhile_cons_of_pos (continuesNumber_of_isDigit hdigit),
      ← IntegerConstant.isSome_ofSpelling?_iff] at h
    rw [Presence.scanFrom]
    simp only [isSeparator_of_isDigit hdigit, hdigit, if_neg h, Bool.false_eq_true, if_false,
      if_true]
  | @unexpectedCharacter c hc hseparator hdigit hstart h =>
    obtain ⟨t, rfl⟩ := List.head?_eq_some_iff.mp hc
    rw [← Punctuator.longest?_eq_none_iff] at h
    rw [Presence.scanFrom]
    simp only [hseparator, hdigit, hstart, h, Bool.false_eq_true, if_false]

end Step

namespace Lexeme

variable {c : Char} {s : List Char}

theorem standsAt_integer (hdigit : isDigit c = true)
    (h : IntegerSpelling ((c :: s).takeWhile continuesNumber)) :
    StandsAt (c :: s) (integer (String.ofList ((c :: s).takeWhile continuesNumber))) where
  nonempty := by
    rw [List.takeWhile_cons_of_pos (continuesNumber_of_isDigit hdigit)]
    simp [text]
  isPrefix := by simpa only [text, String.toList_ofList] using List.takeWhile_prefix _
  longest := by simpa only [LongestIn, String.toList_ofList, and_true] using h

theorem standsAt_identifier (hseparator : isSeparator c = false) (hdigit : isDigit c = false)
    (hstart : startsIdentifier c = true) :
    StandsAt (c :: s) (identifier (String.ofList ((c :: s).takeWhile continuesIdentifier))) where
  nonempty := by
    rw [List.takeWhile_cons_of_pos (continuesIdentifier_of_starts hstart)]
    simp [text]
  isPrefix := by simpa only [text, String.toList_ofList] using List.takeWhile_prefix _
  longest := by
    simp only [LongestIn, String.toList_ofList, and_true]
    rw [List.takeWhile_cons_of_pos (continuesIdentifier_of_starts hstart)]
    exact ⟨hseparator, hdigit, hstart, fun _ => List.mem_takeWhile_imp⟩

theorem standsAt_punctuator {p : Punctuator} (h : Punctuator.longest? s = some p) :
    StandsAt s (punctuator p) where
  nonempty := p.chars_ne_nil
  isPrefix := Punctuator.chars_prefix_of_longest? h
  longest := (Punctuator.longest?_eq_some_iff.mp h).2

end Lexeme

/-- A text is at its end, or it goes on with a separator, a lexeme or an obstruction. -/
theorem next_cases (s : List Char) (column : Nat) :
    s = [] ∨ (∃ c t, s = c :: t ∧ isSeparator c = true) ∨
      (∃ x t, s = Lexeme.text x ++ t ∧ x.StandsAt s) ∨ ∃ e, Obstructs s column e := by
  have hlexeme : ∀ x : Lexeme, x.StandsAt s → ∃ x t, s = Lexeme.text x ++ t ∧ x.StandsAt s := by
    intro x hx
    obtain ⟨t, ht⟩ := hx.isPrefix
    exact ⟨x, t, ht.symm, hx⟩
  cases s with
  | nil => exact .inl rfl
  | cons c s =>
    right
    cases hseparator : isSeparator c with
    | true => exact .inl ⟨c, s, rfl, hseparator⟩
    | false =>
      right
      cases hdigit : isDigit c with
      | true =>
        by_cases h : IntegerSpelling ((c :: s).takeWhile continuesNumber)
        · exact .inl (hlexeme _ (Lexeme.standsAt_integer hdigit h))
        · exact .inr ⟨_, .invalidInteger rfl hdigit h⟩
      | false =>
        cases hstart : startsIdentifier c with
        | true => exact .inl (hlexeme _ (Lexeme.standsAt_identifier hseparator hdigit hstart))
        | false =>
          cases hlongest : Punctuator.longest? (c :: s) with
          | some p => exact .inl (hlexeme _ (Lexeme.standsAt_punctuator hlongest))
          | none =>
            have hnone := Punctuator.longest?_eq_none_iff.mp hlongest
            exact .inr ⟨_, .unexpectedCharacter rfl hseparator hdigit hstart hnone⟩

end Presence

import Presence.Text.Utf8

/-!
Decoding gives back what was encoded. A character is followed byte by byte: what is left of its
number shrinks by six bits with each continuation byte.
-/
namespace Presence.Text.Utf8

/-- A number without its last `6 * k` bits. -/
def upper (n : Nat) : Nat → Nat
  | 0 => n
  | k + 1 => upper n k / 0x40

/-- The continuation bytes for the last `6 * k` bits of a number. -/
def continuation (n : Nat) : Nat → List UInt8
  | 0 => []
  | k + 1 => .ofNat (0x80 + upper n k % 0x40) :: continuation n k

/-- All but the last `6 * k` bits of a number are read, and its next byte will be accepted. -/
structure Partial.Awaits (p : Partial) (n k : Nat) : Prop where
  owed : p.owed = k
  code : p.code = upper n k
  low : p.low ≤ 0x80 + upper n (k - 1) % 0x40
  high : 0x80 + upper n (k - 1) % 0x40 ≤ p.high

theorem toNat_ofNat {n : Nat} (h : n < 0x100) : (UInt8.ofNat n).toNat = n := by
  rw [UInt8.toNat_ofNat']
  exact Nat.mod_eq_of_lt h

theorem toNat_continuation (n k : Nat) :
    (UInt8.ofNat (0x80 + upper n k % 0x40)).toNat = 0x80 + upper n k % 0x40 := by
  have hbits : upper n k % 0x40 < 0x40 := Nat.mod_lt _ (by decide)
  exact toNat_ofNat (by omega)

namespace Partial.Awaits

variable {p : Partial} {n k : Nat}

theorem accepts (h : p.Awaits n (k + 1)) :
    p.accepts (.ofNat (0x80 + upper n k % 0x40)) = true := by
  have hlow := h.low
  have hhigh := h.high
  rw [Nat.add_sub_cancel] at hlow hhigh
  rw [Partial.accepts, toNat_continuation]
  simp [hlow, hhigh]

theorem code_extend (h : p.Awaits n (k + 1)) :
    (p.extend (.ofNat (0x80 + upper n k % 0x40))).code = upper n k := by
  have hcode := h.code
  simp only [Partial.extend, toNat_continuation, hcode, upper]
  omega

theorem extend (h : p.Awaits n (k + 2)) :
    (p.extend (.ofNat (0x80 + upper n (k + 1) % 0x40))).Awaits n (k + 1) where
  owed := by
    have howed := h.owed
    simp only [Partial.extend, howed]
    omega
  code := h.code_extend
  low := Nat.le_add_right _ _
  high := by
    have hbits : upper n k % 0x40 < 0x40 := Nat.mod_lt _ (by decide)
    simp only [Partial.extend, Nat.add_sub_cancel]
    omega

end Partial.Awaits

/-- The continuation bytes complete the character that they belong to. -/
theorem decodeFrom_continuation {p : Partial} {n k : Nat} (h : p.Awaits n (k + 1))
    (position : Nat) (rest : List UInt8) :
    decodeFrom position (some p) (continuation n (k + 1) ++ rest) =
      (decodeFrom (position + (k + 1)) none rest).cons (Char.ofNat n) := by
  induction k generalizing p position with
  | zero =>
    have howed := h.owed
    have hcode : (p.extend (.ofNat (0x80 + upper n 0 % 0x40))).code = n := h.code_extend
    simp only [continuation, List.cons_append, List.nil_append, decodeFrom]
    rw [h.accepts, if_neg (by decide), if_pos (by omega), hcode]
  | succ k ih =>
    have howed := h.owed
    rw [continuation, List.cons_append]
    simp only [decodeFrom]
    rw [h.accepts, if_neg (by decide), if_neg (by omega), ih h.extend]
    congr 2
    omega

theorem awaits_one {b : UInt8} {n : Nat} (hlow : 0x80 ≤ n) (hhigh : n < 0x800)
    (hb : b.toNat = 0xC0 + n / 0x40) : ∃ p, Partial.start? b = some p ∧ p.Awaits n 1 := by
  have hstart : Partial.start? b = some { bytes := [b], code := b.toNat - 0xC0, owed := 1 } := by
    rw [Partial.start?, if_pos (by omega)]
  refine ⟨_, hstart, rfl, ?_, ?_, ?_⟩
  · simp only [upper]
    omega
  · simp
  · simp only [Nat.sub_self, upper]
    omega

/-- The first of three bytes. Its successor is kept from overlong forms and from surrogates. -/
theorem awaits_two {b : UInt8} {n : Nat} (hlow : 0x800 ≤ n) (hhigh : n < 0x10000)
    (hvalid : n < 0xD800 ∨ 0xDFFF < n) (hb : b.toNat = 0xE0 + n / 0x1000) :
    ∃ p, Partial.start? b = some p ∧ p.Awaits n 2 := by
  have hbits : n / 0x40 % 0x40 < 0x40 := Nat.mod_lt _ (by decide)
  by_cases hfirst : n < 0x1000
  · have hstart : Partial.start? b =
        some { bytes := [b], code := 0, owed := 2, low := 0xA0 } := by
      simp only [Partial.start?]
      rw [if_neg (by omega), if_pos (by omega)]
    refine ⟨_, hstart, rfl, ?_, ?_, ?_⟩ <;> simp [upper] <;> omega
  by_cases hsurrogate : 0xD000 ≤ n ∧ n < 0xE000
  · have hstart : Partial.start? b =
        some { bytes := [b], code := 0xD, owed := 2, high := 0x9F } := by
      simp only [Partial.start?]
      rw [if_neg (by omega), if_neg (by omega), if_pos (by omega)]
    refine ⟨_, hstart, rfl, ?_, ?_, ?_⟩ <;> simp [upper] <;> omega
  · have hstart : Partial.start? b =
        some { bytes := [b], code := b.toNat - 0xE0, owed := 2 } := by
      simp only [Partial.start?]
      rw [if_neg (by omega), if_neg (by omega), if_neg (by omega), if_pos (by omega)]
    refine ⟨_, hstart, rfl, ?_, ?_, ?_⟩ <;> simp [upper] <;> omega

/-- The first of four bytes. Its successor is kept from overlong forms and from numbers above the
last code point. -/
theorem awaits_three {b : UInt8} {n : Nat} (hlow : 0x10000 ≤ n) (hhigh : n < 0x110000)
    (hb : b.toNat = 0xF0 + n / 0x40000) : ∃ p, Partial.start? b = some p ∧ p.Awaits n 3 := by
  have hbits : n / 0x1000 % 0x40 < 0x40 := Nat.mod_lt _ (by decide)
  by_cases hfirst : n < 0x40000
  · have hstart : Partial.start? b =
        some { bytes := [b], code := 0, owed := 3, low := 0x90 } := by
      simp only [Partial.start?]
      rw [if_neg (by omega), if_neg (by omega), if_neg (by omega), if_neg (by omega),
        if_pos (by omega)]
    refine ⟨_, hstart, rfl, ?_, ?_, ?_⟩ <;> simp [upper] <;> omega
  by_cases hlast : 0x100000 ≤ n
  · have hstart : Partial.start? b =
        some { bytes := [b], code := 4, owed := 3, high := 0x8F } := by
      simp only [Partial.start?]
      rw [if_neg (by omega), if_neg (by omega), if_neg (by omega), if_neg (by omega),
        if_neg (by omega), if_neg (by omega), if_pos (by omega)]
    refine ⟨_, hstart, rfl, ?_, ?_, ?_⟩ <;> simp [upper] <;> omega
  · have hstart : Partial.start? b =
        some { bytes := [b], code := b.toNat - 0xF0, owed := 3 } := by
      simp only [Partial.start?]
      rw [if_neg (by omega), if_neg (by omega), if_neg (by omega), if_neg (by omega),
        if_neg (by omega), if_pos (by omega)]
    refine ⟨_, hstart, rfl, ?_, ?_, ?_⟩ <;> simp [upper] <;> omega

/-- A first byte and the continuation bytes after it are one character. -/
theorem decodeFrom_lead {b : UInt8} {p : Partial} {n k : Nat} (hb : 0x80 ≤ b.toNat)
    (hp : Partial.start? b = some p) (h : p.Awaits n (k + 1)) (position : Nat)
    (rest : List UInt8) :
    decodeFrom position none (b :: (continuation n (k + 1) ++ rest)) =
      (decodeFrom (position + (k + 2)) none rest).cons (Char.ofNat n) := by
  simp only [decodeFrom]
  rw [if_neg (by omega), hp]
  have htail := decodeFrom_continuation h (position + 1) rest
  rw [show position + 1 + (k + 1) = position + (k + 2) by omega] at htail
  exact htail

theorem decodeFrom_encodeChar (c : Char) (position : Nat) (rest : List UInt8) :
    decodeFrom position none (encodeChar c ++ rest) =
      (decodeFrom (position + (encodeChar c).length) none rest).cons c := by
  have hvalid : c.toNat < 0xD800 ∨ 0xDFFF < c.toNat ∧ c.toNat < 0x110000 := c.valid
  have hchar : Char.ofNat c.toNat = c := Char.ofNat_toNat c
  unfold encodeChar
  simp only
  split
  · next hascii =>
    have hb : (UInt8.ofNat c.toNat).toNat = c.toNat := toNat_ofNat (by omega)
    simp only [List.cons_append, List.nil_append, decodeFrom]
    rw [hb, if_pos hascii, hchar]
    rfl
  split
  · next hlow hhigh =>
    have hb := toNat_ofNat (n := 0xC0 + c.toNat / 0x40) (by omega)
    obtain ⟨p, hp, hawaits⟩ := awaits_one (by omega) hhigh hb
    have hread := decodeFrom_lead (by omega) hp hawaits position rest
    rw [hchar] at hread
    simpa [continuation, upper, Nat.div_div_eq_div_mul] using hread
  split
  · next hlow hhigh =>
    have hb := toNat_ofNat (n := 0xE0 + c.toNat / 0x1000) (by omega)
    obtain ⟨p, hp, hawaits⟩ := awaits_two (by omega) hhigh (by omega) hb
    have hread := decodeFrom_lead (by omega) hp hawaits position rest
    rw [hchar] at hread
    simpa [continuation, upper, Nat.div_div_eq_div_mul] using hread
  · next hlow =>
    have hb := toNat_ofNat (n := 0xF0 + c.toNat / 0x40000) (by omega)
    obtain ⟨p, hp, hawaits⟩ := awaits_three (by omega) (by omega) hb
    have hread := decodeFrom_lead (by omega) hp hawaits position rest
    rw [hchar] at hread
    simpa [continuation, upper, Nat.div_div_eq_div_mul] using hread

theorem decodeFrom_encode (s : List Char) (position : Nat) :
    decodeFrom position none (encode s) = ⟨s, none⟩ := by
  induction s generalizing position with
  | nil => rfl
  | cons c s ih =>
    rw [encode, List.flatMap_cons, decodeFrom_encodeChar, ← encode, ih]
    rfl

/-- No text is lost in its bytes, and they are without a fault. -/
theorem decode_encode (s : List Char) : decode (encode s) = ⟨s, none⟩ :=
  decodeFrom_encode s 0

end Presence.Text.Utf8

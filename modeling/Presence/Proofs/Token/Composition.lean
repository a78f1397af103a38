import Mathlib.Data.List.TakeWhile
import Presence.Proofs.Expr.Derivation
import Presence.Proofs.Outcome

/-!
Scanning a text part by part. What a part becomes depends on what follows only at the join: there a
longer token must not begin.
-/
namespace Presence

/-- In front of `rest` the text becomes tokens with these lexemes, wherever it stands. -/
def Scans (s : List Char) (w : List Lexeme) (rest : List Char) : Prop :=
  ∀ column, ∃ ts, lexemes ts = w ∧
    scanFrom column (s ++ rest) = (scanFrom (column + s.length) rest).map (ts ++ ·)

/-- No token that runs over characters of this kind goes on in the text. -/
def Breaks (runs : Char → Bool) (rest : List Char) : Prop :=
  ∀ c ∈ rest.head?, runs c = false

theorem span_of_breaks {runs : Char → Bool} {s rest : List Char} (hs : ∀ c ∈ s, runs c = true)
    (hrest : Breaks runs rest) :
    (s ++ rest).takeWhile runs = s ∧ (s ++ rest).dropWhile runs = rest := by
  rw [List.takeWhile_append_of_pos hs, List.dropWhile_append_of_pos hs]
  cases rest with
  | nil => simp
  | cons c rest =>
    have hc : runs c = false := hrest c rfl
    simp [hc]

/-- A text is taken apart where a run of characters ends. -/
theorem append_inj_of_breaks {runs : Char → Bool} {s s' rest rest' : List Char}
    (hs : ∀ c ∈ s, runs c = true) (hs' : ∀ c ∈ s', runs c = true) (hrest : Breaks runs rest)
    (hrest' : Breaks runs rest') (h : s ++ rest = s' ++ rest') : s = s' ∧ rest = rest' := by
  obtain ⟨htake, hdrop⟩ := span_of_breaks hs hrest
  obtain ⟨htake', hdrop'⟩ := span_of_breaks hs' hrest'
  rw [h] at htake hdrop
  exact ⟨htake.symm.trans htake', hdrop.symm.trans hdrop'⟩

theorem breaks_of_takeWhile {runs : Char → Bool} {s rest : List Char}
    (h : s = (s ++ rest).takeWhile runs) : (∀ c ∈ s, runs c = true) ∧ Breaks runs rest := by
  have hs : ∀ c ∈ s, runs c = true := by
    rw [h]
    exact fun _ => List.mem_takeWhile_imp
  refine ⟨hs, ?_⟩
  cases rest with
  | nil => simp [Breaks]
  | cons c rest =>
    rw [List.takeWhile_append_of_pos hs, List.self_eq_append_right] at h
    simpa [Breaks] using h

/-- A name as scanning cuts it out. -/
def IsIdentifier : List Char → Prop
  | [] => False
  | c :: cs => isSeparator c = false ∧ Text.isDigit c = false ∧ startsIdentifier c = true ∧
      ∀ d ∈ cs, continuesIdentifier d = true

section Step

variable {s rest : List Char}

theorem scanFrom_identifier (h : IsIdentifier s) (hrest : Breaks continuesIdentifier rest)
    (column : Nat) : scanFrom column (s ++ rest) = (scanFrom (column + s.length) rest).map
      (⟨.identifier (String.ofList s), column⟩ :: ·) := by
  cases s with
  | nil => exact h.elim
  | cons c cs =>
    obtain ⟨hseparator, hdigit, hstart, hcs⟩ := h
    obtain ⟨htake, hdrop⟩ := span_of_breaks hcs hrest
    rw [List.cons_append, scanFrom]
    simp only [hseparator, hdigit, hstart, htake, hdrop, Bool.false_eq_true, if_false, if_true]

theorem scanFrom_integer {c : Char} {cs : List Char} (hseparator : isSeparator c = false)
    (hdigit : Text.isDigit c = true) (hcs : ∀ d ∈ cs, continuesNumber d = true)
    (hvalue : (IntegerConstant.ofSpelling? (c :: cs)).isSome = true)
    (hrest : Breaks continuesNumber rest) (column : Nat) :
    scanFrom column (c :: cs ++ rest) = (scanFrom (column + (c :: cs).length) rest).map
      (⟨.integer (String.ofList (c :: cs)), column⟩ :: ·) := by
  obtain ⟨htake, hdrop⟩ := span_of_breaks hcs hrest
  rw [List.cons_append, scanFrom]
  simp only [hseparator, hdigit, htake, hdrop, hvalue, Bool.false_eq_true, if_false, if_true]

theorem Punctuator.plain_head (p : Punctuator) {c : Char} (hc : c ∈ p.chars.head?) :
    isSeparator c = false ∧ Text.isDigit c = false ∧ startsIdentifier c = false := by
  cases p <;> cases hc <;> decide

theorem scanFrom_punctuator {p : Punctuator} (h : Punctuator.longest? (p.chars ++ rest) = some p)
    (column : Nat) : scanFrom column (p.chars ++ rest) =
      (scanFrom (column + p.chars.length) rest).map (⟨.punctuator p, column⟩ :: ·) := by
  cases hp : p.chars with
  | nil => exact absurd hp p.chars_ne_nil
  | cons c cs =>
    obtain ⟨hseparator, hdigit, hstart⟩ := p.plain_head (by rw [hp]; rfl)
    rw [hp] at h
    rw [List.cons_append] at h ⊢
    rw [scanFrom]
    simp only [hseparator, hdigit, hstart, h, hp, Bool.false_eq_true, if_false]
    simp

end Step

namespace Scans

variable {s s' rest : List Char} {w w' : List Lexeme}

theorem nil (rest : List Char) : Scans [] [] rest := by
  intro column
  refine ⟨[], rfl, ?_⟩
  rw [List.nil_append, List.length_nil, Nat.add_zero]
  cases scanFrom column rest <;> rfl

theorem append (h : Scans s w (s' ++ rest)) (h' : Scans s' w' rest) :
    Scans (s ++ s') (w ++ w') rest := by
  intro column
  obtain ⟨ts, rfl, hscan⟩ := h column
  obtain ⟨ts', rfl, hscan'⟩ := h' (column + s.length)
  refine ⟨ts ++ ts', List.map_append, ?_⟩
  rw [List.append_assoc, hscan, hscan', List.length_append, ← Nat.add_assoc]
  cases scanFrom (column + s.length + s'.length) rest with
  | error e => rfl
  | ok tokens => simp [Except.map]

theorem single {x : Lexeme} (h : ∀ column, scanFrom column (s ++ rest) =
    (scanFrom (column + s.length) rest).map (⟨x, column⟩ :: ·)) : Scans s [x] rest :=
  fun column => ⟨[⟨x, column⟩], rfl, h column⟩

theorem separator {c : Char} (h : isSeparator c = true) : Scans [c] [] rest := by
  intro column
  refine ⟨[], rfl, ?_⟩
  rw [List.singleton_append, scanFrom, if_pos h, List.length_singleton]
  cases scanFrom (column + 1) rest <;> rfl

theorem identifier (h : IsIdentifier s) (hrest : Breaks continuesIdentifier rest) :
    Scans s [.identifier (String.ofList s)] rest :=
  single (scanFrom_identifier h hrest)

theorem integer {c : Char} {cs : List Char} (hseparator : isSeparator c = false)
    (hdigit : Text.isDigit c = true) (hcs : ∀ d ∈ cs, continuesNumber d = true)
    (hvalue : (IntegerConstant.ofSpelling? (c :: cs)).isSome = true)
    (hrest : Breaks continuesNumber rest) :
    Scans (c :: cs) [.integer (String.ofList (c :: cs))] rest :=
  single (scanFrom_integer hseparator hdigit hcs hvalue hrest)

theorem punctuator {p : Punctuator} (h : Punctuator.longest? (p.chars ++ rest) = some p) :
    Scans p.chars [.punctuator p] rest :=
  single (scanFrom_punctuator h)

theorem scan (h : Scans s w []) :
    ∃ tokens, Presence.scan s = .ok tokens ∧ lexemes tokens = w ++ [.endOfText] := by
  obtain ⟨ts, rfl, hscan⟩ := h 1
  rw [List.append_nil] at hscan
  refine ⟨ts ++ [⟨.endOfText, 1 + s.length⟩], ?_, by simp⟩
  rw [Presence.scan, hscan, scanFrom]
  rfl

end Scans

/-- What scanning takes for a name begins and goes on as one. -/
theorem isIdentifier_of_scanFrom {column : Nat} {s : List Char} {tokens : List Token}
    {name : String} (h : scanFrom column s = .ok tokens)
    (hname : .identifier name ∈ lexemes tokens) : IsIdentifier name.toList := by
  fun_induction scanFrom column s generalizing tokens
  case case1 column =>
    cases h
    simp at hname
  case case2 ih => exact ih h hname
  case case3 ih =>
    obtain ⟨ts, hts, rfl⟩ := map_eq_ok_iff.mp h
    simp only [lexemes, List.map_cons, List.mem_cons, reduceCtorEq, false_or] at hname
    exact ih hts hname
  case case4 => cases h
  case case5 column c rest hseparator hdigit hstart run ih =>
    obtain ⟨ts, hts, rfl⟩ := map_eq_ok_iff.mp h
    simp only [lexemes, List.map_cons, List.mem_cons, Lexeme.identifier.injEq] at hname
    rcases hname with rfl | hname
    · rw [String.toList_ofList]
      refine ⟨by simpa using hseparator, by simpa using hdigit, hstart, fun d hd => ?_⟩
      exact List.all_eq_true.mp List.all_takeWhile d hd
    · exact ih hts hname
  case case6 ih =>
    obtain ⟨ts, hts, rfl⟩ := map_eq_ok_iff.mp h
    simp only [lexemes, List.map_cons, List.mem_cons, reduceCtorEq, false_or] at hname
    exact ih hts hname
  case case7 => cases h

/-- A name is a text that becomes itself as one token. -/
theorem isIdentifier_iff_scan {name : String} : IsIdentifier name.toList ↔
    (scan name.toList).map lexemes = .ok [.identifier name, .endOfText] := by
  constructor
  · intro h
    have hname : Scans name.toList [.identifier (String.ofList name.toList)] [] :=
      .identifier h (by simp [Breaks])
    obtain ⟨tokens, hscan, hlexemes⟩ := hname.scan
    rw [hscan, Except.map, hlexemes, String.ofList_toList]
    rfl
  · intro h
    obtain ⟨tokens, hscan, hlexemes⟩ := map_eq_ok_iff.mp h
    apply isIdentifier_of_scanFrom hscan
    rw [hlexemes]
    exact List.mem_cons_self

end Presence

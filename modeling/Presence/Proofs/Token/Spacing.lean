import Presence.Proofs.Token.Scan
import Presence.Proofs.Token.Segmentation

/-!
Writing the lexemes of a text down again. In front of a separator each of them is what scanning cuts
off, whatever stood next to it before, so that the space between lexemes says nothing.
-/
namespace Presence

open Text

/-- The text is over or goes on with a separator. -/
def SetOff (s : List Char) : Prop :=
  ∀ c ∈ s.head?, isSeparator c = true

theorem SetOff.nil : SetOff [] := by
  simp [SetOff]

theorem SetOff.cons {c : Char} (h : isSeparator c = true) (s : List Char) : SetOff (c :: s) := by
  simpa [SetOff] using h

/-- No run goes on over a separator. -/
theorem SetOff.breaks {s : List Char} (h : SetOff s) :
    Breaks continuesIdentifier s ∧ Breaks continuesNumber s := by
  have hruns : ∀ c, isSeparator c = true →
      continuesIdentifier c = false ∧ continuesNumber c = false := by
    intro c hc
    simp only [isSeparator, Bool.or_eq_true, decide_eq_true_eq] at hc
    rcases hc with ((((rfl | rfl) | rfl) | rfl) | rfl) | rfl <;> decide
  exact ⟨fun c hc => (hruns c (h c hc)).1, fun c hc => (hruns c (h c hc)).2⟩

section Characters

variable {c : Char}

theorem continuesNumber_of_isAlphanum (h : c.isAlphanum = true) : continuesNumber c = true := by
  rcases Bool.or_eq_true_iff.mp h with hletter | hdigit
  · have halphanumeric := isAlphanumeric_of_isLetter (isLetter_of_isAlpha hletter)
    simp [continuesNumber, halphanumeric]
  · exact continuesNumber_of_isDigit (isDigit_of_decimal hdigit)

theorem Radix.isAlphanum_of_isDigit {r : Radix} (h : r.isDigit c = true) :
    c.isAlphanum = true := by
  apply Bool.or_eq_true_iff.mpr
  cases r with
  | octal =>
    simp only [Radix.isDigit, Bool.and_eq_true, decide_eq_true_eq] at h
    have hle : c ≤ '9' := Char.le_trans h.2 (by decide)
    exact .inr (Bool.and_eq_true_iff.mpr ⟨decide_eq_true h.1, decide_eq_true hle⟩)
  | decimal => exact .inr h
  | hexadecimal =>
    simp only [Radix.isDigit, Bool.or_eq_true, Bool.and_eq_true, decide_eq_true_eq] at h
    obtain (hdigit | ⟨hlow, hhigh⟩) | ⟨hlow, hhigh⟩ := h
    · exact .inr hdigit
    · exact .inl (isAlpha_iff.mpr (.inr ⟨hlow, Char.le_trans hhigh (by decide)⟩))
    · exact .inl (isAlpha_iff.mpr (.inl ⟨hlow, Char.le_trans hhigh (by decide)⟩))

theorem isAlphanum_of_mem_integerSuffixes {suffix : List Char} (h : suffix ∈ integerSuffixes)
    (hc : c ∈ suffix) : c.isAlphanum = true := by
  have hall : ∀ suffix ∈ integerSuffixes, suffix.all Char.isAlphanum := by decide
  exact List.all_eq_true.mp (hall suffix h) c hc

theorem isAlphanum_of_parts {r : Radix} {mark digits suffix : List Char}
    (hmark : ∀ m ∈ mark, m.isAlphanum = true) (hdigits : ∀ d ∈ digits, r.isDigit d = true)
    (hsuffix : suffix ∈ integerSuffixes) (hc : c ∈ mark ++ digits ++ suffix) :
    c.isAlphanum = true := by
  rcases List.mem_append.mp hc with hc | hc
  · rcases List.mem_append.mp hc with hc | hc
    · exact hmark c hc
    · exact Radix.isAlphanum_of_isDigit (hdigits c hc)
  · exact isAlphanum_of_mem_integerSuffixes hsuffix hc

/-- The run of a number goes on to the end of a constant. -/
theorem IntegerSpelling.continuesNumber {s : List Char} (h : IntegerSpelling s) (hc : c ∈ s) :
    continuesNumber c = true := by
  apply continuesNumber_of_isAlphanum
  cases h with
  | @decimal d digits _ hfirst _ hdigits hsuffix =>
    have hall : ∀ e ∈ d :: digits, Radix.decimal.isDigit e = true :=
      List.forall_mem_cons.mpr ⟨hfirst, hdigits⟩
    exact isAlphanum_of_parts (List.forall_mem_nil _) hall hsuffix hc
  | octal hdigits hsuffix =>
    have hmark : ∀ m ∈ ['0'], m.isAlphanum = true := List.all_eq_true.mp rfl
    exact isAlphanum_of_parts hmark hdigits hsuffix hc
  | @hexadecimal x _ _ hx _ hdigits hsuffix =>
    have hmark : ∀ m ∈ ['0', x], m.isAlphanum = true := by
      rcases hx with rfl | rfl <;> exact List.all_eq_true.mp rfl
    exact isAlphanum_of_parts hmark hdigits hsuffix hc

theorem Punctuator.not_isSeparator_of_mem {p : Punctuator} (hc : c ∈ p.chars) :
    isSeparator c = false := by
  have hall : p.chars.all (!isSeparator ·) := by cases p <;> decide
  simpa using List.all_eq_true.mp hall c hc

/-- No longer punctuator reaches over a separator. -/
theorem Punctuator.length_le_of_setOff {p q : Punctuator} {s : List Char} (hs : SetOff s)
    (hq : q.chars <+: p.chars ++ s) : q.chars.length ≤ p.chars.length := by
  obtain ⟨t, ht⟩ := hq
  obtain ⟨u, hu, -⟩ | ⟨u, hu, hrest⟩ := List.append_eq_append_iff.mp ht
  · simp [hu]
  · cases u with
    | nil => simp [hu]
    | cons c u =>
      have hseparator : isSeparator c = true := hs c (by simp [hrest])
      have hplain : isSeparator c = false := not_isSeparator_of_mem (p := q) (by simp [hu])
      rw [hseparator] at hplain
      cases hplain

end Characters

namespace Lexeme

def WellFormed : Lexeme → Prop
  | identifier name => IsIdentifier name.toList
  | integer spelling => IntegerSpelling spelling.toList
  | punctuator _ => True
  | endOfText => False

variable {x : Lexeme} {s : List Char}

theorem StandsAt.wellFormed (h : x.StandsAt s) : x.WellFormed := by
  have hlongest := h.longest
  cases x with
  | identifier => exact hlongest.1
  | integer => exact hlongest.1
  | punctuator => trivial
  | endOfText => exact hlongest

theorem WellFormed.text_ne_nil (h : x.WellFormed) : x.text ≠ [] := by
  cases x with
  | identifier name =>
    intro hnil
    change IsIdentifier name.toList at h
    rw [show name.toList = [] from hnil] at h
    exact h
  | integer spelling =>
    obtain ⟨c, t, hc, -⟩ := IntegerSpelling.exists_digit h
    simp [text, hc]
  | punctuator p => exact p.chars_ne_nil
  | endOfText => exact h.elim

theorem WellFormed.standsAt (h : x.WellFormed) (hs : SetOff s) : x.StandsAt (x.text ++ s) where
  nonempty := h.text_ne_nil
  isPrefix := List.prefix_append _ _
  longest := by
    obtain ⟨hidentifier, hnumber⟩ := hs.breaks
    cases x with
    | identifier name =>
      exact ⟨h, (span_of_breaks (IsIdentifier.continues h) hidentifier).1.symm⟩
    | integer spelling =>
      exact ⟨h, (span_of_breaks (fun c hc => h.continuesNumber hc) hnumber).1.symm⟩
    | punctuator p => exact fun q hq => Punctuator.length_le_of_setOff hs hq
    | endOfText => exact h.elim

/-- A lexeme by itself is a text of one token. -/
theorem WellFormed.scan (h : x.WellFormed) :
    scan x.text = .ok [⟨x, 1⟩, ⟨.endOfText, x.text.length + 1⟩] := by
  have hcuts : Cuts 1 (x.text ++ []) (x.text.length + 0) [⟨x, 1⟩] :=
    .token (h.standsAt .nil) .nil
  rw [List.append_nil] at hcuts
  exact hcuts.scan_of_end

end Lexeme

/-- The lexemes are written down in this order, with separators in front and behind and at least one
between neighbours. -/
inductive SpacedOut : List Lexeme → List Char → Prop
  | nil {gap : List Char} (hgap : ∀ c ∈ gap, isSeparator c = true) : SpacedOut [] gap
  | cons {gap s : List Char} {x : Lexeme} {w : List Lexeme}
      (hgap : ∀ c ∈ gap, isSeparator c = true) (hs : SetOff s) (h : SpacedOut w s) :
      SpacedOut (x :: w) (gap ++ x.text ++ s)

theorem Scans.separators {gap : List Char} (h : ∀ c ∈ gap, isSeparator c = true)
    (rest : List Char) : Scans gap [] rest := by
  induction gap with
  | nil => exact .nil rest
  | cons c gap ih =>
    obtain ⟨hc, hgap⟩ := List.forall_mem_cons.mp h
    have hfirst : Scans [c] [] (gap ++ rest) := .separator hc
    exact hfirst.append (ih hgap)

theorem SpacedOut.scans {w : List Lexeme} {s : List Char} (h : SpacedOut w s)
    (hw : ∀ x ∈ w, x.WellFormed) : Scans s w [] := by
  induction h with
  | nil hgap => exact .separators hgap []
  | @cons gap s x w hgap hs h ih =>
    obtain ⟨hx, hw⟩ := List.forall_mem_cons.mp hw
    have hlexeme : Scans x.text [x] (s ++ []) := by
      rw [List.append_nil]
      exact .single (hx.standsAt hs).scanFrom
    rw [List.append_assoc]
    exact (Scans.separators hgap _).append (hlexeme.append (ih hw))

section Text

variable {s s' : List Char} {tokens : List Token}

theorem wellFormed_of_scan (h : scan s = .ok tokens) {x : Lexeme} (hx : x ∈ lexemes tokens)
    (hend : x ≠ .endOfText) : x.WellFormed := by
  obtain ⟨ts, htiles, hscan⟩ | ⟨-, -, e, -, -, hscan⟩ := scan_cases s
  · obtain rfl := Except.ok.inj (h.symm.trans hscan)
    obtain ⟨t, ht, rfl⟩ := List.mem_map.mp hx
    rcases List.mem_append.mp ht with ht | ht
    · exact (htiles.standing t ht).2.wellFormed
    · obtain rfl := List.mem_singleton.mp ht
      exact absurd rfl hend
  · cases h.symm.trans hscan

/-- The lexemes of a text, without its end. -/
def properLexemes (tokens : List Token) : List Lexeme :=
  (lexemes tokens).filter (· ≠ .endOfText)

theorem lexemes_of_scan (h : scan s = .ok tokens) :
    lexemes tokens = properLexemes tokens ++ [.endOfText] := by
  obtain ⟨ts, column, rfl, hts⟩ := endsText_of_scan h
  have hall : (lexemes ts).filter (· ≠ .endOfText) = lexemes ts := by
    rw [List.filter_eq_self]
    intro x hx
    obtain ⟨t, ht, rfl⟩ := List.mem_map.mp hx
    simpa using hts t ht
  simpa [properLexemes] using hall.symm

/-- Where its lexemes are written down again, the text has the same ones. -/
theorem scan_spaced (h : scan s = .ok tokens) (hs' : SpacedOut (properLexemes tokens) s') :
    ∃ tokens', scan s' = .ok tokens' ∧ lexemes tokens' = lexemes tokens := by
  have hscans : Scans s' (properLexemes tokens) [] := by
    refine hs'.scans fun x hx => ?_
    obtain ⟨hmem, hend⟩ := List.mem_filter.mp hx
    exact wellFormed_of_scan h hmem (by simpa using hend)
  obtain ⟨tokens', hscan, htokens'⟩ := hscans.scan
  exact ⟨tokens', hscan, htokens'.trans (lexemes_of_scan h).symm⟩

end Text

end Presence

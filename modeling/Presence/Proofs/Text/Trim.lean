import Mathlib.Data.List.DropRight
import Mathlib.Data.List.TakeWhile
import Presence.Text.Blank

/-! What trimming and cutting off line ends leave of a text. -/
namespace Presence.Text

def Blank (s : List Char) : Prop :=
  ∀ c ∈ s, isBlank c = true

def BeginsPlain (s : List Char) : Prop :=
  ∀ c ∈ s.head?, isBlank c = false

def EndsPlain (s : List Char) : Prop :=
  ∀ c ∈ s.getLast?, isBlank c = false

theorem trimLeft_append_of_blank {b : List Char} (hb : Blank b) (s : List Char) :
    trimLeft (b ++ s) = trimLeft s :=
  List.dropWhile_append_of_pos hb

theorem trimRight_append_of_blank (s : List Char) {e : List Char} (he : Blank e) :
    trimRight (s ++ e) = trimRight s := by
  unfold trimRight
  rw [List.reverse_append, List.dropWhile_append_of_pos]
  intro c hc
  exact he c (List.mem_reverse.mp hc)

theorem exists_eq_append_trimLeft (s : List Char) : ∃ b, Blank b ∧ s = b ++ trimLeft s :=
  ⟨s.takeWhile isBlank, fun _ => List.mem_takeWhile_imp,
    List.takeWhile_append_dropWhile.symm⟩

theorem exists_eq_chomp_append (s : List Char) : ∃ e, Blank e ∧ s = chomp s ++ e := by
  refine ⟨(s.reverse.takeWhile fun c => c = '\r' || c = '\n').reverse, fun c hc => ?_, ?_⟩
  · have hend := List.mem_takeWhile_imp (List.mem_reverse.mp hc)
    simp only [Bool.or_eq_true, decide_eq_true_eq] at hend
    rcases hend with rfl | rfl <;> decide
  · rw [chomp, ← List.reverse_append, List.takeWhile_append_dropWhile, List.reverse_reverse]

theorem exists_eq_trimRight_append (s : List Char) : ∃ e, Blank e ∧ s = trimRight s ++ e := by
  obtain ⟨b, hb, hs⟩ := exists_eq_append_trimLeft s.reverse
  refine ⟨b.reverse, fun c hc => hb c (List.mem_reverse.mp hc), ?_⟩
  have hback := congrArg List.reverse hs
  rwa [List.reverse_reverse, List.reverse_append] at hback

theorem chomp_of_no_line_end {s : List Char} (h : ∀ c ∈ s, c ≠ '\r' ∧ c ≠ '\n') : chomp s = s := by
  have hstop : s.reverse.dropWhile (fun c => c = '\r' || c = '\n') = s.reverse := by
    apply List.dropWhile_eq_self_iff.mpr
    intro hpos
    have hc := h _ (List.mem_reverse.mp (List.getElem_mem hpos))
    simpa using hc
  rw [chomp, hstop, List.reverse_reverse]

theorem trimLeft_of_beginsPlain {s : List Char} (h : BeginsPlain s) : trimLeft s = s := by
  cases s with
  | nil => rfl
  | cons c s =>
    have hc : isBlank c = false := h c rfl
    rw [trimLeft, List.dropWhile_cons_of_neg (by simp [hc])]

theorem beginsPlain_trimLeft (s : List Char) : BeginsPlain (trimLeft s) := by
  intro c hc
  have h := List.head?_dropWhile_not isBlank s
  rw [← trimLeft, Option.mem_def.mp hc] at h
  exact h

theorem trimRight_of_endsPlain {s : List Char} (h : EndsPlain s) : trimRight s = s := by
  rw [trimRight, ← trimLeft, trimLeft_of_beginsPlain, List.reverse_reverse]
  intro c hc
  rw [List.head?_reverse] at hc
  exact h c hc

theorem endsPlain_trimRight (s : List Char) : EndsPlain (trimRight s) := by
  intro c hc
  rw [trimRight, List.getLast?_reverse] at hc
  exact beginsPlain_trimLeft s.reverse c hc

theorem EndsPlain.eq_nil_of_blank {s b : List Char} (h : EndsPlain (s ++ b)) (hb : Blank b) :
    b = [] := by
  by_contra hne
  have hlast : isBlank (b.getLast hne) = false := by
    apply h
    rw [List.getLast?_append_of_ne_nil s hne, List.getLast?_eq_some_getLast hne]
    rfl
  rw [hb _ (List.getLast_mem hne)] at hlast
  cases hlast

theorem trimRight_prefix_self (s : List Char) : trimRight s <+: s :=
  List.rdropWhile_prefix isBlank s

theorem trim_infix_self (s : List Char) : trim s <:+: s :=
  (trimRight_prefix_self _).isInfix.trans (List.dropWhile_suffix isBlank).isInfix

theorem trimRight_append {s : List Char} (hs : EndsPlain s) (t : List Char) :
    trimRight (s ++ t) = s ++ trimRight t := by
  unfold trimRight
  rw [List.reverse_append, List.dropWhile_append]
  split
  · next h =>
    rw [List.isEmpty_iff.mp h]
    rw [List.reverse_nil, List.append_nil]
    exact trimRight_of_endsPlain hs
  · rw [List.reverse_append, List.reverse_reverse]

theorem trim_of_beginsPlain {s : List Char} (h : BeginsPlain s) : trim s = trimRight s := by
  rw [trim, trimLeft_of_beginsPlain h]

/-- Behind text that is plain at both ends only the end is trimmed. -/
theorem trim_append {s : List Char} (hs : s ≠ []) (hbegins : BeginsPlain s) (hends : EndsPlain s)
    (t : List Char) : trim (s ++ t) = s ++ trimRight t := by
  obtain ⟨c, u, rfl⟩ := List.exists_cons_of_ne_nil hs
  have hwhole : BeginsPlain (c :: u ++ t) := hbegins
  rw [trim_of_beginsPlain hwhole, trimRight_append hends]

theorem trimRight_cons {c : Char} (hc : isBlank c = false) (s : List Char) :
    trimRight (c :: s) = c :: trimRight s :=
  trimRight_append (s := [c]) (by simpa [EndsPlain] using hc) s

/-- Text that is not all white space keeps what stands before it when its end is trimmed. -/
theorem trimRight_append_of_plain (s : List Char) {c : Char} (hc : isBlank c = false)
    (t : List Char) : trimRight (s ++ c :: t) = s ++ trimRight (c :: t) := by
  have hends : EndsPlain (s ++ [c]) := by simpa [EndsPlain] using hc
  rw [List.append_cons, trimRight_append hends, trimRight_cons hc, List.append_assoc,
    List.singleton_append]

theorem trim_cons {c : Char} (hc : isBlank c = false) (s : List Char) :
    trim (c :: s) = c :: trimRight s := by
  rw [trim_of_beginsPlain (by simpa [BeginsPlain] using hc), trimRight_cons hc]

theorem beginsPlain_trim (s : List Char) : BeginsPlain (trim s) := by
  have h := beginsPlain_trimLeft s
  unfold trim
  cases hs : trimLeft s with
  | nil => simp [BeginsPlain, trimRight]
  | cons c u =>
    rw [hs] at h
    have hc : isBlank c = false := h c rfl
    rw [← trimLeft_of_beginsPlain h, ← trim, trim_cons hc]
    simpa [BeginsPlain] using hc

theorem endsPlain_trim (s : List Char) : EndsPlain (trim s) :=
  endsPlain_trimRight _

/-- White space on either side makes no difference. -/
theorem trim_append_of_blank {b e : List Char} (hb : Blank b) (s : List Char) (he : Blank e) :
    trim (b ++ s ++ e) = trim s := by
  have hend : trimRight (trimLeft (s ++ e)) = trimRight (trimLeft s) := by
    unfold trimLeft
    rw [List.dropWhile_append]
    split
    · next h => rw [List.dropWhile_eq_nil_iff.mpr he, List.isEmpty_iff.mp h]
    · exact trimRight_append_of_blank _ he
  rw [trim, List.append_assoc, trimLeft_append_of_blank hb, hend, trim]

theorem trim_eq_nil_iff {s : List Char} : trim s = [] ↔ Blank s := by
  constructor
  · intro h
    obtain ⟨b, hb, hs⟩ := exists_eq_append_trimLeft s
    obtain ⟨e, he, hrest⟩ := exists_eq_trimRight_append (trimLeft s)
    rw [← trim, h, List.nil_append] at hrest
    rw [hs, hrest]
    exact fun c hc => (List.mem_append.mp hc).elim (hb c) (he c)
  · intro h
    simpa using trim_append_of_blank h [] (e := []) (by simp [Blank])

theorem trim_chomp (s : List Char) : trim (chomp s) = trim s := by
  obtain ⟨e, he, hs⟩ := exists_eq_chomp_append s
  calc
    trim (chomp s) = trim ([] ++ chomp s ++ e) := (trim_append_of_blank (by simp [Blank]) _ he).symm
    _ = trim s := by rw [List.nil_append, ← hs]

end Presence.Text

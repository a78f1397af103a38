import Presence.Proofs.Source.CommentScan
import Presence.Proofs.Source.Concatenation
import Presence.Proofs.Source.Spacing

/-!
Directives over several lines. Where a directive is broken with a backslash makes no difference to
what is read, only to the numbers of the lines behind it.
-/
namespace Presence

open Text

/-- Only white space may part a text from a backslash that ends it, and there is none. -/
def KeepsBackslashLast (s : List Char) : Prop :=
  ∀ t e, s = t ++ '\\' :: e → Blank e → e = []

theorem keepsBackslashLast_of_endsPlain {s : List Char} (h : EndsPlain s) :
    KeepsBackslashLast s := by
  rintro t e rfl he
  rw [List.append_cons] at h
  exact h.eq_nil_of_blank he

section Comments

variable {s e : List Char}

theorem stripComments_comment_of_blank (he : Blank e) :
    stripComments .comment e = ([], .comment) := by
  induction e with
  | nil => rfl
  | cons c e ih =>
    have hslash := no_slash_of_blank he
    rw [stripComments]
    · exact ih fun d hd => he d (List.mem_cons_of_mem c hd)
    · rintro u - rfl
      simp at hslash

theorem head?_ne_of_blank (he : Blank e) {c : Char} (hc : isBlank c = false) :
    e.head? ≠ some c := by
  intro h
  rw [he c (List.mem_of_mem_head? h)] at hc
  cases hc

/-- White space at the end of a line neither opens nor closes a comment. -/
theorem stripComments_append_of_blank (state : CommentState) (s : List Char) (he : Blank e) :
    (stripComments state (s ++ e)).2 = (stripComments state s).2 ∧
      ∃ e', Blank e' ∧ (stripComments state (s ++ e)).1 = (stripComments state s).1 ++ e' := by
  fun_induction stripComments state s
  case case1 ih => exact ih
  case case2 c s hclose ih =>
    rw [List.cons_append, stripComments]
    · exact ih
    · intro u hc hu
      obtain ⟨v, rfl⟩ := eq_cons_of_append (head?_ne_of_blank he (by decide)) hu
      exact hclose v hc rfl
  case case3 =>
    rw [List.nil_append, stripComments_comment_of_blank he]
    exact ⟨rfl, [], by simp [Blank], rfl⟩
  case case4 => exact ⟨rfl, [], by simp [Blank], rfl⟩
  case case5 ih => exact ih
  case case6 c s hline hblock ih =>
    obtain ⟨hstate, e', he', hkept⟩ := ih
    rw [List.cons_append, stripComments]
    · exact ⟨hstate, e', he', by rw [hkept]; rfl⟩
    · intro u hc hu
      obtain ⟨v, rfl⟩ := eq_cons_of_append (head?_ne_of_blank he (by decide)) hu
      exact hline v hc rfl
    · intro u hc hu
      obtain ⟨v, rfl⟩ := eq_cons_of_append (head?_ne_of_blank he (by decide)) hu
      exact hblock v hc rfl
  case case7 =>
    have hkept := stripComments_append_of_no_slash (no_slash_of_blank he) []
    rw [List.append_nil] at hkept
    rw [List.nil_append, hkept]
    exact ⟨rfl, e, he, by simp [stripComments]⟩

end Comments

namespace LineReader

variable {number start : Nat} {state : CommentState} {text : List Char}

theorem emit_behind (r : LineReader) (n : Nat) (lines : List (List Char)) :
    (r.behind n).emit lines = (r.emit lines).map (·.renumber (· + n)) := by
  simp only [emit, feedAll_behind, finish_behind, List.map_append]
  cases (r.feedAll lines).1.finish.2 <;> rfl

theorem logicalLines_append_eq_emit (before lines : List (List Char)) :
    logicalLines (before ++ lines) = (feedAll {} before).2 ++ (feedAll {} before).1.emit lines := by
  simp only [logicalLines, feedAll_append, emit, List.append_assoc]

/-- Where a directive began that waits is seen in its own logical line alone. -/
theorem exists_emit_waiting (number : Nat) (state : CommentState) (text : List Char)
    (lines : List (List Char)) : ∃ content after, ∀ start,
      emit ⟨number, state, some (start, text)⟩ lines = ⟨start, content⟩ :: after := by
  induction lines generalizing number text with
  | nil => exact ⟨trim (stripComments state text).1, [], fun start => rfl⟩
  | cons line lines ih =>
    have hfeed : ∀ start, feed ⟨number, state, some (start, text)⟩ line =
        directive ⟨number + 1, state, some (start, text)⟩ start (text ++ chomp line) :=
      fun start => rfl
    by_cases hc : Continues (text ++ chomp line)
    · obtain ⟨content, after, hafter⟩ := ih (number + 1) (text ++ chomp line).dropLast
      refine ⟨content, after, fun start => ?_⟩
      rw [emit_cons, hfeed, directive_of_continues hc]
      exact hafter start
    · refine ⟨trim (stripComments state (text ++ chomp line)).1,
        emit ⟨number + 1, (stripComments state (text ++ chomp line)).2, none⟩ lines,
        fun start => ?_⟩
      rw [emit_cons, hfeed, directive_of_not_continues hc]
      rfl

/-- One more line read since a directive began moves the lines behind it and not the directive. -/
theorem emit_waiting_later (number start : Nat) (state : CommentState) (text : List Char)
    (lines : List (List Char)) : ∃ content after,
      emit ⟨number, state, some (start, text)⟩ lines = ⟨start, content⟩ :: after ∧
      emit ⟨number + 1, state, some (start, text)⟩ lines =
        ⟨start, content⟩ :: after.map (·.renumber (· + 1)) := by
  obtain ⟨content, after, hemit⟩ := exists_emit_waiting number state text lines
  obtain ⟨content', after', hemit'⟩ := exists_emit_waiting (number + 1) state text lines
  have hbehind : emit ⟨number + 1, state, some (start + 1, text)⟩ lines =
      (emit ⟨number, state, some (start, text)⟩ lines).map (·.renumber (· + 1)) :=
    emit_behind ⟨number, state, some (start, text)⟩ 1 lines
  rw [hemit, hemit', List.map_cons] at hbehind
  obtain ⟨hcontent, rfl⟩ := List.cons.inj hbehind
  obtain rfl : content' = content := congrArg LogicalLine.text hcontent
  exact ⟨content', after, hemit start, hemit' start⟩

/-- White space behind the text of a directive is lost with its comments, so that one more line read
since the directive began moves only the lines behind it. -/
theorem emit_directive_later {e : List Char} (he : Blank e) (htext : Continues text → e = [])
    (number start : Nat) (state : CommentState) (w w' : Option (Nat × List Char))
    (lines : List (List Char)) : ∃ content after,
      ((directive ⟨number, state, w⟩ start text).2.toList ++
        (directive ⟨number, state, w⟩ start text).1.emit lines = ⟨start, content⟩ :: after) ∧
      (directive ⟨number + 1, state, w'⟩ start (text ++ e)).2.toList ++
        (directive ⟨number + 1, state, w'⟩ start (text ++ e)).1.emit lines =
          ⟨start, content⟩ :: after.map (·.renumber (· + 1)) := by
  by_cases hc : Continues text
  · obtain rfl := htext hc
    rw [List.append_nil, directive_of_continues hc, directive_of_continues hc]
    exact emit_waiting_later number start state text.dropLast lines
  · have hc' : ¬ Continues (text ++ e) := by
      intro hlast
      by_cases hnil : e = []
      · rw [hnil, List.append_nil] at hlast
        exact hc hlast
      · rw [Continues, List.getLast?_append_of_ne_nil text hnil] at hlast
        have hblank := he '\\' (List.mem_of_getLast? hlast)
        cases hblank
    obtain ⟨hstate, e', he', hkept⟩ := stripComments_append_of_blank state text he
    have htrim : trim (stripComments state (text ++ e)).1 = trim (stripComments state text).1 := by
      rw [hkept]
      exact trim_append_of_blank (b := []) (by simp [Blank]) _ he'
    rw [directive_of_not_continues hc, directive_of_not_continues hc', hstate, htrim]
    refine ⟨trim (stripComments state text).1,
      emit ⟨number, (stripComments state text).2, none⟩ lines, rfl, ?_⟩
    rw [← emit_behind]
    rfl

end LineReader

open LineReader

/-- The first line of a directive that is not bare: what its text becomes when the line goes on. -/
theorem exists_startText_append {a u : List Char} (hhash : trim a = '#' :: u) (hu : ¬ Blank u) :
    ∃ p c v, isBlank c = false ∧ a = p ++ c :: v ∧ ∀ s,
      (trim (a ++ s)).head? = some '#' ∧ startText (a ++ s) = '#' :: c :: trimRight (v ++ s) := by
  obtain ⟨b, hb, hparts⟩ := exists_eq_append_trimLeft a
  obtain ⟨e, hleft⟩ := trimRight_prefix_self (trimLeft a)
  rw [← trim, hhash, List.cons_append] at hleft
  obtain ⟨b', hb', hword⟩ := exists_eq_append_trimLeft (u ++ e)
  have hplain := beginsPlain_trimLeft (u ++ e)
  cases hv : trimLeft (u ++ e) with
  | nil =>
    rw [hv, List.append_nil] at hword
    exact absurd (fun c hc => hb' c (hword ▸ List.mem_append_left e hc)) hu
  | cons c v =>
    rw [hv] at hword hplain
    have hc : isBlank c = false := hplain c rfl
    have ha : a = b ++ '#' :: (b' ++ c :: v) := by rw [← hword, hleft, ← hparts]
    have htrim : ∀ s, trim (a ++ s) = '#' :: (b' ++ c :: trimRight (v ++ s)) := by
      intro s
      rw [ha, List.append_assoc, trim, trimLeft_append_of_blank hb, List.cons_append, ← trim,
        trim_hash, List.append_assoc, List.cons_append, trimRight_append_of_plain b' hc,
        trimRight_cons hc]
    refine ⟨b ++ '#' :: b', c, v, hc, by simp [ha], fun s => ⟨by rw [htrim]; rfl, ?_⟩⟩
    rw [startText_of_hash (htrim s), trimLeft_append_of_blank hb', trimLeft_of_beginsPlain]
    simpa [BeginsPlain] using hc

/-- Between logical lines, a directive read in two parts comes out as the one read at once. -/
theorem emit_split {a b u : List Char} (hb : ∀ c ∈ b, c ≠ '\r' ∧ c ≠ '\n')
    (hhash : trim a = '#' :: u) (hu : ¬ Blank u) (hlast : KeepsBackslashLast (a ++ b))
    (number : Nat) (state : CommentState) (lines : List (List Char)) : ∃ content after,
      emit ⟨number, state, none⟩ ((a ++ b) :: lines) = ⟨number + 1, content⟩ :: after ∧
      emit ⟨number, state, none⟩ ((a ++ ['\\']) :: b :: lines) =
        ⟨number + 1, content⟩ :: after.map (·.renumber (· + 1)) := by
  obtain ⟨p, c, v, hc, rfl, hstart⟩ := exists_startText_append hhash hu
  obtain ⟨hdirective, htext⟩ := hstart b
  obtain ⟨hdirective', htext'⟩ := hstart ['\\']
  obtain ⟨e, he, hend⟩ := exists_eq_trimRight_append (v ++ b)
  have hwaits : feed ⟨number, state, none⟩ (p ++ c :: v ++ ['\\']) =
      (⟨number + 1, state, some (number + 1, '#' :: c :: v)⟩, none) := by
    have hcontinues : Continues ('#' :: c :: v ++ ['\\']) := List.getLast?_concat
    have hsplit : trimRight (v ++ ['\\']) = v ++ ['\\'] :=
      trimRight_append_of_plain v (by decide) []
    rw [feed_of_isDirective hdirective', htext', hsplit, ← List.cons_append, ← List.cons_append,
      directive_of_continues hcontinues, List.dropLast_concat]
  have hnext : feed ⟨number + 1, state, some (number + 1, '#' :: c :: v)⟩ b =
      directive ⟨number + 2, state, some (number + 1, '#' :: c :: v)⟩ (number + 1)
        ('#' :: c :: trimRight (v ++ b) ++ e) := by
    rw [List.cons_append, List.cons_append, ← hend]
    conv_rhs => rw [← chomp_of_no_line_end hb]
    rfl
  have hkeeps : Continues ('#' :: c :: trimRight (v ++ b)) → e = [] := by
    intro hcont
    rw [Continues, List.getLast?_cons_cons] at hcont
    obtain ⟨t, ht⟩ := List.getLast?_eq_some_iff.mp hcont
    refine hlast (p ++ t) e ?_ he
    rw [List.append_assoc, List.append_assoc, List.cons_append, hend, ← List.cons_append, ht]
    simp
  rw [emit_cons, feed_of_isDirective hdirective, htext, emit_cons, hwaits, emit_cons, hnext]
  exact emit_directive_later he hkeeps (number + 1) (number + 1) state none
    (some (number + 1, '#' :: c :: v)) lines

/-- Breaking a directive with a backslash makes no difference. Behind lines that no directive waits
at the end of, a line that begins one and has more than its hash reads the same when it is cut
anywhere behind that, and only the numbers of the lines behind the directive count one line more.
A directive may go on behind either part, as long as no white space hides that it does. -/
theorem logicalLines_split {pre : List (List Char)} {a b u : List Char} (post : List (List Char))
    (hpre : (feedAll {} pre).1.waiting = none) (hb : ∀ c ∈ b, c ≠ '\r' ∧ c ≠ '\n')
    (hhash : trim a = '#' :: u) (hu : ¬ Blank u) (hlast : KeepsBackslashLast (a ++ b)) :
    ∃ before l after,
      logicalLines (pre ++ [a ++ b] ++ post) = before ++ l :: after ∧
      l.number = pre.length + 1 ∧
      logicalLines (pre ++ [a ++ ['\\'], b] ++ post) =
        before ++ l :: after.map (·.renumber (· + 1)) := by
  have hnumber := number_feedAll {} pre
  rcases hr : (feedAll {} pre).1 with ⟨number, state, waiting⟩
  rw [hr] at hpre hnumber
  obtain rfl : waiting = none := hpre
  obtain ⟨content, after, hwhole, hsplit⟩ := emit_split hb hhash hu hlast number state post
  refine ⟨(feedAll {} pre).2, ⟨number + 1, content⟩, after, ?_, ?_, ?_⟩
  · rw [List.append_assoc, logicalLines_append_eq_emit, hr]
    exact congrArg _ hwhole
  · simpa using hnumber
  · rw [List.append_assoc, logicalLines_append_eq_emit, hr]
    exact congrArg _ hsplit

/-- The cut may stand behind a backslash and in front of the end of a comment, and the directive may
go on. -/
theorem logicalLines_split_in_comment :
    let pre := ["x /* y".toList]
    let a := " # if A \\".toList
    let b := "B */ C \\".toList
    let post := ["D".toList, "E".toList]
    logicalLines (pre ++ [a ++ b] ++ post) =
        [⟨1, "x".toList⟩, ⟨2, "C D".toList⟩, ⟨4, "E".toList⟩] ∧
      ∃ before l after, logicalLines (pre ++ [a ++ b] ++ post) = before ++ l :: after ∧
        l.number = pre.length + 1 ∧
        logicalLines (pre ++ [a ++ ['\\'], b] ++ post) =
          before ++ l :: after.map (·.renumber (· + 1)) := by
  intro pre a b post
  have hu : ¬ Blank " if A \\".toList := fun h => absurd (h 'A' (by decide)) (by decide)
  have hends : EndsPlain (a ++ b) := by
    intro c hc
    cases hc
    decide
  have hb : ∀ c ∈ b, c ≠ '\r' ∧ c ≠ '\n' := by
    have hall : b.all (fun c => c ≠ '\r' ∧ c ≠ '\n') = true := by decide
    simpa using hall
  exact ⟨by decide, logicalLines_split post (by decide) hb (by decide) hu
    (keepsBackslashLast_of_endsPlain hends)⟩

end Presence

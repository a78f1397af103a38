import Presence.Proofs.Source.CommentFree
import Presence.Source.Directive

/-!
White space behind the hash of a directive. It is gone before lines are joined and comments removed,
so that only a comment or a broken line can leave some there.
-/
namespace Presence

open Text LineGroup

theorem stripComments_append_of_no_slash {p : List Char} (hp : '/' ∉ p) (s : List Char) :
    stripComments .code (p ++ s) =
      (p ++ (stripComments .code s).1, (stripComments .code s).2) := by
  induction p with
  | nil => rfl
  | cons c p ih =>
    obtain ⟨hc, hrest⟩ := List.ne_and_not_mem_of_not_mem_cons hp
    have hplain : ∀ d ∈ (p ++ s).head?, ¬ BeginComment c d :=
      fun d _ hbegin => hc hbegin.1.symm
    rw [List.cons_append, stripComments_cons_of_plain hplain, ih hrest]
    rfl

theorem stripComments_cons_cases (c : Char) (s : List Char) :
    "/*".toList <+: c :: s ∨ (stripComments .code (c :: s)).1 = [] ∨
      (stripComments .code (c :: s)).1 = c :: (stripComments .code s).1 := by
  by_cases hplain : ∀ d ∈ s.head?, ¬ BeginComment c d
  · right
    right
    rw [stripComments_cons_of_plain hplain]
  · push Not at hplain
    obtain ⟨d, hd, rfl, hbegin⟩ := hplain
    obtain ⟨u, rfl⟩ := List.head?_eq_some_iff.mp hd
    rcases hbegin with rfl | rfl
    · exact .inr (.inl rfl)
    · exact .inl ⟨u, rfl⟩

/-- A comment goes on to the end of the text, or it ends and the rest is code. -/
theorem stripComments_comment_cases (s : List Char) :
    stripComments .comment s = ([], .comment) ∨
      ∃ p rest, s = p ++ "*/".toList ++ rest ∧
        stripComments .comment s = stripComments .code rest := by
  induction s with
  | nil => exact .inl rfl
  | cons c s ih =>
    by_cases hend : "*/".toList <+: c :: s
    · obtain ⟨rest, hrest⟩ := hend
      refine .inr ⟨[], rest, hrest.symm, ?_⟩
      rw [← hrest]
      rfl
    · have hskip : stripComments .comment (c :: s) = stripComments .comment s := by
        rw [stripComments]
        rintro u rfl rfl
        exact hend ⟨u, rfl⟩
      rw [hskip]
      rcases ih with ih | ⟨p, rest, rfl, ih⟩
      · exact .inl ih
      · exact .inr ⟨c :: p, rest, rfl, ih⟩

/-- A comment begins, or a hash does and right behind it a comment or white space. -/
def PartsHash (s : List Char) : Prop :=
  "/*".toList <+: s ∨ "#/*".toList <+: s ∨ ∃ c u, s = '#' :: c :: u ∧ isBlank c = true

/-- In code, white space behind the first hash was there, or a comment before it was removed. -/
theorem partsHash_of_trim {s v : List Char} {c : Char} (hs : BeginsPlain s)
    (h : trim (stripComments .code s).1 = '#' :: c :: v) (hc : isBlank c = true) :
    PartsHash s := by
  cases s with
  | nil => cases h
  | cons d u =>
    rcases stripComments_cons_cases d u with hcomment | hnone | hkept
    · exact .inl hcomment
    · rw [hnone] at h
      cases h
    rw [hkept, trim_cons (hs d rfl)] at h
    obtain ⟨rfl, hbehind⟩ := List.cons.inj h
    cases u with
    | nil => cases hbehind
    | cons e w =>
      rcases stripComments_cons_cases e w with hcomment | hnone | hkept
      · exact .inr (.inl (List.cons_prefix_cons.mpr ⟨rfl, hcomment⟩))
      · rw [hnone] at hbehind
        cases hbehind
      · have hprefix := trimRight_prefix_self (stripComments .code (e :: w)).1
        rw [hbehind, hkept] at hprefix
        have hce : c = e := (List.cons_prefix_cons.mp hprefix).1
        exact .inr (.inr ⟨e, w, rfl, hce ▸ hc⟩)

section Prefix

variable {p text line : List Char} {more : List (List Char)}

theorem prefix_dropLast (hp : p.getLast? ≠ some '\\') (h : p <+: text) (hc : Continues text) :
    p <+: text.dropLast := by
  obtain ⟨q, rfl⟩ := h
  have hq : q ≠ [] := by
    rintro rfl
    rw [List.append_nil] at hc
    exact hp hc
  rw [List.dropLast_append_of_ne_nil hq]
  exact List.prefix_append p _

/-- What does not end in a backslash stays at the start of a directive when lines are joined. -/
theorem prefix_foldl_extendText (hp : p.getLast? ≠ some '\\') (h : p <+: text)
    (hmore : ContinuedBy text more) : p <+: more.foldl extendText text := by
  induction more generalizing text with
  | nil => exact h
  | cons line more ih =>
    exact ih ((prefix_dropLast hp h hmore.1).trans (List.prefix_append _ _)) hmore.2

theorem prefix_closeText (hp : p.getLast? ≠ some '\\') (h : p <+: text) : p <+: closeText text := by
  unfold closeText
  split
  · next hc => exact prefix_dropLast hp h hc
  · exact h

theorem LineGroup.Complete.prefix_text {g : LineGroup} {after : List LineGroup}
    (hg : g.Complete after) (hp : p.getLast? ≠ some '\\') (h : p <+: startText g.first) :
    p <+: g.text := by
  have hjoined := prefix_foldl_extendText hp h hg.continued
  unfold LineGroup.text
  split
  · exact prefix_closeText hp hjoined
  · exact hjoined

end Prefix

/-- How white space can come to stand behind a hash: a comment that is open at the start of the
group ends, and behind it the hash has white space or a comment around it; or a comment begins
before the hash or right behind it; or nothing but backslashes stands behind the hash on its
line. -/
inductive Parted (state : CommentState) (g : LineGroup) : Prop
  | inComment (h : state = .comment) {p rest : List Char}
      (htext : g.text = p ++ "*/".toList ++ rest)
      (hcode : stripComments .comment g.text = stripComments .code rest)
      (hparts : PartsHash (trimLeft rest))
  | commentBefore (h : "/*".toList <+: trim g.first)
  | commentBehind (h : "#/*".toList <+: g.text)
  | broken {u : List Char} (h : startText g.first = '#' :: u) (hu : u ≠ [])
      (hall : ∀ c ∈ u, c = '\\')

theorem startText_of_isDirective {g : LineGroup} (h : g.IsDirective) :
    ∃ u, startText g.first = '#' :: u ∧ BeginsPlain u := by
  obtain ⟨text, htext⟩ := List.head?_eq_some_iff.mp h
  exact ⟨trimLeft text, startText_of_hash htext, beginsPlain_trimLeft text⟩

/-- A hash alone is all of its line and of its directive. -/
theorem LineGroup.Complete.text_of_lone_hash {g : LineGroup} {after : List LineGroup}
    (hg : g.Complete after) (hd : g.IsDirective) (h : startText g.first = ['#']) :
    g.text = ['#'] := by
  have hmore : g.more = [] := by
    have hcontinued := hg.continued
    rw [h] at hcontinued
    cases hm : g.more with
    | nil => rfl
    | cons line more =>
      rw [hm] at hcontinued
      exact absurd hcontinued.1 (by decide)
  rw [text_of_isDirective hd, joined, hmore, List.foldl_nil, h]
  decide

/-- If more than backslashes stands behind the hash, joining lines keeps what comes right behind
it. -/
theorem LineGroup.Complete.prefix_of_not_broken {g : LineGroup} {after : List LineGroup}
    (hg : g.Complete after) {d : Char} {u : List Char} (h : startText g.first = '#' :: d :: u)
    (hu : ¬ ∀ c ∈ d :: u, c = '\\') : ['#', d] <+: g.text := by
  push Not at hu
  obtain ⟨c, hc, hne⟩ := hu
  obtain ⟨w, rest, hw⟩ := List.append_of_mem hc
  obtain ⟨v, hv⟩ : ∃ v, w ++ [c] = d :: v := by
    cases w with
    | nil => exact ⟨[], by rw [(List.cons.inj hw).1]; rfl⟩
    | cons x w => exact ⟨w ++ [c], by rw [(List.cons.inj hw).1]; rfl⟩
  have hprefix : '#' :: d :: v <+: startText g.first := by
    rw [h, hw, ← hv]
    exact ⟨rest, by simp⟩
  have hlast : ('#' :: d :: v).getLast? ≠ some '\\' := by
    rw [← hv, ← List.cons_append, List.getLast?_concat]
    simpa using hne
  exact (List.prefix_append ['#', d] v).trans (hg.prefix_text hlast hprefix)

theorem trim_hash (s : List Char) : trim ('#' :: s) = '#' :: trimRight s :=
  trim_cons (by decide) s

theorem no_slash_of_blank {b : List Char} (hb : Blank b) : '/' ∉ b := by
  intro h
  have hblank := hb '/' h
  cases hblank

section Content

variable {g : LineGroup} {after : List LineGroup} {c : Char} {v : List Char}

/-- In code, white space behind the hash of a directive comes of a comment or of broken lines. -/
theorem LineGroup.Complete.parted_of_isDirective (hg : g.Complete after) (hd : g.IsDirective)
    (h : g.content .code = '#' :: c :: v) (hc : isBlank c = true) : Parted .code g := by
  obtain ⟨u, hu, hplain⟩ := startText_of_isDirective hd
  cases u with
  | nil =>
    rw [content, hg.text_of_lone_hash hd hu] at h
    cases h
  | cons d u =>
    by_cases hall : ∀ x ∈ d :: u, x = '\\'
    · exact .broken hu (List.cons_ne_nil d u) hall
    obtain ⟨q, hq⟩ := hg.prefix_of_not_broken hu hall
    have hbegins : BeginsPlain g.text := by
      rw [← hq]
      exact fun _ hx => Option.some.inj hx ▸ (by decide)
    rcases partsHash_of_trim hbegins h hc with hbefore | hbehind | ⟨e, w, htext, he⟩
    · rw [← hq] at hbefore
      exact absurd (List.cons_prefix_cons.mp hbefore).1 (by decide)
    · exact .commentBehind hbehind
    · have hde : d = e := by
        rw [← hq] at htext
        exact (List.cons.inj (List.cons.inj htext).2).1
      have hd : isBlank d = false := hplain d rfl
      rw [hde, he] at hd
      cases hd

/-- In code, a line that becomes a directive begins with a comment. -/
theorem LineGroup.Complete.parted_of_not_isDirective (hg : g.Complete after)
    (hd : ¬ g.IsDirective) (h : g.content .code = '#' :: c :: v) (hc : isBlank c = true) :
    Parted .code g := by
  have htext : g.text = trim g.first := by
    rw [text_of_not_isDirective hd, joined, hg.alone hd, List.foldl_nil, startText_of_plain hd]
  rw [content, htext] at h
  rcases partsHash_of_trim (beginsPlain_trim g.first) h hc with hbefore | ⟨w, hw⟩ | ⟨e, w, hw, -⟩
  · exact .commentBefore hbefore
  · exact absurd (congrArg List.head? hw.symm) hd
  · exact absurd (congrArg List.head? hw) hd

/-- Where a comment is open, it ends before the hash. -/
theorem LineGroup.parted_of_comment (h : g.content .comment = '#' :: c :: v)
    (hc : isBlank c = true) : Parted .comment g := by
  rcases stripComments_comment_cases g.text with hopen | ⟨p, rest, htext, hcode⟩
  · rw [content, hopen] at h
    cases h
  · obtain ⟨b, hb, hrest⟩ := exists_eq_append_trimLeft rest
    have hkept : trim (stripComments .code (trimLeft rest)).1 = '#' :: c :: v := by
      rw [content, hcode, hrest, stripComments_append_of_no_slash (no_slash_of_blank hb),
        trim, trimLeft_append_of_blank hb, ← trim] at h
      exact h
    exact .inComment rfl htext hcode (partsHash_of_trim (beginsPlain_trimLeft rest) hkept hc)

theorem LineGroup.Complete.parted {state : CommentState} (hg : g.Complete after)
    (h : g.content state = '#' :: c :: v) (hc : isBlank c = true) : Parted state g := by
  cases state with
  | comment => exact parted_of_comment h hc
  | code =>
    by_cases hd : g.IsDirective
    · exact hg.parted_of_isDirective hd h hc
    · exact hg.parted_of_not_isDirective hd h hc

end Content

namespace Keyword

theorem beginsPlain_chars (k : Keyword) : BeginsPlain k.chars := by
  intro c hc
  cases k <;> cases hc <;> decide

theorem endsPlain_chars (k : Keyword) : EndsPlain k.chars := by
  intro c hc
  cases k <;> cases hc <;> decide

def word (k : Keyword) : List Char :=
  k.chars.tail

theorem chars_eq (k : Keyword) : k.chars = '#' :: k.word := by
  cases k <;> rfl

theorem beginsPlain_word (k : Keyword) (s : List Char) : BeginsPlain (k.word ++ s) := by
  intro c hc
  cases k <;> cases hc <;> decide

theorem endsPlain_append_word (k : Keyword) (s : List Char) : EndsPlain (s ++ k.word) := by
  have hword : k.word ≠ [] := by cases k <;> decide
  have hlast : k.word.getLast? = k.chars.getLast? := by cases k <;> rfl
  intro c hc
  rw [List.getLast?_append_of_ne_nil s hword, hlast] at hc
  exact k.endsPlain_chars c hc

end Keyword

/-- The text of a directive begins with the keyword on its first line, whatever white space stands
around the hash. -/
theorem prefix_startText {b b' : List Char} (hb : Blank b) (hb' : Blank b') (k : Keyword)
    (rest : List Char) : k.chars <+: startText (b ++ '#' :: (b' ++ k.word ++ rest)) := by
  have htrim : trim (b ++ '#' :: (b' ++ k.word ++ rest)) =
      '#' :: (b' ++ (k.word ++ trimRight rest)) := by
    rw [trim, trimLeft_append_of_blank hb, ← trim, trim_hash,
      trimRight_append (k.endsPlain_append_word b'), List.append_assoc]
  rw [startText_of_hash htrim, trimLeft_append_of_blank hb',
    trimLeft_of_beginsPlain (k.beginsPlain_word _), k.chars_eq]
  exact List.prefix_append ('#' :: k.word) _

/-- A keyword is found at the start of a directive that begins with it up to white space. -/
theorem LineGroup.Complete.prefix_content {g : LineGroup} {after : List LineGroup} {k : Keyword}
    (hg : g.Complete after) (h : k.chars <+: startText g.first) :
    k.chars <+: g.content .code := by
  have hlast : k.chars.getLast? ≠ some '\\' := by cases k <;> decide
  have hslash : '/' ∉ k.chars := by cases k <;> decide
  have hne : k.chars ≠ [] := by cases k <;> decide
  obtain ⟨q, hq⟩ := hg.prefix_text hlast h
  rw [content, ← hq, stripComments_append_of_no_slash hslash,
    trim_append hne k.beginsPlain_chars k.endsPlain_chars]
  exact List.prefix_append _ _

theorem prefix_content_iff {g : LineGroup} {state : CommentState} {k : Keyword} :
    k.chars <+: g.content state ↔
      ∃ b rest, Blank b ∧ (stripComments state g.text).1 = b ++ k.chars ++ rest := by
  constructor
  · intro h
    obtain ⟨b, hb, hkept⟩ := exists_eq_append_trimLeft (stripComments state g.text).1
    obtain ⟨rest, hrest⟩ := h.trans (trimRight_prefix_self _)
    exact ⟨b, rest, hb, by rw [List.append_assoc, hrest, ← hkept]⟩
  · rintro ⟨b, rest, hb, hkept⟩
    have hne : k.chars ≠ [] := by cases k <;> decide
    rw [content, hkept, List.append_assoc, trim, trimLeft_append_of_blank hb, ← trim,
      trim_append hne k.beginsPlain_chars k.endsPlain_chars]
    exact List.prefix_append _ _

/-- White space stands behind the hash of a logical line only where a comment or a broken line has
kept it. Without comments around it, a conditional directive is recognised whatever white space its
hash stands in, and in any case it is when the removal of comments leaves only white space in front
of its hash and none behind. -/
theorem white_space_behind_hash {lines : List (List Char)} {l : LogicalLine}
    (h : l ∈ logicalLines lines) :
    ∃ state, ∃ g : LineGroup, g.StandsAt lines l.number state ∧ l.text = g.content state ∧
      (∀ c v, l.text = '#' :: c :: v → isBlank c = true → Parted state g) ∧
      (state = .code → ∀ (k : Keyword) (b b' rest : List Char), Blank b → Blank b' →
        g.first = b ++ '#' :: (b' ++ k.word ++ rest) → k.chars <+: l.text) ∧
      ∀ k : Keyword, k.chars <+: l.text ↔
        ∃ b rest, Blank b ∧ (stripComments state g.text).1 = b ++ k.chars ++ rest := by
  obtain ⟨state, g, hstands, htext⟩ := exists_standsAt h
  obtain ⟨after, hcomplete⟩ := hstands.complete
  refine ⟨state, g, hstands, htext, ?_, ?_, fun k => ?_⟩
  · intro c v hhash hc
    exact hcomplete.parted (htext ▸ hhash) hc
  · rintro rfl k b b' rest hb hb' hfirst
    rw [htext]
    apply hcomplete.prefix_content
    rw [hfirst]
    exact prefix_startText hb hb' k rest
  · rw [htext]
    exact prefix_content_iff

/-- A comment that an earlier line left open ends in front of the hash. -/
theorem white_space_behind_hash_after_comment :
    let lines := ["x /* y".toList, "z */ # if A".toList]
    let l : LogicalLine := ⟨2, "# if A".toList⟩
    l ∈ logicalLines lines ∧ ∃ state, ∃ g : LineGroup, g.StandsAt lines l.number state ∧
      l.text = g.content state ∧ Parted state g := by
  intro lines l
  have hl : l ∈ logicalLines lines := by decide
  obtain ⟨state, g, hstands, htext, hparted, -⟩ := white_space_behind_hash hl
  exact ⟨hl, state, g, hstands, htext, hparted ' ' "if A".toList rfl (by decide)⟩

/-- White space can stand behind the hash in each of these ways, and then a directive is not
recognised. -/
theorem directive_with_parted_hash :
    logicalLines ["#\\".toList, " if A".toList] = [⟨1, "# if A".toList⟩] ∧
      logicalLines ["#/**/ if A".toList] = [⟨1, "# if A".toList⟩] ∧
      logicalLines ["/**/# if A".toList] = [⟨1, "# if A".toList⟩] ∧
      logicalLines ["/*".toList, "*/# if A".toList] = [⟨1, []⟩, ⟨2, "# if A".toList⟩] ∧
      Directive.ofLine? "# if A".toList = none := by
  decide

end Presence

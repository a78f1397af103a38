import Presence.Proofs.Text.Trim
import Presence.Source.LogicalLine

/-!
The physical lines of a logical line. They are one line, or a directive and the lines that continue
it, and together the groups that logical lines are made of are all the lines of a text.
-/
namespace Presence

open Text

/-- The physical lines of a logical line: its first one and those that continue it. -/
structure LineGroup where
  first : List Char
  more : List (List Char)
  deriving DecidableEq, Repr

def Continues (text : List Char) : Prop :=
  text.getLast? = some '\\'

instance (text : List Char) : Decidable (Continues text) :=
  inferInstanceAs (Decidable (_ = _))

/-- The text with one more line in the place of its last character. -/
def extendText (text line : List Char) : List Char :=
  text.dropLast ++ chomp line

/-- The text of a directive without the backslash that no line is left for. -/
def closeText (text : List Char) : List Char :=
  if Continues text then text.dropLast else text

/-- Each of the lines comes where the text so far ends in a backslash. -/
def ContinuedBy : List Char → List (List Char) → Prop
  | _, [] => True
  | text, line :: more => Continues text ∧ ContinuedBy (extendText text line) more

/-- The text of a first line: white space is gone around it, and behind a hash at its start. -/
def startText (line : List Char) : List Char :=
  match trim line with
  | '#' :: text => '#' :: trimLeft text
  | text => text

theorem startText_of_hash {line text : List Char} (h : trim line = '#' :: text) :
    startText line = '#' :: trimLeft text := by
  simp only [startText, h]

theorem startText_of_plain {line : List Char} (h : (trim line).head? ≠ some '#') :
    startText line = trim line := by
  unfold startText
  split
  · next htext => exact absurd (by rw [htext]; rfl) h
  · rfl

namespace LineGroup

def lines (g : LineGroup) : List (List Char) :=
  g.first :: g.more

def IsDirective (g : LineGroup) : Prop :=
  (trim g.first).head? = some '#'

instance (g : LineGroup) : Decidable g.IsDirective :=
  inferInstanceAs (Decidable (_ = _))

def joined (g : LineGroup) : List Char :=
  g.more.foldl extendText (startText g.first)

def text (g : LineGroup) : List Char :=
  if g.IsDirective then closeText g.joined else g.joined

/-- In front of the groups `after`, the group takes in just the lines that it needs. A line that is
no directive is alone. A directive goes on as long as its text ends in a backslash and lines are
left. -/
structure Complete (g : LineGroup) (after : List LineGroup) : Prop where
  alone : ¬ g.IsDirective → g.more = []
  continued : ContinuedBy (startText g.first) g.more
  ended : g.IsDirective → Continues g.joined → after = []

def stateAfter (state : CommentState) (g : LineGroup) : CommentState :=
  (stripComments state g.text).2

/-- What is left of the text without comments and the white space around it. -/
def content (state : CommentState) (g : LineGroup) : List Char :=
  trim (stripComments state g.text).1

theorem text_of_isDirective {g : LineGroup} (h : g.IsDirective) : g.text = closeText g.joined :=
  if_pos h

theorem text_of_not_isDirective {g : LineGroup} (h : ¬ g.IsDirective) : g.text = g.joined :=
  if_neg h

end LineGroup

open LineGroup

def AllComplete : List LineGroup → Prop
  | [] => True
  | g :: groups => g.Complete groups ∧ AllComplete groups

/-- The logical lines of groups. Each has the number of its first physical line and starts in the
comment state that the group before it leaves. -/
def groupedLines (number : Nat) (state : CommentState) : List LineGroup → List LogicalLine
  | [] => []
  | g :: groups => ⟨number, g.content state⟩ ::
      groupedLines (number + g.lines.length) (g.stateAfter state) groups

namespace LineReader

variable {number start : Nat} {state : CommentState} {text : List Char}

/-- All that comes of lines, the directive included that is complete at their end. -/
def emit (r : LineReader) (lines : List (List Char)) : List LogicalLine :=
  (r.feedAll lines).2 ++ (r.feedAll lines).1.finish.2.toList

theorem emit_cons (r : LineReader) (line : List Char) (lines : List (List Char)) :
    r.emit (line :: lines) = (r.feed line).2.toList ++ (r.feed line).1.emit lines := by
  simp [emit, feedAll]

/-- A directive that goes on waits for the next line. -/
theorem directive_of_continues {r : LineReader} (h : Continues text) :
    r.directive start text = ({ r with waiting := some (start, text.dropLast) }, none) :=
  if_pos h

theorem directive_of_not_continues {r : LineReader} (h : ¬ Continues text) :
    r.directive start text =
      (⟨r.number, (stripComments r.state text).2, none⟩,
        some ⟨start, trim (stripComments r.state text).1⟩) :=
  if_neg h

theorem feed_waiting (line : List Char) :
    feed ⟨number, state, some (start, text.dropLast)⟩ line =
      directive ⟨number + 1, state, some (start, text.dropLast)⟩ start (extendText text line) :=
  rfl

theorem feed_of_isDirective {line : List Char} (h : (trim line).head? = some '#') :
    feed ⟨number, state, none⟩ line =
      directive ⟨number + 1, state, none⟩ (number + 1) (startText line) := by
  obtain ⟨text, htext⟩ := List.head?_eq_some_iff.mp h
  simp only [feed, trim_chomp, startText_of_hash htext, htext]

theorem feed_of_not_isDirective {line : List Char} (h : (trim line).head? ≠ some '#') :
    feed ⟨number, state, none⟩ line =
      (⟨number + 1, (stripComments state (startText line)).2, none⟩,
        some ⟨number + 1, trim (stripComments state (startText line)).1⟩) := by
  simp only [feed, trim_chomp]
  rw [startText_of_plain h]
  split
  · next htext => exact absurd (by rw [htext]; rfl) h
  · rfl

/-- Between logical lines the reader makes those of groups of what is left. -/
def EmitsGroups (lines : List (List Char)) : Prop :=
  ∀ number state, ∃ groups, groups.flatMap LineGroup.lines = lines ∧ AllComplete groups ∧
    emit ⟨number, state, none⟩ lines = groupedLines (number + 1) state groups

/-- A directive that waits takes in the lines that continue it, and groups are made of the rest. -/
def EmitsDirective (lines : List (List Char)) : Prop :=
  ∀ number state start text, Continues text → ∃ more groups,
    more ++ groups.flatMap LineGroup.lines = lines ∧ ContinuedBy text more ∧
    (Continues (more.foldl extendText text) → groups = []) ∧ AllComplete groups ∧
    emit ⟨number, state, some (start, text.dropLast)⟩ lines =
      ⟨start, trim (stripComments state (closeText (more.foldl extendText text))).1⟩ ::
        groupedLines (number + more.length + 1)
          (stripComments state (closeText (more.foldl extendText text))).2 groups

theorem emitsGroups_cons {lines : List (List Char)} (hgroups : EmitsGroups lines)
    (hdirective : EmitsDirective lines) (line : List Char) : EmitsGroups (line :: lines) := by
  intro number state
  by_cases hd : (trim line).head? = some '#'
  · by_cases hc : Continues (startText line)
    · obtain ⟨more, groups, rfl, hcontinued, hended, hall, hemit⟩ :=
        hdirective (number + 1) state (number + 1) (startText line) hc
      refine ⟨⟨line, more⟩ :: groups, rfl, ⟨⟨absurd hd, hcontinued, fun _ => hended⟩, hall⟩, ?_⟩
      rw [emit_cons, feed_of_isDirective hd, directive_of_continues hc, Option.toList_none,
        List.nil_append, hemit, groupedLines, content, stateAfter,
        text_of_isDirective (g := ⟨line, more⟩) hd]
      rfl
    · obtain ⟨groups, rfl, hall, hemit⟩ :=
        hgroups (number + 1) (stripComments state (startText line)).2
      have htext : closeText (startText line) = startText line := if_neg hc
      refine ⟨⟨line, []⟩ :: groups, rfl,
        ⟨⟨fun _ => rfl, trivial, fun _ h => absurd h hc⟩, hall⟩, ?_⟩
      rw [emit_cons, feed_of_isDirective hd, directive_of_not_continues hc, Option.toList_some,
        hemit, groupedLines, content, stateAfter, text_of_isDirective (g := ⟨line, []⟩) hd,
        joined, List.foldl_nil, htext]
      rfl
  · obtain ⟨groups, rfl, hall, hemit⟩ :=
      hgroups (number + 1) (stripComments state (startText line)).2
    refine ⟨⟨line, []⟩ :: groups, rfl, ⟨⟨fun _ => rfl, trivial, fun h => absurd h hd⟩, hall⟩, ?_⟩
    rw [emit_cons, feed_of_not_isDirective hd, Option.toList_some, hemit, groupedLines, content,
      stateAfter, text_of_not_isDirective (g := ⟨line, []⟩) hd]
    rfl

theorem emitsDirective_cons {lines : List (List Char)} (hgroups : EmitsGroups lines)
    (hdirective : EmitsDirective lines) (line : List Char) : EmitsDirective (line :: lines) := by
  intro number state start text htext
  by_cases hc : Continues (extendText text line)
  · obtain ⟨more, groups, rfl, hcontinued, hended, hall, hemit⟩ :=
      hdirective (number + 1) state start (extendText text line) hc
    refine ⟨line :: more, groups, rfl, ⟨htext, hcontinued⟩, hended, hall, ?_⟩
    rw [emit_cons, feed_waiting, directive_of_continues hc, Option.toList_none, List.nil_append,
      hemit, List.length_cons, Nat.add_right_comm number]
    rfl
  · obtain ⟨groups, rfl, hall, hemit⟩ :=
      hgroups (number + 1) (stripComments state (extendText text line)).2
    refine ⟨[line], groups, rfl, ⟨htext, trivial⟩, fun h => absurd h hc, hall, ?_⟩
    have hclosed : closeText (extendText text line) = extendText text line := if_neg hc
    rw [emit_cons, feed_waiting, directive_of_not_continues hc, Option.toList_some, hemit,
      List.foldl_cons, List.foldl_nil, hclosed]
    rfl

theorem emits (lines : List (List Char)) : EmitsGroups lines ∧ EmitsDirective lines := by
  induction lines with
  | nil =>
    constructor
    · exact fun number state => ⟨[], rfl, trivial, rfl⟩
    · intro number state start text htext
      refine ⟨[], [], rfl, trivial, fun _ => rfl, trivial, ?_⟩
      rw [List.foldl_nil, closeText, if_pos htext]
      rfl
  | cons line lines ih =>
    exact ⟨emitsGroups_cons ih.1 ih.2 line, emitsDirective_cons ih.1 ih.2 line⟩

end LineReader

theorem exists_groups (lines : List (List Char)) :
    ∃ groups, groups.flatMap LineGroup.lines = lines ∧ AllComplete groups ∧
      logicalLines lines = groupedLines 1 .code groups :=
  (LineReader.emits lines).1 0 .code

theorem AllComplete.of_append {before after : List LineGroup} {g : LineGroup}
    (h : AllComplete (before ++ g :: after)) : g.Complete after := by
  induction before with
  | nil => exact h.1
  | cons g' before ih => exact ih h.2

theorem ContinuedBy.continues {text line : List Char} {before after : List (List Char)}
    (h : ContinuedBy text (before ++ line :: after)) :
    Continues (before.foldl extendText text) := by
  induction before generalizing text with
  | nil => exact h.1
  | cons line' before ih => exact ih h.2

/-- Of two groups at the start of the same lines neither takes in more than the other. -/
theorem LineGroup.Complete.not_longer {first line : List Char} {more rest : List (List Char)}
    {groups after : List LineGroup} (h : Complete ⟨first, more⟩ groups)
    (h' : Complete ⟨first, more ++ line :: rest⟩ after)
    (hlines : groups.flatMap LineGroup.lines ≠ []) : False := by
  by_cases hd : IsDirective ⟨first, more⟩
  · have hgroups := h.ended hd h'.continued.continues
    rw [hgroups] at hlines
    exact hlines rfl
  · have hnone : more ++ line :: rest = [] := h'.alone hd
    simp at hnone

/-- Lines can be grouped in one way only. -/
theorem AllComplete.unique {groups groups' : List LineGroup} (h : AllComplete groups)
    (h' : AllComplete groups')
    (hlines : groups.flatMap LineGroup.lines = groups'.flatMap LineGroup.lines) :
    groups = groups' := by
  induction groups generalizing groups' with
  | nil =>
    cases groups' with
    | nil => rfl
    | cons g groups' => simp [LineGroup.lines] at hlines
  | cons g groups ih =>
    cases groups' with
    | nil => simp [LineGroup.lines] at hlines
    | cons g' groups' =>
      obtain ⟨first, more⟩ := g
      obtain ⟨first', more'⟩ := g'
      obtain ⟨rfl, htail⟩ := List.cons.inj hlines
      change more ++ groups.flatMap LineGroup.lines = more' ++ groups'.flatMap LineGroup.lines
        at htail
      obtain ⟨rest, rfl, hrest⟩ | ⟨rest, rfl, hrest⟩ := List.append_eq_append_iff.mp htail
      · cases rest with
        | nil => rw [List.append_nil, ih h.2 h'.2 hrest]
        | cons line rest => exact (h.1.not_longer h'.1 (by simp [hrest])).elim
      · cases rest with
        | nil => rw [List.append_nil, ih h.2 h'.2 hrest.symm]
        | cons line rest => exact (h'.1.not_longer h.1 (by simp [hrest])).elim

theorem groupedLines_append (number : Nat) (state : CommentState)
    (before after : List LineGroup) :
    groupedLines number state (before ++ after) = groupedLines number state before ++
      groupedLines (number + (before.flatMap LineGroup.lines).length)
        (before.foldl stateAfter state) after := by
  induction before generalizing number state with
  | nil => rfl
  | cons g before ih =>
    simp only [List.cons_append, groupedLines, ih, List.flatMap_cons, List.length_append,
      List.foldl_cons, Nat.add_assoc]

@[simp] theorem length_groupedLines (number : Nat) (state : CommentState)
    (groups : List LineGroup) : (groupedLines number state groups).length = groups.length := by
  induction groups generalizing number state with
  | nil => rfl
  | cons g groups ih => simp [groupedLines, ih]

/-- The group is one of those that the logical lines of a text are made of. Its first line has this
number, and it begins in this comment state. -/
def LineGroup.StandsAt (lines : List (List Char)) (number : Nat) (state : CommentState)
    (g : LineGroup) : Prop :=
  ∃ before after, (before ++ g :: after).flatMap LineGroup.lines = lines ∧
    AllComplete (before ++ g :: after) ∧ number = (before.flatMap LineGroup.lines).length + 1 ∧
    state = before.foldl stateAfter .code

theorem exists_group_of_mem {number : Nat} {state : CommentState} {groups : List LineGroup}
    {l : LogicalLine} (h : l ∈ groupedLines number state groups) :
    ∃ before g after, groups = before ++ g :: after ∧
      l = ⟨number + (before.flatMap LineGroup.lines).length,
        g.content (before.foldl stateAfter state)⟩ := by
  induction groups generalizing number state with
  | nil => cases h
  | cons g groups ih =>
    rcases List.mem_cons.mp h with rfl | h
    · exact ⟨[], g, groups, rfl, rfl⟩
    · obtain ⟨before, g', after, rfl, rfl⟩ := ih h
      refine ⟨g :: before, g', after, rfl, ?_⟩
      simp only [List.flatMap_cons, List.length_append, List.foldl_cons, Nat.add_assoc]

theorem exists_standsAt {lines : List (List Char)} {l : LogicalLine}
    (h : l ∈ logicalLines lines) :
    ∃ state, ∃ g : LineGroup, g.StandsAt lines l.number state ∧ l.text = g.content state := by
  obtain ⟨groups, rfl, hall, hlogical⟩ := exists_groups lines
  rw [hlogical] at h
  obtain ⟨before, g, after, rfl, rfl⟩ := exists_group_of_mem h
  exact ⟨_, g, ⟨before, after, rfl, hall, Nat.add_comm _ _, rfl⟩, rfl⟩

theorem LineGroup.StandsAt.complete {lines : List (List Char)} {number : Nat}
    {state : CommentState} {g : LineGroup} (h : g.StandsAt lines number state) :
    ∃ after, g.Complete after := by
  obtain ⟨before, after, -, hall, -⟩ := h
  exact ⟨after, hall.of_append⟩

/-- Logical lines partition the physical ones. In order, each is made of a group that is complete in
front of what is left, its number is that of the first line of the group, and its content is what
the group says when it starts in the comment state behind the groups before it. No other way to
group the lines is complete. -/
theorem logicalLines_partition (lines : List (List Char)) :
    ∃ groups : List LineGroup, groups.flatMap LineGroup.lines = lines ∧
      (logicalLines lines).length = groups.length ∧ (logicalLines lines = [] ↔ lines = []) ∧
      (∀ before g after, groups = before ++ g :: after → g.Complete after ∧
        (logicalLines lines)[before.length]? =
          some ⟨(before.flatMap LineGroup.lines).length + 1,
            g.content (before.foldl stateAfter .code)⟩) ∧
      ∀ groups', groups'.flatMap LineGroup.lines = lines → AllComplete groups' →
        groups' = groups := by
  obtain ⟨groups, rfl, hall, hlogical⟩ := exists_groups lines
  refine ⟨groups, rfl, ?_, ?_, ?_, fun groups' hlines h => h.unique hall hlines⟩
  · rw [hlogical, length_groupedLines]
  · rw [hlogical]
    cases groups with
    | nil => simp [groupedLines]
    | cons g groups => simp [groupedLines, LineGroup.lines]
  · rintro before g after rfl
    refine ⟨hall.of_append, ?_⟩
    rw [hlogical, groupedLines_append, List.getElem?_append_right (by simp)]
    simp [groupedLines, Nat.add_comm]

/-- An empty line lets a directive go on that ends in two backslashes, and a directive at the end of
the text waits in vain. -/
example :
    logicalLines ["#if A \\\\".toList, "".toList, "x".toList, "y \\".toList, "# else \\".toList] =
      [⟨1, "#if A x".toList⟩, ⟨4, "y \\".toList⟩, ⟨5, "#else".toList⟩] := by
  decide

end Presence

import Presence.Proofs.Block.Naming
import Presence.Proofs.Block.Outline
import Presence.Proofs.Formula.Unambiguous

/-!
Blocks read back from their lines. A line tells how deep its block lies, and its range and formulas;
the blocks in it are those whose lines follow it and lie deeper.
-/
namespace Presence

open Formula

/-- The decimal numeral of a number ends where the digits end. -/
theorem append_toString_inj {n m : Nat} {rest rest' : List Char}
    (hrest : Breaks Char.isDigit rest) (hrest' : Breaks Char.isDigit rest')
    (h : (toString n).toList ++ rest = (toString m).toList ++ rest') : n = m ∧ rest = rest' := by
  rw [Nat.toString_eq_repr, Nat.toString_eq_repr, Nat.toList_repr, Nat.toList_repr] at h
  obtain ⟨hdigits, hend⟩ := append_inj_of_breaks
    (fun c hc => Nat.isDigit_of_mem_toDigits (by decide) (by decide) hc)
    (fun c hc => Nat.isDigit_of_mem_toDigits (by decide) (by decide) hc) hrest hrest' h
  refine ⟨?_, hend⟩
  rw [← Nat.ofDigitChars_ten_toDigits (n := n), hdigits, Nat.ofDigitChars_ten_toDigits]

theorem exists_toString_eq_cons (n : Nat) :
    ∃ c s, (toString n).toList = c :: s ∧ c.isDigit = true := by
  rw [Nat.toString_eq_repr, Nat.toList_repr]
  obtain ⟨c, s, hs⟩ := List.exists_cons_of_ne_nil (Nat.toDigits_ne_nil (b := 10) (n := n))
  refine ⟨c, s, hs, Nat.isDigit_of_mem_toDigits (n := n) (b := 10) (by decide) (by decide) ?_⟩
  rw [hs]
  exact List.mem_cons_self

namespace Block

/-- The names in the formulas of the block are scanned as names. -/
def Spelled (b : Block) : Prop :=
  b.condition.Spelled ∧ b.presence.Spelled

def lineEnd (b : Block) : List Char :=
  if b.presence = b.condition then [] else b.presenceNote.toList

def lineText (b : Block) : List Char :=
  (toString b.first).toList ++ '-' :: ((toString b.last).toList ++
    ':' :: ' ' :: (b.condition.render.toList ++ b.lineEnd))

theorem toList_presenceNote (b : Block) :
    b.presenceNote.toList = "  [pc: ".toList ++ (b.presence.render.toList ++ [']']) := by
  simp [presenceNote]

theorem toList_headline (depth : Nat) (b : Block) :
    (headline depth b).toList = List.replicate (2 * depth) ' ' ++ b.lineText := by
  rw [headline_eq, lineText, lineEnd]
  split <;> simp [plainLine, indentation]

theorem endsFormula_lineEnd (b : Block) : EndsFormula b.lineEnd := by
  unfold lineEnd
  split
  · refine ⟨by simp [Breaks], fun k hk => ?_⟩
    cases k <;> simp [Connective.chars] at hk
  · rw [toList_presenceNote]
    constructor
    · intro c hc
      obtain rfl : ' ' = c := Option.some.inj hc
      decide
    · intro k hk
      cases k <;> simp [Connective.chars] at hk

theorem endsFormula_bracket : EndsFormula [']'] := by
  constructor
  · intro c hc
    obtain rfl : ']' = c := Option.some.inj hc
    decide
  · intro k hk
    cases k <;> simp [Connective.chars] at hk

/-- Behind equal conditions, equal ends of lines tell equal presence conditions. -/
theorem presence_eq_of_lineEnd {b b' : Block} (hb : b.Spelled) (hb' : b'.Spelled)
    (hcondition : b.condition = b'.condition) (h : b.lineEnd = b'.lineEnd) :
    b.presence = b'.presence := by
  unfold lineEnd at h
  rw [toList_presenceNote, toList_presenceNote] at h
  split at h
  · next hp =>
    split at h
    · next hp' => rw [hp, hp', hcondition]
    · simp at h
  · split at h
    · simp at h
    · have hpresence := List.append_cancel_left h
      exact (render_append_inj hb.2 hb'.2 endsFormula_bracket endsFormula_bracket hpresence).1

/-- The text of the line tells all of a block but its file and the blocks in it. -/
theorem lineText_inj {b b' : Block} (hb : b.Spelled) (hb' : b'.Spelled)
    (h : b.lineText = b'.lineText) : b.first = b'.first ∧ b.last = b'.last ∧
      b.condition = b'.condition ∧ b.presence = b'.presence := by
  have hdash : ∀ s, Breaks Char.isDigit ('-' :: s) := by simp [Breaks]
  have hcolon : ∀ s, Breaks Char.isDigit (':' :: s) := by simp [Breaks]
  obtain ⟨hfirst, h⟩ := append_toString_inj (hdash _) (hdash _) h
  obtain ⟨hlast, h⟩ := append_toString_inj (hcolon _) (hcolon _) (List.cons.inj h).2
  obtain ⟨hcondition, hend⟩ := render_append_inj hb.1 hb'.1 b.endsFormula_lineEnd
    b'.endsFormula_lineEnd (List.cons.inj (List.cons.inj h).2).2
  exact ⟨hfirst, hlast, hcondition, presence_eq_of_lineEnd hb hb' hcondition hend⟩

def leadingSpaces (line : String) : Nat :=
  (line.toList.takeWhile (· = ' ')).length

theorem leadingSpaces_headline (depth : Nat) (b : Block) :
    leadingSpaces (headline depth b) = 2 * depth := by
  have hbreaks : Breaks (· = ' ') b.lineText := by
    obtain ⟨d, s, hs, hd⟩ := exists_toString_eq_cons b.first
    rw [lineText, hs]
    intro c hc
    obtain rfl : d = c := Option.some.inj hc
    rw [decide_eq_false_iff_not]
    rintro rfl
    cases hd
  have hspaces : ∀ c ∈ List.replicate (2 * depth) ' ', decide (c = ' ') = true := by
    intro c hc
    rw [List.eq_of_mem_replicate hc]
    rfl
  rw [leadingSpaces, toList_headline, (span_of_breaks hspaces hbreaks).1, List.length_replicate]

theorem headline_inj {depth : Nat} {b b' : Block} (hb : b.Spelled) (hb' : b'.Spelled)
    (h : headline depth b = headline depth b') : b.first = b'.first ∧ b.last = b'.last ∧
      b.condition = b'.condition ∧ b.presence = b'.presence := by
  apply lineText_inj hb hb'
  have hchars := congrArg String.toList h
  rw [toList_headline, toList_headline] at hchars
  exact List.append_cancel_left hchars

/-- The lines do not go on with blocks of this depth or a greater one. -/
def EndsLevel (depth : Nat) (lines : List String) : Prop :=
  ∀ line ∈ lines.head?, leadingSpaces line < 2 * depth

theorem not_endsLevel_outlines_cons {depth : Nat} {b : Block} {bs : List Block}
    {rest : List String} : ¬ EndsLevel depth (outlines depth (b :: bs) ++ rest) := by
  intro h
  rw [outlines_cons] at h
  have hlt := h (headline depth b) rfl
  rw [leadingSpaces_headline] at hlt
  exact Nat.lt_irrefl _ hlt

/-- The blocks after a block end the level of those in it. -/
theorem endsLevel_outlines {depth : Nat} {bs : List Block} {rest : List String}
    (h : EndsLevel depth rest) : EndsLevel (depth + 1) (outlines depth bs ++ rest) := by
  cases bs with
  | nil =>
    intro line hline
    have hlt := h line hline
    omega
  | cons b bs =>
    rw [outlines_cons]
    intro line hline
    obtain rfl : headline depth b = line := Option.some.inj hline
    rw [leadingSpaces_headline]
    omega

theorem mapFiles_eq (g : String → String) (b : Block) : mapFiles g b =
    ⟨b.first, b.last, g b.file, b.condition, b.presence, b.children.map (mapFiles g)⟩ := by
  cases b
  rw [mapFiles_mk]

/-- The lines of the blocks of one level tell the blocks, but for their files, and what follows. -/
theorem outlines_append_inj (file : String) {xs ys : List Block} {depth : Nat}
    {rest rest' : List String} (hxs : ∀ b ∈ preorders xs, b.Spelled)
    (hys : ∀ b ∈ preorders ys, b.Spelled) (hrest : EndsLevel depth rest)
    (hrest' : EndsLevel depth rest') (h : outlines depth xs ++ rest = outlines depth ys ++ rest') :
    xs.map (mapFiles fun _ => file) = ys.map (mapFiles fun _ => file) ∧ rest = rest' := by
  induction xs using forestInduction generalizing ys depth rest rest' with
  | nil =>
    cases ys with
    | nil => exact ⟨rfl, h⟩
    | cons y ys =>
      have hempty : rest = outlines depth (y :: ys) ++ rest' := h
      rw [hempty] at hrest
      exact absurd hrest not_endsLevel_outlines_cons
  | cons x xs ihin ihafter =>
    cases ys with
    | nil =>
      have hempty : outlines depth (x :: xs) ++ rest = rest' := h
      rw [← hempty] at hrest'
      exact absurd hrest' not_endsLevel_outlines_cons
    | cons y ys =>
      rw [preorders_cons, List.cons_append] at hxs hys
      obtain ⟨hx, hxs⟩ := List.forall_mem_cons.mp hxs
      obtain ⟨hy, hys⟩ := List.forall_mem_cons.mp hys
      obtain ⟨hxin, hxafter⟩ := List.forall_mem_append.mp hxs
      obtain ⟨hyin, hyafter⟩ := List.forall_mem_append.mp hys
      simp only [outlines_cons, List.cons_append, List.append_assoc] at h
      obtain ⟨hline, hlines⟩ := List.cons.inj h
      obtain ⟨hfirst, hlast, hcondition, hpresence⟩ := headline_inj hx hy hline
      obtain ⟨hin, hlines⟩ := ihin hxin hyin (endsLevel_outlines hrest)
        (endsLevel_outlines hrest') hlines
      obtain ⟨hafter, hrest⟩ := ihafter hxafter hyafter hrest hrest' hlines
      refine ⟨?_, hrest⟩
      rw [List.map_cons, List.map_cons, hafter, mapFiles_eq, mapFiles_eq, hin, hfirst, hlast,
        hcondition, hpresence]

theorem jsons_map_mapFiles (g : String → String) (bs : List Block) :
    jsons (bs.map (mapFiles g)) = jsons bs := by
  induction bs using forestInduction with
  | nil => rfl
  | cons b bs ihin ihafter =>
    cases b
    rw [List.map_cons, mapFiles_mk, jsons, jsons, json, json, ihin, ihafter]

/-- Blocks that are printed as the same lines are the same blocks but for their files: once all
files have one name they are equal. So they have the same JSON too, where files are left out. -/
theorem outlines_determine_blocks {xs ys : List Block} (hxs : ∀ b ∈ preorders xs, b.Spelled)
    (hys : ∀ b ∈ preorders ys, b.Spelled) (h : outlines 0 xs = outlines 0 ys) :
    (∀ file, xs.map (mapFiles fun _ => file) = ys.map (mapFiles fun _ => file)) ∧
      jsons xs = jsons ys := by
  have hend : EndsLevel 0 [] := by simp [EndsLevel]
  have hsame (file : String) :
      xs.map (mapFiles fun _ => file) = ys.map (mapFiles fun _ => file) := by
    apply (outlines_append_inj file hxs hys hend hend _).1
    rw [h]
  refine ⟨hsame, ?_⟩
  rw [← jsons_map_mapFiles (fun _ => "") xs, hsame "", jsons_map_mapFiles]

/-- One of the names is `defined`. The last block has as its condition what the block before it has
as its presence condition, and lies beside that one. -/
theorem outlines_determine_blocks_of_two_files :
    let a : Formula := .or (.var "A") (.not (.var "defined"))
    let inner (file : String) : Block := ⟨2, 3, file, .const true, .and a (.const true), []⟩
    let blocks (file file' : String) : List Block :=
      [⟨1, 10, file, a, a, [inner file']⟩, ⟨12, 13, file', .and a (.const true),
        .and a (.const true), []⟩]
    (∀ b ∈ preorders (blocks "a.c" "b.c"), b.Spelled) ∧
      (∀ b ∈ preorders (blocks "b.c" "a.c"), b.Spelled) ∧
      outlines 0 (blocks "a.c" "b.c") = ["1-10: A || !defined",
        "  2-3: 1  [pc: (A || !defined) && 1]", "12-13: (A || !defined) && 1"] ∧
      outlines 0 (blocks "a.c" "b.c") = outlines 0 (blocks "b.c" "a.c") ∧
      (blocks "a.c" "b.c").map (mapFiles fun _ => "c.c") =
        (blocks "b.c" "a.c").map (mapFiles fun _ => "c.c") ∧
      jsons (blocks "a.c" "b.c") = jsons (blocks "b.c" "a.c") := by
  intro a inner blocks
  have ha : a.Spelled := by
    intro name hname
    by_cases hA : "A" = name
    · subst hA
      with_unfolding_all rfl
    · have hdefined : "defined" = name := by
        by_contra hne
        simp [a, count, hA, hne] at hname
      subst hdefined
      with_unfolding_all rfl
  have hone : (Formula.const true).Spelled := by
    intro name hname
    simp [count] at hname
  have hboth : (Formula.and a (.const true)).Spelled := fun name hname => ha name hname
  have hblocks : ∀ file file', ∀ b ∈ preorders (blocks file file'), b.Spelled := by
    intro file file'
    simp only [blocks, inner, preorders, preorder, List.append_nil, List.cons_append,
      List.nil_append, List.forall_mem_cons]
    exact ⟨⟨ha, ha⟩, ⟨hone, hboth⟩, ⟨hboth, hboth⟩, by simp⟩
  have hlines : ∀ file file', outlines 0 (blocks file file') = ["1-10: A || !defined",
      "  2-3: 1  [pc: (A || !defined) && 1]", "12-13: (A || !defined) && 1"] := by
    intro file file'
    with_unfolding_all rfl
  have hsame := (hlines "a.c" "b.c").trans (hlines "b.c" "a.c").symm
  obtain ⟨hequal, hjson⟩ := outlines_determine_blocks (hblocks _ _) (hblocks _ _) hsame
  exact ⟨hblocks _ _, hblocks _ _, hlines _ _, hsame, hequal "c.c", hjson⟩

end Block
end Presence

import Presence.Block.Report
import Presence.Proofs.Block.Range
import Presence.Statistics

/-!
How far the calls go that are left for printing and counting blocks. A list of blocks is printed as
a whole or not at all, and if it is printed, its conditions can be counted too.
-/
namespace Presence.Block

theorem outlines_cons (depth : Nat) (b : Block) (bs : List Block) :
    outlines depth (b :: bs) =
      headline depth b :: outlines (depth + 1) b.children ++ outlines depth bs := by
  cases b
  rw [outlines, outline]

mutual

/-- A block and all in it in preorder, each behind the blocks around it, the outermost first. -/
def places (path : List Block) : Block → List (List Block × Block)
  | ⟨first, last, file, condition, presence, children⟩ =>
    (path, ⟨first, last, file, condition, presence, children⟩) ::
      allPlaces (path ++ [⟨first, last, file, condition, presence, children⟩]) children

def allPlaces (path : List Block) : List Block → List (List Block × Block)
  | [] => []
  | b :: bs => places path b ++ allPlaces path bs

end

theorem allPlaces_cons (path : List Block) (b : Block) (bs : List Block) :
    allPlaces path (b :: bs) =
      (path, b) :: allPlaces (path ++ [b]) b.children ++ allPlaces path bs := by
  cases b
  rw [allPlaces, places]

theorem map_snd_allPlaces (path bs : List Block) :
    (allPlaces path bs).map (·.2) = preorders bs := by
  induction bs using forestInduction generalizing path with
  | nil => rfl
  | cons b bs ihin ihrest =>
    rw [allPlaces_cons, preorders_cons, List.map_append, List.map_cons, ihin, ihrest]

/-- A block lies one level deeper than the block around it. -/
theorem add_length_concat (depth : Nat) (path : List Block) (b : Block) :
    depth + (path ++ [b]).length = depth + path.length + 1 := by
  rw [List.length_append, List.length_singleton, Nat.add_assoc]

/-- The levels of the formulas on the line of a block. -/
def lineLevels (b : Block) : Nat :=
  if b.presence = b.condition then b.condition.depth
  else max b.condition.depth b.presence.depth

theorem depth_condition_le_lineLevels (b : Block) : b.condition.depth ≤ b.lineLevels := by
  unfold lineLevels
  split
  · exact Nat.le_refl _
  · exact Nat.le_max_left _ _

theorem headline?_eq_some_iff {calls depth : Nat} {b : Block} {line : String} :
    headline? calls depth b = some line ↔
      b.lineLevels ≤ printedLevels calls ∧ line = headline depth b := by
  simp only [headline?, headline, lineLevels, Formula.render?_eq]
  by_cases hsame : b.presence = b.condition
  · by_cases hc : b.condition.depth ≤ printedLevels calls <;> simp [hsame, hc, eq_comm]
  · rw [if_neg hsame, Nat.max_le]
    by_cases hc : b.condition.depth ≤ printedLevels calls <;>
      by_cases hp : b.presence.depth ≤ printedLevels calls <;>
        simp [hsame, hc, hp, eq_comm]

theorem outlines?_cons (calls depth : Nat) (b : Block) (bs : List Block) :
    outlines? calls depth (b :: bs) = (do
      let line ← headline? calls depth b
      let inner ← outlines? (calls - 1) (depth + 1) b.children
      let rest ← outlines? calls depth bs
      return line :: inner ++ rest) := by
  cases b
  simp only [outlines?, outline?, bind_assoc, pure_bind]

/-- Blocks have their lines just when the formulas on each line can be printed with the calls that
the blocks around it leave. -/
theorem outlines?_eq_some_iff (path : List Block) {calls depth : Nat} {bs : List Block}
    {lines : List String} :
    outlines? (calls - path.length) (depth + path.length) bs = some lines ↔
      (∀ x ∈ allPlaces path bs, x.2.lineLevels ≤ printedLevels (calls - x.1.length)) ∧
        lines = outlines (depth + path.length) bs := by
  induction bs using forestInduction generalizing path lines with
  | nil => simp [outlines?, allPlaces, outlines, eq_comm]
  | cons b bs ihin ihrest =>
    have hcalls : calls - path.length - 1 = calls - (path ++ [b]).length := by
      rw [List.length_append, List.length_singleton, Nat.sub_sub]
    rw [outlines?_cons, allPlaces_cons, outlines_cons, hcalls, ← add_length_concat depth path b]
    simp only [Option.bind_eq_bind, Option.bind_eq_some_iff, headline?_eq_some_iff, ihin, ihrest,
      List.cons_append, List.forall_mem_cons, List.forall_mem_append, Option.pure_def,
      Option.some.injEq]
    constructor
    · rintro ⟨line, ⟨hline, rfl⟩, inner, ⟨hinner, rfl⟩, rest, ⟨hrest, rfl⟩, rfl⟩
      exact ⟨⟨hline, hinner, hrest⟩, rfl⟩
    · rintro ⟨⟨hline, hinner, hrest⟩, rfl⟩
      exact ⟨_, ⟨hline, rfl⟩, _, ⟨hinner, rfl⟩, _, ⟨hrest, rfl⟩, rfl⟩

theorem jsons?_cons (calls : Nat) (b : Block) (bs : List Block) :
    jsons? calls (b :: bs) = (do
      let condition ← b.condition.render? (printedLevels calls)
      let presence ← b.presence.render? (printedLevels calls)
      let inner ← jsons? (calls - 2) b.children
      let rest ← jsons? calls bs
      return jsonObject b.first b.last condition presence inner :: rest) := by
  cases b
  simp only [jsons?, json?, bind_assoc, pure_bind]

/-- If blocks have their objects, there were calls for each condition. -/
theorem jsons?_eq_some {calls : Nat} {bs : List Block} {objects : List String}
    (h : jsons? calls bs = some objects) :
    objects = jsons bs ∧ ∀ b ∈ preorders bs, b.condition.depth ≤ printedLevels calls := by
  induction bs using forestInduction generalizing calls objects with
  | nil =>
    cases h
    simp [jsons, preorders]
  | cons b bs ihin ihrest =>
    rw [jsons?_cons] at h
    simp only [Option.bind_eq_bind, Option.bind_eq_some_iff, Formula.render?_eq,
      Option.ite_none_right_eq_some, Option.some.injEq, Option.pure_def] at h
    obtain ⟨condition, ⟨hdepth, rfl⟩, presence, ⟨-, rfl⟩, inner, hinner, rest, hrest, rfl⟩ := h
    obtain ⟨rfl, hin⟩ := ihin hinner
    obtain ⟨rfl, hbs⟩ := ihrest hrest
    have hle : printedLevels (calls - 2) ≤ printedLevels calls :=
      Nat.div_le_div_right (Nat.sub_le _ _)
    refine ⟨by cases b; rfl, ?_⟩
    rw [preorders_cons, List.cons_append, List.forall_mem_cons, List.forall_mem_append]
    exact ⟨hdepth, fun c hc => Nat.le_trans (hin c hc) hle, hbs⟩

/-- With so many calls each condition can be searched to the end. -/
def Countable (calls : Nat) (bs : List Block) : Prop :=
  ∀ b ∈ preorders bs, b.condition.depth ≤ calls

theorem conditionCounts?_cons (calls : Nat) (b : Block) (bs : List Block) :
    conditionCounts? calls (b :: bs) = (do
      let own ← b.condition.count? errorVariableName calls
      let inner ← conditionCounts? calls b.children
      let rest ← conditionCounts? calls bs
      return ((ConditionCount.mk 1 own).add inner).add rest) := by
  cases b
  simp only [conditionCounts?, conditionCount?, bind_assoc, pure_bind]

theorem conditionCounts?_eq_some_iff {calls : Nat} {bs : List Block} {c : ConditionCount} :
    conditionCounts? calls bs = some c ↔ Countable calls bs ∧ c = conditionCounts bs := by
  induction bs using forestInduction generalizing c with
  | nil => simp [conditionCounts?, Countable, preorders, conditionCounts, eq_comm]
  | cons b bs ihin ihrest =>
    have hcounts : conditionCounts (b :: bs) =
        ((ConditionCount.mk 1 (b.condition.count errorVariableName)).add
          (conditionCounts b.children)).add (conditionCounts bs) := by
      cases b
      rfl
    rw [conditionCounts?_cons, hcounts, Countable, preorders_cons]
    simp only [Option.bind_eq_bind, Option.bind_eq_some_iff, Formula.count?_eq, ihin, ihrest,
      List.cons_append, List.forall_mem_cons, List.forall_mem_append, Option.pure_def,
      Option.some.injEq, Option.ite_none_right_eq_some]
    constructor
    · rintro ⟨own, ⟨hown, rfl⟩, inner, ⟨hinner, rfl⟩, rest, ⟨hrest, rfl⟩, rfl⟩
      exact ⟨⟨hown, hinner, hrest⟩, rfl⟩
    · rintro ⟨⟨hown, hinner, hrest⟩, rfl⟩
      exact ⟨_, ⟨hown, rfl⟩, _, ⟨hinner, rfl⟩, _, ⟨hrest, rfl⟩, rfl⟩

/-- Printing takes more calls than counting. -/
theorem countable_of_outlines? {calls depth : Nat} {bs : List Block} {lines : List String}
    (h : outlines? calls depth bs = some lines) : Countable calls bs := by
  have hlines := (outlines?_eq_some_iff []).mp h
  intro b hb
  rw [← map_snd_allPlaces [] bs] at hb
  obtain ⟨x, hx, rfl⟩ := List.mem_map.mp hb
  calc x.2.condition.depth
    _ ≤ x.2.lineLevels := x.2.depth_condition_le_lineLevels
    _ ≤ printedLevels (calls - x.1.length) := hlines.1 x hx
    _ ≤ calls := Nat.le_trans (Nat.div_le_self _ _) (Nat.sub_le _ _)

theorem countable_of_jsons? {calls : Nat} {bs : List Block} {objects : List String}
    (h : jsons? calls bs = some objects) : Countable calls bs :=
  fun b hb => Nat.le_trans ((jsons?_eq_some h).2 b hb) (Nat.div_le_self _ _)

end Presence.Block

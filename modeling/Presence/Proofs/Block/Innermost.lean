import Presence.Proofs.Block.Range

/-! The innermost block around a line, in a finished forest and while it is still being built. -/
namespace Presence

namespace Block

def Contains (b : Block) (n : Nat) : Prop :=
  b.first ≤ n ∧ n ≤ b.last

/-- Of all blocks, `b` is one around line `n` with none around it further in. -/
structure Innermost (n : Nat) (blocks : List Block) (b : Block) : Prop where
  mem : b ∈ preorders blocks
  contains : b.Contains n
  inside : ∀ c ∈ preorders b.children, ¬ c.Contains n

mutual

def innermost? (n : Nat) : Block → Option Block
  | ⟨first, last, file, condition, presence, children⟩ =>
    if first ≤ n ∧ n ≤ last then
      (innermostOf? n children).or (some ⟨first, last, file, condition, presence, children⟩)
    else none

def innermostOf? (n : Nat) : List Block → Option Block
  | [] => none
  | b :: bs => (innermost? n b).or (innermostOf? n bs)

end

theorem innermost?_of_contains {n : Nat} {b : Block} (h : b.Contains n) :
    innermost? n b = (innermostOf? n b.children).or (some b) := by
  cases b
  exact if_pos h

theorem innermost?_of_not_contains {n : Nat} {b : Block} (h : ¬ b.Contains n) :
    innermost? n b = none := by
  cases b
  exact if_neg h

theorem innermostOf?_append (n : Nat) (xs ys : List Block) :
    innermostOf? n (xs ++ ys) = (innermostOf? n xs).or (innermostOf? n ys) := by
  induction xs with
  | nil => rfl
  | cons x xs ih => simp [innermostOf?, ih, Option.or_assoc]

@[simp] theorem innermostOf?_singleton (n : Nat) (b : Block) :
    innermostOf? n [b] = innermost? n b := by
  simp [innermostOf?]

theorem innermostOf?_eq_none {n : Nat} {bs : List Block}
    (h : ∀ b ∈ bs, ¬ b.Contains n) : innermostOf? n bs = none := by
  induction bs with
  | nil => rfl
  | cons b bs ih =>
    rw [innermostOf?, innermost?_of_not_contains (h b (by simp)), Option.none_or]
    exact ih fun c hc => h c (by simp [hc])

theorem mem_preorders_of_mem {b : Block} {bs : List Block} (h : b ∈ bs) : b ∈ preorders bs := by
  induction bs with
  | nil => cases h
  | cons c bs ih =>
    rcases List.mem_cons.mp h with rfl | h
    · exact mem_preorders_cons.mpr (.inl rfl)
    · exact mem_preorders_cons.mpr (.inr (.inr (ih h)))

theorem Within.innermostOf?_eq_none {lo hi n : Nat} {bs : List Block} (h : Within lo hi bs)
    (hn : hi ≤ n) : innermostOf? n bs = none := by
  refine Block.innermostOf?_eq_none fun b hb hc => ?_
  have := h.range (mem_preorders_of_mem hb)
  have := hc.2
  omega

/-- In blocks that lie in order there is one innermost block around a line at most, and the
descent finds it. -/
theorem Within.innermostOf?_eq {lo hi n : Nat} {bs : List Block} {b : Block}
    (h : Within lo hi bs) (hb : Innermost n bs b) : innermostOf? n bs = some b := by
  induction h with
  | nil => simpa [preorders] using hb.mem
  | @cons lo hi c bs hlo hle hhi hin hrest ihin ihrest =>
    obtain ⟨hb, hc, hno⟩ := hb
    rw [innermostOf?]
    rcases mem_preorders_cons.mp hb with rfl | hb | hb
    · have hnone : innermostOf? n b.children = none :=
        Block.innermostOf?_eq_none fun d hd => hno d (mem_preorders_of_mem hd)
      rw [innermost?_of_contains hc, hnone]
      rfl
    · have hcn : c.Contains n := by
        have := hin.range hb
        have := hc.1
        have := hc.2
        constructor <;> omega
      rw [innermost?_of_contains hcn, ihin ⟨hb, hc, hno⟩]
      rfl
    · have hcn : ¬ c.Contains n := by
        have := hrest.range hb
        have := hc.1
        exact fun h => by have := h.2; omega
      rw [innermost?_of_not_contains hcn, ihrest ⟨hb, hc, hno⟩]
      rfl

theorem Within.not_contains {lo hi n : Nat} {bs : List Block} (h : Within lo hi bs)
    (hn : innermostOf? n bs = none) : ∀ b ∈ preorders bs, ¬ b.Contains n := by
  induction h with
  | nil => simp [preorders]
  | @cons lo hi c bs hlo hle hhi hin hrest ihin ihrest =>
    rw [innermostOf?, Option.or_eq_none_iff] at hn
    have hcn : ¬ c.Contains n := by
      intro hc
      rw [innermost?_of_contains hc, Option.or_eq_none_iff] at hn
      cases hn.1.2
    intro b hb hbn
    rcases mem_preorders_cons.mp hb with rfl | hb | hb
    · exact hcn hbn
    · have := hin.range hb
      exact hcn ⟨by have := hbn.1; omega, by have := hbn.2; omega⟩
    · exact ihrest hn.2 b hb hbn

theorem Within.innermost {lo hi n : Nat} {bs : List Block} {b : Block} (h : Within lo hi bs)
    (hb : innermostOf? n bs = some b) : Innermost n bs b := by
  induction h with
  | nil => cases hb
  | @cons lo hi c bs hlo hle hhi hin hrest ihin ihrest =>
    rw [innermostOf?] at hb
    by_cases hc : c.Contains n
    · rw [innermost?_of_contains hc] at hb
      cases hi : innermostOf? n c.children with
      | none =>
        obtain rfl : c = b := by simpa [hi] using hb
        exact ⟨mem_preorders_cons.mpr (.inl rfl), hc, hin.not_contains hi⟩
      | some d =>
        obtain rfl : d = b := by simpa [hi] using hb
        obtain ⟨hmem, hd, hno⟩ := ihin hi
        exact ⟨mem_preorders_cons.mpr (.inr (.inl hmem)), hd, hno⟩
    · rw [innermost?_of_not_contains hc, Option.none_or] at hb
      obtain ⟨hmem, hb', hno⟩ := ihrest hb
      exact ⟨mem_preorders_cons.mpr (.inr (.inr hmem)), hb', hno⟩

end Block

open Block

/-- The truth of the presence condition around line `n`; `outside` is the answer in no block. -/
def Block.truthAt (v : String → Bool) (outside : Bool) (n : Nat) (blocks : List Block) : Bool :=
  match innermostOf? n blocks with
  | some b => b.presence.eval v
  | none => outside

namespace Focus

/-- The same while branches are open: one that is begun by line `n` goes on beyond it. -/
def truthAt (v : String → Bool) (n : Nat) : List Block → List Frame → Bool
  | blocks, [] => Block.truthAt v true n blocks
  | blocks, g :: around =>
    if g.first ≤ n then Block.truthAt v (g.presence.eval v) n blocks
    else truthAt v n g.before around

theorem truthAt_enter {v : String → Bool} {n m : Nat} {f : Focus} (hnm : n < m)
    (condition : Formula) (earlier : List Formula) :
    truthAt v n (f.enter m condition earlier).blocks (f.enter m condition earlier).around =
      truthAt v n f.blocks f.around :=
  if_neg (Nat.not_le_of_lt hnm)

/-- Closing a branch behind a line does not change which one is around it. -/
theorem truthAt_leave {v : String → Bool} {n m k : Nat} {blocks : List Block} {g : Frame}
    {around : List Frame} (h : Placed k ⟨blocks, g :: around⟩) (hnm : n < m) (file : String) :
    truthAt v n (leave g file m blocks around).blocks (leave g file m blocks around).around =
      truthAt v n blocks (g :: around) := by
  obtain ⟨-, -, hlt, hbefore, -⟩ := h
  by_cases hg : g.first ≤ n
  · have hc : (g.close file (m - 1) blocks).Contains n := ⟨hg, Nat.le_sub_one_of_lt hnm⟩
    have hat (d : Bool) : Block.truthAt v d n (g.before ++ [g.close file (m - 1) blocks]) =
        Block.truthAt v (g.presence.eval v) n blocks := by
      rw [Block.truthAt, innermostOf?_append, hbefore.innermostOf?_eq_none hg, Option.none_or,
        innermostOf?_singleton, innermost?_of_contains hc, Block.truthAt]
      cases hi : innermostOf? n blocks with
      | none => simp [Frame.close, hi]
      | some b => simp [Frame.close, hi]
    rw [truthAt, if_pos hg]
    cases around with
    | nil => exact hat true
    | cons p around =>
      have hp : p.first ≤ n := Nat.le_trans (Nat.le_of_lt hlt) hg
      exact (if_pos hp).trans (hat _)
  · have hc : ¬ (g.close file (m - 1) blocks).Contains n := fun h => hg h.1
    have hat (d : Bool) : Block.truthAt v d n (g.before ++ [g.close file (m - 1) blocks]) =
        Block.truthAt v d n g.before := by
      rw [Block.truthAt, innermostOf?_append, innermostOf?_singleton,
        innermost?_of_not_contains hc, Option.or_none, Block.truthAt]
    rw [truthAt, if_neg hg]
    cases around with
    | nil => exact hat true
    | cons p around => simp only [truthAt, leave, hat]

/-- What is around a line is settled once the line is read. -/
theorem truthAt_of_step {v : String → Bool} {n k : Nat} {o : Context} {file : String}
    {l : LogicalLine} {f f' : Focus} (h : Placed k f) (hn : n < l.number)
    (hs : Step o file l f f') :
    truthAt v n f'.blocks f'.around = truthAt v n f.blocks f.around := by
  cases hs with
  | plain hd => rfl
  | opening hd hk hc => exact truthAt_enter hn _ _
  | elseIf hd hk he hc => exact (truthAt_enter hn _ _).trans (truthAt_leave h hn file)
  | otherwise hd hk he => exact (truthAt_enter hn _ _).trans (truthAt_leave h hn file)
  | endIf hd hk => exact truthAt_leave h hn file

end Focus
end Presence

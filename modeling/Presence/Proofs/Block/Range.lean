import Presence.Proofs.Block.Focus
import Presence.Proofs.Source.LineNumber

/-! The lines of blocks: those of one level lie apart and in order, inside the block around them. -/
namespace Presence

namespace Block

mutual

/-- A block and all blocks in it, each before those in it. -/
def preorder : Block → List Block
  | ⟨first, last, file, condition, presence, children⟩ =>
    ⟨first, last, file, condition, presence, children⟩ :: preorders children

def preorders : List Block → List Block
  | [] => []
  | b :: bs => preorder b ++ preorders bs

end

theorem preorder_eq (b : Block) : b.preorder = b :: preorders b.children := by
  cases b
  rfl

theorem preorders_cons (b : Block) (bs : List Block) :
    preorders (b :: bs) = b :: preorders b.children ++ preorders bs := by
  rw [preorders, preorder_eq]

/-- What holds of no blocks, and of some blocks if it holds of those in the first one and of those
after it, holds of all blocks. -/
@[elab_as_elim]
theorem forestInduction {P : List Block → Prop} (nil : P [])
    (cons : ∀ b bs, P b.children → P bs → P (b :: bs)) (bs : List Block) : P bs :=
  match bs with
  | [] => nil
  | b :: bs => cons b bs (forestInduction nil cons b.children) (forestInduction nil cons bs)
termination_by sizeOf bs
decreasing_by
  · cases b
    simp only [List.cons.sizeOf_spec, mk.sizeOf_spec]
    omega
  · simp only [List.cons.sizeOf_spec]
    omega

@[simp] theorem preorders_append (xs ys : List Block) :
    preorders (xs ++ ys) = preorders xs ++ preorders ys := by
  induction xs with
  | nil => rfl
  | cons x xs ih => simp [preorders, ih]

theorem mem_preorders_cons {b c : Block} {bs : List Block} :
    c ∈ preorders (b :: bs) ↔ c = b ∨ c ∈ preorders b.children ∨ c ∈ preorders bs := by
  simp [preorders, preorder_eq]

/-- The blocks stand in order between two lines, apart from each other, and so do the blocks in
each between its own first and last line. -/
inductive Within : Nat → Nat → List Block → Prop
  | nil {lo hi : Nat} : Within lo hi []
  | cons {lo hi : Nat} {b : Block} {bs : List Block} (hlo : lo < b.first)
      (hle : b.first ≤ b.last) (hhi : b.last < hi) (hin : Within b.first b.last b.children)
      (hrest : Within b.last hi bs) : Within lo hi (b :: bs)

theorem Within.mono {lo hi hi' : Nat} {bs : List Block} (h : Within lo hi bs)
    (hhi' : hi ≤ hi') : Within lo hi' bs := by
  induction h with
  | nil => exact .nil
  | cons hlo hle hhi hin hrest _ ih => exact .cons hlo hle (by omega) hin (ih hhi')

theorem Within.concat {lo mid hi : Nat} {b : Block} {bs : List Block} (h : Within lo mid bs)
    (hlo : lo < b.first) (hmid : mid ≤ b.first) (hle : b.first ≤ b.last) (hhi : b.last < hi)
    (hin : Within b.first b.last b.children) : Within lo hi (bs ++ [b]) := by
  induction h with
  | nil => exact .cons hlo hle hhi hin .nil
  | cons hlo' hle' hhi' hin' hrest _ ih =>
    exact .cons hlo' hle' (by omega) hin' (ih (by omega) hmid)

theorem Within.range {lo hi : Nat} {b : Block} {bs : List Block} (h : Within lo hi bs)
    (hb : b ∈ preorders bs) : lo < b.first ∧ b.first ≤ b.last ∧ b.last < hi := by
  induction h with
  | nil => simp [preorders] at hb
  | cons hlo hle hhi hin hrest ihin ihrest =>
    rcases mem_preorders_cons.mp hb with rfl | hb | hb
    · exact ⟨hlo, hle, hhi⟩
    · have := ihin hb
      omega
    · have := ihrest hb
      omega

end Block

open Block

namespace Focus

/-- The line at which the innermost open branch begins. -/
def start : List Frame → Nat
  | [] => 0
  | g :: _ => g.first

/-- Up to line `n` each open branch begins after the one around it and the blocks before it. -/
def Enclosed : Nat → List Frame → Prop
  | _, [] => True
  | n, g :: around => g.first ≤ n ∧ start around < g.first ∧
      Within (start around) g.first g.before ∧ Enclosed g.first around

/-- What has been read up to line `n` lies in order. -/
def Placed (n : Nat) (f : Focus) : Prop :=
  Within (start f.around) n f.blocks ∧ Enclosed n f.around

theorem Enclosed.mono {n m : Nat} {around : List Frame} (h : Enclosed n around) (hnm : n ≤ m) :
    Enclosed m around := by
  cases around with
  | nil => trivial
  | cons g around => exact ⟨Nat.le_trans h.1 hnm, h.2⟩

theorem Enclosed.start_le {n : Nat} {around : List Frame} (h : Enclosed n around) :
    start around ≤ n := by
  cases around with
  | nil => exact Nat.zero_le n
  | cons g around => exact h.1

theorem Placed.mono {n m : Nat} {f : Focus} (h : Placed n f) (hnm : n ≤ m) : Placed m f :=
  ⟨h.1.mono hnm, h.2.mono hnm⟩

theorem Placed.enter {n : Nat} {f : Focus} (h : Placed n f) (hs : start f.around < n)
    (condition : Formula) (earlier : List Formula) : Placed n (f.enter n condition earlier) :=
  ⟨.nil, Nat.le_refl n, hs, h⟩

theorem Placed.leave {n m : Nat} {blocks : List Block} {g : Frame} {around : List Frame}
    (h : Placed n ⟨blocks, g :: around⟩) (hnm : n < m) (file : String) :
    Placed m (leave g file m blocks around) := by
  obtain ⟨hin, hle, hlt, hbefore, hout⟩ := h
  have hblock : Within g.first (m - 1) blocks := hin.mono (by omega)
  refine ⟨hbefore.concat hlt (Nat.le_refl _) ?_ ?_ hblock, hout.mono (by omega)⟩
  · show g.first ≤ m - 1
    omega
  · show m - 1 < m
    omega

theorem Placed.step {n : Nat} {o : Context} {file : String} {l : LogicalLine} {f f' : Focus}
    (h : Placed n f) (hn : n < l.number) (hs : Step o file l f f') : Placed l.number f' := by
  cases hs with
  | plain hd => exact h.mono (Nat.le_of_lt hn)
  | opening hd hk hc =>
    have := h.2.start_le
    exact (h.mono (Nat.le_of_lt hn)).enter (by omega) _ _
  | elseIf hd hk he hc =>
    obtain ⟨hle, hlt, -⟩ := h.2
    exact (h.leave hn file).enter (Nat.lt_of_lt_of_le hlt (by omega)) _ _
  | otherwise hd hk he =>
    obtain ⟨hle, hlt, -⟩ := h.2
    exact (h.leave hn file).enter (Nat.lt_of_lt_of_le hlt (by omega)) _ _
  | endIf hd hk => exact h.leave hn file

end Focus

theorem Builder.placed_of_acceptAll {b : Builder} {o : Context} {file : String}
    {lines : List LogicalLine} (hl : Numbered lines)
    (h : Builder.acceptAll {} o file lines = (b, none)) :
    Focus.Placed (lastNumber lines) b.focus := by
  refine acceptAll_induction (P := fun done f => Focus.Placed (lastNumber done) f) ?_ ?_ h
  · rintro done l rest f f' rfl hf hs
    rw [lastNumber_concat]
    exact hf.step hl.lastNumber_lt hs
  · exact ⟨.nil, trivial⟩

end Presence

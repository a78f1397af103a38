import Presence.Proofs.Block.Chain
import Presence.Proofs.Block.Siblings
import Presence.Proofs.Block.Traversal

/-!
The block that a conditional begins with. A line opens at most one conditional, so the condition of
its first block is the one that the line tests.
-/
namespace Presence

variable {o : Context} {file : String} {lines : List LogicalLine}

theorem DirectiveAt.unique {n : Nat} {d d' : Directive} (hlines : Numbered lines)
    (h : DirectiveAt lines n d) (h' : DirectiveAt lines n d') : d = d' := by
  obtain ⟨l, hl, rfl, hd⟩ := h
  obtain ⟨l', hl', hn, hd'⟩ := h'
  obtain rfl := hlines.eq_of_number_eq hl' hl hn
  exact Option.some.inj (hd.symm.trans hd')

theorem exists_startsAt {chain : List Block} {heads : List Arm} {b : Block}
    (h : List.Forall₂ (Arm.StartsAt o lines) (chain.map (·.first)) heads) (hb : b ∈ chain) :
    ∃ a ∈ heads, a.StartsAt o lines b.first := by
  rw [List.forall₂_map_left_iff] at h
  induction h with
  | nil => cases hb
  | @cons b' a chain heads ha _ ih =>
    rcases List.mem_cons.mp hb with rfl | hb
    · exact ⟨a, List.mem_cons_self, ha⟩
    · obtain ⟨a', ha', hstarts⟩ := ih hb
      exact ⟨a', List.mem_cons_of_mem a ha', hstarts⟩

/-- Only the first directive of a chain opens a conditional. -/
theorem opensChain_of_mem_arms {a : Arm} {cs : List Formula} {closed : Bool}
    (ha : a ∈ cs.map .elseIf ++ if closed then [.otherwise] else []) {n : Nat} {d : Directive}
    (hlines : Numbered lines) (hstarts : a.StartsAt o lines n) (hd : DirectiveAt lines n d) :
    d.keyword.opensChain = false := by
  rcases List.mem_append.mp ha with ha | ha
  · obtain ⟨e, -, rfl⟩ := List.mem_map.mp ha
    obtain ⟨d', hd', hk, -⟩ := hstarts
    obtain rfl := hd.unique hlines hd'
    rw [hk]
    rfl
  · cases closed with
    | false => cases ha
    | true =>
      obtain rfl := List.mem_singleton.mp ha
      obtain ⟨d', hd', hk⟩ := hstarts
      obtain rfl := hd.unique hlines hd'
      rw [hk]
      rfl

theorem WholeChain.condition_eq {c : Formula} {cs : List Formula} {closed : Bool}
    {chain : List Block} (h : WholeChain o lines c cs closed chain)
    (hconds : chain.map (·.condition) = branchConditions c cs closed) (hlines : Numbered lines)
    {b : Block} (hb : b ∈ chain) {d : Directive} (hd : DirectiveAt lines b.first d)
    (hk : d.keyword.opensChain = true) : condition o d.expression = .ok b.condition := by
  cases chain with
  | nil => cases hb
  | cons b' chain =>
    obtain ⟨hhead, htail⟩ := List.forall₂_cons.mp h.starts
    rcases List.mem_cons.mp hb with rfl | hb
    · obtain ⟨d', hd', -, hc⟩ := hhead
      obtain rfl := hd.unique hlines hd'
      have hcondition : b.condition = c := (List.cons.inj hconds).1
      rw [hcondition]
      exact hc
    · obtain ⟨a, ha, hstarts⟩ := exists_startsAt htail hb
      have hcontinues := opensChain_of_mem_arms ha hlines hstarts hd
      rw [hk] at hcontinues
      cases hcontinues

theorem Block.mem_preorders_iff {bs : List Block} {b : Block} :
    b ∈ Block.preorders bs ↔ ∃ p ∈ bs, b = p ∨ b ∈ Block.preorders p.children := by
  induction bs with
  | nil => simp [Block.preorders]
  | cons p bs ih => simp [Block.mem_preorders_cons, ih, or_assoc]

theorem condition_eq_of_exclusive {bs : List Block} (h : Block.Exclusive o lines bs)
    (hlines : Numbered lines) {b : Block} (hb : b ∈ Block.preorders bs) {d : Directive}
    (hd : DirectiveAt lines b.first d) (hk : d.keyword.opensChain = true) :
    condition o d.expression = .ok b.condition := by
  induction h with
  | nil => cases hb
  | @append bs chain _ hchain _ ihbs ihin =>
    rw [Block.preorders_append, List.mem_append] at hb
    rcases hb with hb | hb
    · exact ihbs hb
    · obtain ⟨p, hp, rfl | hb⟩ := Block.mem_preorders_iff.mp hb
      · obtain ⟨c, cs, closed, hwhole, hconds⟩ := hchain
        exact hwhole.condition_eq hconds hlines hp hd hk
      · exact ihin p hp hb

/-- A line that opens a conditional has one block, whose condition is the one that it tests. -/
theorem exists_block_of_opening {source : List (List Char)} {blocks : List Block}
    {l : LogicalLine} {d : Directive} (h : readBlocks o file source = .ok blocks)
    (hl : l ∈ logicalLines source) (hd : Directive.ofLine? l.text = some d)
    (hk : d.keyword.opensChain = true) :
    ∃ forest, (blocks = forest ∨ ∃ last, blocks = [.whole file last forest]) ∧
      ∃ b ∈ Block.preorders forest, b.first = l.number ∧
        (∀ c ∈ Block.preorders forest, c.first = l.number → c = b) ∧
        condition o d.expression = .ok b.condition := by
  obtain ⟨b, hacc, hend, hblocks⟩ := readBlocks_eq_ok h
  have hlines := logicalLines_numbered source
  have hlinked := (Builder.linked_of_acceptAll hlines hacc).blocks
  have hbegun := Builder.begun_of_acceptAll hacc
  rw [hend] at hlinked hbegun
  have horder : (Block.preorders b.finished).map (·.first) =
      ((logicalLines source).filter (·.startsBranch)).map (·.number) := hbegun
  have hstarts : l.startsBranch = true := by
    rw [LogicalLine.startsBranch_of_directive hd]
    exact Keyword.startsBranch_of_opensChain hk
  have hnumber : l.number ∈ (Block.preorders b.finished).map (·.first) := by
    rw [horder]
    exact List.mem_map_of_mem (List.mem_filter.mpr ⟨hl, hstarts⟩)
  have hnodup : ((Block.preorders b.finished).map (·.first)).Nodup := by
    rw [horder]
    exact List.pairwise_map.mpr ((hlines.1.filter _).imp Nat.ne_of_lt)
  obtain ⟨p, hp, hfirst⟩ := List.mem_map.mp hnumber
  refine ⟨b.finished, hblocks.imp_right fun h => ⟨_, h⟩, p, hp, hfirst, fun c hc hc' => ?_, ?_⟩
  · exact List.inj_on_of_nodup_map hnodup hc hp (hc'.trans hfirst.symm)
  · exact condition_eq_of_exclusive hlinked hlines hp ⟨l, hl, hfirst.symm, hd⟩ hk

end Presence

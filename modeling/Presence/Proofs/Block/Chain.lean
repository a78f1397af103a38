import Mathlib.Data.List.Chain
import Mathlib.Data.List.Forall2
import Mathlib.Data.List.Induction
import Presence.Proofs.Block.Session
import Presence.Proofs.Source.LineNumber

/-!
The branches of a conditional. Each has its own condition and the negations of the ones before it,
so at most one of them holds.
-/
namespace Presence

/-- What the directive at the head of a branch says. -/
inductive Arm
  | opening (c : Formula)
  | elseIf (c : Formula)
  | otherwise

def DirectiveAt (lines : List LogicalLine) (n : Nat) (d : Directive) : Prop :=
  ∃ l ∈ lines, l.number = n ∧ Directive.ofLine? l.text = some d

def Arm.StartsAt (o : Context) (lines : List LogicalLine) (n : Nat) : Arm → Prop
  | opening c => ∃ d, DirectiveAt lines n d ∧ d.keyword.opensChain = true ∧
      condition o d.expression = .ok c
  | elseIf c => ∃ d, DirectiveAt lines n d ∧ d.keyword = .elseIf ∧
      condition o d.expression = .ok c
  | otherwise => ∃ d, DirectiveAt lines n d ∧ d.keyword = .otherwise

/-- The heads of a chain that tests `c` and then `cs`, and has an `#else` if it is `closed`. -/
def arms (c : Formula) (cs : List Formula) (closed : Bool) : List Arm :=
  .opening c :: cs.map .elseIf ++ if closed then [.otherwise] else []

def branchConditions (c : Formula) (cs : List Formula) (closed : Bool) : List Formula :=
  c :: cs.mapIdx (fun i d => .and (.noneOf c (cs.take i)) d) ++
    if closed then [.noneOf c cs] else []

/-- Adjacent blocks whose heads are those of one chain. -/
structure BranchesOf (o : Context) (lines : List LogicalLine) (heads : List Arm)
    (chain : List Block) : Prop where
  starts : List.Forall₂ (Arm.StartsAt o lines) (chain.map (·.first)) heads
  adjacent : chain.IsChain fun b b' => b'.first = b.last + 1

/-- The blocks of a chain from its first directive to its `#endif`. -/
structure WholeChain (o : Context) (lines : List LogicalLine) (c : Formula) (cs : List Formula)
    (closed : Bool) (chain : List Block) : Prop
    extends BranchesOf o lines (arms c cs closed) chain where
  ends : ∃ b d, chain.getLast? = some b ∧ DirectiveAt lines (b.last + 1) d ∧ d.keyword = .endIf

/-- The blocks of each level, one after the other, are those of chains that have a property. -/
inductive Block.Chained (P : List Block → Prop) : List Block → Prop
  | nil : Chained P []
  | append {bs chain : List Block} (hbs : Chained P bs) (hchain : P chain)
      (hin : ∀ b ∈ chain, Chained P b.children) : Chained P (bs ++ chain)

theorem arms_concat (c : Formula) (cs : List Formula) (e : Formula) :
    arms c (cs ++ [e]) false = arms c cs false ++ [.elseIf e] := by
  simp [arms]

theorem arms_closed (c : Formula) (cs : List Formula) :
    arms c cs true = arms c cs false ++ [.otherwise] := by
  simp [arms]

theorem branchConditions_concat (c : Formula) (cs : List Formula) (e : Formula) :
    branchConditions c (cs ++ [e]) false =
      branchConditions c cs false ++ [.and (.noneOf c cs) e] := by
  have htake : cs.mapIdx (fun i d => Formula.and (.noneOf c ((cs ++ [e]).take i)) d) =
      cs.mapIdx (fun i d => Formula.and (.noneOf c (cs.take i)) d) := by
    refine List.ext_getElem (by simp) fun i h₁ h₂ => ?_
    have hi : i ≤ cs.length := by simpa using Nat.le_of_lt h₁
    simp [List.take_append_of_le_length hi]
  simp [branchConditions, List.mapIdx_concat, htake]

theorem branchConditions_closed (c : Formula) (cs : List Formula) :
    branchConditions c cs true = branchConditions c cs false ++ [.noneOf c cs] := by
  simp [branchConditions]

/-- Exactly one branch that tests something holds if one of the tests does. -/
theorem countP_branchConditions (v : String → Bool) (c : Formula) (cs : List Formula) :
    (branchConditions c cs false).countP (·.eval v) =
      if (c :: cs).any (·.eval v) then 1 else 0 := by
  induction cs using List.reverseRecOn with
  | nil => cases hc : c.eval v <;> simp [branchConditions, hc]
  | append_singleton cs e ih =>
    have hany : (c :: (cs ++ [e])).any (·.eval v) = ((c :: cs).any (·.eval v) || e.eval v) := by
      simp [Bool.or_assoc]
    rw [branchConditions_concat, List.countP_append, ih, hany, List.countP_singleton,
      Formula.eval, Formula.eval_noneOf]
    cases (c :: cs).any (·.eval v) <;> cases e.eval v <;> rfl

/-- The `#else` branch holds if none of them does. -/
theorem countP_branchConditions_closed (v : String → Bool) (c : Formula) (cs : List Formula) :
    (branchConditions c cs true).countP (·.eval v) = 1 := by
  rw [branchConditions_closed, List.countP_append, countP_branchConditions, List.countP_singleton,
    Formula.eval_noneOf]
  cases (c :: cs).any (·.eval v) <;> rfl

variable {o : Context} {file : String} {lines : List LogicalLine}

/-- A chain grows by the branch that the directive at its end begins. -/
theorem BranchesOf.concat {heads : List Arm} {chain : List Block} {a : Arm} {b : Block}
    (h : BranchesOf o lines heads chain) (ha : a.StartsAt o lines b.first)
    (hb : ∀ b' ∈ chain.getLast?, b.first = b'.last + 1) :
    BranchesOf o lines (heads ++ [a]) (chain ++ [b]) := by
  refine ⟨?_, ?_⟩
  · rw [List.map_append]
    exact List.rel_append h.starts (.cons ha .nil)
  · refine List.isChain_append.mpr ⟨h.adjacent, List.isChain_singleton _, ?_⟩
    intro b' hb' b'' hb''
    obtain rfl : b'' = b := by simpa using hb''.symm
    exact hb b' hb'

/-- However the open branch will be closed, its block goes on with the chain. -/
structure Frame.Continues (o : Context) (lines : List LogicalLine) (c : Formula)
    (cs : List Formula) (closed : Bool) (chain : List Block) (g : Frame) : Prop where
  branches : ∀ file last children,
    BranchesOf o lines (arms c cs closed) (chain ++ [g.close file last children])
  conditions : chain.map (·.condition) ++ [g.condition] = branchConditions c cs closed
  earlier : g.earlier = if closed then [] else c :: cs

namespace Frame.Continues

variable {c : Formula} {cs : List Formula} {closed : Bool} {chain : List Block} {g : Frame}

theorem opens {line : Nat} {before : List Block} {presence : Formula}
    (h : (Arm.opening c).StartsAt o lines line) :
    Continues o lines c [] false [] ⟨before, line, c, presence, [c]⟩ :=
  ⟨fun _ _ _ => ⟨.cons h .nil, List.isChain_singleton _⟩, rfl, rfl⟩

/-- A chain that takes further branches has its conditions at hand. -/
theorem eq_of_earlier (h : g.Continues o lines c cs closed chain) {d : Formula}
    {ds : List Formula} (he : g.earlier = d :: ds) : closed = false ∧ c = d ∧ cs = ds := by
  have hearlier := h.earlier
  cases closed with
  | true => simp [he] at hearlier
  | false => simpa [he, eq_comm] using hearlier

theorem next {n : Nat} {before : List Block} {e p : Formula} {earlier cs' : List Formula}
    {closed' : Bool} {a : Arm} (h : g.Continues o lines c cs closed chain) (hn : 0 < n)
    (ha : a.StartsAt o lines n) (hheads : arms c cs' closed' = arms c cs closed ++ [a])
    (hconds : branchConditions c cs' closed' = branchConditions c cs closed ++ [e])
    (hearlier : earlier = if closed' then [] else c :: cs') (blocks : List Block) :
    Continues o lines c cs' closed' (chain ++ [g.close file (n - 1) blocks])
      ⟨before, n, e, p, earlier⟩ := by
  refine ⟨fun file' last children => ?_, ?_, hearlier⟩
  · rw [hheads]
    refine (h.branches file (n - 1) blocks).concat ha fun b hb => ?_
    obtain rfl : g.close file (n - 1) blocks = b := by simpa using hb
    show n = n - 1 + 1
    omega
  · rw [hconds, ← h.conditions, List.map_append]
    rfl

theorem whole {n : Nat} {d : Directive} (h : g.Continues o lines c cs closed chain) (hn : 0 < n)
    (hd : DirectiveAt lines n d) (hk : d.keyword = .endIf) (blocks : List Block) :
    WholeChain o lines c cs closed (chain ++ [g.close file (n - 1) blocks]) ∧
      (chain ++ [g.close file (n - 1) blocks]).map (·.condition) =
        branchConditions c cs closed := by
  refine ⟨⟨h.branches file (n - 1) blocks, g.close file (n - 1) blocks, d, by simp, ?_, hk⟩, ?_⟩
  · show DirectiveAt lines (n - 1 + 1) d
    rwa [Nat.sub_add_cancel hn]
  · rw [← h.conditions, List.map_append]
    rfl

end Frame.Continues

/-- The chains of a forest are whole, with the conditions that belong to them. -/
def Block.Exclusive (o : Context) (lines : List LogicalLine) : List Block → Prop :=
  Block.Chained fun chain => ∃ c cs closed, WholeChain o lines c cs closed chain ∧
    chain.map (·.condition) = branchConditions c cs closed

namespace Focus

/-- The blocks before an open branch end in the chain that it goes on with. -/
def Attached (o : Context) (lines : List LogicalLine) (g : Frame) : Prop :=
  ∃ bs chain c cs closed, g.before = bs ++ chain ∧ Block.Exclusive o lines bs ∧
    (∀ b ∈ chain, Block.Exclusive o lines b.children) ∧ g.Continues o lines c cs closed chain

/-- Finished chains are whole, and open branches go on with the chains before them. -/
structure Linked (o : Context) (lines : List LogicalLine) (f : Focus) : Prop where
  blocks : Block.Exclusive o lines f.blocks
  around : ∀ g ∈ f.around, Attached o lines g

theorem Linked.step {l : LogicalLine} {f f' : Focus} (h : Linked o lines f) (hl : l ∈ lines)
    (hn : 0 < l.number) (hs : Step o file l f f') : Linked o lines f' := by
  -- A directive that closes `g` puts its block at the end of the chain that `g` goes on with.
  have hclose {g : Frame} {chain blocks : List Block}
      (hchain : ∀ b ∈ chain, Block.Exclusive o lines b.children)
      (hb : Block.Exclusive o lines blocks) :
      ∀ b ∈ chain ++ [g.close file (l.number - 1) blocks],
        Block.Exclusive o lines b.children := by
    intro b hmem
    rcases List.mem_append.mp hmem with hmem | hmem
    · exact hchain b hmem
    · obtain rfl := List.mem_singleton.mp hmem
      exact hb
  obtain ⟨hblocks, haround⟩ := h
  cases hs with
  | plain hd => exact ⟨hblocks, haround⟩
  | @opening _ d c hd hk hc =>
    have harm : (Arm.opening c).StartsAt o lines l.number := ⟨d, ⟨l, hl, rfl, hd⟩, hk, hc⟩
    refine ⟨.nil, List.forall_mem_cons.mpr ⟨?_, haround⟩⟩
    exact ⟨f.blocks, [], c, [], false, by simp, hblocks, by simp, .opens harm⟩
  | @elseIf blocks g around d c e cs hd hk he hc =>
    obtain ⟨⟨bs, chain, c', cs', closed, hbefore, hbs, hchain, hcont⟩, haround⟩ :=
      List.forall_mem_cons.mp haround
    obtain ⟨rfl, rfl, rfl⟩ := hcont.eq_of_earlier he
    have harm : (Arm.elseIf e).StartsAt o lines l.number := ⟨d, ⟨l, hl, rfl, hd⟩, hk, hc⟩
    refine ⟨.nil, List.forall_mem_cons.mpr ⟨?_, haround⟩⟩
    refine ⟨bs, chain ++ [g.close file (l.number - 1) blocks], c', cs' ++ [e], false, ?_, hbs,
      hclose hchain hblocks, ?_⟩
    · simp [leave, hbefore]
    · exact hcont.next hn harm (arms_concat _ _ _) (branchConditions_concat _ _ _) rfl blocks
  | @otherwise blocks g around d c cs hd hk he =>
    obtain ⟨⟨bs, chain, c', cs', closed, hbefore, hbs, hchain, hcont⟩, haround⟩ :=
      List.forall_mem_cons.mp haround
    obtain ⟨rfl, rfl, rfl⟩ := hcont.eq_of_earlier he
    have harm : Arm.otherwise.StartsAt o lines l.number := ⟨d, ⟨l, hl, rfl, hd⟩, hk⟩
    refine ⟨.nil, List.forall_mem_cons.mpr ⟨?_, haround⟩⟩
    refine ⟨bs, chain ++ [g.close file (l.number - 1) blocks], c', cs', true, ?_, hbs,
      hclose hchain hblocks, ?_⟩
    · simp [leave, hbefore]
    · exact hcont.next hn harm (arms_closed _ _) (branchConditions_closed _ _) rfl blocks
  | @endIf blocks g around d hd hk =>
    obtain ⟨⟨bs, chain, c, cs, closed, hbefore, hbs, hchain, hcont⟩, haround⟩ :=
      List.forall_mem_cons.mp haround
    refine ⟨?_, haround⟩
    rw [leave, hbefore, List.append_assoc]
    refine .append hbs ⟨c, cs, closed, ?_⟩ (hclose hchain hblocks)
    exact hcont.whole hn ⟨l, hl, rfl, hd⟩ hk blocks

end Focus

theorem Builder.linked_of_acceptAll {b : Builder} (hl : Numbered lines)
    (h : Builder.acceptAll {} o file lines = (b, none)) : Focus.Linked o lines b.focus := by
  refine acceptAll_induction (P := fun _ f => Focus.Linked o lines f) ?_ ?_ h
  · rintro done l rest f f' rfl hf hs
    have hmem : l ∈ done ++ l :: rest := by simp
    exact hf.step hmem (hl.2 l hmem) hs
  · exact ⟨.nil, by simp⟩

theorem Block.Chained.mono {P Q : List Block → Prop} {bs : List Block}
    (h : Chained P bs) (hPQ : ∀ chain, P chain → Q chain) : Chained Q bs := by
  induction h with
  | nil => exact .nil
  | append _ hchain _ ihbs ihin => exact .append ihbs (hPQ _ hchain) ihin

theorem countP_eq_of_conditions {chain : List Block} {cs : List Formula}
    (h : chain.map (·.condition) = cs) (v : String → Bool) :
    chain.countP (·.condition.eval v) = cs.countP (·.eval v) := by
  rw [← h, List.countP_map]
  rfl

/-- The blocks that are returned, without the one around a whole file, are chain after chain on
each level. The first branch of a chain has the condition it tests, a further one its own together
with the negations of all before it, and an `#else` the negations of all. Hence two conditions of
a chain never hold together, and with an `#else` one always does. -/
theorem chains_exclusive {source : List (List Char)} {blocks : List Block}
    (h : readBlocks o file source = .ok blocks) :
    ∃ forest, (blocks = forest ∨ ∃ last, blocks = [.whole file last forest]) ∧
      Block.Chained (fun chain => ∃ c cs closed,
        WholeChain o (logicalLines source) c cs closed chain ∧
        chain.map (·.condition) = branchConditions c cs closed ∧
        ∀ v, chain.countP (·.condition.eval v) ≤ 1 ∧
          (closed = true → chain.countP (·.condition.eval v) = 1)) forest := by
  obtain ⟨b, hacc, hend, hblocks⟩ := readBlocks_eq_ok h
  have hlinked := (Builder.linked_of_acceptAll (logicalLines_numbered source) hacc).blocks
  rw [hend] at hlinked
  refine ⟨b.finished, hblocks.imp_right fun h => ⟨_, h⟩, hlinked.mono ?_⟩
  rintro chain ⟨c, cs, closed, hwhole, hconds⟩
  refine ⟨c, cs, closed, hwhole, hconds, fun v => ?_⟩
  rw [countP_eq_of_conditions hconds]
  cases closed with
  | true => simp [countP_branchConditions_closed]
  | false =>
    rw [countP_branchConditions]
    refine ⟨?_, fun h => by cases h⟩
    split <;> omega

theorem chains_exclusive_nested :
    let source := ["x".toList, "#ifdef A".toList, "#ifdef C".toList, "#endif".toList,
      "#elif defined B".toList, "#else".toList, "#endif".toList]
    let a : Formula := .var "A"
    let b : Formula := .and (.not a) (.var "B")
    let none : Formula := .and (.not a) (.not (.var "B"))
    let forest : List Block := [
      ⟨2, 4, "a.c", a, a, [⟨3, 3, "a.c", .var "C", .and a (.var "C"), []⟩]⟩,
      ⟨5, 5, "a.c", b, b, []⟩, ⟨6, 6, "a.c", none, none, []⟩]
    readBlocks {} "a.c" source = .ok [.whole "a.c" 8 forest] ∧
      ∃ forest', ([Block.whole "a.c" 8 forest] = forest' ∨
          ∃ last, [Block.whole "a.c" 8 forest] = [.whole "a.c" last forest']) ∧
        Block.Chained (fun chain => ∃ c cs closed,
          WholeChain {} (logicalLines source) c cs closed chain ∧
          chain.map (·.condition) = branchConditions c cs closed ∧
          ∀ v, chain.countP (·.condition.eval v) ≤ 1 ∧
            (closed = true → chain.countP (·.condition.eval v) = 1)) forest' := by
  intro source a b none forest
  have h : readBlocks {} "a.c" source = .ok [.whole "a.c" 8 forest] := by
    with_unfolding_all rfl
  exact ⟨h, chains_exclusive h⟩

end Presence

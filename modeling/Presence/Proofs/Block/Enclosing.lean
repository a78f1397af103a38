import Presence.Proofs.Block.Innermost
import Presence.Proofs.Block.Session

/-!
The blocks around a block. In each builder that calls lead to, the presence condition of a block is
the conjunction of the conditions on the way to it.
-/
namespace Presence

namespace Formula

def within : Option Formula → Formula → Formula
  | none, f => f
  | some outer, f => .and outer f

theorem conjoin?_concat (fs : List Formula) (f : Formula) :
    conjoin? (fs ++ [f]) = some (within (conjoin? fs) f) := by
  cases fs with
  | nil => rfl
  | cons g gs => simp [conjoin?, within, andAll_append]

end Formula

namespace Block

/-- From the blocks of one level one gets to `b` through the blocks of a path, the outermost
first. -/
def Nested : List Block → List Block → Block → Prop
  | bs, [], b => b ∈ bs
  | bs, p :: path, b => p ∈ bs ∧ Nested p.children path b

theorem Nested.concat {bs path : List Block} {p b : Block} (h : Nested bs path p)
    (hb : b ∈ p.children) : Nested bs (path ++ [p]) b := by
  induction path generalizing bs with
  | nil => exact ⟨h, hb⟩
  | cons q path ih => exact ⟨h.1, ih h.2⟩

/-- A last block is reached at once, or one gets through it to the blocks in it. -/
theorem nested_append_singleton {bs path : List Block} {p b : Block} :
    Nested (bs ++ [p]) path b ↔ Nested bs path b ∨ path = [] ∧ b = p ∨
      ∃ rest, path = p :: rest ∧ Nested p.children rest b := by
  cases path with
  | nil => simp [Nested]
  | cons q path =>
    simp only [Nested, List.mem_append, List.mem_singleton, List.cons.injEq, reduceCtorEq,
      false_and, false_or]
    constructor
    · rintro ⟨hq | rfl, hb⟩
      · exact .inl ⟨hq, hb⟩
      · exact .inr ⟨path, ⟨rfl, rfl⟩, hb⟩
    · rintro (⟨hq, hb⟩ | ⟨_, ⟨rfl, rfl⟩, hb⟩)
      · exact ⟨.inl hq, hb⟩
      · exact ⟨.inr rfl, hb⟩

theorem Nested.mem_preorders {bs path : List Block} {b : Block} (h : Nested bs path b) :
    b ∈ preorders bs := by
  induction path generalizing bs with
  | nil => exact mem_preorders_of_mem h
  | cons p path ih =>
    have hp := ih h.2
    induction bs with
    | nil => cases h.1
    | cons c bs ihbs =>
      rcases List.mem_cons.mp h.1 with rfl | hmem
      · exact mem_preorders_cons.mpr (.inr (.inl hp))
      · exact mem_preorders_cons.mpr (.inr (.inr (ihbs ⟨hmem, h.2⟩)))

theorem Nested.mono {bs cs path : List Block} {b : Block} (h : Nested bs path b)
    (hsub : bs ⊆ cs) : Nested cs path b := by
  cases path with
  | nil => exact hsub h
  | cons p path => exact ⟨hsub h.1, h.2⟩

theorem exists_nested_of_mem_preorders {bs : List Block} {c : Block} (h : c ∈ preorders bs) :
    ∃ path, Nested bs path c := by
  induction bs using forestInduction with
  | nil => simp [preorders] at h
  | cons b bs ihchildren ih =>
    rcases mem_preorders_cons.mp h with rfl | h | h
    · exact ⟨[], List.mem_cons_self⟩
    · obtain ⟨path, hpath⟩ := ihchildren h
      exact ⟨b :: path, List.mem_cons_self, hpath⟩
    · obtain ⟨path, hpath⟩ := ih h
      exact ⟨path, hpath.mono (List.subset_cons_self b bs)⟩

/-- A property of a block and the path to it holds of all blocks. -/
def Along (Q : List Block → Block → Prop) (bs : List Block) : Prop :=
  ∀ path b, Nested bs path b → Q path b

theorem Along.nil (Q : List Block → Block → Prop) : Along Q [] := by
  rintro (_ | ⟨p, path⟩) b h
  · cases h
  · cases h.1

theorem Along.concat {Q : List Block → Block → Prop} {bs : List Block} {b : Block}
    (h : Along Q bs) (hb : Q [] b) (hin : Along (fun path => Q (b :: path)) b.children) :
    Along Q (bs ++ [b]) := by
  intro path c hpath
  rcases nested_append_singleton.mp hpath with hc | ⟨rfl, rfl⟩ | ⟨rest, rfl, hc⟩
  · exact h path c hc
  · exact hb
  · exact hin rest c hc

theorem Along.mono {Q R : List Block → Block → Prop} {bs : List Block} (h : Along Q bs)
    (hQR : ∀ path b, Q path b → R path b) : Along R bs :=
  fun path b hb => hQR path b (h path b hb)

/-- Under the conditions `cs` of what is around the blocks, each presence condition is the
conjunction of all conditions on the way to its block, the block's own at the end. -/
def Inherits (cs : List Formula) : List Block → Prop :=
  Along fun path b =>
    Formula.conjoin? (cs ++ path.map (·.condition) ++ [b.condition]) = some b.presence

theorem Inherits.concat {cs : List Formula} {bs : List Block} {b : Block} (h : Inherits cs bs)
    (hb : Formula.conjoin? (cs ++ [b.condition]) = some b.presence)
    (hin : Inherits (cs ++ [b.condition]) b.children) : Inherits cs (bs ++ [b]) := by
  apply Along.concat h
  · simpa using hb
  · exact hin.mono fun path c hc => by simpa using hc

theorem Inherits.conjoin? {cs : List Formula} {bs path : List Block} {b : Block}
    (h : Inherits cs bs) (hb : Nested bs path b) :
    Formula.conjoin? (cs ++ path.map (·.condition) ++ [b.condition]) = some b.presence :=
  h path b hb

/-- A presence condition takes in that of the block around, and is the own condition where there
is none. -/
theorem Inherits.presence_eq {cs : List Formula} {bs : List Block} (h : Inherits cs bs) :
    (∀ b ∈ bs, b.presence = Formula.within (Formula.conjoin? cs) b.condition) ∧
      ∀ p ∈ preorders bs, ∀ c ∈ p.children, c.presence = .and p.presence c.condition := by
  constructor
  · intro b hb
    have hnested : Nested bs [] b := hb
    have hpresence := h.conjoin? hnested
    rw [List.map_nil, List.append_nil, Formula.conjoin?_concat] at hpresence
    exact (Option.some.inj hpresence).symm
  · intro p hp c hc
    obtain ⟨path, hpath⟩ := exists_nested_of_mem_preorders hp
    have hpresence := h.conjoin? (hpath.concat hc)
    rw [List.map_append, ← List.append_assoc, List.map_singleton, Formula.conjoin?_concat,
      h.conjoin? hpath] at hpresence
    exact (Option.some.inj hpresence).symm

end Block

open Block

variable {o : Context} {file : String}

namespace Focus

/-- The conditions of the open branches, the outermost first. -/
def conditions (around : List Frame) : List Formula :=
  (around.map (·.condition)).reverse

@[simp] theorem conditions_cons (g : Frame) (around : List Frame) :
    conditions (g :: around) = conditions around ++ [g.condition] := by
  simp [conditions]

/-- Each open branch, and the blocks before it, have the presence conditions of their place. -/
def Inherited : List Frame → Prop
  | [] => True
  | g :: around => Formula.conjoin? (conditions (g :: around)) = some g.presence ∧
      Block.Inherits (conditions around) g.before ∧ Inherited around

structure Inherits (f : Focus) : Prop where
  blocks : Block.Inherits (conditions f.around) f.blocks
  around : Inherited f.around

/-- A branch that opens takes in the presence condition of the innermost open one. -/
theorem conjoin?_presence {f : Focus} (h : Inherited f.around) (c : Formula) :
    Formula.conjoin? (conditions f.around ++ [c]) = some (f.presence c) := by
  rw [Formula.conjoin?_concat]
  unfold presence
  cases hf : f.around with
  | nil => rfl
  | cons g around =>
    rw [hf] at h
    rw [h.1]
    rfl

theorem Inherits.enter {f : Focus} (h : Inherits f) (n : Nat) (c : Formula)
    (earlier : List Formula) : Inherits (f.enter n c earlier) := by
  refine ⟨Along.nil _, ?_, h.blocks, h.around⟩
  rw [conditions_cons]
  exact conjoin?_presence h.around c

theorem Inherits.leave {blocks : List Block} {g : Frame} {around : List Frame}
    (h : Inherits ⟨blocks, g :: around⟩) (file : String) (n : Nat) :
    Inherits (leave g file n blocks around) := by
  obtain ⟨hpresence, hbefore, haround⟩ := h.around
  have hblocks := h.blocks
  rw [conditions_cons] at hpresence hblocks
  exact ⟨hbefore.concat hpresence hblocks, haround⟩

theorem Inherits.step {l : LogicalLine} {f f' : Focus} (h : Inherits f)
    (hs : Step o file l f f') : Inherits f' := by
  cases hs with
  | plain hd => exact h
  | opening hd hk hc => exact h.enter _ _ _
  | elseIf hd hk he hc => exact (h.leave file l.number).enter _ _ _
  | otherwise hd hk he => exact (h.leave file l.number).enter _ _ _
  | endIf hd hk => exact h.leave file l.number

end Focus

theorem Builder.Reachable.inherits {b : Builder} (h : b.Reachable o file) : b.focus.Inherits :=
  h.invariant ⟨Along.nil _, trivial⟩ fun _ _ _ hf hs => hf.step hs

/-- After any calls, failed ones among them, the blocks that a call returns are those of the
builder, in a block around the whole file or not. A block with no other around it has its condition
as presence condition, and one in another block the conjunction of that block's presence condition
with its own condition. On the way to each block this makes the left-nested conjunction of all
conditions, from the outermost to the block's own. -/
theorem presence_follows_nesting {b b' : Builder} {source : List (List Char)}
    {blocks : List Block} (hb : b.Reachable o file)
    (h : b.read o file source = (b', .ok blocks)) :
    (blocks = if b'.contentOutside && o.pseudoBlock then [.whole file (b'.line + 1) b'.finished]
      else b'.finished) ∧
    (∀ t ∈ b'.finished, t.presence = t.condition) ∧
    (∀ p ∈ preorders b'.finished, ∀ c ∈ p.children, c.presence = .and p.presence c.condition) ∧
    ∀ c ∈ preorders b'.finished, (∃ path, Nested b'.finished path c) ∧
      ∀ path, Nested b'.finished path c →
        Formula.conjoin? (path.map (·.condition) ++ [c.condition]) = some c.presence := by
  obtain ⟨-, hend, hblocks⟩ := Builder.read_eq_ok h
  have hb' : b'.Reachable o file := by
    have hread := hb.read source
    rwa [h] at hread
  have hinherits := hb'.inherits.blocks
  rw [hend] at hinherits
  obtain ⟨htop, hchildren⟩ := hinherits.presence_eq
  exact ⟨hblocks, htop, hchildren, fun c hc =>
    ⟨exists_nested_of_mem_preorders hc, fun path => hinherits.conjoin?⟩⟩

/-- The first call fails at a branch after `#else` and leaves two branches open, in which the second
call goes on. -/
theorem presence_follows_nesting_resumed :
    let first := ["#ifdef A".toList, "#ifdef B".toList, "#else".toList, "#elif C".toList]
    let second := ["#ifdef D".toList, "#endif".toList, "#endif".toList, "#endif".toList]
    let a : Formula := .var "A"
    let notB : Formula := .not (.var "B")
    let inner : Block := ⟨1, 1, "a.c", .var "D", .and (.and a notB) (.var "D"), []⟩
    let branch : Block := ⟨3, 2, "a.c", notB, .and a notB, [inner]⟩
    let outer : Block := ⟨1, 3, "a.c", a, a, [⟨2, 2, "a.c", .var "B", .and a (.var "B"), []⟩, branch]⟩
    let b := (Builder.read {} {} "a.c" first).1
    let b' : Builder := { finished := [outer], line := 4 }
    (∃ e, (Builder.read {} {} "a.c" first).2 = .error e) ∧
      b.Reachable {} "a.c" ∧ b.read {} "a.c" second = (b', .ok [outer]) ∧
      Nested [outer] [outer, branch] inner ∧
      Formula.conjoin? [a, notB, .var "D"] = some inner.presence := by
  intro first second a notB inner branch outer b b'
  have hb : b.Reachable {} "a.c" := .read .start first
  have hfirst : (Builder.read {} {} "a.c" first).2 =
      .error (.format ⟨.branchAfterElse .elseIf, 4, "a.c"⟩) := by
    with_unfolding_all rfl
  have hsecond : b.read {} "a.c" second = (b', .ok [outer]) := by
    with_unfolding_all rfl
  have hinner : Nested [outer] [outer, branch] inner := by
    simp [Nested, outer, branch]
  obtain ⟨-, -, -, hpath⟩ := presence_follows_nesting hb hsecond
  exact ⟨⟨_, hfirst⟩, hb, hsecond, hinner, (hpath inner hinner.mem_preorders).2 _ hinner⟩

end Presence

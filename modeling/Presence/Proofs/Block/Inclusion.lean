import Presence.Proofs.Block.Innermost
import Presence.Proofs.Block.Session

/-!
Conditional inclusion. A machine with one region for each open conditional says which lines are
kept under an assignment, and presence conditions agree with it.
-/
namespace Presence

/-- What is known of an open conditional: whether the lines around it are kept, whether a condition
of the chain has held, and whether the lines of the current branch are kept. -/
structure Region where
  enclosing : Bool
  taken : Bool
  current : Bool
  deriving DecidableEq, Repr

namespace Inclusion

def active : List Region → Bool
  | [] => true
  | r :: _ => r.current

def truth (o : Context) (v : String → Bool) (d : Directive) : Option Bool :=
  match condition o d.expression with
  | .ok c => some (c.eval v)
  | .error _ => none

/-- Conditionals are entered and left by their directives; a branch is kept if the lines around the
conditional are, its own condition holds and none before it did. -/
def step (o : Context) (v : String → Bool) (rs : List Region) (l : LogicalLine) :
    Option (List Region) :=
  match Directive.ofLine? l.text with
  | none => some rs
  | some d =>
    match d.keyword, rs with
    | .elseIf, r :: rs =>
      (truth o v d).map fun c => ⟨r.enclosing, r.taken || c, r.enclosing && !r.taken && c⟩ :: rs
    | .otherwise, r :: rs => some (⟨r.enclosing, true, r.enclosing && !r.taken⟩ :: rs)
    | .endIf, _ :: rs => some rs
    | .elseIf, [] | .otherwise, [] | .endIf, [] => none
    | _, rs => (truth o v d).map fun c => ⟨active rs, c, active rs && c⟩ :: rs

def run (o : Context) (v : String → Bool) (lines : List LogicalLine) : Option (List Region) :=
  lines.foldlM (step o v) []

/-- Regions describe open branches. After the last branch of a chain nothing is asked of its
history. -/
def Agrees (v : String → Bool) : List Region → List Frame → Prop
  | [], [] => True
  | r :: rs, g :: around => r.enclosing = active rs ∧ r.current = g.presence.eval v ∧
      (∀ c cs, g.earlier = c :: cs → r.taken = (c :: cs).any (·.eval v)) ∧ Agrees v rs around
  | _, _ => False

theorem truth_of_ok {o : Context} {v : String → Bool} {d : Directive} {c : Formula}
    (h : condition o d.expression = .ok c) : truth o v d = some (c.eval v) := by
  simp [truth, h]

theorem step_of_plain {o : Context} {v : String → Bool} {rs : List Region} {l : LogicalLine}
    (h : Directive.ofLine? l.text = none) : step o v rs l = some rs := by
  simp [step, h]

theorem step_of_opensChain {o : Context} {v : String → Bool} {rs : List Region}
    {l : LogicalLine} {d : Directive} (hd : Directive.ofLine? l.text = some d)
    (hk : d.keyword.opensChain = true) :
    step o v rs l = (truth o v d).map fun c => ⟨active rs, c, active rs && c⟩ :: rs := by
  simp only [step, hd]
  split <;> first | rfl | simp_all [Keyword.opensChain]

/-- The lines around a branch are kept under its presence condition without its own. -/
theorem eval_presence {v : String → Bool} {rs : List Region} {f : Focus}
    (h : Agrees v rs f.around) (c : Formula) :
    (f.presence c).eval v = (active rs && c.eval v) := by
  unfold Focus.presence
  match rs, hf : f.around with
  | [], [] => simp [active]
  | r :: rs, g :: around =>
    rw [hf] at h
    simp [active, Formula.eval, h.2.1]
  | [], _ :: _ => simp [hf, Agrees] at h
  | _ :: _, [] => simp [hf, Agrees] at h

theorem Agrees.enter {v : String → Bool} {rs : List Region} {f : Focus}
    (h : Agrees v rs f.around) (line : Nat) (c : Formula) {earlier : List Formula} {taken : Bool}
    (ht : ∀ d ds, earlier = d :: ds → taken = (d :: ds).any (·.eval v)) :
    Agrees v (⟨active rs, taken, active rs && c.eval v⟩ :: rs) (f.enter line c earlier).around :=
  ⟨rfl, (eval_presence h c).symm, ht, h⟩

theorem agrees_of_step {o : Context} {file : String} {v : String → Bool} {l : LogicalLine}
    {rs : List Region} {f f' : Focus} (h : Agrees v rs f.around)
    (hs : Focus.Step o file l f f') :
    ∃ rs', step o v rs l = some rs' ∧ Agrees v rs' f'.around := by
  cases hs with
  | plain hd => exact ⟨rs, step_of_plain hd, h⟩
  | opening hd hk hc =>
    refine ⟨_, by rw [step_of_opensChain hd hk, truth_of_ok hc]; rfl, h.enter _ _ ?_⟩
    rintro d ds ⟨⟩
    simp
  | @elseIf blocks g around d c e cs hd hk he hc =>
    match rs, h with
    | r :: rs, ⟨hencl, _, htaken, hout⟩ =>
      have ht := htaken c cs he
      refine ⟨⟨active rs, r.taken || e.eval v,
        active rs && (Formula.and (.noneOf c cs) e).eval v⟩ :: rs, ?_, ?_⟩
      · simp [step, hd, hk, truth_of_ok hc, hencl, ht, Formula.eval, Bool.and_assoc]
      · refine Agrees.enter (f := Focus.leave g file l.number blocks around) hout _ _ ?_
        rintro d ds ⟨⟩
        simp [ht, Bool.or_assoc]
  | @otherwise blocks g around d c cs hd hk he =>
    match rs, h with
    | r :: rs, ⟨hencl, _, htaken, hout⟩ =>
      have ht := htaken c cs he
      refine ⟨⟨active rs, true, active rs && (Formula.noneOf c cs).eval v⟩ :: rs, ?_, ?_⟩
      · simp [step, hd, hk, hencl, ht]
      · refine Agrees.enter (f := Focus.leave g file l.number blocks around) hout _ _ ?_
        rintro d ds ⟨⟩
  | @endIf blocks g around d hd hk =>
    match rs, h with
    | r :: rs, ⟨_, _, _, hout⟩ => exact ⟨rs, by simp [step, hd, hk], hout⟩

theorem agrees_of_acceptAll {o : Context} {file : String} (v : String → Bool)
    {lines : List LogicalLine} {b : Builder}
    (h : Builder.acceptAll {} o file lines = (b, none)) :
    ∃ rs, run o v lines = some rs ∧ Agrees v rs b.focus.around := by
  refine Builder.acceptAll_induction
    (P := fun done f => ∃ rs, run o v done = some rs ∧ Agrees v rs f.around) ?_ ?_ h
  · rintro done l rest f f' - ⟨rs, hrun, hrs⟩ hs
    obtain ⟨rs', hstep, hrs'⟩ := agrees_of_step hrs hs
    refine ⟨rs', ?_, hrs'⟩
    rw [run] at hrun ⊢
    simp [hrun, hstep]
  · exact ⟨[], rfl, trivial⟩

/-- Behind all closed blocks the innermost open branch decides. -/
theorem active_eq_truthAt {v : String → Bool} {rs : List Region} {f : Focus} {n k : Nat}
    (h : Agrees v rs f.around) (hf : Focus.Placed k f) (hn : k ≤ n) :
    active rs = Focus.truthAt v n f.blocks f.around := by
  obtain ⟨blocks, around⟩ := f
  obtain ⟨hin, hout⟩ := hf
  have hnone : Block.innermostOf? n blocks = none := hin.innermostOf?_eq_none hn
  match rs, around, h with
  | [], [], _ => simp [active, Focus.truthAt, Block.truthAt, hnone]
  | r :: rs, g :: around, h =>
    have hg : g.first ≤ n := Nat.le_trans hout.1 hn
    simp [active, Focus.truthAt, Block.truthAt, hnone, hg, h.2.1]

end Inclusion

namespace Builder

theorem acceptAll_cons {b b' : Builder} {o : Context} {file : String} {l : LogicalLine}
    {ls : List LogicalLine} :
    b.acceptAll o file (l :: ls) = (b', none) ↔
      ∃ b₁, b.accept o file l = (b₁, none) ∧ b₁.acceptAll o file ls = (b', none) := by
  simp only [acceptAll]
  split <;> simp_all

/-- The rest of a file does not change what is around a line that was read. -/
theorem truthAt_of_acceptAll {b b' : Builder} {o : Context} {file : String} {v : String → Bool}
    {before after : List LogicalLine} {n : Nat} (hl : Numbered (before ++ after))
    (hn : ∀ l ∈ after, n < l.number) (hb : Focus.Placed (lastNumber before) b.focus)
    (h : b.acceptAll o file after = (b', none)) :
    Focus.truthAt v n b'.focus.blocks b'.focus.around =
      Focus.truthAt v n b.focus.blocks b.focus.around := by
  have hrun : Focus.Placed (lastNumber (before ++ after)) b'.focus ∧
      Focus.truthAt v n b'.focus.blocks b'.focus.around =
        Focus.truthAt v n b.focus.blocks b.focus.around := by
    refine acceptAll_induction (P := fun done f =>
      Focus.Placed (lastNumber (before ++ done)) f ∧
        Focus.truthAt v n f.blocks f.around =
          Focus.truthAt v n b.focus.blocks b.focus.around) ?_ ?_ h
    · rintro done l rest f f' rfl ⟨hf, hv⟩ hs
      have hl' : Numbered ((before ++ done) ++ l :: rest) := by simpa using hl
      refine ⟨?_, (Focus.truthAt_of_step hf (hn l (by simp)) hs).trans hv⟩
      rw [← List.append_assoc, lastNumber_concat]
      exact hf.step hl'.lastNumber_lt hs
    · simpa using hb
  exact hrun.2

end Builder

namespace Inclusion

/-- The machine keeps a line exactly if the blocks of the top level say so. -/
theorem active_eq_of_accepted {o : Context} {file : String} {v : String → Bool} {b : Builder}
    {before after : List LogicalLine} {l : LogicalLine}
    (hl : Numbered (before ++ l :: after)) (hplain : Directive.ofLine? l.text = none)
    (h : Builder.acceptAll {} o file (before ++ l :: after) = (b, none))
    (hend : b.focus = ⟨b.finished, []⟩) :
    ∃ rs, run o v before = some rs ∧ active rs = Block.truthAt v true l.number b.finished := by
  obtain ⟨b₁, hbefore, h⟩ := Builder.acceptAll_append.mp h
  obtain ⟨b₂, hline, hafter⟩ := Builder.acceptAll_cons.mp h
  obtain ⟨rs, hrun, hrs⟩ := agrees_of_acceptAll v hbefore
  have hplaced := Builder.placed_of_acceptAll hl.left hbefore
  have hfocus := (Builder.step_of_accept hline).1.eq_of_plain hplain
  have hplaced' : Focus.Placed (lastNumber (before ++ [l])) b₂.focus := by
    rw [hfocus, lastNumber_concat]
    exact hplaced.mono (Nat.le_of_lt hl.lastNumber_lt)
  have hl' : Numbered ((before ++ [l]) ++ after) := by simpa using hl
  have hlater : ∀ l' ∈ after, l.number < l'.number := by
    intro l' hl'
    exact List.rel_of_pairwise_cons (List.pairwise_append.mp hl.1).2.1 hl'
  refine ⟨rs, hrun, ?_⟩
  rw [active_eq_truthAt hrs hplaced (Nat.le_of_lt hl.lastNumber_lt), ← hfocus,
    ← Builder.truthAt_of_acceptAll hl' hlater hplaced' hafter, hend, Focus.truthAt]

end Inclusion

/-- The blocks returned say the same as those of the top level, with or without a block around the
whole file. -/
theorem truth_of_innermost {v : String → Bool} {n hi last : Nat} {file : String}
    {forest blocks : List Block} (hf : Block.Within 0 hi forest)
    (hb : blocks = forest ∨ blocks = [.whole file last forest]) :
    (∀ b, Block.Innermost n blocks b → Block.truthAt v true n forest = b.presence.eval v) ∧
    ((∀ b, ¬ Block.Innermost n blocks b) → Block.truthAt v true n forest = true) := by
  have hin : ∀ b, Block.Innermost n forest b →
      Block.truthAt v true n forest = b.presence.eval v := by
    intro b hb
    rw [Block.truthAt, hf.innermostOf?_eq hb]
  have hout : (∀ b, ¬ Block.Innermost n forest b) → Block.truthAt v true n forest = true := by
    intro hno
    cases hi : Block.innermostOf? n forest with
    | none => simp [Block.truthAt, hi]
    | some b => exact absurd (hf.innermost hi) (hno b)
  rcases hb with rfl | rfl
  · exact ⟨hin, hout⟩
  · constructor
    · rintro b ⟨hmem, hc, hno⟩
      rcases Block.mem_preorders_cons.mp hmem with rfl | hmem | hmem
      · exact hout fun c hc => hno c hc.mem hc.contains
      · exact hin b ⟨hmem, hc, hno⟩
      · cases hmem
    · intro hno
      refine hout fun c hc => hno c ?_
      exact ⟨Block.mem_preorders_cons.mpr (.inr (.inl hc.mem)), hc.contains, hc.inside⟩

/-- Presence conditions agree with conditional inclusion: under every assignment a line that is no
conditional directive is kept exactly if the presence condition of the innermost block around it
holds, and always if there is no such block. -/
theorem kept_iff_presence {o : Context} {file : String} {lines : List (List Char)}
    {blocks : List Block} {before after : List LogicalLine} {l : LogicalLine}
    (h : readBlocks o file lines = .ok blocks)
    (hl : logicalLines lines = before ++ l :: after)
    (hplain : Directive.ofLine? l.text = none) (v : String → Bool) :
    ∃ rs, Inclusion.run o v before = some rs ∧
      (∀ b, Block.Innermost l.number blocks b →
        (Inclusion.active rs = true ↔ b.presence.eval v = true)) ∧
      ((∀ b, ¬ Block.Innermost l.number blocks b) → Inclusion.active rs = true) := by
  obtain ⟨b, hacc, hend, hblocks⟩ := readBlocks_eq_ok h
  have hnum := logicalLines_numbered lines
  have hplaced := Builder.placed_of_acceptAll hnum hacc
  rw [hl] at hacc hnum
  obtain ⟨rs, hrun, hactive⟩ := Inclusion.active_eq_of_accepted (v := v) hnum hplain hacc hend
  rw [hend] at hplaced
  obtain ⟨hin, hout⟩ := truth_of_innermost (v := v) (n := l.number) hplaced.1 hblocks
  refine ⟨rs, hrun, fun b hb => ?_, fun hno => ?_⟩
  · rw [hactive, hin b hb]
  · rw [hactive, hout hno]

/-- A line in a conditional inside an `#else` branch is kept if the inner condition holds and the
outer one does not. -/
theorem kept_inside_else_branch :
    let lines := ["#ifdef A".toList, "#else".toList, "#ifdef B".toList, "x".toList,
      "#endif".toList, "#endif".toList]
    let before : List LogicalLine := [⟨1, "#ifdef A".toList⟩, ⟨2, "#else".toList⟩,
      ⟨3, "#ifdef B".toList⟩]
    let outer : Formula := .noneOf (.var "A") []
    let inner : Block := ⟨3, 4, "a.c", .var "B", .and outer (.var "B"), []⟩
    let blocks : List Block := [⟨1, 1, "a.c", .var "A", .var "A", []⟩,
      ⟨2, 5, "a.c", outer, outer, [inner]⟩]
    readBlocks {} "a.c" lines = .ok blocks ∧
      logicalLines lines = before ++ ⟨4, "x".toList⟩ ::
        [⟨5, "#endif".toList⟩, ⟨6, "#endif".toList⟩] ∧
      Directive.ofLine? "x".toList = none ∧
      ∀ v, ∃ rs, Inclusion.run {} v before = some rs ∧
        (Inclusion.active rs = true ↔ (Formula.and outer (.var "B")).eval v = true) := by
  intro lines before outer inner blocks
  have h : readBlocks {} "a.c" lines = .ok blocks := by
    with_unfolding_all rfl
  have hl : logicalLines lines = before ++ ⟨4, "x".toList⟩ ::
      [⟨5, "#endif".toList⟩, ⟨6, "#endif".toList⟩] := by
    with_unfolding_all rfl
  have hplain : Directive.ofLine? "x".toList = none := by decide
  have hinner : Block.Innermost 4 blocks inner :=
    ⟨by simp [blocks, inner, Block.preorders, Block.preorder], by simp [Block.Contains, inner],
      by simp [inner, Block.preorders]⟩
  refine ⟨h, hl, hplain, fun v => ?_⟩
  obtain ⟨rs, hrun, hin, -⟩ := kept_iff_presence h hl hplain v
  exact ⟨rs, hrun, hin inner hinner⟩

end Presence

import Presence.Proofs.Block.Focus

/-!
A builder over several calls. Whether a call returns or fails, its builder comes about by the steps
of the lines it took in.
-/
namespace Presence

namespace Builder

variable {o : Context} {file : String} {b b' : Builder}

/-- The builders that calls lead to, those that fail among them. -/
inductive Reachable (o : Context) (file : String) : Builder → Prop
  | start : Reachable o file {}
  | read {b : Builder} (h : Reachable o file b) (source : List (List Char)) :
      Reachable o file (b.read o file source).1

theorem eq_of_accept_error {l : LogicalLine} {e : ReadError}
    (h : b.accept o file l = (b', some e)) : b' = { b with line := l.number } := by
  simp only [accept] at h
  split at h
  · cases h
  · cases h
    rfl

/-- A failing line leaves the blocks and the open branches as they are. -/
theorem focus_of_accept_error {l : LogicalLine} {e : ReadError}
    (h : b.accept o file l = (b', some e)) : b'.focus = b.focus := by
  rw [eq_of_accept_error h]
  rfl

theorem read_cases (b : Builder) (o : Context) (file : String) (source : List (List Char)) :
    (∃ b', b.acceptAll o file (logicalLines source) = (b', none) ∧
      b.read o file source = (b', b'.result o file)) ∨
    ∃ before l after b₁ b' e, logicalLines source = before ++ l :: after ∧
      b.acceptAll o file before = (b₁, none) ∧ b₁.accept o file l = (b', some e) ∧
      b.read o file source = (b', .error e) := by
  unfold read
  split
  · next b' hb' => exact .inl ⟨b', hb', rfl⟩
  · next b' e he =>
    obtain ⟨before, l, after, b₁, hlines, hbefore, hl⟩ := acceptAll_error he
    exact .inr ⟨before, l, after, b₁, b', e, hlines, hbefore, hl, rfl⟩

theorem result_eq_ok_iff {blocks : List Block} :
    b.result o file = .ok blocks ↔ b.stack = [] ∧ blocks =
      if b.contentOutside && o.pseudoBlock then [.whole file (b.line + 1) b.finished]
      else b.finished := by
  unfold result
  split
  · next branch stack hs => simp [hs]
  · next hs => split <;> simp [@eq_comm _ blocks, *]

/-- The blocks come from a builder without open branches. -/
theorem read_eq_ok {source : List (List Char)} {blocks : List Block}
    (h : b.read o file source = (b', .ok blocks)) :
    b.acceptAll o file (logicalLines source) = (b', none) ∧ b'.focus = ⟨b'.finished, []⟩ ∧
      blocks = if b'.contentOutside && o.pseudoBlock then [.whole file (b'.line + 1) b'.finished]
        else b'.finished := by
  rcases read_cases b o file source with ⟨b₁, hacc, hread⟩ | ⟨_, _, _, _, _, _, _, _, _, hread⟩
  · obtain ⟨rfl, hresult⟩ := Prod.mk.inj (hread.symm.trans h)
    obtain ⟨hs, hblocks⟩ := result_eq_ok_iff.mp hresult
    exact ⟨hacc, focus_of_stack_nil hs, hblocks⟩
  · cases (Prod.mk.inj (hread.symm.trans h)).2

theorem focus_induction {P : Focus → Prop}
    (hstep : ∀ l f f', P f → Focus.Step o file l f f' → P f') (hb : P b.focus)
    (source : List (List Char)) : P (b.read o file source).1.focus := by
  have hrun {lines : List LogicalLine} {b' : Builder}
      (h : b.acceptAll o file lines = (b', none)) : P b'.focus :=
    acceptAll_induction (P := fun _ f => P f) (fun _ l _ f f' _ => hstep l f f') hb h
  rcases read_cases b o file source with
    ⟨b', hacc, hread⟩ | ⟨before, l, after, b₁, b', e, -, hbefore, hl, hread⟩
  · rw [hread]
    exact hrun hacc
  · rw [hread]
    show P b'.focus
    rw [focus_of_accept_error hl]
    exact hrun hbefore

/-- What holds before any call and is kept by every step holds after each call. -/
theorem Reachable.invariant {P : Focus → Prop} (h : Reachable o file b) (hstart : P ⟨[], []⟩)
    (hstep : ∀ l f f', P f → Focus.Step o file l f f' → P f') : P b.focus := by
  induction h with
  | start => exact hstart
  | read h source ih => exact focus_induction hstep ih source

end Builder

/-- The blocks that are returned are the top level of the last builder, or one block around it. -/
theorem readBlocks_eq_ok {o : Context} {file : String} {lines : List (List Char)}
    {blocks : List Block} (h : readBlocks o file lines = .ok blocks) :
    ∃ b : Builder, Builder.acceptAll {} o file (logicalLines lines) = (b, none) ∧
      b.focus = ⟨b.finished, []⟩ ∧
      (blocks = b.finished ∨ blocks = [.whole file (b.line + 1) b.finished]) := by
  obtain ⟨hacc, hend, hblocks⟩ := Builder.read_eq_ok (Prod.ext rfl h)
  refine ⟨_, hacc, hend, ?_⟩
  split at hblocks
  · exact .inr hblocks
  · exact .inl hblocks

end Presence

import Presence.Proofs.Block.Session
import Presence.Proofs.Block.Testing
import Presence.Proofs.Condition.Handling

/-!
The modes only add formulas. An expression that has one keeps it when a mode is switched on, and
with it a file that is read keeps its blocks.
-/
namespace Presence

/-- Each mode of the first options is also one of the second. -/
structure Options.ModesWithin (o o' : Options) : Prop where
  linux : o.linux = true → o'.linux = true
  fuzzy : o.fuzzy = true → o'.fuzzy = true

variable {o o' : Options}

namespace Expr

theorem callFormula_mono (h : o.ModesWithin o') {function : String} {a : Expr} {f : Formula}
    (hf : callFormula o function a = .ok f) : callFormula o' function a = .ok f := by
  by_cases ho : o.linux = true
  · rw [callFormula_congr ((h.linux ho).trans ho.symm), hf]
  cases a with
  | identifier name =>
    -- without the mode, `defined` alone has a formula, and it has the same in both modes
    by_cases hdefined : function = definedName
    · rw [callFormula, if_pos hdefined] at hf ⊢
      exact hf
    · simp [callFormula, hdefined, ho, meaningless] at hf
  | _ => cases hf

theorem comparisonFormula_mono (h : o.ModesWithin o') {c : Comparison} {l r : Expr} {f : Formula}
    (hf : comparisonFormula o c l r = .ok f) : comparisonFormula o' c l r = .ok f := by
  by_cases ho : o.fuzzy = true
  · rw [comparisonFormula_congr ((h.fuzzy ho).trans ho.symm), hf]
  · simp [comparisonFormula, ho, meaningless] at hf

/-- A formula is made of the formulas of all operands, so each of them has one to keep. -/
theorem toFormula_mono (h : o.ModesWithin o') {n : Nat} {e : Expr} {f : Formula}
    (hf : e.toFormula o n = .ok f) : e.toFormula o' n = .ok f := by
  fun_induction toFormula o n e generalizing f
  case case2 => exact callFormula_mono h hf
  case case3 ho =>
    rw [toFormula, if_pos (h.fuzzy ho)]
    exact hf
  case case6 ih =>
    obtain ⟨g, hg, hf⟩ := bind_eq_ok_iff.mp hf
    exact bind_eq_ok_iff.mpr ⟨g, ih hg, hf⟩
  case case9 ihl ihr | case10 ihl ihr =>
    obtain ⟨g, hl, hf⟩ := bind_eq_ok_iff.mp hf
    obtain ⟨k, hr, hf⟩ := bind_eq_ok_iff.mp hf
    exact bind_eq_ok_iff.mpr ⟨g, ihl hl, bind_eq_ok_iff.mpr ⟨k, ihr hr, hf⟩⟩
  case case11 => exact comparisonFormula_mono h hf
  all_goals first | exact hf | cases hf

end Expr

theorem formulaOf_mono (h : o.ModesWithin o') {b : CallBudget} {expression : List Char}
    {f : Formula} (hf : formulaOf ⟨o, b⟩ expression = .ok f) :
    formulaOf ⟨o', b⟩ expression = .ok f := by
  obtain ⟨e, he, hf⟩ := bind_eq_ok_iff.mp hf
  exact bind_eq_ok_iff.mpr ⟨e, he, Expr.toFormula_mono h hf⟩

/-- When invalid conditions make the file fail, to switch a mode on changes neither a condition nor
the blocks of a file, as long as there were some without the mode. -/
theorem modes_conservative (ho : o.invalid = .fail) (ho' : o'.invalid = .fail)
    (hpseudo : o.pseudoBlock = o'.pseudoBlock) (hmodes : o.ModesWithin o') (b : CallBudget) :
    (∀ expression f,
      condition ⟨o, b⟩ expression = .ok f → condition ⟨o', b⟩ expression = .ok f) ∧
      ∀ file lines blocks,
        readBlocks ⟨o, b⟩ file lines = .ok blocks → readBlocks ⟨o', b⟩ file lines = .ok blocks := by
  have hcondition : ∀ expression f,
      condition ⟨o, b⟩ expression = .ok f → condition ⟨o', b⟩ expression = .ok f := by
    intro expression f hf
    rw [condition_of_fail ho] at hf
    rw [condition_of_fail ho', formulaOf_mono hmodes hf]
  refine ⟨hcondition, fun file lines blocks hblocks => ?_⟩
  rw [← hblocks]
  symm
  apply readBlocks_congr hpseudo
  rintro l e ⟨before, after, b₁, hlines, hb₁, he⟩
  -- the file is read to its end, so the condition has a formula
  obtain ⟨builder, hrun, -⟩ := readBlocks_eq_ok hblocks
  rw [hlines] at hrun
  obtain ⟨f, hf⟩ := Builder.condition_ok_of_acceptAll hrun hb₁ he
  rw [hf, hcondition e f hf]

/-- A branch that tests a name by `defined` is the same with all modes as with none. -/
theorem modes_conservative_on_defined :
    let o : Options := {}
    let o' : Options := ⟨true, true, .fail, true⟩
    let lines := ["#if !0 && defined(X)".toList, "#else".toList, "#endif".toList]
    o.ModesWithin o' ∧ condition ⟨o', {}⟩ " !0 && defined(X)".toList =
        .ok (.and (.not (.const false)) (.var "X")) ∧
      ∃ blocks, readBlocks ⟨o, {}⟩ "a.c" lines = .ok blocks ∧
        readBlocks ⟨o', {}⟩ "a.c" lines = .ok blocks := by
  intro o o' lines
  have hmodes : o.ModesWithin o' := ⟨fun _ => rfl, fun _ => rfl⟩
  obtain ⟨blocks, hblocks⟩ : ∃ blocks, readBlocks ⟨o, {}⟩ "a.c" lines = .ok blocks :=
    ⟨_, by with_unfolding_all rfl⟩
  obtain ⟨hconditions, hfiles⟩ := modes_conservative (by rfl) (by rfl) (by rfl) hmodes {}
  refine ⟨hmodes, hconditions _ _ ?_, blocks, hblocks, hfiles _ _ _ hblocks⟩
  with_unfolding_all rfl

end Presence

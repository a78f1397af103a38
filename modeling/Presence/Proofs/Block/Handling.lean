import Presence.Proofs.Block.Substitution
import Presence.Proofs.Condition.Handling
import Presence.Proofs.Nesting.Acceptance

/-!
What the handling of invalid conditions does to a file. Under the two that overlook them the runs
keep in step, and the one that fails keeps in step with both up to the first invalid condition.
-/
namespace Presence

theorem Formula.keepsShape_assume (name : String) : KeepsShape (assume name) where
  const _ := rfl
  not _ := rfl
  and _ _ := rfl

namespace Builder

variable {o : Context} {file : String} {b b' : Builder} {handling : InvalidHandling}

/-- Where the run that fails at invalid conditions takes all lines in, so does each other run. -/
theorem acceptAll_of_fail {lines : List LogicalLine}
    (h : b.acceptAll { o with invalid := .fail } file lines = (b', none))
    (handling : InvalidHandling) :
    b.acceptAll { o with invalid := handling } file lines = (b', none) := by
  rw [← h]
  symm
  apply acceptAll_congr
  rintro before l after b₁ e rfl hb₁ he
  obtain ⟨c, hc⟩ := condition_ok_of_acceptAll h hb₁ he
  have hvalid := not_invalid_of_condition_ok hc
  rw [condition_of_not_invalid hvalid, condition_of_not_invalid hvalid]

/-- A line that fails although invalid conditions are overlooked fails under each handling, and for
the same reason. -/
theorem accept_error_of_overlooking {l : LogicalLine} {x : ReadError}
    (hhandling : handling ≠ .fail)
    (h : b.accept { o with invalid := handling } file l = (b', some x)) :
    b.accept { o with invalid := .fail } file l = (b', some x) := by
  rw [← h]
  apply accept_congr
  intro e he
  obtain ⟨y, hy⟩ := he.condition_error h
  have hvalid := not_invalid_of_condition_error hhandling hy
  rw [condition_of_not_invalid hvalid, condition_of_not_invalid hvalid]

end Builder

/-- The handling of invalid conditions bears on conditions alone. Files are refused alike if these
count as true or become a variable, and the blocks differ in that variable. If they make the file
fail, the outcome is the same as long as no invalid one is tested. The first that is tested is
reported with its line, unless a line before it fails for its nesting or the digit limit, which is
then reported instead. The variable may not occur in conditions that have a formula. -/
theorem handling_changes_conditions {o : Context} {file : String} {lines : List (List Char)}
    (hname : ∀ l e f, TestedAt { o with invalid := .errorVariable } file lines l e →
      formulaOf o e = .ok f → f.count errorVariableName = 0) :
    let run handling := readBlocks { o with invalid := handling } file lines
    run .assumeTrue = (run .errorVariable).map
      (List.map (Block.mapConditions (Formula.assume errorVariableName))) ∧
    ((∀ l e, TestedAt { o with invalid := .fail } file lines l e → ¬ Invalid o e) →
      run .fail = run .errorVariable ∧ run .fail = run .assumeTrue) ∧
    (∀ l e x, TestedAt { o with invalid := .fail } file lines l e →
      formulaOf o e = .error x → x.isRecoverable = true →
        run .fail = .error (.format ⟨.invalidCondition e x, l.number, file⟩)) ∧
    ∀ handling before l after b b' x, handling ≠ .fail →
      logicalLines lines = before ++ l :: after →
      Builder.acceptAll {} { o with invalid := .fail } file before = (b, none) →
      b.accept { o with invalid := handling } file l = (b', some x) →
        run .fail = .error x ∧ run handling = .error x ∧
          ((∃ d, x = .digitLimit d) ∨
            ∃ p : FormatProblem, p.IsStructural ∧ x = .format ⟨p, l.number, file⟩) := by
  intro run
  constructor
  · apply readBlocks_mapConditions (Formula.keepsShape_assume _)
    · rfl
    · intro l e he
      exact condition_assumeTrue fun f hf => hname l e f he hf
  constructor
  · intro hvalid
    have hsame : ∀ handling, run .fail = run handling := by
      intro handling
      apply readBlocks_congr
      · rfl
      · intro l e he
        rw [condition_of_not_invalid (hvalid l e he), condition_of_not_invalid (hvalid l e he)]
    exact ⟨hsame .errorVariable, hsame .assumeTrue⟩
  constructor
  · intro l e x he hx hrecoverable
    exact readBlocks_of_condition_error he (condition_of_invalid hx hrecoverable).1 hrecoverable
  · intro handling before l after b b' x hhandling hlines hb hl
    have hfail := Builder.accept_error_of_overlooking hhandling hl
    have hrun := Builder.acceptAll_of_fail hb handling
    refine ⟨readBlocks_of_accept_error hlines hb hfail,
      readBlocks_of_accept_error hlines hrun hl, ?_⟩
    rcases Builder.accept_error hhandling hl with hx | ⟨-, hp⟩
    · exact .inl hx
    · exact .inr hp

/-- An `#elif` without an expression is overlooked or reported at its line. -/
theorem handling_of_incomplete_elif :
    let o : Context := {}
    let lines := ["#ifdef A".toList, "#elif 1 +".toList, "#else".toList, "#endif".toList]
    (∀ l e f, TestedAt { o with invalid := .errorVariable } "a.c" lines l e →
      formulaOf o e = .ok f → f.count errorVariableName = 0) ∧
    readBlocks { o with invalid := .assumeTrue } "a.c" lines =
      (readBlocks { o with invalid := .errorVariable } "a.c" lines).map
        (List.map (Block.mapConditions (Formula.assume errorVariableName))) ∧
    ∃ x, readBlocks { o with invalid := .fail } "a.c" lines =
      .error (.format ⟨.invalidCondition " 1 +".toList x, 2, "a.c"⟩) := by
  intro o lines
  have hlines : logicalLines lines = [⟨1, "#ifdef A".toList⟩, ⟨2, "#elif 1 +".toList⟩,
      ⟨3, "#else".toList⟩, ⟨4, "#endif".toList⟩] := by
    with_unfolding_all rfl
  have hdefined : formulaOf o "defined(A)".toList = .ok (.var "A") := by
    with_unfolding_all rfl
  have hsum : formulaOf o " 1 +".toList =
      .error (.grammar ⟨.operandMissing, [⟨.endOfText, 5⟩]⟩) := by
    with_unfolding_all rfl
  have hname : ∀ l e f, TestedAt { o with invalid := .errorVariable } "a.c" lines l e →
      formulaOf o e = .ok f → f.count errorVariableName = 0 := by
    intro l e f he hf
    obtain ⟨hl, d, hd, rfl, hk⟩ := he.directive
    rw [hlines] at hl
    simp only [List.mem_cons, List.not_mem_nil, or_false] at hl
    rcases hl with rfl | rfl | rfl | rfl
    · cases hd
      cases hdefined.symm.trans hf
      decide
    · cases hd
      cases hsum.symm.trans hf
    · cases hd
      simp [Keyword.opensChain] at hk
    · cases hd
      simp [Keyword.opensChain] at hk
  have htested : TestedAt { o with invalid := .fail } "a.c" lines ⟨2, "#elif 1 +".toList⟩
      " 1 +".toList := by
    have hfirst : Builder.acceptAll {} { o with invalid := .fail } "a.c"
        [⟨1, "#ifdef A".toList⟩] =
          (⟨[], [⟨1, .var "A", .var "A", [], [.var "A"]⟩], false, 1⟩, none) := by
      with_unfolding_all rfl
    refine ⟨_, _, _, hlines, hfirst, ?_⟩
    exact .elseIf (d := ⟨.elseIf, " 1 +".toList⟩) rfl rfl rfl (List.cons_ne_nil _ _)
  obtain ⟨hrun, -, hreport, -⟩ := handling_changes_conditions hname
  exact ⟨hname, hrun, _, hreport _ _ _ htested hsum rfl⟩

end Presence

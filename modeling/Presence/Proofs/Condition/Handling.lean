import Presence.Proofs.Condition.Fragment

/-!
What the handling of invalid conditions does to a condition. One with a formula stays as it is under
each handling, and so does a failure at the digit limit.
-/
namespace Presence

namespace Expr

variable {o o' : Options}

theorem callFormula_congr (hlinux : o'.linux = o.linux) (function : String) (a : Expr) :
    callFormula o' function a = callFormula o function a := by
  cases a with
  | identifier name => simp only [callFormula, hlinux]
  | _ => rfl

theorem comparisonFormula_congr (hfuzzy : o'.fuzzy = o.fuzzy) (c : Comparison) (l r : Expr) :
    comparisonFormula o' c l r = comparisonFormula o c l r := by
  simp only [comparisonFormula, hfuzzy]

theorem toFormula_congr (hlinux : o'.linux = o.linux) (hfuzzy : o'.fuzzy = o.fuzzy) (n : Nat)
    (e : Expr) : e.toFormula o' n = e.toFormula o n := by
  fun_induction toFormula o n e
  case case2 => exact callFormula_congr hlinux _ _
  case case3 ho => rw [toFormula, hfuzzy, if_pos ho]
  case case4 ho => rw [toFormula, hfuzzy, if_neg ho]
  case case6 ih => rw [toFormula, ih]
  case case8 hnot hminus => simp only [toFormula]
  case case9 ihl ihr => rw [toFormula, ihl, ihr]
  case case10 ihl ihr => rw [toFormula, ihl, ihr]
  case case11 => exact comparisonFormula_congr hfuzzy _ _ _
  all_goals rfl

end Expr

theorem formulaOf_congr {o o' : Context} (hlinux : o'.linux = o.linux)
    (hfuzzy : o'.fuzzy = o.fuzzy) (hbudget : o'.budget = o.budget) (expression : List Char) :
    formulaOf o' expression = formulaOf o expression := by
  simp only [formulaOf, hbudget, Expr.toFormula_congr hlinux hfuzzy]

/-- The expression has no formula, for a reason that can be overlooked. -/
def Invalid (o : Context) (expression : List Char) : Prop :=
  ∃ x, formulaOf o expression = .error x ∧ x.isRecoverable = true

instance (o : Context) (expression : List Char) : Decidable (Invalid o expression) :=
  match h : formulaOf o expression with
  | .ok _ => isFalse fun ⟨_, hx, _⟩ => nomatch h.symm.trans hx
  | .error x =>
    if hx : x.isRecoverable = true then isTrue ⟨x, h, hx⟩
    else isFalse fun ⟨_, hy, hrecoverable⟩ =>
      hx (Except.error.inj (h.symm.trans hy) ▸ hrecoverable)

section Handling

variable {o : Context} {expression : List Char}

theorem formulaOf_handling (o : Context) (handling : InvalidHandling) (expression : List Char) :
    formulaOf { o with invalid := handling } expression = formulaOf o expression := by
  apply formulaOf_congr
  · rfl
  · rfl
  · rfl

theorem condition_of_fail (ho : o.invalid = .fail) (expression : List Char) :
    condition o expression = formulaOf o expression := by
  unfold condition
  split
  · next f hf => exact hf.symm
  · next x hx =>
    rw [hx, ho]
    rfl

/-- A condition is the same under all handlings unless it is invalid. -/
theorem condition_of_not_invalid (h : ¬ Invalid o expression) (handling : InvalidHandling) :
    condition { o with invalid := handling } expression = formulaOf o expression := by
  have hformula := formulaOf_handling o handling expression
  unfold condition
  cases hresult : formulaOf o expression with
  | ok f => simp only [hformula, hresult]
  | error x =>
    have hx : ¬ x.isRecoverable = true := fun hx => h ⟨x, hresult, hx⟩
    simp only [hformula, hresult]
    cases handling <;> simp [InvalidHandling.substitute?, hx]

theorem condition_of_invalid {x : ConditionError} (h : formulaOf o expression = .error x)
    (hx : x.isRecoverable = true) :
    condition { o with invalid := .fail } expression = .error x ∧
      condition { o with invalid := .assumeTrue } expression = .ok (.const true) ∧
      condition { o with invalid := .errorVariable } expression =
        .ok (.var errorVariableName) := by
  have hformula : ∀ handling, formulaOf { o with invalid := handling } expression = .error x :=
    fun handling => (formulaOf_handling o handling expression).trans h
  refine ⟨?_, ?_, ?_⟩ <;> simp [condition, hformula, InvalidHandling.substitute?, hx]

theorem not_invalid_of_condition_error {handling : InvalidHandling} {x : ConditionError}
    (hhandling : handling ≠ .fail)
    (h : condition { o with invalid := handling } expression = .error x) :
    ¬ Invalid o expression := by
  rintro ⟨y, hy, hrecoverable⟩
  obtain ⟨-, htrue, hvariable⟩ := condition_of_invalid hy hrecoverable
  cases handling with
  | fail => exact hhandling rfl
  | assumeTrue =>
    rw [htrue] at h
    cases h
  | errorVariable =>
    rw [hvariable] at h
    cases h

theorem not_invalid_of_condition_ok {f : Formula}
    (h : condition { o with invalid := .fail } expression = .ok f) : ¬ Invalid o expression := by
  rintro ⟨x, hx, hrecoverable⟩
  rw [(condition_of_invalid hx hrecoverable).1] at h
  cases h

end Handling

namespace Formula

def assume (name : String) : Formula → Formula
  | const b => const b
  | var n => if n = name then const true else var n
  | not f => not (f.assume name)
  | and l r => and (l.assume name) (r.assume name)
  | or l r => or (l.assume name) (r.assume name)

theorem assume_of_count_eq_zero {name : String} {f : Formula} (h : f.count name = 0) :
    f.assume name = f := by
  induction f with
  | const b => rfl
  | var n =>
    by_cases hn : n = name
    · simp [count, hn] at h
    · rw [assume, if_neg hn]
  | not f ih => rw [assume, ih h]
  | and l r ihl ihr | or l r ihl ihr =>
    have hparts := Nat.add_eq_zero_iff.mp h
    rw [assume, ihl hparts.1, ihr hparts.2]

end Formula

/-- Taken to be true, the variable for invalid conditions makes them count as true. -/
theorem condition_assumeTrue {o : Context} {expression : List Char}
    (h : ∀ f, formulaOf o expression = .ok f → f.count errorVariableName = 0) :
    condition { o with invalid := .assumeTrue } expression =
      (condition { o with invalid := .errorVariable } expression).map
        (Formula.assume errorVariableName) := by
  by_cases hinvalid : Invalid o expression
  · obtain ⟨x, hx, hrecoverable⟩ := hinvalid
    obtain ⟨-, htrue, hvariable⟩ := condition_of_invalid hx hrecoverable
    rw [htrue, hvariable]
    rfl
  · rw [condition_of_not_invalid hinvalid, condition_of_not_invalid hinvalid]
    cases hformula : formulaOf o expression with
    | ok f => rw [Except.map, Formula.assume_of_count_eq_zero (h f hformula)]
    | error x => rfl

end Presence

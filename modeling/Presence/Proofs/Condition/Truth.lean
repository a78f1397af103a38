import Presence.Proofs.Condition.Fragment

/-!
What a formula says. Where its variables say what they are named for, it holds just when the
expression has a value other than zero.
-/
namespace Presence

/-- What is known of macros: which names are defined, and the numbers that names stand for. -/
structure Macros where
  isDefined : String → Bool
  value : String → Int

def truthNumber (b : Bool) : Int :=
  if b then 1 else 0

theorem truthNumber_ne_zero_iff {b : Bool} : truthNumber b ≠ 0 ↔ b = true := by
  cases b <;> simp [truthNumber]

def Comparison.holds : Comparison → Int → Int → Bool
  | eq, x, y => x = y
  | ne, x, y => x ≠ y
  | lt, x, y => x < y
  | le, x, y => x ≤ y
  | gt, x, y => x > y
  | ge, x, y => x ≥ y

theorem Comparison.holds_swap (c : Comparison) (x y : Int) : c.swap.holds x y = c.holds y x := by
  cases c with
  | eq => exact decide_eq_decide.mpr eq_comm
  | ne => exact decide_eq_decide.mpr ne_comm
  | lt | le | gt | ge => rfl

namespace Macros

/-- What a call says of a name, if it is one that tests names. -/
def test? (m : Macros) (function name : String) : Option Bool :=
  if function = "defined" then some (m.isDefined name)
  else if function = "IS_ENABLED" then
    some (m.isDefined name || m.isDefined (name ++ "_MODULE"))
  else if function = "IS_BUILTIN" then some (m.isDefined name)
  else if function = "IS_MODULE" then some (m.isDefined (name ++ "_MODULE"))
  else none

end Macros

def Atom.holds (m : Macros) : Atom → Bool
  | defined name => m.isDefined name
  | nonzero name => m.value name ≠ 0
  | number name c value => c.holds (m.value name) value
  | names name c other => c.holds (m.value name) (m.value other)

namespace Expr

/-- The value of an expression over integers of any size. `&&` and `||` take their right operand in
only if the left one leaves the outcome open. -/
def value? (m : Macros) : Expr → Option Int
  | integer _ value => some value
  | identifier name => some (m.value name)
  | call function (identifier name) => (m.test? function name).map truthNumber
  | unary .not x => do
    let a ← x.value? m
    return truthNumber (a = 0)
  | unary .minus x => do
    let a ← x.value? m
    return -a
  | binary .and l r => do
    let a ← l.value? m
    if a = 0 then return 0
    let b ← r.value? m
    return truthNumber (b ≠ 0)
  | binary .or l r => do
    let a ← l.value? m
    if a ≠ 0 then return 1
    let b ← r.value? m
    return truthNumber (b ≠ 0)
  | binary (.compare c) l r => do
    let a ← l.value? m
    let b ← r.value? m
    return truthNumber (c.holds a b)
  | _ => none

/-- The expression has a value, which is other than zero if the formula holds. -/
def Reflects (m : Macros) (v : String → Bool) (e : Expr) (f : Formula) : Prop :=
  ∃ x, e.value? m = some x ∧ (f.eval v = true ↔ x ≠ 0)

/-- The variables of an expression hold as what they are about does. -/
def Respects (m : Macros) (v : String → Bool) (e : Expr) : Prop :=
  ∀ a ∈ e.atoms, v a.variableName = a.holds m

variable {o : Options} {m : Macros} {v : String → Bool}

theorem reflects_integer (spelling : String) (value : Int) :
    Reflects m v (.integer spelling value) (literalFormula value) := by
  refine ⟨value, rfl, ?_⟩
  simp [literalFormula, Formula.eval]

theorem reflects_negative (spelling : String) (value : Int) :
    Reflects m v (.unary .minus (.integer spelling value)) (literalFormula (-value)) := by
  refine ⟨-value, rfl, ?_⟩
  simp [literalFormula, Formula.eval]

theorem reflects_of_callFormula {function : String} {a : Expr} {f : Formula}
    (hv : Respects m v (.call function a)) (h : callFormula o function a = .ok f) :
    Reflects m v (.call function a) f := by
  obtain ⟨name, rfl, htest⟩ := callFormula_eq_ok h
  -- A test of the name gives the number of its truth.
  have hreflects {b : Bool} (hb : m.test? function name = some b) (hf : f.eval v = b) :
      Reflects m v (.call function (.identifier name)) f := by
    refine ⟨truthNumber b, by simp [value?, hb], ?_⟩
    rw [hf, truthNumber_ne_zero_iff]
  rcases htest with ⟨rfl, rfl⟩ | ⟨-, ⟨rfl, rfl⟩ | ⟨rfl, rfl⟩ | ⟨rfl, rfl⟩⟩
  · have hname : v name = m.isDefined name := hv (.defined name) (by simp [atoms])
    exact hreflects (by simp [Macros.test?]) hname
  · have hname : v name = m.isDefined name := hv (.defined name) (by simp [atoms])
    have hmodule : v (name ++ "_MODULE") = m.isDefined (name ++ "_MODULE") :=
      hv (.defined (name ++ "_MODULE")) (by simp [atoms])
    refine hreflects (by simp [Macros.test?]; rfl) ?_
    rw [Formula.eval, Formula.eval, Formula.eval, hname, hmodule]
  · have hname : v name = m.isDefined name := hv (.defined name) (by simp [atoms])
    exact hreflects (by simp [Macros.test?]) hname
  · have hmodule : v (name ++ "_MODULE") = m.isDefined (name ++ "_MODULE") :=
      hv (.defined (name ++ "_MODULE")) (by simp [atoms])
    exact hreflects (by simp [Macros.test?]) hmodule

theorem reflects_of_comparisonFormula {c : Comparison} {l r : Expr} {f : Formula}
    (hv : Respects m v (.binary (.compare c) l r)) (h : comparisonFormula o c l r = .ok f) :
    Reflects m v (.binary (.compare c) l r) f := by
  obtain ⟨htr, a, hatoms, rfl⟩ := comparisonFormula_eq_ok h
  have ha : v a.variableName = a.holds m := hv a (by simp [hatoms])
  -- The one variable says how the values compare, with the name on the left.
  have hvalue : (Expr.binary (.compare c) l r).value? m = some (truthNumber (a.holds m)) := by
    cases htr with
    | nameNumber _ name spelling value =>
      obtain rfl : Atom.number name c value = a := by simpa [atoms] using hatoms
      rfl
    | numberName _ name spelling value =>
      obtain rfl : Atom.number name c.swap value = a := by simpa [atoms] using hatoms
      show some (truthNumber (c.holds value (m.value name))) = _
      rw [Atom.holds, Comparison.holds_swap]
    | nameName _ name other =>
      obtain rfl : Atom.names name c other = a := by simpa [atoms] using hatoms
      rfl
  refine ⟨_, hvalue, ?_⟩
  rw [Formula.eval, ha, truthNumber_ne_zero_iff]

theorem Reflects.not {x : Expr} {f : Formula} (h : Reflects m v x f) :
    Reflects m v (.unary .not x) (.not f) := by
  obtain ⟨a, ha, hf⟩ := h
  refine ⟨truthNumber (a = 0), by simp [value?, ha], ?_⟩
  rw [truthNumber_ne_zero_iff, Formula.eval, Bool.not_eq_true', decide_eq_true_iff,
    ← Bool.not_eq_true, hf, Decidable.not_not]

theorem Reflects.and {l r : Expr} {f g : Formula} (hl : Reflects m v l f)
    (hr : Reflects m v r g) : Reflects m v (.binary .and l r) (.and f g) := by
  obtain ⟨a, ha, hf⟩ := hl
  obtain ⟨b, hb, hg⟩ := hr
  by_cases hzero : a = 0
  · refine ⟨0, by simp [value?, ha, hzero], ?_⟩
    have hfalse : f.eval v = false := by simpa [hzero] using hf
    simp [Formula.eval, hfalse]
  · refine ⟨truthNumber (b ≠ 0), by simp [value?, ha, hb, hzero], ?_⟩
    rw [truthNumber_ne_zero_iff, Formula.eval, Bool.and_eq_true, hf, hg, decide_eq_true_iff]
    simp [hzero]

theorem Reflects.or {l r : Expr} {f g : Formula} (hl : Reflects m v l f)
    (hr : Reflects m v r g) : Reflects m v (.binary .or l r) (.or f g) := by
  obtain ⟨a, ha, hf⟩ := hl
  obtain ⟨b, hb, hg⟩ := hr
  by_cases hzero : a = 0
  · refine ⟨truthNumber (b ≠ 0), by simp [value?, ha, hb, hzero], ?_⟩
    rw [truthNumber_ne_zero_iff, Formula.eval, Bool.or_eq_true, hf, hg, decide_eq_true_iff]
    simp [hzero]
  · refine ⟨1, by simp [value?, ha, hzero], ?_⟩
    have htrue : f.eval v = true := hf.mpr hzero
    simp [Formula.eval, htrue]

theorem reflects_of_toFormula {n : Nat} {e : Expr} {f : Formula} (hv : Respects m v e)
    (h : e.toFormula o n = .ok f) : Reflects m v e f := by
  fun_induction toFormula o n e generalizing f
  case case1 => cases h
  case case2 => exact reflects_of_callFormula hv h
  case case3 name ho =>
    cases h
    have hname := hv (.nonzero name) (by simp [atoms])
    refine ⟨m.value name, rfl, ?_⟩
    rw [Formula.eval, show v (nonzeroVariable name) = _ from hname]
    simp [Atom.holds]
  case case4 => cases h
  case case5 spelling value =>
    cases h
    exact reflects_integer spelling value
  case case6 ih =>
    obtain ⟨g, hg, hfg⟩ := bind_eq_ok_iff.mp h
    cases hfg
    exact (ih hv hg).not
  case case7 spelling value =>
    cases h
    exact reflects_negative spelling value
  case case8 => cases h
  case case9 ihl ihr =>
    obtain ⟨f, hf, h⟩ := bind_eq_ok_iff.mp h
    obtain ⟨g, hg, hfg⟩ := bind_eq_ok_iff.mp h
    cases hfg
    obtain ⟨hvl, hvr⟩ := List.forall_mem_append.mp hv
    exact (ihl hvl hf).and (ihr hvr hg)
  case case10 ihl ihr =>
    obtain ⟨f, hf, h⟩ := bind_eq_ok_iff.mp h
    obtain ⟨g, hg, hfg⟩ := bind_eq_ok_iff.mp h
    cases hfg
    obtain ⟨hvl, hvr⟩ := List.forall_mem_append.mp hv
    exact (ihl hvl hf).or (ihr hvr hg)
  case case11 => exact reflects_of_comparisonFormula hv h
  case case12 => cases h
  case case13 => cases h
  case case14 => cases h

/-- Unless a limit is met, the expressions of the fragment have a formula and no others do, and what
is wrong with those is their meaning. Where variables say of macros what they are named for, the
formula holds just when the expression has a value other than zero. The budget that is enough is the
depth of the expression, and only numbers that become part of a name are too long. -/
theorem toFormula_exact {n : Nat} {e : Expr}
    (hlimit : ∀ x, e.toFormula o n = .error x → ¬ x.IsLimit) :
    ((∃ f, e.toFormula o n = .ok f) ↔ e.Translatable o) ∧
    (¬ e.Translatable o → ∃ p, e.toFormula o n = .error (.meaning p)) ∧
    (∀ f, e.toFormula o n = .ok f → ∀ (m : Macros) (v : String → Bool),
      (∀ a ∈ e.atoms, v a.variableName = a.holds m) →
        ∃ x, e.value? m = some x ∧ (f.eval v = true ↔ x ≠ 0)) ∧
    (∀ k, e.depth ≤ k → e.toFormula o k ≠ .error .tooDeep) ∧
    ∀ k d, e.toFormula o k = .error (.digitLimit d) → ∃ a ∈ e.atoms, a.IsLong := by
  refine ⟨⟨?_, ?_⟩, ?_, ?_, ?_, ?_⟩
  · rintro ⟨f, hf⟩
    exact translatable_of_toFormula hf
  · intro htr
    cases h : e.toFormula o n with
    | ok f => exact ⟨f, rfl⟩
    | error x =>
      cases lacks_of_toFormula h with
      | meaning p hno => exact absurd htr hno
      | tooDeep => exact absurd trivial (hlimit _ h)
      | digitLimit => exact absurd trivial (hlimit _ h)
  · intro hno
    cases h : e.toFormula o n with
    | ok f => exact absurd (translatable_of_toFormula h) hno
    | error x =>
      cases lacks_of_toFormula h with
      | meaning p => exact ⟨p, rfl⟩
      | tooDeep => exact absurd trivial (hlimit _ h)
      | digitLimit => exact absurd trivial (hlimit _ h)
  · intro f hf m v hv
    exact reflects_of_toFormula hv hf
  · intro k hk h
    cases lacks_of_toFormula h with
    | tooDeep hlt => omega
  · intro k d h
    cases lacks_of_toFormula h with
    | digitLimit _ _ hlong => exact hlong

/-- All kinds of tests, and each comparison with the number on the right and on the left. Everything
holds of `A` with the value 4, `B` with the value 9, and no kernel option but the module `B`. -/
theorem toFormula_exact_mirrored :
    let o : Options := { linux := true, fuzzy := true }
    let compare (c : Comparison) (l r : Expr) : Expr := .binary (.compare c) l r
    let number (n : Int) : Expr := .integer (toString n) n
    let tests : List (Expr × Formula) := [
      (.call "defined" (.identifier "C"), .var "C"),
      (.call "IS_ENABLED" (.identifier "B"), .or (.var "B") (.var "B_MODULE")),
      (.unary .not (.call "IS_BUILTIN" (.identifier "B")), .not (.var "B")),
      (.call "IS_MODULE" (.identifier "B"), .var "B_MODULE"),
      (compare .eq (.identifier "A") (number 4), .var "A_eq_4"),
      (compare .eq (number 4) (.identifier "A"), .var "A_eq_4"),
      (compare .ne (.identifier "A") (number 0), .var "A_ne_0"),
      (compare .ne (number 2) (.identifier "A"), .var "A_ne_2"),
      (compare .lt (.identifier "A") (number 5), .var "A_lt_5"),
      (compare .gt (number 5) (.identifier "A"), .var "A_lt_5"),
      (compare .le (.identifier "A") (number 4), .var "A_le_4"),
      (compare .ge (number 4) (.identifier "A"), .var "A_le_4"),
      (compare .gt (.identifier "A") (number 3), .var "A_gt_3"),
      (compare .lt (number 3) (.identifier "A"), .var "A_gt_3"),
      (compare .ge (.identifier "A") (number 4), .var "A_ge_4"),
      (compare .le (number 4) (.identifier "A"), .var "A_ge_4"),
      (compare .lt (.identifier "A") (.identifier "B"), .var "A_lt_B")]
    let e : Expr := (tests.map (·.1)).foldl (.binary .and) (.identifier "A")
    let f : Formula := (tests.map (·.2)).foldl .and (.var "A_ne_0")
    let m : Macros := ⟨fun name => name ≠ "B", fun name => if name = "A" then 4 else 9⟩
    let v : String → Bool := fun name => name ≠ "B"
    (∀ x, e.toFormula o 20 = .error x → ¬ x.IsLimit) ∧ e.Translatable o ∧
      e.toFormula o 20 = .ok f ∧ (∀ a ∈ e.atoms, v a.variableName = a.holds m) ∧
      ∃ x, e.value? m = some x ∧ x ≠ 0 := by
  intro o compare number tests e f m v
  have hf : e.toFormula o 20 = .ok f := by with_unfolding_all rfl
  have hlimit : ∀ x, e.toFormula o 20 = .error x → ¬ x.IsLimit := by simp [hf]
  have hv : ∀ a ∈ e.atoms, v a.variableName = a.holds m := by
    decide +kernel
  obtain ⟨hiff, -, htruth, -⟩ := toFormula_exact hlimit
  obtain ⟨x, hx, htrue⟩ := htruth f hf m v hv
  have hholds : f.eval v = true := by decide +kernel
  exact ⟨hlimit, hiff.mp ⟨f, hf⟩, hf, hv, x, hx, htrue.mp hholds⟩

end Expr
end Presence

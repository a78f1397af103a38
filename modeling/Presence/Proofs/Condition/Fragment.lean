import Presence.Condition
import Presence.Proofs.Expr.Completeness

/-!
The expressions that have a formula, and what stands against the others: an operator or operand
without a meaning, nesting beyond the budget, or a number that is too long to be part of a name.
-/
namespace Presence

inductive Atom
  | defined (name : String)
  | nonzero (name : String)
  | number (name : String) (c : Comparison) (value : Int)
  | names (name : String) (c : Comparison) (other : String)
  deriving DecidableEq, Repr

/-- The word for a comparison in the name of a variable. -/
def Comparison.word : Comparison → String
  | eq => "_eq_"
  | ne => "_ne_"
  | lt => "_lt_"
  | le => "_le_"
  | gt => "_gt_"
  | ge => "_ge_"

theorem Comparison.tag_eq_word (c : Comparison) : c.tag = c.word := by
  cases c <;> rfl

namespace Atom

/-- The variables that formulas are expected to have. -/
def variableName : Atom → String
  | defined name => name
  | nonzero name => name ++ "_ne_0"
  | number name c value => name ++ c.word ++ toString value
  | names name c other => name ++ c.word ++ other

/-- A number in it has more digits than decimal text may have. -/
def IsLong : Atom → Prop
  | number _ _ value => decimalDigitLimit < (Nat.toDigits 10 value.natAbs).length
  | _ => False

end Atom

/-- A number becomes part of a name as decimal text or not at all. -/
theorem numberVariable_eq_ok {start : String} {value : Int} {f : Formula}
    (h : (match decimalText value with
      | .ok text => Except.ok (Formula.var (start ++ text))
      | .error d => .error (ConditionError.digitLimit d)) = .ok f) :
    f = .var (start ++ toString value) := by
  unfold decimalText at h
  split at h
  · next text htext =>
    split at htext <;> cases htext
    exact (Except.ok.inj h).symm
  · cases h

theorem numberVariable_eq_error {start : String} {value : Int} {x : ConditionError}
    (h : (match decimalText value with
      | .ok text => Except.ok (Formula.var (start ++ text))
      | .error d => .error (ConditionError.digitLimit d)) = .error x) :
    ∃ d, x = .digitLimit d ∧ decimalDigitLimit < (Nat.toDigits 10 value.natAbs).length := by
  unfold decimalText at h
  split at h
  · cases h
  · next d hd =>
    cases h
    split at hd
    · next hlong => exact ⟨d, rfl, hlong⟩
    · cases hd

namespace Expr

/-- The calls that test kernel options. -/
def optionTests : List String :=
  ["IS_ENABLED", "IS_BUILTIN", "IS_MODULE"]

/-- The expressions that have a formula. -/
inductive Translatable (o : Options) : Expr → Prop
  | integer (spelling : String) (value : Int) : Translatable o (.integer spelling value)
  | negative (spelling : String) (value : Int) :
      Translatable o (.unary .minus (.integer spelling value))
  | defined (name : String) : Translatable o (.call "defined" (.identifier name))
  | optionTest {function : String} (name : String) (ho : o.linux = true)
      (hf : function ∈ optionTests) : Translatable o (.call function (.identifier name))
  | bare (name : String) (ho : o.fuzzy = true) : Translatable o (.identifier name)
  | nameNumber (c : Comparison) (name spelling : String) (value : Int) (ho : o.fuzzy = true) :
      Translatable o (.binary (.compare c) (.identifier name) (.integer spelling value))
  | numberName (c : Comparison) (name spelling : String) (value : Int) (ho : o.fuzzy = true) :
      Translatable o (.binary (.compare c) (.integer spelling value) (.identifier name))
  | nameName (c : Comparison) (name other : String) (ho : o.fuzzy = true) :
      Translatable o (.binary (.compare c) (.identifier name) (.identifier other))
  | not {x : Expr} (hx : Translatable o x) : Translatable o (.unary .not x)
  | and {l r : Expr} (hl : Translatable o l) (hr : Translatable o r) :
      Translatable o (.binary .and l r)
  | or {l r : Expr} (hl : Translatable o l) (hr : Translatable o r) :
      Translatable o (.binary .or l r)

/-- What the formula of an expression is about. -/
def atoms : Expr → List Atom
  | identifier name => [.nonzero name]
  | call function (identifier name) =>
    if function = "IS_ENABLED" then [.defined name, .defined (name ++ "_MODULE")]
    else if function = "IS_MODULE" then [.defined (name ++ "_MODULE")]
    else [.defined name]
  | unary _ x => x.atoms
  | binary (.compare c) (identifier name) (integer _ value) => [.number name c value]
  | binary (.compare c) (integer _ value) (identifier name) => [.number name c.swap value]
  | binary (.compare c) (identifier name) (identifier other) => [.names name c other]
  | binary _ l r => l.atoms ++ r.atoms
  | _ => []

/-- The levels of operands, which take a unit of the budget each. -/
def depth : Expr → Nat
  | unary _ x => x.depth + 1
  | binary _ l r => max l.depth r.depth + 1
  | _ => 1

theorem depth_pos (e : Expr) : 0 < e.depth := by
  cases e <;> simp [depth]

variable {o : Options}

theorem callFormula_eq_ok {function : String} {a : Expr} {f : Formula}
    (h : callFormula o function a = .ok f) :
    ∃ name, a = .identifier name ∧
      (function = "defined" ∧ f = .var name ∨
        o.linux = true ∧
          (function = "IS_ENABLED" ∧ f = .or (.var name) (.var (name ++ "_MODULE")) ∨
            function = "IS_BUILTIN" ∧ f = .var name ∨
            function = "IS_MODULE" ∧ f = .var (name ++ "_MODULE"))) := by
  cases a with
  | identifier name =>
    refine ⟨name, rfl, ?_⟩
    simp only [callFormula] at h
    split at h
    · next hf => exact .inl ⟨hf, (Except.ok.inj h).symm⟩
    split at h
    · next hf => exact .inr ⟨hf.1, .inl ⟨hf.2, (Except.ok.inj h).symm⟩⟩
    split at h
    · next hf => exact .inr ⟨hf.1, .inr (.inl ⟨hf.2, (Except.ok.inj h).symm⟩)⟩
    split at h
    · next hf => exact .inr ⟨hf.1, .inr (.inr ⟨hf.2, (Except.ok.inj h).symm⟩)⟩
    · cases h
  | _ => cases h

theorem callFormula_eq_error {function : String} {a : Expr} {x : ConditionError}
    (h : callFormula o function a = .error x) :
    (∃ m, x = .meaning m) ∧ ¬ Translatable o (.call function a) := by
  cases a with
  | identifier name =>
    simp only [callFormula] at h
    split at h
    · cases h
    next hdefined =>
    split at h
    · cases h
    next henabled =>
    split at h
    · cases h
    next hbuiltin =>
    split at h
    · cases h
    next hmodule =>
    cases h
    refine ⟨⟨_, rfl⟩, fun htr => ?_⟩
    cases htr with
    | defined => exact hdefined rfl
    | optionTest _ ho hf =>
      simp only [optionTests, List.mem_cons, List.not_mem_nil, or_false] at hf
      rcases hf with rfl | rfl | rfl
      · exact henabled ⟨ho, rfl⟩
      · exact hbuiltin ⟨ho, rfl⟩
      · exact hmodule ⟨ho, rfl⟩
  | _ =>
    cases h
    exact ⟨⟨_, rfl⟩, by rintro ⟨⟩⟩

theorem comparisonFormula_eq_ok {c : Comparison} {l r : Expr} {f : Formula}
    (h : comparisonFormula o c l r = .ok f) :
    Translatable o (.binary (.compare c) l r) ∧
      ∃ a, (Expr.binary (.compare c) l r).atoms = [a] ∧ f = .var a.variableName := by
  unfold comparisonFormula at h
  cases ho : o.fuzzy with
  | false => simp [ho, meaningless] at h
  | true =>
    simp only [ho, Bool.not_true, Bool.false_eq_true, if_false] at h
    split at h
    · next name spelling value =>
      have hf := numberVariable_eq_ok h
      rw [Comparison.tag_eq_word] at hf
      exact ⟨.nameNumber c name spelling value ho, .number name c value, rfl, hf⟩
    · next spelling value name =>
      have hf := numberVariable_eq_ok h
      rw [Comparison.tag_eq_word] at hf
      exact ⟨.numberName c name spelling value ho, .number name c.swap value, rfl, hf⟩
    · next name other =>
      cases h
      refine ⟨.nameName c name other ho, .names name c other, rfl, ?_⟩
      rw [Comparison.tag_eq_word]
      rfl
    · cases h

/-- Why an expression can have no formula. -/
inductive Lacks (o : Options) (budget : Nat) (e : Expr) : ConditionError → Prop
  | meaning (m : MeaningError) (h : ¬ e.Translatable o) : Lacks o budget e (.meaning m)
  | tooDeep (h : budget < e.depth) : Lacks o budget e .tooDeep
  | digitLimit (d : DigitLimitError) (ho : o.fuzzy = true) (h : ∃ a ∈ e.atoms, a.IsLong) :
      Lacks o budget e (.digitLimit d)

theorem lacks_of_comparisonFormula {n : Nat} {c : Comparison} {l r : Expr} {x : ConditionError}
    (h : comparisonFormula o c l r = .error x) : Lacks o n (.binary (.compare c) l r) x := by
  unfold comparisonFormula at h
  cases ho : o.fuzzy with
  | false =>
    simp only [ho, Bool.not_false, if_true] at h
    cases h
    refine .meaning _ fun htr => ?_
    cases htr <;> simp_all
  | true =>
    simp only [ho, Bool.not_true, Bool.false_eq_true, if_false] at h
    split at h
    · next name spelling value =>
      obtain ⟨d, rfl, hlong⟩ := numberVariable_eq_error h
      exact .digitLimit d ho ⟨.number name c value, by simp [atoms], hlong⟩
    · next spelling value name =>
      obtain ⟨d, rfl, hlong⟩ := numberVariable_eq_error h
      exact .digitLimit d ho ⟨.number name c.swap value, by simp [atoms], hlong⟩
    · cases h
    · next hnumber hswapped hnames =>
      cases h
      refine .meaning _ fun htr => ?_
      cases htr with
      | nameNumber => exact hnumber _ _ _ rfl rfl
      | numberName => exact hswapped _ _ _ rfl rfl
      | nameName => exact hnames _ _ rfl rfl

/-- An obstacle of an operand is one of the expression. -/
theorem Lacks.lift {n : Nat} {e e' : Expr} {x : ConditionError} (h : Lacks o n e x)
    (htr : e'.Translatable o → e.Translatable o) (hdepth : e.depth < e'.depth)
    (hatoms : ∀ a ∈ e.atoms, a ∈ e'.atoms) : Lacks o (n + 1) e' x := by
  cases h with
  | meaning m h => exact .meaning m fun h' => h (htr h')
  | tooDeep h => exact .tooDeep (by omega)
  | digitLimit d ho h =>
    obtain ⟨a, ha, hlong⟩ := h
    exact .digitLimit d ho ⟨a, hatoms a ha, hlong⟩

/-- A connective fails where its left operand does, or else its right one. -/
theorem lacks_of_operands {n : Nat} {op : BinaryOp} {l r : Expr}
    {x : ConditionError} {k : Formula → Formula → Formula} (hop : op = .and ∨ op = .or)
    (ihl : ∀ {x}, toFormula o n l = .error x → Lacks o n l x)
    (ihr : ∀ {x}, toFormula o n r = .error x → Lacks o n r x)
    (h : (do
      let f ← toFormula o n l
      let g ← toFormula o n r
      return k f g) = .error x) : Lacks o (n + 1) (.binary op l r) x := by
  have hatoms : (Expr.binary op l r).atoms = l.atoms ++ r.atoms := by
    rcases hop with rfl | rfl <;> rfl
  have hparts : (Expr.binary op l r).Translatable o → l.Translatable o ∧ r.Translatable o := by
    intro h
    rcases hop with rfl | rfl
    · cases h with
      | and hl hr => exact ⟨hl, hr⟩
    · cases h with
      | or hl hr => exact ⟨hl, hr⟩
  rcases bind_eq_error_iff.mp h with hl | ⟨f, -, h⟩
  · refine (ihl hl).lift (fun h => (hparts h).1) ?_ ?_
    · simp only [depth]
      omega
    · intro a ha
      rw [hatoms]
      exact List.mem_append_left _ ha
  · rcases bind_eq_error_iff.mp h with hr | ⟨g, -, h⟩
    · refine (ihr hr).lift (fun h => (hparts h).2) ?_ ?_
      · simp only [depth]
        omega
      · intro a ha
        rw [hatoms]
        exact List.mem_append_right _ ha
    · cases h

theorem lacks_of_toFormula {n : Nat} {e : Expr} {x : ConditionError}
    (h : e.toFormula o n = .error x) : Lacks o n e x := by
  fun_induction toFormula o n e generalizing x
  case case1 e =>
    cases h
    exact .tooDeep e.depth_pos
  case case2 n function argument =>
    obtain ⟨⟨m, rfl⟩, hno⟩ := callFormula_eq_error h
    exact .meaning m hno
  case case3 => cases h
  case case4 ho =>
    cases h
    refine .meaning _ fun htr => ?_
    cases htr with
    | bare _ ho' => exact ho ho'
  case case5 => cases h
  case case6 n x ih =>
    rcases bind_eq_error_iff.mp h with hx | ⟨f, -, h⟩
    · refine (ih hx).lift (fun htr => ?_) ?_ fun a ha => ha
      · cases htr with
        | not hx => exact hx
      · simp only [depth]
        omega
    · cases h
  case case7 => cases h
  case case8 n op operand hnot hminus =>
    cases h
    refine .meaning _ fun htr => ?_
    cases htr with
    | negative spelling value => exact hminus spelling value rfl rfl
    | not => exact hnot rfl
  case case9 ihl ihr => exact lacks_of_operands (.inl rfl) ihl ihr h
  case case10 ihl ihr => exact lacks_of_operands (.inr rfl) ihl ihr h
  case case11 => exact lacks_of_comparisonFormula h
  case case12 =>
    cases h
    exact .meaning _ (by rintro ⟨⟩)
  case case13 =>
    cases h
    exact .meaning _ (by rintro ⟨⟩)
  case case14 =>
    cases h
    exact .meaning _ (by rintro ⟨⟩)

theorem translatable_of_toFormula {n : Nat} {e : Expr} {f : Formula}
    (h : e.toFormula o n = .ok f) : e.Translatable o := by
  fun_induction toFormula o n e generalizing f
  case case1 => cases h
  case case2 n function argument =>
    obtain ⟨name, rfl, ⟨rfl, -⟩ | ⟨ho, hf⟩⟩ := callFormula_eq_ok h
    · exact .defined name
    · refine .optionTest name ho ?_
      rcases hf with ⟨rfl, -⟩ | ⟨rfl, -⟩ | ⟨rfl, -⟩ <;> simp [optionTests]
  case case3 name ho => exact .bare name ho
  case case4 => cases h
  case case5 spelling value => exact .integer spelling value
  case case6 ih =>
    obtain ⟨g, hg, -⟩ := bind_eq_ok_iff.mp h
    exact .not (ih hg)
  case case7 spelling value => exact .negative spelling value
  case case8 => cases h
  case case9 ihl ihr =>
    obtain ⟨f, hf, h⟩ := bind_eq_ok_iff.mp h
    obtain ⟨g, hg, -⟩ := bind_eq_ok_iff.mp h
    exact .and (ihl hf) (ihr hg)
  case case10 ihl ihr =>
    obtain ⟨f, hf, h⟩ := bind_eq_ok_iff.mp h
    obtain ⟨g, hg, -⟩ := bind_eq_ok_iff.mp h
    exact .or (ihl hf) (ihr hg)
  case case11 => exact (comparisonFormula_eq_ok h).1
  case case12 => cases h
  case case13 => cases h
  case case14 => cases h

end Expr
end Presence

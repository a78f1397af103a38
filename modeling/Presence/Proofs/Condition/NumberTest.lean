import Mathlib.Algebra.Ring.Nat
import Presence.Proofs.Condition.Fragment
import Presence.Proofs.Expr.Fault
import Presence.Proofs.Expr.Recognition

/-!
Tests of a name against a number. The variable of a test is read from its end: no tag ends in a
digit, so the digits at the end are the number, and in front of it stand a tag, which is four
characters long, and the name.
-/
namespace Presence

def Comparison.punctuator : Comparison → Punctuator
  | eq => .equal
  | ne => .unequal
  | lt => .less
  | le => .atMost
  | gt => .greater
  | ge => .atLeast

namespace Comparison

theorem symbol_punctuator (c : Comparison) : c.punctuator.symbol = c.symbol := by
  cases c <;> rfl

theorem ofSymbol_symbol (c : Comparison) : BinaryOp.ofSymbol c.symbol = .compare c := by
  cases c <;> decide

theorem length_tag (c : Comparison) : c.tag.toList.length = 4 := by
  cases c <;> rfl

theorem tag_injective : Function.Injective tag := by
  intro c c' h
  cases c <;> cases c' <;> first | rfl | simp [tag] at h

theorem getLast_tag (c : Comparison) : c.tag.toList.getLast? = some '_' := by
  cases c <;> rfl

end Comparison

/-- A text that does not end in a digit does not end in digits. -/
theorem eq_nil_of_digits {s d : List Char} (hs : ∀ c ∈ (s ++ d).getLast?, c.isDigit = false)
    (hd : ∀ c ∈ d, c.isDigit = true) : d = [] := by
  rcases List.eq_nil_or_concat d with rfl | ⟨ds, c, rfl⟩
  · rfl
  · have hdigit := hd c (by simp)
    rw [hs c (by simp)] at hdigit
    cases hdigit

/-- A text is taken apart where the digits at its end begin. -/
theorem append_digits_inj {s s' d d' : List Char}
    (hs : ∀ c ∈ s.getLast?, c.isDigit = false) (hs' : ∀ c ∈ s'.getLast?, c.isDigit = false)
    (hd : ∀ c ∈ d, c.isDigit = true) (hd' : ∀ c ∈ d', c.isDigit = true)
    (h : s ++ d = s' ++ d') : s = s' ∧ d = d' := by
  rcases List.append_eq_append_iff.mp h with ⟨a, rfl, rfl⟩ | ⟨a, rfl, rfl⟩
  · obtain rfl := eq_nil_of_digits hs' (List.forall_mem_append.mp hd).1
    simp
  · obtain rfl := eq_nil_of_digits hs (List.forall_mem_append.mp hd').1
    simp

namespace IntegerConstant

theorem pow_mul_le_foldl (r : Radix) (digits : List Char) (n : Nat) :
    r.base ^ digits.length * n ≤ digits.foldl (fun n c => r.base * n + digitValue c) n := by
  induction digits generalizing n with
  | nil => simp
  | cons c digits ih =>
    calc
      r.base ^ (c :: digits).length * n = r.base ^ digits.length * (r.base * n) := by
        rw [List.length_cons, Nat.pow_succ, Nat.mul_assoc]
      _ ≤ r.base ^ digits.length * (r.base * n + digitValue c) :=
        Nat.mul_le_mul_left _ (Nat.le_add_right _ _)
      _ ≤ _ := ih _

theorem lt_length_toDigits {n m : Nat} (h : 10 ^ n ≤ m) : n < (Nat.toDigits 10 m).length := by
  rcases Nat.eq_zero_or_pos n with rfl | hn
  · exact Nat.length_toDigits_pos
  · have hiff := Nat.length_toDigits_le_iff (b := 10) (n := m) (by decide) hn
    omega

theorem digitValue_pos {c : Char} (hc : c.isDigit = true) (hzero : c ≠ '0') :
    0 < digitValue c := by
  have hrange := Char.isDigit_iff_toNat.mp hc
  have hne : c.toNat ≠ '0'.toNat := fun h => hzero (Char.toNat_inj.mp h)
  rw [digitValue, if_pos hc]
  omega

/-- A decimal constant begins with a digit other than zero. -/
theorem exists_digits_eq_cons {s : List Char} {k : IntegerConstant} (h : ofSpelling? s = some k)
    (hk : k.radix = .decimal) : ∃ c digits, k.digits = c :: digits ∧ 0 < digitValue c := by
  unfold ofSpelling? at h
  split at h
  case h_4 hzero =>
    obtain ⟨hne, -, rfl⟩ := ofDigits?_eq_some_iff.mp h
    match s with
    | [] => exact absurd rfl hne
    | c :: s =>
      by_cases hc : Radix.decimal.isDigit c = true
      · refine ⟨c, s.takeWhile Radix.decimal.isDigit, List.takeWhile_cons_of_pos hc, ?_⟩
        refine digitValue_pos hc ?_
        rintro rfl
        exact hzero _ rfl
      · rw [List.takeWhile_cons_of_neg hc] at hne
        exact absurd rfl hne
  all_goals
    obtain ⟨-, -, rfl⟩ := ofDigits?_eq_some_iff.mp h
    cases hk

/-- A decimal constant has no zero at the front, so it is written as its value is. -/
theorem length_digits_le {s : List Char} {k : IntegerConstant} (h : ofSpelling? s = some k)
    (hk : k.radix = .decimal) : k.digits.length ≤ (Nat.toDigits 10 k.value).length := by
  obtain ⟨c, digits, hdigits, hc⟩ := exists_digits_eq_cons h hk
  have hvalue : 10 ^ digits.length ≤ k.value := by
    calc
      10 ^ digits.length ≤ 10 ^ digits.length * digitValue c :=
        Nat.le_mul_of_pos_right _ hc
      _ ≤ digits.foldl (fun n c => 10 * n + digitValue c) (digitValue c) :=
        pow_mul_le_foldl .decimal digits _
      _ = k.value := by simp [value, Radix.valueOf, hk, hdigits, Radix.base]
  rw [hdigits, List.length_cons, Nat.succ_le_iff]
  exact lt_length_toDigits hvalue

/-- A constant whose value can be written in decimal can be read. -/
theorem read_of_short {s : List Char} {k : IntegerConstant} (h : ofSpelling? s = some k)
    (hshort : (Nat.toDigits 10 k.value).length ≤ decimalDigitLimit) : k.read = .ok k.value := by
  unfold read
  rw [if_neg]
  rintro ⟨hk, hlong⟩
  have := length_digits_le h hk
  omega

end IntegerConstant

namespace Expr

theorem Derives.of_equality {w : List Lexeme} {e : Expr} (h : Derives (.tier .equality) w e)
    (hw : w.head? ≠ some (.punctuator .not)) : Derives .conditional w e := by
  have hbitXor : Derives (.tier .bitXor) w e := .single (.single h)
  have hnegation : Derives .negation w e := .bare hw (.single hbitXor)
  exact .plain (.single (.single hnegation))

theorem derives_comparison (c : Comparison) {x y : Lexeme} {l r : Expr}
    (hl : Derives .primary [x] l) (hr : Derives .primary [y] r) (hx : x ≠ .punctuator .not)
    (hy : y ≠ .punctuator .not) :
    Derives .conditional [x, .punctuator c.punctuator, y] (.binary (.compare c) l r) := by
  have hleft := hl.of_primary (by simpa using hx)
  have hright := hr.of_primary (by simpa using hy)
  have hjoin (t : Tier) (hp : c.punctuator ∈ t.operators) :
      Derives (.tier t) [x, .punctuator c.punctuator, y] (.binary (.compare c) l r) := by
    rw [← c.ofSymbol_symbol, ← c.symbol_punctuator]
    exact .join (hleft (.tier t)) hp (hright t.operand)
  have hequality : Derives (.tier .equality) [x, .punctuator c.punctuator, y]
      (.binary (.compare c) l r) := by
    cases c with
    | eq | ne => exact hjoin .equality (by decide)
    | lt | le | gt | ge => exact .single (hjoin .relational (by decide))
  exact hequality.of_equality (by simpa using hx)

end Expr

/-- A name that is compared with a number. -/
structure NumberTest where
  name : String
  comparison : Comparison
  value : Nat
  deriving DecidableEq, Repr

namespace NumberTest

def variableName (t : NumberTest) : String :=
  t.name ++ t.comparison.tag ++ toString t.value

/-- A name alone is compared with zero, and a comparison with the number in front is mirrored. The
number can have any spelling of its value. -/
inductive WrittenAs : NumberTest → List Lexeme → Prop
  | bare {name : String} (hname : name ≠ Expr.definedName) :
      WrittenAs ⟨name, .ne, 0⟩ [.identifier name]
  | nameFirst {name s : String} (c : Comparison) {k : IntegerConstant}
      (hname : name ≠ Expr.definedName)
      (hs : IntegerConstant.ofSpelling? s.toList = some k) :
      WrittenAs ⟨name, c, k.value⟩ [.identifier name, .punctuator c.punctuator, .integer s]
  | numberFirst {name s : String} (c : Comparison) {k : IntegerConstant}
      (hname : name ≠ Expr.definedName)
      (hs : IntegerConstant.ofSpelling? s.toList = some k) :
      WrittenAs ⟨name, c.swap, k.value⟩ [.integer s, .punctuator c.punctuator, .identifier name]

def IsShort (t : NumberTest) : Prop :=
  (Nat.toDigits 10 t.value).length ≤ decimalDigitLimit

instance (t : NumberTest) : Decidable t.IsShort :=
  Nat.decLe _ _

theorem toList_variableName (t : NumberTest) :
    t.variableName.toList =
      t.name.toList ++ t.comparison.tag.toList ++ Nat.toDigits 10 t.value := by
  rw [variableName, String.toList_append, String.toList_append, Nat.toString_eq_repr,
    Nat.toList_repr]

/-- In front of the digits stands a tag, whose last character is none. -/
theorem isDigit_getLast_front (t : NumberTest) :
    ∀ c ∈ (t.name.toList ++ t.comparison.tag.toList).getLast?, c.isDigit = false := by
  rw [List.getLast?_append, t.comparison.getLast_tag]
  intro c hc
  obtain rfl : '_' = c := Option.some.inj hc
  rfl

/-- Whatever the name ends in, no two tests have one variable. -/
theorem variableName_injective : Function.Injective variableName := by
  intro t t' h
  have hchars := congrArg String.toList h
  rw [toList_variableName, toList_variableName] at hchars
  obtain ⟨hfront, hdigits⟩ := append_digits_inj t.isDigit_getLast_front t'.isDigit_getLast_front
    (fun c hc => Nat.isDigit_of_mem_toDigits (by decide) (by decide) hc)
    (fun c hc => Nat.isDigit_of_mem_toDigits (by decide) (by decide) hc) hchars
  have hlength : t.comparison.tag.toList.length = t'.comparison.tag.toList.length := by
    rw [Comparison.length_tag, Comparison.length_tag]
  obtain ⟨hname, htag⟩ := List.append_inj' hfront hlength
  have hvalue : t.value = t'.value := by
    rw [← Nat.ofDigitChars_ten_toDigits (n := t.value), hdigits, Nat.ofDigitChars_ten_toDigits]
  have hcomparison : t.comparison = t'.comparison :=
    Comparison.tag_injective (String.toList_inj.mp htag)
  obtain ⟨name, comparison, value⟩ := t
  obtain rfl : name = t'.name := String.toList_inj.mp hname
  obtain rfl : comparison = t'.comparison := hcomparison
  obtain rfl : value = t'.value := hvalue
  rfl

variable {t : NumberTest} {w : List Lexeme}

theorem WrittenAs.length_le (h : t.WrittenAs w) : w.length ≤ 3 := by
  cases h <;> simp

/-- An integer in a test is a constant with the value of the test. -/
theorem WrittenAs.value_of_mem (h : t.WrittenAs w) {s : String} {k : IntegerConstant}
    (hs : .integer s ∈ w) (hk : IntegerConstant.ofSpelling? s.toList = some k) :
    k.value = t.value := by
  cases h with
  | bare => simp at hs
  | nameFirst c hname hk' | numberFirst c hname hk' =>
    simp only [List.mem_cons, reduceCtorEq, Lexeme.integer.injEq, List.not_mem_nil, or_false,
      false_or] at hs
    subst hs
    cases hk'.symm.trans hk
    rfl

theorem decimalText_of_isShort (ht : t.IsShort) :
    decimalText t.value = .ok (toString t.value) := by
  rw [decimalText, Int.natAbs_natCast, if_neg (Nat.not_lt.mpr ht)]
  rfl

/-- A name alone is called like its comparison with zero. -/
theorem nonzeroVariable_eq (name : String) :
    nonzeroVariable name = variableName ⟨name, .ne, 0⟩ := by
  have hsuffix : Comparison.ne.tag ++ toString 0 = "_ne_0" := by decide
  simp only [nonzeroVariable, variableName, String.append_assoc, hsuffix]

/-- A test is written as one tree, and the formula of the tree is the variable of the test. -/
theorem WrittenAs.exists_tree {o : Options} (ho : o.fuzzy = true) (h : t.WrittenAs w)
    (ht : t.IsShort) :
    ∃ e, Expr.Derives .conditional w e ∧
      ∀ n, e.toFormula o (n + 1) = .ok (.var t.variableName) := by
  have htext := decimalText_of_isShort ht
  cases h with
  | @bare name hname =>
    refine ⟨.identifier name, .of_primary (.identifier hname) (by simp) _, fun n => ?_⟩
    rw [Expr.toFormula, if_pos ho, nonzeroVariable_eq]
  | @nameFirst name s c k hname hk =>
    refine ⟨.binary (.compare c) (.identifier name) (.integer s k.value),
      Expr.derives_comparison c (.identifier hname) (.integer hk) (by simp) (by simp), fun n => ?_⟩
    simp [Expr.toFormula, Expr.comparisonFormula, ho, htext, variableName]
  | @numberFirst name s c k hname hk =>
    refine ⟨.binary (.compare c) (.integer s k.value) (.identifier name),
      Expr.derives_comparison c (.integer hk) (.identifier hname) (by simp) (by simp), fun n => ?_⟩
    simp [Expr.toFormula, Expr.comparisonFormula, ho, htext, variableName]

/-- Its number can be read, and its few tokens are within each budget. -/
theorem WrittenAs.ofTokens (b : CallBudget) {tokens : List Token} {e : Expr} (h : t.WrittenAs w)
    (ht : t.IsShort) (hend : EndsText tokens) (hw : lexemes tokens = w ++ [.endOfText])
    (he : Expr.Derives .conditional w e) :
    Expr.ofTokens b.calls tokens = .ok e := by
  have hword : lexemes tokens.dropLast = w := calc
    lexemes tokens.dropLast = (lexemes tokens).dropLast := List.map_dropLast
    _ = w := by rw [hw, List.dropLast_concat]
  rw [← hword] at he
  obtain hok | ⟨x, hx, hlimit⟩ := Expr.yields_ofTokens b.calls hend he
  · exact hok
  cases Expr.refuses_of_ofTokens hx with
  | grammar g => exact hlimit.elim
  | tooDeep hneed =>
    have hlength := congrArg List.length hw
    have hle := h.length_le
    simp only [List.length_map, List.length_append, List.length_singleton] at hlength
    have hroom := b.room
    simp only [leastCalls] at hroom
    simp only [Level.need, Level.rank] at hneed
    omega
  | digitLimit d =>
    obtain ⟨tok, htok, s, k, d', hs, hk, hd'⟩ := Expr.hasLongInteger_of_ofTokens hx
    have hmem : .integer s ∈ lexemes tokens := List.mem_map.mpr ⟨tok, htok, hs⟩
    have hvalue := h.value_of_mem (by simpa [hw] using hmem) hk
    have hshort : (Nat.toDigits 10 k.value).length ≤ decimalDigitLimit := by rwa [hvalue]
    rw [IntegerConstant.read_of_short hk hshort] at hd'
    cases hd'

theorem WrittenAs.formulaOf {o : Context} (ho : o.fuzzy = true) (h : t.WrittenAs w)
    (ht : t.IsShort) {expression : List Char}
    (hscan : (scan expression).map lexemes = .ok (w ++ [.endOfText])) :
    Presence.formulaOf o expression = .ok (.var t.variableName) := by
  obtain ⟨tokens, htokens, hw⟩ := map_eq_ok_iff.mp hscan
  obtain ⟨e, he, hformula⟩ := h.exists_tree ho ht
  have hread := h.ofTokens o.budget ht (endsText_of_scan htokens) hw he
  obtain ⟨n, hn⟩ := o.budget.exists_translatedLevels_eq (k := 1) (by decide)
  rw [Presence.formulaOf, Expr.ofChars, htokens]
  simp only [hread, hn]
  exact hformula n

end NumberTest

/-- With the mode for them, the variables of comparisons with numbers are canonical and unambiguous.
Two such comparisons, names alone among them, have one variable just when they are one test: of the
same name against the same value, with the same comparison once the name stands in front. -/
theorem numberTests_canonical {o : Context} (ho : o.fuzzy = true) {e e' : List Char}
    {w w' : List Lexeme} {t t' : NumberTest}
    (he : (scan e).map lexemes = .ok (w ++ [.endOfText]))
    (he' : (scan e').map lexemes = .ok (w' ++ [.endOfText]))
    (hw : t.WrittenAs w) (hw' : t'.WrittenAs w') (ht : t.IsShort) (ht' : t'.IsShort) :
    ∃ v v', formulaOf o e = .ok (.var v) ∧ formulaOf o e' = .ok (.var v') ∧
      (v = v' ↔ t = t') :=
  ⟨t.variableName, t'.variableName, hw.formulaOf ho ht he, hw'.formulaOf ho ht' he',
    NumberTest.variableName_injective.eq_iff⟩

/-- A name that ends like a tag is compared with sixteen, in hexadecimal on the left and in octal on
the right. -/
theorem numberTests_of_sixteen :
    let o : Context := { fuzzy := true }
    let t : NumberTest := ⟨"X_ne_", .gt, 16⟩
    let w : List Lexeme := [.integer "0x10uL", .punctuator .less, .identifier "X_ne_"]
    let w' : List Lexeme := [.identifier "X_ne_", .punctuator .greater, .integer "020"]
    (scan "0x10uL<X_ne_".toList).map lexemes = .ok (w ++ [.endOfText]) ∧
      (scan "X_ne_ > 020".toList).map lexemes = .ok (w' ++ [.endOfText]) ∧
      t.WrittenAs w ∧ t.WrittenAs w' ∧ t.IsShort ∧
      ∃ v, formulaOf o "0x10uL<X_ne_".toList = .ok (.var v) ∧
        formulaOf o "X_ne_ > 020".toList = .ok (.var v) := by
  intro o t w w'
  have hscan : (scan "0x10uL<X_ne_".toList).map lexemes = .ok (w ++ [.endOfText]) := by
    with_unfolding_all rfl
  have hscan' : (scan "X_ne_ > 020".toList).map lexemes = .ok (w' ++ [.endOfText]) := by
    with_unfolding_all rfl
  have hw : t.WrittenAs w :=
    .numberFirst .lt (k := ⟨.hexadecimal, ['1', '0'], ['u', 'L']⟩) (by decide) rfl
  have hw' : t.WrittenAs w' :=
    .nameFirst .gt (k := ⟨.octal, ['0', '2', '0'], []⟩) (by decide) rfl
  have ht : t.IsShort := by decide
  obtain ⟨v, v', hv, hv', hiff⟩ :=
    numberTests_canonical (o := o) rfl hscan hscan' hw hw' ht ht
  obtain rfl := hiff.mpr rfl
  exact ⟨hscan, hscan', hw, hw', ht, v, hv, hv'⟩

end Presence

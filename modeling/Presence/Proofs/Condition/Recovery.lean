import Presence.Proofs.Condition.Handling
import Presence.Proofs.Expr.Fault
import Presence.Proofs.Expr.Recognition
import Presence.Proofs.Nesting.Acceptance
import Presence.Proofs.Token.Composition

/-!
How far overlooking invalid conditions goes. Every fault of an expression is overlooked, and only a
number beyond the limit on decimal text stops a condition or a file.
-/
namespace Presence

/-- One of the integer constants is spelled in decimal with too many digits to be read. -/
def HasLongSpelling (tokens : List Token) : Prop :=
  ∃ s c, .integer s ∈ lexemes tokens ∧ IntegerConstant.ofSpelling? s.toList = some c ∧
    c.radix = .decimal ∧ decimalDigitLimit < c.digits.length

/-- With the mode for comparisons, a number would become part of a name for which it has too many
digits. -/
def HasLongName (o : Options) (tokens : List Token) : Prop :=
  o.fuzzy = true ∧
    ∃ e, Expr.Derives .conditional (lexemes tokens.dropLast) e ∧ ∃ a ∈ e.atoms, a.IsLong

/-- A number of the text is beyond the limit on decimal text. -/
def ExceedsDigitLimit (o : Options) (expression : List Char) : Prop :=
  ∃ tokens, scan expression = .ok tokens ∧ (HasLongSpelling tokens ∨ HasLongName o tokens)

theorem exceedsDigitLimit_of_formulaOf {o : Context} {expression : List Char}
    {d : DigitLimitError} (h : formulaOf o expression = .error (.digitLimit d)) :
    ExceedsDigitLimit o.toOptions expression := by
  unfold formulaOf Expr.ofChars at h
  cases hscan : scan expression with
  | error x =>
    rw [hscan] at h
    cases h
  | ok tokens =>
    rw [hscan] at h
    refine ⟨tokens, hscan, ?_⟩
    rcases bind_eq_error_iff.mp h with hread | ⟨e, hread, hformula⟩
    · obtain ⟨t, ht, s, c, d', hs, hc, hd⟩ := Expr.hasLongInteger_of_ofTokens hread
      have hlong : c.radix = .decimal ∧ decimalDigitLimit < c.digits.length := by
        unfold IntegerConstant.read at hd
        split at hd
        · next hlong => exact hlong
        · cases hd
      exact .inl ⟨s, c, List.mem_map.mpr ⟨t, ht, hs⟩, hc, hlong⟩
    · have htree := Expr.derives_of_ofTokens (endsText_of_scan hscan) hread
      cases Expr.lacks_of_toFormula hformula with
      | digitLimit _ ho hatom => exact .inr ⟨ho, e, htree, hatom⟩

theorem condition_of_substitute {o : Context} {f : Formula}
    (hf : o.invalid.substitute? = some f) {expression : List Char}
    (hlimit : ∀ d, formulaOf o expression ≠ .error (.digitLimit d)) :
    (∃ g, formulaOf o expression = .ok g ∧ condition o expression = .ok g) ∨
      ∃ x, formulaOf o expression = .error x ∧ condition o expression = .ok f := by
  unfold condition
  cases hformula : formulaOf o expression with
  | ok g => exact .inl ⟨g, rfl, rfl⟩
  | error x =>
    refine .inr ⟨x, rfl, ?_⟩
    have hrecoverable : x.isRecoverable = true := by
      cases x with
      | digitLimit d => exact absurd hformula (hlimit d)
      | _ => rfl
    simp only [hf, hrecoverable, if_true]

theorem Builder.exceedsDigitLimit_of_accept {o : Context} {file : String} {b b' : Builder}
    {l : LogicalLine} {x : DigitLimitError} (h : b.accept o file l = (b', some (.digitLimit x))) :
    ∃ d, Directive.ofLine? l.text = some d ∧ ExceedsDigitLimit o.toOptions d.expression := by
  obtain ⟨d, hd, htested | ⟨-, p, -, hp⟩⟩ := accept_error_cases h
  · refine ⟨d, hd, ?_⟩
    unfold testedCondition at htested
    split at htested
    · cases htested
    · next y hy =>
      unfold condition at hy
      split at hy
      · cases hy
      · next z hz =>
        have hsame : z = .digitLimit y := by
          split at hy
          · split at hy <;> cases hy
            rfl
          · exact Except.error.inj hy
        subst hsame
        exact exceedsDigitLimit_of_formulaOf hz
    · cases htested
  · cases hp

/-- Overlooking invalid conditions is total up to the digit limit. As long as no number goes beyond
it, in a decimal constant or in the name of a variable, each condition is the formula of its
expression or what stands in for one, and each file has blocks unless its conditionals are at
fault. -/
theorem recovery_within_digit_limit {o : Context} {f : Formula}
    (hf : o.invalid.substitute? = some f) :
    (∀ expression, ¬ ExceedsDigitLimit o.toOptions expression →
      (∃ g, formulaOf o expression = .ok g ∧ condition o expression = .ok g) ∨
        ∃ x, formulaOf o expression = .error x ∧ condition o expression = .ok f) ∧
    ∀ file lines,
      (∀ l ∈ logicalLines lines, ∀ d, Directive.ofLine? l.text = some d →
        ¬ ExceedsDigitLimit o.toOptions d.expression) →
      (∃ blocks, readBlocks o file lines = .ok blocks) ∨
        ∃ e, readBlocks o file lines = .error (.format e) ∧ e.problem.IsStructural := by
  have hhandling : o.invalid ≠ .fail := by
    intro h
    rw [h] at hf
    cases hf
  constructor
  · intro expression hlimit
    apply condition_of_substitute hf
    intro d hd
    exact hlimit (exceedsDigitLimit_of_formulaOf hd)
  · intro file lines hlimit
    rcases Builder.readBlocks_cases o file lines with
      ⟨b, e, hrun, hread⟩ | ⟨b, -, ⟨branch, stack, -, hread⟩ | ⟨-, blocks, hread⟩⟩
    · obtain ⟨before, l, after, b₁, hlines, -, hl⟩ := Builder.acceptAll_error hrun
      rcases Builder.accept_error hhandling hl with ⟨x, rfl⟩ | ⟨-, p, hp, rfl⟩
      · have hmem : l ∈ logicalLines lines := by
          rw [hlines]
          exact List.mem_append_right _ List.mem_cons_self
        obtain ⟨d, hd, hexceeds⟩ := Builder.exceedsDigitLimit_of_accept hl
        exact absurd hexceeds (hlimit l hmem d hd)
      · exact .inr ⟨_, hread, hp⟩
    · exact .inr ⟨_, hread, trivial⟩
    · exact .inl ⟨blocks, hread⟩

/-- Within the limit, an expression that breaks off is overlooked in a condition and in a file. -/
theorem recovery_of_incomplete_comparison :
    let o : Context := { invalid := .errorVariable }
    let expression := " A < 2 &&".toList
    let lines := ["#if A < 2 &&".toList, "#endif".toList]
    o.invalid.substitute? = some (.var errorVariableName) ∧
      ¬ ExceedsDigitLimit o.toOptions expression ∧
      condition o expression = .ok (.var errorVariableName) ∧
      ((∃ blocks, readBlocks o "a.c" lines = .ok blocks) ∨
        ∃ e, readBlocks o "a.c" lines = .error (.format e) ∧ e.problem.IsStructural) := by
  intro o expression lines
  have hf : o.invalid.substitute? = some (.var errorVariableName) := rfl
  have hmode : ∀ tokens, ¬ HasLongName o.toOptions tokens := fun tokens h => nomatch h.1
  have hlimit : ¬ ExceedsDigitLimit o.toOptions expression := by
    rintro ⟨tokens, hscan, ⟨s, c, hs, hc, -, hlong⟩ | hname⟩
    · have htokens : scan expression = .ok [⟨.identifier "A", 2⟩, ⟨.punctuator .less, 4⟩,
          ⟨.integer "2", 6⟩, ⟨.punctuator .and, 8⟩, ⟨.endOfText, 10⟩] := by
        with_unfolding_all rfl
      cases htokens.symm.trans hscan
      obtain rfl : s = "2" := by simpa [lexemes] using hs
      have hconstant : IntegerConstant.ofSpelling? "2".toList = some ⟨.decimal, ['2'], []⟩ := by
        decide
      cases hconstant.symm.trans hc
      exact absurd hlong (by decide)
    · exact hmode tokens hname
  have hlines : logicalLines lines = [⟨1, "#if A < 2 &&".toList⟩, ⟨2, "#endif".toList⟩] := by
    with_unfolding_all rfl
  have hdirectives : ∀ l ∈ logicalLines lines, ∀ d, Directive.ofLine? l.text = some d →
      ¬ ExceedsDigitLimit o.toOptions d.expression := by
    intro l hl d hd
    rw [hlines] at hl
    simp only [List.mem_cons, List.not_mem_nil, or_false] at hl
    rcases hl with rfl | rfl
    · cases hd
      exact hlimit
    · have hend : Directive.ofLine? "#endif".toList = some ⟨.endIf, []⟩ := by decide
      cases hend.symm.trans hd
      rintro ⟨tokens, hscan, ⟨s, c, hs, -⟩ | hname⟩
      · have htokens : scan [] = .ok [⟨.endOfText, 1⟩] := by with_unfolding_all rfl
        cases htokens.symm.trans hscan
        simp [lexemes] at hs
      · exact hmode tokens hname
  obtain ⟨hcondition, hfile⟩ := recovery_within_digit_limit hf
  refine ⟨hf, hlimit, ?_, hfile "a.c" lines hdirectives⟩
  rcases hcondition expression hlimit with ⟨g, hg, -⟩ | ⟨x, -, hx⟩
  · have hnone : formulaOf o expression =
        .error (.grammar ⟨.operandMissing, [⟨.endOfText, 10⟩]⟩) := by
      with_unfolding_all rfl
    cases hnone.symm.trans hg
  · exact hx

/-- A number that cannot be read stops the reading of an expression that is nothing else. -/
theorem Expr.ofTokens_of_unreadable {s : String} {c : IntegerConstant} {d : DigitLimitError}
    (hc : IntegerConstant.ofSpelling? s.toList = some c) (hd : c.read = .error d)
    (n column last : Nat) :
    ofTokens (n + 14) [⟨.integer s, column⟩, ⟨.endOfText, last⟩] = .error (.digitLimit d) := by
  have hinteger (tokens rest : List Token) :
      readInteger s tokens rest = .error (.digitLimit d) := by
    simp only [readInteger_eq, hc, hd]
  have hread : readLevel (n + 14) .conditional [⟨.integer s, column⟩, ⟨.endOfText, last⟩] =
      .error (.digitLimit d) := by
    simp [readLevel, Tier.operand, hinteger, bind, Except.bind]
  rw [ofTokens, hread]
  rfl

theorem ofChars_of_long_decimal (b : CallBudget) {n : Nat} (hn : decimalDigitLimit ≤ n) :
    Expr.ofChars b ('1' :: List.replicate n '1') = .error (.digitLimit (.reading (n + 1))) := by
  have hones : ∀ c ∈ List.replicate n '1', c = '1' := fun c hc => List.eq_of_mem_replicate hc
  have hspelling : IntegerConstant.ofSpelling? ('1' :: List.replicate n '1') =
      some ⟨.decimal, '1' :: List.replicate n '1', []⟩ := by
    have hdigits : ∀ c ∈ '1' :: List.replicate n '1', Radix.decimal.isDigit c = true := by
      intro c hc
      rcases List.mem_cons.mp hc with rfl | hc
      · rfl
      · rw [hones c hc]
        rfl
    have hend : Breaks Radix.decimal.isDigit [] := by simp [Breaks]
    obtain ⟨htake, hdrop⟩ := span_of_breaks hdigits hend
    rw [List.append_nil] at htake hdrop
    show IntegerConstant.ofDigits? .decimal _ = _
    rw [IntegerConstant.ofDigits?_eq_some_iff, htake, hdrop]
    exact ⟨List.cons_ne_nil _ _, by decide, rfl⟩
  have hlong : decimalDigitLimit < ('1' :: List.replicate n '1').length := by
    rw [List.length_cons, List.length_replicate]
    omega
  have hunreadable : IntegerConstant.read ⟨.decimal, '1' :: List.replicate n '1', []⟩ =
      .error (.reading (n + 1)) := by
    rw [IntegerConstant.read, if_pos ⟨rfl, hlong⟩, List.length_cons, List.length_replicate]
  have hscans : Scans ('1' :: List.replicate n '1')
      [.integer (String.ofList ('1' :: List.replicate n '1'))] [] := by
    have hrest : ∀ c ∈ List.replicate n '1', continuesNumber c = true := by
      intro c hc
      rw [hones c hc]
      decide
    exact .integer (by decide) (by decide) hrest (by rw [hspelling]; rfl) (by simp [Breaks])
  obtain ⟨tokens, hscan, htokens⟩ := hscans.scan
  obtain ⟨column, ts, rfl, hts⟩ := Expr.lexemes_eq_cons htokens
  obtain ⟨last, us, rfl, hus⟩ := Expr.lexemes_eq_cons hts
  obtain rfl : us = [] := List.map_eq_nil_iff.mp hus
  obtain ⟨k, hk⟩ := b.exists_calls_eq (k := 14) (by decide)
  rw [Expr.ofChars, hscan, hk]
  apply Expr.ofTokens_of_unreadable _ hunreadable
  rw [String.toList_ofList]
  exact hspelling

/-- Overlooking invalid conditions is not total: a decimal constant of one digit too many has no
condition at all. -/
theorem long_constant_not_recovered :
    condition { invalid := .assumeTrue } ('1' :: List.replicate 4300 '1') =
        .error (.digitLimit (.reading 4301)) ∧
      condition { invalid := .errorVariable } ('1' :: List.replicate 4300 '1') =
        .error (.digitLimit (.reading 4301)) := by
  have hread (b : CallBudget) := ofChars_of_long_decimal b (Nat.le_refl decimalDigitLimit)
  constructor
  · rw [condition, formulaOf, ← decimalDigitLimit, hread]
    rfl
  · rw [condition, formulaOf, ← decimalDigitLimit, hread]
    rfl

end Presence

import Presence.Condition
import Presence.Proofs.Expr.Completeness
import Presence.Proofs.Expr.Refusal
import Presence.Proofs.Formula.Rendering
import Presence.Proofs.Text.Trim
import Presence.Proofs.Token.Closing
import Presence.Source.Directive

/-!
The test of a bare name. The text behind the keyword is put in parentheses as it is, so what is not
a name fails there, unless it closes the parenthesis itself.
-/
namespace Presence

open Text

def Keyword.testsName : Keyword → Bool
  | ifDefined | ifUndefined => true
  | _ => false

def Keyword.nameFormula : Keyword → String → Formula
  | ifUndefined, name => .not (.var name)
  | _, name => .var name

/-- The text is one name and nothing else. -/
def IsName (s : List Char) : Prop :=
  ∃ name, (scan s).map lexemes = .ok [.identifier name, .endOfText]

/-- A closing parenthesis follows the name that the text begins with. -/
def ClosesEarly (s : List Char) : Prop :=
  ∃ name w, (scan s).map lexemes = .ok (.identifier name :: .punctuator .rightParen :: w)

theorem map_scan_of_scans {s : List Char} {w : List Lexeme} (h : Scans s w []) :
    (scan s).map lexemes = .ok (w ++ [.endOfText]) := by
  obtain ⟨tokens, hscan, hlexemes⟩ := h.scan
  rw [hscan, Except.map, hlexemes]

theorem isBlank_of_isSeparator {c : Char} (h : isSeparator c = true) : isBlank c = true := by
  simp only [isSeparator, Bool.or_eq_true, decide_eq_true_eq] at h
  rcases h with ((((rfl | rfl) | rfl) | rfl) | rfl) | rfl <;> decide

/-- A text without tokens is white space. -/
theorem blank_of_scanFrom {column : Nat} {s : List Char} {tokens : List Token}
    (h : scanFrom column s = .ok tokens) (hw : lexemes tokens = [.endOfText]) : Blank s := by
  fun_induction scanFrom column s generalizing tokens
  case case1 => simp [Blank]
  case case2 hseparator ih =>
    exact List.forall_mem_cons.mpr ⟨isBlank_of_isSeparator hseparator, ih h hw⟩
  case case4 => cases h
  case case7 => cases h
  all_goals
    obtain ⟨ts, -, rfl⟩ := map_eq_ok_iff.mp h
    simp at hw

/-- The one token of a trimmed text is all of it. -/
theorem eq_name_of_scanFrom {column : Nat} {s : List Char} {tokens : List Token} {name : String}
    (hbegins : BeginsPlain s) (hends : EndsPlain s) (h : scanFrom column s = .ok tokens)
    (hw : lexemes tokens = [.identifier name, .endOfText]) : s = name.toList := by
  fun_induction scanFrom column s
  case case1 =>
    cases h
    simp at hw
  case case2 c s hseparator ih =>
    have hplain : isBlank c = false := hbegins c rfl
    rw [isBlank_of_isSeparator hseparator] at hplain
    cases hplain
  case case5 c s hseparator hdigit hstart run ih =>
    obtain ⟨ts, hts, rfl⟩ := map_eq_ok_iff.mp h
    simp only [lexemes, List.map_cons, List.cons.injEq, Lexeme.identifier.injEq] at hw
    obtain ⟨rfl, hw⟩ := hw
    have hblank : Blank (s.dropWhile continuesIdentifier) := blank_of_scanFrom hts hw
    have hsplit : c :: s = run ++ s.dropWhile continuesIdentifier := by simp [run]
    rw [hsplit] at hends
    rw [String.toList_ofList, hsplit, hends.eq_nil_of_blank hblank, List.append_nil]
  case case4 => cases h
  case case7 => cases h
  all_goals
    obtain ⟨ts, -, rfl⟩ := map_eq_ok_iff.mp h
    simp at hw

theorem IsName.scan_trim {r : List Char} (h : IsName (trim r)) :
    (scan (trim r)).map lexemes = .ok [.identifier (String.ofList (trim r)), .endOfText] := by
  obtain ⟨name, hname⟩ := h
  obtain ⟨tokens, hscan, hw⟩ := map_eq_ok_iff.mp hname
  have htrim := eq_name_of_scanFrom (beginsPlain_trim r) (endsPlain_trim r) hscan hw
  rw [htrim, String.ofList_toList, ← htrim, hname]

theorem IsName.not_closesEarly {s : List Char} (h : IsName s) : ¬ ClosesEarly s := by
  rintro ⟨name, w, hclosed⟩
  obtain ⟨name', hname⟩ := h
  cases hname.symm.trans hclosed

namespace Expr

def testOperator : Keyword → List Lexeme
  | .ifUndefined => [.punctuator .not]
  | _ => []

variable {tokens : List Token} {w : List Lexeme}

theorem readDefined_of_name {name : String} (h : lexemes tokens = [.punctuator .leftParen,
    .identifier name, .punctuator .rightParen, .endOfText]) :
    ∃ column, readDefined tokens =
      .ok (.call definedName (.identifier name), [⟨.endOfText, column⟩]) := by
  obtain ⟨c₁, t₁, rfl, h₁⟩ := lexemes_eq_cons h
  obtain ⟨c₂, t₂, rfl, h₂⟩ := lexemes_eq_cons h₁
  obtain ⟨c₃, t₃, rfl, h₃⟩ := lexemes_eq_cons h₂
  obtain ⟨c₄, t₄, rfl, h₄⟩ := lexemes_eq_cons h₃
  obtain rfl := List.map_eq_nil_iff.mp h₄
  exact ⟨c₄, rfl⟩

/-- Anything else in the parentheses is refused at its first lexeme or at the second. -/
theorem readDefined_of_not_name (hname : ∀ name, w ≠ [.identifier name])
    (hclosed : ∀ name v, w ≠ .identifier name :: .punctuator .rightParen :: v)
    (h : lexemes tokens =
      .punctuator .leftParen :: w ++ [.punctuator .rightParen, .endOfText]) :
    ∃ g, readDefined tokens = .error (.grammar g) := by
  cases hread : readDefined tokens with
  | error x =>
    obtain ⟨g, rfl⟩ := readDefined_eq_error hread
    exact ⟨g, rfl⟩
  | ok r =>
    obtain ⟨column, t, rfl, ht⟩ := lexemes_eq_cons h
    obtain ⟨⟨name, t'⟩, htested, hafter⟩ := bind_eq_ok_iff.mp hread
    obtain ⟨t'', hparen, -⟩ := bind_eq_ok_iff.mp hafter
    obtain ⟨_, rfl⟩ := readTestedName_eq_ok.mp htested
    obtain ⟨_, rfl⟩ := expect_eq_ok.mp hparen
    match w with
    | [] => cases ht
    | [x] =>
      have hx : .identifier name = x := (List.cons.inj ht).1
      subst hx
      exact absurd rfl (hname name)
    | x :: y :: v =>
      have hx : .identifier name = x := (List.cons.inj ht).1
      have hy : .punctuator .rightParen = y := (List.cons.inj (List.cons.inj ht).2).1
      subst hx hy
      exact absurd rfl (hclosed name v)

/-- Reading has failed or is at the end of the text. -/
inductive Final : Reading → Prop
  | error (x : ConditionError) : Final (.error x)
  | ok (e : Expr) (column : Nat) : Final (.ok (e, [⟨.endOfText, column⟩]))

section

variable {n : Nat} {r : Reading}

theorem Final.tier {t : Tier} (hr : Final r) (h : readLevel n t.operand tokens = r) :
    readLevel (n + 1) (.tier t) tokens = r := by
  rw [readLevel, h]
  cases hr <;> rfl

theorem Final.conditional (hr : Final r) (h : readLevel n (.tier .disjunction) tokens = r) :
    readLevel (n + 1) .conditional tokens = r := by
  rw [readLevel, h]
  cases hr <;> rfl

theorem Final.ofTokens (hr : Final r) (h : readLevel n .negation tokens = r) :
    ofTokens (n + 3) tokens = r.map (·.1) := by
  rw [Expr.ofTokens, hr.conditional (hr.tier (t := .disjunction) (hr.tier h))]
  cases hr <;> rfl

theorem Final.negation (column : Nat) (hr : Final r) (h : readLevel n .negation tokens = r) :
    readLevel (n + 1) .negation (⟨.punctuator .not, column⟩ :: tokens) =
        r.map (fun x => (.unary .not x.1, x.2)) ∧
      Final (r.map fun x => (.unary .not x.1, x.2)) := by
  rw [readLevel, h]
  cases hr with
  | error x => exact ⟨rfl, .error x⟩
  | ok e column => exact ⟨rfl, .ok _ column⟩

end

/-- What a name test becomes: negation is an operator of its own. -/
def testTree : Keyword → Expr → Expr
  | .ifUndefined, e => .unary .not e
  | _, e => e

variable {rest : List Token} {column : Nat}

/-- No operand of another kind begins with the function that tests names. -/
theorem readLevel_defined (n : Nat) (h : Final (readDefined rest)) :
    readLevel (n + 10) (.tier .bitOr) (⟨.identifier definedName, column⟩ :: rest) =
      readDefined rest := by
  have hprimary : readLevel (n + 1) .primary (⟨.identifier definedName, column⟩ :: rest) =
      readDefined rest := by
    simp only [readLevel, if_true]
  have hunary : readLevel (n + 2) (Tier.operand .multiplicative)
      (⟨.identifier definedName, column⟩ :: rest) = readDefined rest := by
    rw [← hprimary]
    rfl
  have hadditive : readLevel (n + 4) (.tier .additive)
      (⟨.identifier definedName, column⟩ :: rest) = readDefined rest :=
    h.tier (h.tier hunary)
  have hequality : readLevel (n + 7) (.tier .equality)
      (⟨.identifier definedName, column⟩ :: rest) = readDefined rest :=
    h.tier (h.tier (h.tier hadditive))
  exact h.tier (h.tier (h.tier hequality))

theorem ofTokens_nameTest {k : Keyword} {first : List Token}
    (hfirst : lexemes first = testOperator k) (h : Final (readDefined rest)) (n : Nat) :
    ofTokens (n + 15) (first ++ ⟨.identifier definedName, column⟩ :: rest) =
      (readDefined rest).map fun r => testTree k r.1 := by
  have hdefined (n : Nat) : readLevel (n + 11) .negation
      (⟨.identifier definedName, column⟩ :: rest) = readDefined rest :=
    readLevel_defined n h
  cases k with
  | ifUndefined =>
    obtain ⟨column', ts, rfl, hts⟩ := lexemes_eq_cons hfirst
    obtain rfl := List.map_eq_nil_iff.mp hts
    obtain ⟨hnegated, hfinal⟩ := h.negation column' (hdefined n)
    refine (hfinal.ofTokens hnegated).trans ?_
    cases readDefined rest <;> rfl
  | _ =>
    obtain rfl := List.map_eq_nil_iff.mp hfirst
    exact h.ofTokens (hdefined (n + 1))

end Expr

def Keyword.testOpening : Keyword → List Char
  | ifUndefined => "!defined(".toList
  | _ => "defined(".toList

theorem expression_of_testsName {k : Keyword} (hk : k.testsName = true) (r : List Char) :
    Directive.expression ⟨k, r⟩ = k.testOpening ++ (trim r ++ [')']) := by
  rw [← List.append_assoc]
  cases k <;> first | rfl | cases hk

theorem scans_defined (rest : List Char) : Scans "defined(".toList
    [.identifier Expr.definedName, .punctuator .leftParen] rest := by
  have hrest : ['e', 'f', 'i', 'n', 'e', 'd'].all continuesIdentifier = true := by decide
  have hname : IsIdentifier ['d', 'e', 'f', 'i', 'n', 'e', 'd'] :=
    ⟨by decide, by decide, by decide, List.all_eq_true.mp hrest⟩
  have hbreak : Breaks continuesIdentifier ('(' :: rest) := by
    intro c hc
    obtain rfl : '(' = c := Option.some.inj hc
    decide
  exact (Scans.identifier hname hbreak).append (Formula.scans_parenthesis (.inl rfl) rest)

theorem scans_testOpening (k : Keyword) (rest : List Char) : Scans k.testOpening
    (Expr.testOperator k ++ [.identifier Expr.definedName, .punctuator .leftParen]) rest := by
  cases k with
  | ifUndefined =>
    have hnot : Scans ['!'] [.punctuator .not] ("defined(".toList ++ rest) :=
      .punctuator (p := .not) rfl
    exact hnot.append (scans_defined rest)
  | _ => exact scans_defined rest

/-- The outcome of a name test is that of reading its parentheses, in which `w` stands. -/
theorem ofChars_nameTest (b : CallBudget) {k : Keyword} (hk : k.testsName = true) {r : List Char}
    {w : List Lexeme} (h : Scans (trim r) w [')']) :
    ∃ tokens, lexemes tokens =
        .punctuator .leftParen :: w ++ [.punctuator .rightParen, .endOfText] ∧
      (Expr.Final (Expr.readDefined tokens) → Expr.ofChars b (Directive.expression ⟨k, r⟩) =
        (Expr.readDefined tokens).map fun r => Expr.testTree k r.1) := by
  have hclosing : Scans [')'] [.punctuator .rightParen] [] :=
    Formula.scans_parenthesis (.inr rfl) []
  have hwhole := (scans_testOpening k _).append (h.append hclosing)
  rw [← expression_of_testsName hk] at hwhole
  obtain ⟨tokens, hscan, hlexemes⟩ := hwhole.scan
  rw [List.append_assoc, List.append_assoc] at hlexemes
  obtain ⟨first, ts, rfl, hfirst, hts⟩ := Expr.lexemes_eq_append hlexemes
  obtain ⟨column, tokens, rfl, htokens⟩ := Expr.lexemes_eq_cons hts
  refine ⟨tokens, by simpa using htokens, fun hfinal => ?_⟩
  obtain ⟨n, hn⟩ := b.exists_calls_eq (k := 15) (by decide)
  rw [Expr.ofChars, hscan, hn]
  exact Expr.ofTokens_nameTest hfirst hfinal n

/-- The formula of a name test is the variable of the name, or its negation. A text that is no name
has no formula, unless it closes the parentheses early. -/
theorem formulaOf_nameTest (o : Context) {k : Keyword} (hk : k.testsName = true) {r : List Char}
    (hclosed : ¬ ClosesEarly (trim r)) :
    (IsName (trim r) ∧ formulaOf o (Directive.expression ⟨k, r⟩) =
      .ok (k.nameFormula (String.ofList (trim r)))) ∨
    (¬ IsName (trim r) ∧ ∃ x, formulaOf o (Directive.expression ⟨k, r⟩) = .error x ∧
      x.isRecoverable = true) := by
  rcases settledBefore (trim r) [] with ⟨w, hend, hclosing⟩ | ⟨hend, hclosing⟩
  · have hscan := map_scan_of_scans hend
    obtain ⟨tokens, htokens, hread⟩ := ofChars_nameTest o.budget hk hclosing
    by_cases hname : IsName (trim r)
    · have hw := Except.ok.inj (hscan.symm.trans hname.scan_trim)
      obtain rfl : w = [.identifier (String.ofList (trim r))] := List.append_cancel_right hw
      obtain ⟨column, hdefined⟩ := Expr.readDefined_of_name htokens
      rw [hdefined] at hread
      refine .inl ⟨hname, ?_⟩
      obtain ⟨n, hn⟩ := o.budget.exists_translatedLevels_eq (k := 2) (by decide)
      rw [formulaOf, hread (.ok _ _), hn]
      cases k <;> rfl
    · have hother : ∀ name, w ≠ [.identifier name] := by
        rintro name rfl
        exact hname ⟨name, hscan⟩
      have hopen : ∀ name v, w ≠ .identifier name :: .punctuator .rightParen :: v := by
        rintro name v rfl
        exact hclosed ⟨name, v ++ [.endOfText], by simpa using hscan⟩
      obtain ⟨g, hg⟩ := Expr.readDefined_of_not_name hother hopen htokens
      rw [hg] at hread
      refine .inr ⟨hname, .grammar g, ?_, rfl⟩
      rw [formulaOf, hread (.error _)]
      rfl
  · have hexpression := (scans_testOpening k _).unscannable hclosing
    rw [← expression_of_testsName hk] at hexpression
    obtain ⟨e, he⟩ := hexpression 1
    refine .inr ⟨?_, .scan e, ?_, rfl⟩
    · rintro ⟨name, hname⟩
      obtain ⟨e', he'⟩ := hend 1
      rw [scan, he'] at hname
      cases hname
    · rw [formulaOf, Expr.ofChars, scan, he]
      rfl

end Presence

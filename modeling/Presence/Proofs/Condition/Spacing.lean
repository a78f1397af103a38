import Presence.Condition
import Presence.Proofs.Expr.FirstOffence
import Presence.Proofs.Expr.Respelling
import Presence.Proofs.Token.Spacing

/-!
Expressions with the same lexemes. Reading looks at no column, so that what an expression becomes,
or what is wrong with it, does not depend on how its lexemes are spaced.
-/
namespace Presence

/-- The same fault at the same token, in whatever column that stands. -/
inductive ConditionError.SameFault : ConditionError → ConditionError → Prop
  | grammar (problem : GrammarProblem) {rest rest' : List Token}
      (h : lexemes rest = lexemes rest') :
      SameFault (.grammar ⟨problem, rest⟩) (.grammar ⟨problem, rest'⟩)
  | refl (x : ConditionError) : SameFault x x

theorem ConditionError.SameFault.isRecoverable {x x' : ConditionError} (h : x.SameFault x') :
    x.isRecoverable = x'.isRecoverable := by
  cases h <;> rfl

inductive SameOutcome {α : Type} :
    Except ConditionError α → Except ConditionError α → Prop
  | ok (a : α) : SameOutcome (.ok a) (.ok a)
  | error {x x' : ConditionError} (h : x.SameFault x') : SameOutcome (.error x) (.error x')

theorem SameOutcome.bind {α β : Type} {r r' : Except ConditionError α} (h : SameOutcome r r')
    (f : α → Except ConditionError β) : SameOutcome (r >>= f) (r' >>= f) := by
  cases h with
  | ok a =>
    show SameOutcome (f a) (f a)
    cases f a with
    | ok b => exact .ok b
    | error x => exact .error (.refl x)
  | error h => exact .error h

/-- No token is told apart by its column. -/
theorem Expr.sameOutcome_ofTokens {tokens tokens' : List Token}
    (h : lexemes tokens = lexemes tokens') (n : Nat) :
    SameOutcome (ofTokens n tokens) (ofTokens n tokens') := by
  have hrespelled : Respelled tokens tokens' := by simpa using Respelled.append h .nil
  have hagree := agree_ofTokens hrespelled n
  cases hresult : ofTokens n tokens with
  | ok e =>
    rw [hresult] at hagree
    generalize ofTokens n tokens' = r' at hagree
    cases hagree with
    | ok he =>
      subst he
      exact .ok e
  | error x =>
    by_cases hgrammar : ∃ g, x = .grammar g
    · obtain ⟨g, rfl⟩ := hgrammar
      obtain ⟨ts, rfl, -, hlocal⟩ := ofTokens_local hresult
      have hparts : lexemes tokens' = lexemes ts ++ lexemes g.rest := by simpa using h.symm
      obtain ⟨ts', rest', rfl, hts', hrest'⟩ := lexemes_eq_append hparts
      rw [hlocal ts' rest' hts' (congrArg List.head? hrest')]
      exact .error (.grammar g.problem hrest'.symm)
    · rw [hresult] at hagree
      generalize ofTokens n tokens' = r' at hagree
      cases hagree with
      | grammar g g' => exact absurd ⟨g, rfl⟩ hgrammar
      | limit hx => exact .error (.refl x)

section Text

variable {s s' : List Char} {tokens tokens' : List Token}

theorem sameOutcome_formulaOf (hs : scan s = .ok tokens) (hs' : scan s' = .ok tokens')
    (h : lexemes tokens = lexemes tokens') (o : Context) :
    SameOutcome (formulaOf o s) (formulaOf o s') := by
  simp only [formulaOf, Expr.ofChars, hs, hs']
  exact (Expr.sameOutcome_ofTokens h o.budget.calls).bind _

theorem sameOutcome_condition (hs : scan s = .ok tokens) (hs' : scan s' = .ok tokens')
    (h : lexemes tokens = lexemes tokens') (o : Context) :
    SameOutcome (condition o s) (condition o s') := by
  have hformula := sameOutcome_formulaOf hs hs' h o
  unfold condition
  generalize formulaOf o s = r at hformula
  generalize formulaOf o s' = r' at hformula
  cases hformula with
  | ok f => exact .ok f
  | @error x x' hx =>
    dsimp only
    cases o.invalid.substitute? with
    | none => exact .error hx
    | some f =>
      rw [← hx.isRecoverable]
      cases x.isRecoverable with
      | true => exact .ok f
      | false => exact .error hx

/-- An expression that can be cut into tokens may be spaced in any other way. Written down again in
the same order, with white space around them and some between neighbours, its lexemes are cut out
again, and under all options the text has the same condition or fails at the same token. -/
theorem condition_of_spaced (hs : scan s = .ok tokens) (hs' : SpacedOut (properLexemes tokens) s') :
    (∃ tokens', scan s' = .ok tokens' ∧ lexemes tokens' = lexemes tokens) ∧
      ∀ o, SameOutcome (condition o s) (condition o s') := by
  obtain ⟨tokens', hscan, hlexemes⟩ := scan_spaced hs hs'
  exact ⟨⟨tokens', hscan, hlexemes⟩, sameOutcome_condition hs hscan hlexemes.symm⟩

/-- Lexemes that stand side by side are set apart, and white space is put in front and behind. -/
theorem condition_of_spaced_negation :
    let tokens : List Token := [⟨.punctuator .not, 1⟩, ⟨.punctuator .leftParen, 2⟩,
      ⟨.identifier "A", 3⟩, ⟨.punctuator .less, 4⟩, ⟨.integer "0x1u", 5⟩,
      ⟨.punctuator .rightParen, 9⟩, ⟨.endOfText, 10⟩]
    scan "!(A<0x1u)".toList = .ok tokens ∧
      SpacedOut (properLexemes tokens) "\t! ( A\n<  0x1u ) ".toList ∧
      (∃ tokens', scan "\t! ( A\n<  0x1u ) ".toList = .ok tokens' ∧
        lexemes tokens' = lexemes tokens) ∧
      ∀ o, SameOutcome (condition o "!(A<0x1u)".toList)
        (condition o "\t! ( A\n<  0x1u ) ".toList) := by
  intro tokens
  have hs : scan "!(A<0x1u)".toList = .ok tokens := by with_unfolding_all rfl
  have htext : "\t! ( A\n<  0x1u ) ".toList = ['\t'] ++ ['!'] ++ ([' '] ++ ['('] ++
      ([' '] ++ ['A'] ++ (['\n'] ++ ['<'] ++ ([' ', ' '] ++ ['0', 'x', '1', 'u'] ++
        ([' '] ++ [')'] ++ [' ']))))) := by decide
  have hs' : SpacedOut (properLexemes tokens) "\t! ( A\n<  0x1u ) ".toList := by
    rw [htext]
    iterate 6 refine .cons (List.all_eq_true.mp rfl) (.cons rfl _) ?_
    exact .nil (List.all_eq_true.mp rfl)
  exact ⟨hs, hs', condition_of_spaced hs hs'⟩

end Text

end Presence

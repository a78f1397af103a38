import Presence.Condition
import Presence.Proofs.Expr.Locality

/-!
Calls to spare. What comes of an expression within a budget also comes of it within a larger one;
only an expression that was too deep can fare better.
-/
namespace Presence

/-- The second outcome is the first one, unless that was for want of calls. -/
def Extends {α : Type} (r r' : Except ConditionError α) : Prop :=
  r ≠ .error .tooDeep → r' = r

namespace Extends

variable {α β : Type} {r r' : Except ConditionError α} {f f' : α → Except ConditionError β}

theorem refl (r : Except ConditionError α) : Extends r r :=
  fun _ => rfl

theorem tooDeep (r : Except ConditionError α) : Extends (.error .tooDeep) r :=
  fun h => absurd rfl h

theorem trans {r'' : Except ConditionError α} (h : Extends r r') (h' : Extends r' r'') :
    Extends r r'' := by
  intro hr
  have hsame : r' = r := h hr
  rw [← hsame] at hr ⊢
  exact h' hr

theorem of_le {run : Nat → Except ConditionError α} (h : ∀ n, Extends (run n) (run (n + 1)))
    {n m : Nat} (hle : n ≤ m) : Extends (run n) (run m) := by
  induction hle with
  | refl => exact .refl _
  | step _ ih => exact ih.trans (h _)

theorem bind (hr : Extends r r') (hf : ∀ a, Extends (f a) (f' a)) :
    Extends (r >>= f) (r' >>= f') := by
  intro h
  have hbefore : r ≠ .error .tooDeep := by
    intro hdeep
    rw [hdeep] at h
    exact h rfl
  rw [hr hbefore]
  cases r with
  | error x => rfl
  | ok a => exact hf a h

end Extends

namespace Expr

theorem extends_joinOperands (operator? : Punctuator → Option BinaryOp)
    {operand operand' : List Token → Reading}
    (h : ∀ tokens, Extends (operand tokens) (operand' tokens)) (steps : Nat) (left : Expr)
    (tokens : List Token) : Extends (joinOperands operator? operand steps left tokens)
      (joinOperands operator? operand' steps left tokens) := by
  induction steps generalizing left tokens with
  | zero => exact .refl _
  | succ n ih =>
    unfold joinOperands
    split
    · split
      · exact .bind (h _) fun right => ih _ _
      · exact .refl _
    · exact .refl _

/-- One more call makes no difference to the reader of any level, unless there was one missing. -/
def GainsNothing (n : Nat) : Prop :=
  ∀ level tokens, Extends (readLevel n level tokens) (readLevel (n + 1) level tokens)

namespace GainsNothing

variable {n : Nat}

theorem choice (ih : GainsNothing n) (c : Expr) (tokens : List Token) :
    Extends (readChoice n c tokens) (readChoice (n + 1) c tokens) := by
  unfold readChoice
  split
  · apply Extends.bind (ih .conditional _)
    intro t
    apply Extends.bind (.refl _)
    intro rest
    exact .bind (ih .conditional _) fun e => .refl _
  · exact .refl _

theorem enclosed (ih : GainsNothing n) (f : Expr → Expr) (tokens : List Token) :
    Extends (readEnclosed n f tokens) (readEnclosed (n + 1) f tokens) :=
  .bind (ih .conditional tokens) fun _ => .refl _

theorem call (ih : GainsNothing n) (name : String) (tokens : List Token) :
    Extends (readCall n name tokens) (readCall (n + 1) name tokens) := by
  unfold readCall
  split
  · exact .refl _
  · exact ih.enclosed _ _
  · exact .refl _

theorem tier (ih : GainsNothing n) (t : Tier) (tokens : List Token) :
    Extends (readLevel (n + 1) (.tier t) tokens) (readLevel (n + 2) (.tier t) tokens) := by
  apply Extends.bind (ih t.operand tokens)
  intro left
  exact extends_joinOperands _ (ih t.operand) _ _ _

theorem negation (ih : GainsNothing n) (tokens : List Token) :
    Extends (readLevel (n + 1) .negation tokens) (readLevel (n + 2) .negation tokens) := by
  simp only [readLevel]
  split
  · exact .bind (ih .negation _) fun _ => .refl _
  · exact ih (.tier .bitOr) tokens

theorem unary (ih : GainsNothing n) (tokens : List Token) :
    Extends (readLevel (n + 1) .unary tokens) (readLevel (n + 2) .unary tokens) := by
  simp only [readLevel]
  split
  · split
    · exact .bind (ih .unary _) fun _ => .refl _
    · exact ih .primary _
  · exact ih .primary _

theorem primary (ih : GainsNothing n) (tokens : List Token) :
    Extends (readLevel (n + 1) .primary tokens) (readLevel (n + 2) .primary tokens) := by
  cases tokens with
  | nil => exact .refl _
  | cons token rest =>
    obtain ⟨lexeme, column⟩ := token
    cases lexeme with
    | integer | endOfText => exact .refl _
    | identifier name =>
      rw [readLevel_primary_identifier, readLevel_primary_identifier]
      split
      · exact .refl _
      · exact ih.call name rest
    | punctuator p =>
      by_cases hp : p = .leftParen
      · subst hp
        exact ih.enclosed id rest
      · rw [readLevel_primary_punctuator n hp, readLevel_primary_punctuator (n + 1) hp]
        exact .refl _

end GainsNothing

theorem gainsNothing (n : Nat) : GainsNothing n := by
  induction n with
  | zero => exact fun level tokens => .tooDeep _
  | succ n ih =>
    intro level tokens
    cases level with
    | conditional => exact .bind (ih (.tier .disjunction) tokens) fun c => ih.choice c.1 c.2
    | tier t => exact ih.tier t tokens
    | negation => exact ih.negation tokens
    | unary => exact ih.unary tokens
    | primary => exact ih.primary tokens

theorem extends_ofTokens (n : Nat) (tokens : List Token) :
    Extends (ofTokens n tokens) (ofTokens (n + 1) tokens) :=
  .bind (gainsNothing n .conditional tokens) fun _ => .refl _

theorem extends_toFormula (o : Options) (n : Nat) (e : Expr) :
    Extends (e.toFormula o n) (e.toFormula o (n + 1)) := by
  induction n generalizing e with
  | zero => exact .tooDeep _
  | succ n ih =>
    unfold toFormula
    split
    case h_4 x => exact .bind (ih x) fun _ => .refl _
    case h_7 l r => exact .bind (ih l) fun _ => .bind (ih r) fun _ => .refl _
    case h_8 l r => exact .bind (ih l) fun _ => .bind (ih r) fun _ => .refl _
    all_goals exact .refl _

end Expr

section Condition

variable {o o' : Context}

theorem extends_formulaOf (hoptions : o'.toOptions = o.toOptions)
    (hcalls : o.budget.calls ≤ o'.budget.calls) (expression : List Char) :
    Extends (formulaOf o expression) (formulaOf o' expression) := by
  have hlevels : o.budget.translatedLevels ≤ o'.budget.translatedLevels :=
    Nat.div_le_div_right hcalls
  have hread : Extends (Expr.ofChars o.budget expression) (Expr.ofChars o'.budget expression) := by
    unfold Expr.ofChars
    split
    · next tokens _ => exact .of_le (fun n => Expr.extends_ofTokens n tokens) hcalls
    · exact .refl _
  unfold formulaOf
  rw [hoptions]
  exact .bind hread fun e => .of_le (Expr.extends_toFormula o.toOptions · e) hlevels

/-- With calls to spare a condition is the same, unless the expression was too deep before. -/
theorem condition_of_calls_le (hoptions : o'.toOptions = o.toOptions)
    (hcalls : o.budget.calls ≤ o'.budget.calls) {expression : List Char}
    (h : formulaOf o expression ≠ .error .tooDeep) :
    condition o' expression = condition o expression := by
  have hinvalid : o'.invalid = o.invalid := congrArg Options.invalid hoptions
  rw [condition, condition, extends_formulaOf hoptions hcalls expression h, hinvalid]

end Condition

end Presence

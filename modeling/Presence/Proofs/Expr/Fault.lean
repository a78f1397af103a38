import Presence.Proofs.Expr.Refusal

/-!
Where reading fails. What stops the reader is found at the first of the tokens that are left, or is
the end of the budget.
-/
namespace Presence.Expr

/-- A relation between tokens and errors that holds at each place where reading can stop, and that
tokens before the place do not disturb. -/
structure CoversFaults (Q : List Token → ConditionError → Prop) : Prop where
  before : ∀ ts {rest x}, Q rest x → Q (ts ++ rest) x
  tooDeep : ∀ tokens, Q tokens .tooDeep
  grammar : ∀ p tokens, Q tokens (.grammar ⟨p, tokens⟩)
  integer : ∀ {s column rest x}, readInteger s (⟨.integer s, column⟩ :: rest) rest = .error x →
    Q (⟨.integer s, column⟩ :: rest) x

namespace CoversFaults

variable {Q : List Token → ConditionError → Prop} {tokens rest : List Token} {x : ConditionError}

theorem cons (hQ : CoversFaults Q) (t : Token) (h : Q rest x) : Q (t :: rest) x :=
  hQ.before [t] h

theorem consumed (hQ : CoversFaults Q) {level : Level} {e : Expr}
    (hread : Consumes level tokens e rest) (h : Q rest x) : Q tokens x := by
  obtain ⟨ts, rfl, -⟩ := hread
  exact hQ.before ts h

theorem expect (hQ : CoversFaults Q) {p : Punctuator} (h : expect p tokens = .error x) :
    Q tokens x := by
  unfold Expr.expect at h
  split at h
  · split at h <;> cases h
    exact hQ.grammar _ _
  · cases h
    exact hQ.grammar _ _

theorem readTestedName (hQ : CoversFaults Q) (h : readTestedName tokens = .error x) :
    Q tokens x := by
  unfold Expr.readTestedName at h
  split at h <;> cases h
  exact hQ.grammar _ _

theorem readDefined (hQ : CoversFaults Q) (h : readDefined tokens = .error x) : Q tokens x := by
  unfold Expr.readDefined at h
  split at h
  · obtain hname | ⟨⟨name, rest⟩, hname, hafter⟩ := bind_eq_error_iff.mp h
    · exact hQ.cons _ (hQ.readTestedName hname)
    · obtain hparen | ⟨rest', -, hresult⟩ := bind_eq_error_iff.mp hafter
      · obtain ⟨column, rfl⟩ := readTestedName_eq_ok.mp hname
        exact hQ.cons _ (hQ.cons _ (hQ.expect hparen))
      · cases hresult
  · obtain hname | ⟨⟨name, rest⟩, -, hresult⟩ := bind_eq_error_iff.mp h
    · exact hQ.readTestedName hname
    · cases hresult

/-- With this budget the relation covers what stops the reader. -/
def Within (n : Nat) (Q : List Token → ConditionError → Prop) : Prop :=
  ∀ {level : Level} {tokens : List Token} {x : ConditionError},
    readLevel n level tokens = .error x → Q tokens x

section Step

variable {n : Nat}

theorem conditional (hQ : CoversFaults Q) (ih : Within n Q)
    (h : readLevel (n + 1) .conditional tokens = .error x) : Q tokens x := by
  obtain hc | ⟨⟨c, rest₁⟩, hc, hrest⟩ := bind_eq_error_iff.mp h
  · exact ih hc
  refine hQ.consumed (readsOnlyWords n hc) ?_
  simp only at hrest
  split at hrest
  · refine hQ.cons _ ?_
    obtain ht | ⟨⟨t, rest₂⟩, ht, hafter⟩ := bind_eq_error_iff.mp hrest
    · exact ih ht
    refine hQ.consumed (readsOnlyWords n ht) ?_
    obtain hcolon | ⟨rest₃, hcolon, helse⟩ := bind_eq_error_iff.mp hafter
    · exact hQ.expect hcolon
    obtain ⟨column, rfl⟩ := expect_eq_ok.mp hcolon
    obtain he | ⟨r, -, hresult⟩ := bind_eq_error_iff.mp helse
    · exact hQ.cons _ (ih he)
    · cases hresult
  · cases hrest

theorem tier {t : Tier} (hQ : CoversFaults Q) (ih : Within n Q)
    (h : readLevel (n + 1) (.tier t) tokens = .error x) : Q tokens x := by
  obtain hl | ⟨⟨left, rest⟩, hl, hjoin⟩ := bind_eq_error_iff.mp h
  · exact ih hl
  · refine hQ.consumed (readsOnlyWords n hl) ?_
    obtain ⟨first, ts, tokens', rfl, hoperand⟩ :=
      joinOperands_eq_error (fun _ _ _ => readsOnlyWords n) hjoin
    exact hQ.before (first :: ts) (ih hoperand)

theorem negation (hQ : CoversFaults Q) (ih : Within n Q)
    (h : readLevel (n + 1) .negation tokens = .error x) : Q tokens x := by
  unfold readLevel at h
  split at h
  · obtain ho | ⟨r, -, hresult⟩ := bind_eq_error_iff.mp h
    · exact hQ.cons _ (ih ho)
    · cases hresult
  · exact ih h

theorem unary (hQ : CoversFaults Q) (ih : Within n Q)
    (h : readLevel (n + 1) .unary tokens = .error x) : Q tokens x := by
  unfold readLevel at h
  split at h
  · split at h
    · obtain ho | ⟨r, -, hresult⟩ := bind_eq_error_iff.mp h
      · exact hQ.cons _ (ih ho)
      · cases hresult
    · exact ih h
  · exact ih h

/-- A word in parentheses fails in itself or where it should be closed. -/
theorem parenthesis (hQ : CoversFaults Q) (ih : Within n Q) {f : Expr → Expr}
    (h : (do
      let (inner, rest) ← readLevel n .conditional tokens
      let rest ← Expr.expect .rightParen rest
      return (f inner, rest)) = .error x) : Q tokens x := by
  obtain hinner | ⟨⟨inner, rest⟩, hinner, hafter⟩ := bind_eq_error_iff.mp h
  · exact ih hinner
  · refine hQ.consumed (readsOnlyWords n hinner) ?_
    obtain hparen | ⟨rest', -, hresult⟩ := bind_eq_error_iff.mp hafter
    · exact hQ.expect hparen
    · cases hresult

theorem primary (hQ : CoversFaults Q) (ih : Within n Q)
    (h : readLevel (n + 1) .primary tokens = .error x) : Q tokens x := by
  unfold readLevel at h
  split at h
  · exact hQ.integer h
  · split at h
    · exact hQ.cons _ (hQ.readDefined h)
    · split at h
      · cases h
      · exact hQ.cons _ (hQ.cons _ (hQ.parenthesis ih h))
      · cases h
  · exact hQ.cons _ (hQ.parenthesis (f := id) ih h)
  · cases h
    exact hQ.grammar _ _
  · cases h
    exact hQ.grammar _ _
  · cases h
    exact hQ.grammar _ _

theorem readLevel (hQ : CoversFaults Q) (n : Nat) : Within n Q := by
  induction n with
  | zero =>
    intro level tokens x h
    cases h
    exact hQ.tooDeep tokens
  | succ n ih =>
    intro level tokens x h
    cases level with
    | conditional => exact hQ.conditional ih h
    | tier t => exact hQ.tier ih h
    | negation => exact hQ.negation ih h
    | unary => exact hQ.unary ih h
    | primary => exact hQ.primary ih h

end Step

theorem ofTokens (hQ : CoversFaults Q) {n : Nat} (h : ofTokens n tokens = .error x) :
    Q tokens x := by
  obtain hread | ⟨⟨e, rest⟩, hread, hrest⟩ := bind_eq_error_iff.mp h
  · exact hQ.readLevel n hread
  · refine hQ.consumed (readsOnlyWords n hread) ?_
    simp only at hrest
    split at hrest <;> cases hrest
    exact hQ.grammar _ _

end CoversFaults

def HasLongInteger (tokens : List Token) : Prop :=
  ∃ t ∈ tokens, ∃ s c d, t.lexeme = .integer s ∧
    IntegerConstant.ofSpelling? s.toList = some c ∧ c.read = .error d

theorem coversFaults_hasLongInteger :
    CoversFaults fun tokens x => ∀ d, x = .digitLimit d → HasLongInteger tokens where
  before ts rest x h d hx := by
    obtain ⟨t, ht, hlong⟩ := h d hx
    exact ⟨t, List.mem_append_right ts ht, hlong⟩
  tooDeep tokens d hx := by cases hx
  grammar p tokens d hx := by cases hx
  integer := by
    intro s column rest x h d hx
    subst hx
    rw [readInteger_eq] at h
    split at h
    · cases h
    · next c hc =>
      split at h
      · cases h
      · next e he => exact ⟨_, List.mem_cons_self, s, c, e, rfl, hc, he⟩

/-- Only an integer among the tokens leads to the digit limit. -/
theorem hasLongInteger_of_ofTokens {n : Nat} {tokens : List Token} {d : DigitLimitError}
    (h : ofTokens n tokens = .error (.digitLimit d)) : HasLongInteger tokens :=
  coversFaults_hasLongInteger.ofTokens h d rfl

end Presence.Expr

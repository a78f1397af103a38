import Presence.Proofs.Expr.Soundness

/-!
Why reading can fail: the text breaks the grammar, an integer has too many digits, or the budget is
short. A level takes at most fourteen units of the budget for each token.
-/
namespace Presence

/-- The budget that surely takes a level through so many tokens. -/
def Level.need (level : Level) (tokens : List Token) : Nat :=
  14 * tokens.length + 15 - level.rank

namespace Expr

/-- The reasons against an expression that is read from these tokens with this budget. -/
inductive Refuses (budget : Nat) (level : Level) (tokens : List Token) : ConditionError → Prop
  | grammar (g : GrammarError) : Refuses budget level tokens (.grammar g)
  | digitLimit (d : DigitLimitError) : Refuses budget level tokens (.digitLimit d)
  | tooDeep (h : budget < level.need tokens) : Refuses budget level tokens .tooDeep

theorem Refuses.of_need {n m : Nat} {level level' : Level} {tokens tokens' : List Token}
    {x : ConditionError} (h : Refuses n level tokens x)
    (hneed : n < level.need tokens → m < level'.need tokens') : Refuses m level' tokens' x := by
  cases h with
  | grammar g => exact .grammar g
  | digitLimit d => exact .digitLimit d
  | tooDeep h => exact .tooDeep (hneed h)

theorem Consumes.length_lt {level : Level} {tokens rest : List Token} {e : Expr}
    (h : Consumes level tokens e rest) : rest.length < tokens.length := by
  obtain ⟨ts, rfl, hts⟩ := h
  obtain ⟨x, u, hx, -⟩ := hts.begins
  cases ts with
  | nil => cases hx
  | cons t ts =>
    simp only [List.cons_append, List.length_cons, List.length_append]
    omega

theorem expect_eq_error {p : Punctuator} {tokens : List Token} {x : ConditionError}
    (h : expect p tokens = .error x) : ∃ g, x = .grammar g := by
  unfold expect at h
  split at h
  · split at h <;> cases h
    exact ⟨_, rfl⟩
  · cases h
    exact ⟨_, rfl⟩

theorem readTestedName_eq_error {tokens : List Token} {x : ConditionError}
    (h : readTestedName tokens = .error x) : ∃ g, x = .grammar g := by
  unfold readTestedName at h
  split at h <;> cases h
  exact ⟨_, rfl⟩

theorem readDefined_eq_error {tokens : List Token} {x : ConditionError}
    (h : readDefined tokens = .error x) : ∃ g, x = .grammar g := by
  unfold readDefined at h
  split at h
  · obtain hname | ⟨a, -, hafter⟩ := bind_eq_error_iff.mp h
    · exact readTestedName_eq_error hname
    · obtain hparen | ⟨b, -, hresult⟩ := bind_eq_error_iff.mp hafter
      · exact expect_eq_error hparen
      · cases hresult
  · obtain hname | ⟨a, -, hresult⟩ := bind_eq_error_iff.mp h
    · exact readTestedName_eq_error hname
    · cases hresult

theorem readInteger_eq_error {spelling : String} {tokens rest : List Token} {x : ConditionError}
    (h : readInteger spelling tokens rest = .error x) :
    (∃ g, x = .grammar g) ∨ ∃ d, x = .digitLimit d := by
  rw [readInteger_eq] at h
  split at h
  · cases h
    exact .inl ⟨_, rfl⟩
  · split at h <;> cases h
    exact .inr ⟨_, rfl⟩

/-- Joining fails at an operand, which stands after at least one operator. -/
theorem joinOperands_eq_error {t : Tier} {operator? : Punctuator → Option BinaryOp}
    {operand : List Token → Reading}
    (hread : ∀ tokens e rest, operand tokens = .ok (e, rest) →
      Consumes t.operand tokens e rest)
    {steps : Nat} {left : Expr} {tokens : List Token} {x : ConditionError}
    (h : joinOperands operator? operand steps left tokens = .error x) :
    ∃ first ts tokens', tokens = first :: ts ++ tokens' ∧ operand tokens' = .error x := by
  induction steps generalizing left tokens with
  | zero => cases h
  | succ n ih =>
    unfold joinOperands at h
    split at h
    · next p column rest =>
      split at h
      · obtain hoperand | ⟨⟨right, rest'⟩, hright, hjoin⟩ := bind_eq_error_iff.mp h
        · exact ⟨_, [], rest, rfl, hoperand⟩
        · obtain ⟨first, ts, tokens', rfl, hoperand⟩ := ih hjoin
          obtain ⟨us, rfl, -⟩ := hread _ _ _ hright
          exact ⟨⟨.punctuator p, column⟩, us ++ first :: ts, tokens', by simp, hoperand⟩
      · cases h
    · cases h

/-- With this budget nothing else is an obstacle. -/
def FailsDuly (n : Nat) : Prop :=
  ∀ {level : Level} {tokens : List Token} {x : ConditionError},
    readLevel n level tokens = .error x → Refuses n level tokens x

namespace FailsDuly

variable {n : Nat} {tokens : List Token} {x : ConditionError}

theorem conditional (ih : FailsDuly n) (h : readLevel (n + 1) .conditional tokens = .error x) :
    Refuses (n + 1) .conditional tokens x := by
  obtain hc | ⟨⟨c, rest₁⟩, hc, hrest⟩ := bind_eq_error_iff.mp h
  · refine (ih hc).of_need ?_
    simp only [Level.need, Level.rank]
    omega
  · have hlt₁ := (readsOnlyWords n hc).length_lt
    simp only at hrest
    split at hrest
    · simp only [List.length_cons] at hlt₁
      obtain ht | ⟨⟨t, rest₂⟩, ht, hafter⟩ := bind_eq_error_iff.mp hrest
      · refine (ih ht).of_need ?_
        simp only [Level.need, Level.rank]
        omega
      · obtain hcolon | ⟨rest₃, hcolon, helse⟩ := bind_eq_error_iff.mp hafter
        · obtain ⟨g, rfl⟩ := expect_eq_error hcolon
          exact .grammar g
        · have hlt₂ := (readsOnlyWords n ht).length_lt
          obtain ⟨column, rfl⟩ := expect_eq_ok.mp hcolon
          simp only [List.length_cons] at hlt₂
          obtain he | ⟨r, -, hresult⟩ := bind_eq_error_iff.mp helse
          · refine (ih he).of_need ?_
            simp only [Level.need, Level.rank]
            omega
          · cases hresult
    · cases hrest

theorem tier {t : Tier} (ih : FailsDuly n) (h : readLevel (n + 1) (.tier t) tokens = .error x) :
    Refuses (n + 1) (.tier t) tokens x := by
  have hrank := t.rank_operand
  obtain hl | ⟨⟨left, rest'⟩, hl, hjoin⟩ := bind_eq_error_iff.mp h
  · refine (ih hl).of_need ?_
    simp only [Level.need, hrank]
    omega
  · have hlt := (readsOnlyWords n hl).length_lt
    obtain ⟨first, ts, tokens', rfl, hoperand⟩ :=
      joinOperands_eq_error (fun _ _ _ => readsOnlyWords n) hjoin
    refine (ih hoperand).of_need ?_
    simp only [List.length_append, List.length_cons] at hlt
    simp only [Level.need, hrank]
    omega

theorem negation (ih : FailsDuly n) (h : readLevel (n + 1) .negation tokens = .error x) :
    Refuses (n + 1) .negation tokens x := by
  unfold readLevel at h
  split at h
  · obtain ho | ⟨r, -, hresult⟩ := bind_eq_error_iff.mp h
    · refine (ih ho).of_need ?_
      simp only [Level.need, Level.rank, List.length_cons]
      omega
    · cases hresult
  · refine (ih h).of_need ?_
    simp only [Level.need, Level.rank]
    omega

theorem unary (ih : FailsDuly n) (h : readLevel (n + 1) .unary tokens = .error x) :
    Refuses (n + 1) .unary tokens x := by
  have hprimary : ∀ {tokens}, readLevel n .primary tokens = .error x →
      Refuses (n + 1) .unary tokens x := by
    intro tokens h
    refine (ih h).of_need ?_
    simp only [Level.need, Level.rank]
    omega
  unfold readLevel at h
  split at h
  · split at h
    · obtain ho | ⟨r, -, hresult⟩ := bind_eq_error_iff.mp h
      · refine (ih ho).of_need ?_
        simp only [Level.need, Level.rank, List.length_cons]
        omega
      · cases hresult
    · exact hprimary h
  · exact hprimary h

theorem primary (ih : FailsDuly n) (h : readLevel (n + 1) .primary tokens = .error x) :
    Refuses (n + 1) .primary tokens x := by
  have hinner : ∀ {rest}, rest.length < tokens.length →
      readLevel n .conditional rest = .error x → Refuses (n + 1) .primary tokens x := by
    intro rest hlt h
    refine (ih h).of_need ?_
    simp only [Level.need, Level.rank]
    omega
  unfold readLevel at h
  split at h
  · obtain ⟨g, rfl⟩ | ⟨d, rfl⟩ := readInteger_eq_error h
    · exact .grammar g
    · exact .digitLimit d
  · split at h
    · obtain ⟨g, rfl⟩ := readDefined_eq_error h
      exact .grammar g
    · split at h
      · cases h
      · obtain ha | ⟨r, -, hafter⟩ := bind_eq_error_iff.mp h
        · refine hinner ?_ ha
          simp only [List.length_cons]
          omega
        · obtain hp | ⟨rest', -, hresult⟩ := bind_eq_error_iff.mp hafter
          · obtain ⟨g, rfl⟩ := expect_eq_error hp
            exact .grammar g
          · cases hresult
      · cases h
  · obtain ha | ⟨r, -, hafter⟩ := bind_eq_error_iff.mp h
    · exact hinner (by simp) ha
    · obtain hp | ⟨rest', -, hresult⟩ := bind_eq_error_iff.mp hafter
      · obtain ⟨g, rfl⟩ := expect_eq_error hp
        exact .grammar g
      · cases hresult
  · cases h
    exact .grammar _
  · cases h
    exact .grammar _
  · cases h
    exact .grammar _

end FailsDuly

theorem failsDuly (n : Nat) : FailsDuly n := by
  induction n with
  | zero =>
    intro level tokens x h
    cases h
    refine .tooDeep ?_
    cases level with
    | tier t => cases t <;> simp [Level.need, Level.rank]
    | _ => simp [Level.need, Level.rank]
  | succ n ih =>
    intro level tokens x h
    cases level with
    | conditional => exact ih.conditional h
    | tier t => exact ih.tier h
    | negation => exact ih.negation h
    | unary => exact ih.unary h
    | primary => exact ih.primary h

end Expr
end Presence

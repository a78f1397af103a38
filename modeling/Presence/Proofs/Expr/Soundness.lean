import Presence.Proofs.Token.IntegerReading

/-! What is read is a word of the grammar, and nothing but the grammar and the limits can fail. -/
namespace Presence.Expr

/-- The tokens up to `rest` are a word of the level. -/
def Consumes (level : Level) (tokens : List Token) (e : Expr) (rest : List Token) : Prop :=
  ∃ ts, tokens = ts ++ rest ∧ Derives level (lexemes ts) e

theorem expect_eq_ok {p : Punctuator} {tokens rest : List Token} :
    expect p tokens = .ok rest ↔ ∃ column, tokens = ⟨.punctuator p, column⟩ :: rest := by
  unfold expect
  split
  · split
    · next hq => simp [hq]
    · next hq => simpa using fun h => absurd h hq
  · next hne =>
    simp only [reduceCtorEq, false_iff, not_exists]
    rintro column rfl
    exact hne _ _ _ rfl

theorem readTestedName_eq_ok {tokens rest : List Token} {name : String} :
    readTestedName tokens = .ok (name, rest) ↔
      ∃ column, tokens = ⟨.identifier name, column⟩ :: rest := by
  unfold readTestedName
  split
  · simp [and_comm, eq_comm]
  · next hne =>
    simp only [reduceCtorEq, false_iff, not_exists]
    rintro column rfl
    exact hne _ _ _ rfl

theorem consumes_joinOperands {t : Tier} {operand : List Token → Reading}
    (hread : ∀ tokens e rest, operand tokens = .ok (e, rest) →
      Consumes t.operand tokens e rest)
    {steps : Nat} {w : List Lexeme} {left e : Expr} {tokens rest : List Token}
    (hleft : Derives (.tier t) w left)
    (h : joinOperands t.operator? operand steps left tokens = .ok (e, rest)) :
    ∃ ts, tokens = ts ++ rest ∧ Derives (.tier t) (w ++ lexemes ts) e := by
  induction steps generalizing w left tokens with
  | zero =>
    cases h
    exact ⟨[], rfl, by simpa using hleft⟩
  | succ n ih =>
    unfold joinOperands at h
    split at h
    · next p column tokens' =>
      split at h
      · next op hop =>
        obtain ⟨⟨right, rest'⟩, hright, hjoin⟩ := bind_eq_ok_iff.mp h
        obtain ⟨hp, rfl⟩ := Tier.operator?_eq_some_iff.mp hop
        obtain ⟨ts, rfl, hts⟩ := hread _ _ _ hright
        obtain ⟨ts', rfl, hts'⟩ := ih (.join hleft hp hts) hjoin
        exact ⟨⟨.punctuator p, column⟩ :: ts ++ ts', by simp, by simpa using hts'⟩
      · cases h
        exact ⟨[], rfl, by simpa using hleft⟩
    · cases h
      exact ⟨[], rfl, by simpa using hleft⟩

theorem consumes_readDefined {tokens rest : List Token} {e : Expr} {column : Nat}
    (h : readDefined tokens = .ok (e, rest)) :
    Consumes .primary (⟨.identifier definedName, column⟩ :: tokens) e rest := by
  unfold readDefined at h
  split at h
  · obtain ⟨⟨name, tokens'⟩, hname, h⟩ := bind_eq_ok_iff.mp h
    obtain ⟨tokens'', hparen, h⟩ := bind_eq_ok_iff.mp h
    obtain ⟨c₁, rfl⟩ := readTestedName_eq_ok.mp hname
    obtain ⟨c₂, rfl⟩ := expect_eq_ok.mp hparen
    cases h
    exact ⟨[_, _, _, _], rfl, .definedIn⟩
  · obtain ⟨⟨name, tokens'⟩, hname, h⟩ := bind_eq_ok_iff.mp h
    obtain ⟨c₁, rfl⟩ := readTestedName_eq_ok.mp hname
    cases h
    exact ⟨[_, _], rfl, .defined⟩

theorem consumes_readInteger {spelling : String} {tokens rest rest' : List Token} {e : Expr}
    {column : Nat} (h : readInteger spelling tokens rest = .ok (e, rest')) :
    Consumes .primary (⟨.integer spelling, column⟩ :: rest) e rest' := by
  rw [readInteger_eq] at h
  split at h
  · cases h
  · next c hc =>
    split at h
    · next value hvalue =>
      cases h
      unfold IntegerConstant.read at hvalue
      split at hvalue
      · cases hvalue
      · cases hvalue
        exact ⟨[_], rfl, .integer hc⟩
    · cases h

theorem consumes_parenthesis {tokens rest rest' : List Token} {a : Expr} {column : Nat}
    (ha : Consumes .conditional tokens a rest') (hp : expect .rightParen rest' = .ok rest) :
    ∃ ts, ⟨.punctuator .leftParen, column⟩ :: tokens = ts ++ rest ∧ ∃ w,
      Derives .conditional w a ∧
        lexemes ts = .punctuator .leftParen :: w ++ [.punctuator .rightParen] := by
  obtain ⟨ts, rfl, hts⟩ := ha
  obtain ⟨c, rfl⟩ := expect_eq_ok.mp hp
  exact ⟨⟨.punctuator .leftParen, column⟩ :: ts ++ [⟨.punctuator .rightParen, c⟩], by simp,
    lexemes ts, hts, by simp⟩

/-- With this budget only words are read. -/
def ReadsOnlyWords (n : Nat) : Prop :=
  ∀ {level : Level} {tokens rest : List Token} {e : Expr},
    readLevel n level tokens = .ok (e, rest) → Consumes level tokens e rest

namespace ReadsOnlyWords

variable {n : Nat} {tokens rest : List Token} {e : Expr}

theorem conditional (ih : ReadsOnlyWords n)
    (h : readLevel (n + 1) .conditional tokens = .ok (e, rest)) :
    Consumes .conditional tokens e rest := by
  obtain ⟨⟨c, rest₁⟩, hc, hrest⟩ := bind_eq_ok_iff.mp h
  obtain ⟨us, rfl, hus⟩ := ih hc
  simp only at hrest
  split at hrest
  · next column' _ =>
    obtain ⟨⟨t, rest₂⟩, ht, hafter⟩ := bind_eq_ok_iff.mp hrest
    obtain ⟨rest₃, hcolon, helse⟩ := bind_eq_ok_iff.mp hafter
    obtain ⟨⟨e', rest₄⟩, he, hresult⟩ := bind_eq_ok_iff.mp helse
    obtain ⟨vs, rfl, hvs⟩ := ih ht
    obtain ⟨column, rfl⟩ := expect_eq_ok.mp hcolon
    obtain ⟨ws, rfl, hws⟩ := ih he
    cases hresult
    refine ⟨us ++ ⟨.punctuator .question, column'⟩ :: vs ++ ⟨.punctuator .colon, column⟩ :: ws,
      by simp, ?_⟩
    simpa using Derives.choice hus hvs hws
  · cases hrest
    exact ⟨us, rfl, .plain hus⟩

theorem tier {t : Tier} (ih : ReadsOnlyWords n)
    (h : readLevel (n + 1) (.tier t) tokens = .ok (e, rest)) :
    Consumes (.tier t) tokens e rest := by
  obtain ⟨⟨left, rest'⟩, hl, hjoin⟩ := bind_eq_ok_iff.mp h
  obtain ⟨us, rfl, hus⟩ := ih hl
  obtain ⟨ts, rfl, hts⟩ := consumes_joinOperands (fun _ _ _ => ih) (.single hus) hjoin
  exact ⟨us ++ ts, by simp, by simpa using hts⟩

theorem negation (ih : ReadsOnlyWords n)
    (h : readLevel (n + 1) .negation tokens = .ok (e, rest)) :
    Consumes .negation tokens e rest := by
  unfold readLevel at h
  split at h
  · obtain ⟨⟨operand, rest'⟩, ho, hrest⟩ := bind_eq_ok_iff.mp h
    obtain ⟨us, rfl, hus⟩ := ih ho
    cases hrest
    exact ⟨_ :: us, rfl, .negated hus⟩
  · next hne =>
    obtain ⟨us, rfl, hus⟩ := ih h
    refine ⟨us, rfl, .bare ?_ hus⟩
    intro hw
    obtain ⟨x, u, hx, -⟩ := hus.begins
    cases us with
    | nil => cases hx
    | cons y us =>
      simp only [List.map_cons, List.head?_cons, Option.some.injEq] at hw
      exact hne y.column (us ++ rest) (by simp [← hw])

theorem unary (ih : ReadsOnlyWords n)
    (h : readLevel (n + 1) .unary tokens = .ok (e, rest)) :
    Consumes .unary tokens e rest := by
  unfold readLevel at h
  split at h
  · split at h
    · next op hop =>
      obtain ⟨⟨operand, rest'⟩, ho, hrest⟩ := bind_eq_ok_iff.mp h
      obtain ⟨hp, rfl⟩ := unaryOperator?_eq_some_iff.mp hop
      obtain ⟨us, rfl, hus⟩ := ih ho
      cases hrest
      exact ⟨_ :: us, rfl, .signed hp hus⟩
    · obtain ⟨us, hus, hd⟩ := ih h
      exact ⟨us, hus, .unsigned hd⟩
  · obtain ⟨us, hus, hd⟩ := ih h
    exact ⟨us, hus, .unsigned hd⟩

theorem primary (ih : ReadsOnlyWords n)
    (h : readLevel (n + 1) .primary tokens = .ok (e, rest)) :
    Consumes .primary tokens e rest := by
  unfold readLevel at h
  split at h
  · exact consumes_readInteger h
  · split at h
    · next hname =>
      subst hname
      exact consumes_readDefined h
    · next hname =>
      split at h
      · cases h
        exact ⟨[_, _, _], rfl, .emptyCall hname⟩
      · obtain ⟨⟨a, rest₁⟩, ha, hrest⟩ := bind_eq_ok_iff.mp h
        obtain ⟨rest₂, hp, hrest⟩ := bind_eq_ok_iff.mp hrest
        cases hrest
        obtain ⟨ts, hts, w, hw, hlex⟩ := consumes_parenthesis (ih ha) hp
        refine ⟨⟨.identifier _, _⟩ :: ts, by rw [hts]; rfl, ?_⟩
        show Derives .primary (_ :: lexemes ts) _
        rw [hlex]
        exact .call hname hw
      · cases h
        exact ⟨[_], rfl, .identifier hname⟩
  · obtain ⟨⟨a, rest₁⟩, ha, hrest⟩ := bind_eq_ok_iff.mp h
    obtain ⟨rest₂, hp, hrest⟩ := bind_eq_ok_iff.mp hrest
    cases hrest
    obtain ⟨ts, hts, w, hw, hlex⟩ := consumes_parenthesis (ih ha) hp
    exact ⟨ts, hts, by rw [hlex]; exact .parenthesized hw⟩
  · cases h
  · cases h
  · cases h

end ReadsOnlyWords

theorem readsOnlyWords (n : Nat) : ReadsOnlyWords n := by
  induction n with
  | zero =>
    intro level tokens rest e h
    cases h
  | succ n ih =>
    intro level tokens rest e h
    cases level with
    | conditional => exact ih.conditional h
    | tier t => exact ih.tier h
    | negation => exact ih.negation h
    | unary => exact ih.unary h
    | primary => exact ih.primary h

end Presence.Expr

import Presence.Proofs.Expr.Locality

/-!
Where reading breaks off. The tokens in front of the offending one begin an expression, since what
has been read of each level can be finished.
-/
namespace Presence.Expr

theorem derives_name (level : Level) : Derives level [.identifier "x"] (.identifier "x") :=
  .of_primary (.identifier (by decide)) (by simp) level

/-- Some word of the level begins so, and goes on without integers. -/
def Viable (level : Level) (u : List Lexeme) : Prop :=
  ∃ w e, Derives level (u ++ w) e ∧ ∀ s, .integer s ∉ w

namespace Viable

variable {u v w : List Lexeme} {c t e : Expr}

theorem nil (level : Level) : Viable level [] :=
  ⟨[.identifier "x"], _, derives_name level, by simp⟩

theorem of_derives {level : Level} (h : Derives level u e) : Viable level u :=
  ⟨[], e, by simpa using h, by simp⟩

theorem plain (h : Viable (.tier .disjunction) u) : Viable .conditional u := by
  obtain ⟨w, e, hw, hintegers⟩ := h
  exact ⟨w, e, .plain hw, hintegers⟩

theorem thenBranch (hc : Derives (.tier .disjunction) u c) (h : Viable .conditional v) :
    Viable .conditional (u ++ .punctuator .question :: v) := by
  obtain ⟨w, t, ht, hintegers⟩ := h
  have hword := Derives.choice hc ht (derives_name .conditional)
  refine ⟨w ++ [.punctuator .colon, .identifier "x"], .conditional c t (.identifier "x"), ?_, ?_⟩
  · simpa using hword
  · simpa using hintegers

theorem elseBranch (hc : Derives (.tier .disjunction) u c) (ht : Derives .conditional v t)
    (h : Viable .conditional w) :
    Viable .conditional (u ++ .punctuator .question :: v ++ .punctuator .colon :: w) := by
  obtain ⟨w', e, he, hintegers⟩ := h
  have hword := Derives.choice hc ht he
  exact ⟨w', .conditional c t e, by simpa using hword, hintegers⟩

theorem single {t : Tier} (h : Viable t.operand u) : Viable (.tier t) u := by
  obtain ⟨w, e, hw, hintegers⟩ := h
  exact ⟨w, e, .single hw, hintegers⟩

theorem join {t : Tier} {p : Punctuator} {l : Expr} (hl : Derives (.tier t) u l)
    (hp : p ∈ t.operators) (h : Viable t.operand v) :
    Viable (.tier t) (u ++ .punctuator p :: v) := by
  obtain ⟨w, r, hr, hintegers⟩ := h
  have hword := Derives.join hl hp hr
  exact ⟨w, .binary (.ofSymbol p.symbol) l r, by simpa using hword, hintegers⟩

theorem negated (h : Viable .negation u) : Viable .negation (.punctuator .not :: u) := by
  obtain ⟨w, e, hw, hintegers⟩ := h
  exact ⟨w, _, .negated hw, hintegers⟩

theorem bare (hu : u.head? ≠ some (.punctuator .not)) (h : Viable (.tier .bitOr) u) :
    Viable .negation u := by
  cases u with
  | nil => exact nil .negation
  | cons x u =>
    obtain ⟨w, e, hw, hintegers⟩ := h
    exact ⟨w, e, .bare hu hw, hintegers⟩

theorem signed {p : Punctuator} (hp : p ∈ unaryOperators) (h : Viable .unary u) :
    Viable .unary (.punctuator p :: u) := by
  obtain ⟨w, e, hw, hintegers⟩ := h
  exact ⟨w, _, .signed hp hw, hintegers⟩

theorem unsigned (h : Viable .primary u) : Viable .unary u := by
  obtain ⟨w, e, hw, hintegers⟩ := h
  exact ⟨w, e, .unsigned hw, hintegers⟩

theorem call {name : String} (hname : name ≠ definedName) (h : Viable .conditional u) :
    Viable .primary (.identifier name :: .punctuator .leftParen :: u) := by
  obtain ⟨w, a, ha, hintegers⟩ := h
  have hword := Derives.call hname ha
  refine ⟨w ++ [.punctuator .rightParen], .call name a, ?_, by simpa using hintegers⟩
  simpa using hword

theorem parenthesized (h : Viable .conditional u) :
    Viable .primary (.punctuator .leftParen :: u) := by
  obtain ⟨w, e, he, hintegers⟩ := h
  refine ⟨w ++ [.punctuator .rightParen], e, ?_, by simpa using hintegers⟩
  simpa using Derives.parenthesized he

theorem defined : Viable .primary [.identifier definedName] :=
  ⟨[.identifier "x"], _, .defined, by simp⟩

theorem definedIn : Viable .primary [.identifier definedName, .punctuator .leftParen] :=
  ⟨[.identifier "x", .punctuator .rightParen], _, .definedIn, by simp⟩

theorem definedName {name : String} : Viable .primary
    [.identifier definedName, .punctuator .leftParen, .identifier name] :=
  ⟨[.punctuator .rightParen], _, .definedIn, by simp⟩

end Viable

/-- Reading breaks off in front of `rest`, in the middle of a word. -/
def BreaksOff (level : Level) (tokens rest : List Token) : Prop :=
  ∃ ts, tokens = ts ++ rest ∧ Viable level (lexemes ts)

theorem expect_eq_grammar {p : Punctuator} {tokens : List Token} {g : GrammarError}
    (h : expect p tokens = .error (.grammar g)) : g.rest = tokens := by
  unfold expect at h
  split at h
  · split at h <;> cases h
    rfl
  · cases h
    rfl

theorem readTestedName_eq_grammar {tokens : List Token} {g : GrammarError}
    (h : readTestedName tokens = .error (.grammar g)) : g.rest = tokens := by
  unfold readTestedName at h
  split at h <;> cases h
  rfl

theorem breaksOff_joinOperands {t : Tier} {operand : List Token → Reading}
    (hread : ∀ tokens e rest, operand tokens = .ok (e, rest) → Consumes t.operand tokens e rest)
    {g : GrammarError} (hfail : ∀ tokens, operand tokens = .error (.grammar g) →
      BreaksOff t.operand tokens g.rest)
    {steps : Nat} {w : List Lexeme} {left : Expr} {tokens : List Token}
    (hleft : Derives (.tier t) w left)
    (h : joinOperands t.operator? operand steps left tokens = .error (.grammar g)) :
    ∃ ts, tokens = ts ++ g.rest ∧ Viable (.tier t) (w ++ lexemes ts) := by
  induction steps generalizing w left tokens with
  | zero => cases h
  | succ n ih =>
    unfold joinOperands at h
    split at h
    · next p column rest =>
      split at h
      · next op hop =>
        obtain ⟨hp, rfl⟩ := Tier.operator?_eq_some_iff.mp hop
        obtain hoperand | ⟨⟨right, rest'⟩, hright, hjoin⟩ := bind_eq_error_iff.mp h
        · obtain ⟨ts, rfl, hts⟩ := hfail rest hoperand
          exact ⟨⟨.punctuator p, column⟩ :: ts, rfl, .join hleft hp hts⟩
        · obtain ⟨us, rfl, hus⟩ := hread rest right rest' hright
          obtain ⟨ts, rfl, hts⟩ := ih (.join hleft hp hus) hjoin
          exact ⟨⟨.punctuator p, column⟩ :: us ++ ts, by simp, by simpa using hts⟩
      · cases h
    · cases h

theorem breaksOff_readDefined {tokens : List Token} {g : GrammarError} {column : Nat}
    (h : readDefined tokens = .error (.grammar g)) :
    BreaksOff .primary (⟨.identifier definedName, column⟩ :: tokens) g.rest := by
  unfold readDefined at h
  split at h
  · next column' rest =>
    obtain hname | ⟨⟨name, rest'⟩, hname, hafter⟩ := bind_eq_error_iff.mp h
    · rw [readTestedName_eq_grammar hname]
      exact ⟨[_, _], rfl, .definedIn⟩
    · obtain ⟨column'', rfl⟩ := readTestedName_eq_ok.mp hname
      obtain hparen | ⟨r, -, hresult⟩ := bind_eq_error_iff.mp hafter
      · rw [expect_eq_grammar hparen]
        exact ⟨[_, _, _], rfl, .definedName⟩
      · cases hresult
  · obtain hname | ⟨r, -, hresult⟩ := bind_eq_error_iff.mp h
    · rw [readTestedName_eq_grammar hname]
      exact ⟨[_], rfl, .defined⟩
    · cases hresult

/-- With this budget the reader of each level breaks off in the middle of a word. -/
def FailsViably (n : Nat) : Prop :=
  ∀ {level : Level} {tokens : List Token} {g : GrammarError},
    readLevel n level tokens = .error (.grammar g) → BreaksOff level tokens g.rest

namespace FailsViably

variable {n : Nat} {tokens : List Token} {g : GrammarError}

theorem conditional (ih : FailsViably n)
    (h : readLevel (n + 1) .conditional tokens = .error (.grammar g)) :
    BreaksOff .conditional tokens g.rest := by
  obtain hc | ⟨⟨c, rest₁⟩, hc, hrest⟩ := bind_eq_error_iff.mp h
  · obtain ⟨ts, rfl, hts⟩ := ih hc
    exact ⟨ts, rfl, hts.plain⟩
  obtain ⟨us, rfl, hus⟩ := readsOnlyWords n hc
  simp only at hrest
  split at hrest
  · next column rest =>
    obtain ht | ⟨⟨t, rest₂⟩, ht, hafter⟩ := bind_eq_error_iff.mp hrest
    · obtain ⟨ts, rfl, hts⟩ := ih ht
      exact ⟨us ++ ⟨.punctuator .question, column⟩ :: ts, by simp, by simpa using hts.thenBranch hus⟩
    obtain ⟨vs, rfl, hvs⟩ := readsOnlyWords n ht
    obtain hcolon | ⟨rest₃, hcolon, helse⟩ := bind_eq_error_iff.mp hafter
    · rw [expect_eq_grammar hcolon]
      exact ⟨us ++ ⟨.punctuator .question, column⟩ :: vs, by simp,
        by simpa using (Viable.of_derives hvs).thenBranch hus⟩
    obtain ⟨column', rfl⟩ := expect_eq_ok.mp hcolon
    obtain he | ⟨r, -, hresult⟩ := bind_eq_error_iff.mp helse
    · obtain ⟨ws, rfl, hws⟩ := ih he
      exact ⟨us ++ ⟨.punctuator .question, column⟩ :: vs ++ ⟨.punctuator .colon, column'⟩ :: ws,
        by simp, by simpa using hws.elseBranch hus hvs⟩
    · cases hresult
  · cases hrest

theorem tier {t : Tier} (ih : FailsViably n)
    (h : readLevel (n + 1) (.tier t) tokens = .error (.grammar g)) :
    BreaksOff (.tier t) tokens g.rest := by
  obtain hl | ⟨⟨left, rest⟩, hl, hjoin⟩ := bind_eq_error_iff.mp h
  · obtain ⟨ts, rfl, hts⟩ := ih hl
    exact ⟨ts, rfl, hts.single⟩
  · obtain ⟨us, rfl, hus⟩ := readsOnlyWords n hl
    obtain ⟨ts, rfl, hts⟩ :=
      breaksOff_joinOperands (fun _ _ _ => readsOnlyWords n) (fun _ => ih) (.single hus) hjoin
    exact ⟨us ++ ts, by simp, by simpa using hts⟩

theorem negation (ih : FailsViably n)
    (h : readLevel (n + 1) .negation tokens = .error (.grammar g)) :
    BreaksOff .negation tokens g.rest := by
  unfold readLevel at h
  split at h
  · obtain ho | ⟨r, -, hresult⟩ := bind_eq_error_iff.mp h
    · obtain ⟨ts, rfl, hts⟩ := ih ho
      exact ⟨_ :: ts, rfl, hts.negated⟩
    · cases hresult
  · next hne =>
    obtain ⟨ts, rfl, hts⟩ := ih h
    refine ⟨ts, rfl, hts.bare fun hhead => ?_⟩
    obtain ⟨u, hu⟩ := List.head?_eq_some_iff.mp hhead
    obtain ⟨column, vs, rfl, -⟩ := lexemes_eq_cons hu
    exact hne column (vs ++ g.rest) rfl

theorem unary (ih : FailsViably n)
    (h : readLevel (n + 1) .unary tokens = .error (.grammar g)) :
    BreaksOff .unary tokens g.rest := by
  have hprimary : ∀ {us}, readLevel n .primary us = .error (.grammar g) →
      BreaksOff .unary us g.rest := by
    intro us h
    obtain ⟨ts, rfl, hts⟩ := ih h
    exact ⟨ts, rfl, hts.unsigned⟩
  unfold readLevel at h
  split at h
  · split at h
    · next op hop =>
      obtain ⟨hp, -⟩ := unaryOperator?_eq_some_iff.mp hop
      obtain ho | ⟨r, -, hresult⟩ := bind_eq_error_iff.mp h
      · obtain ⟨ts, rfl, hts⟩ := ih ho
        exact ⟨_ :: ts, rfl, hts.signed hp⟩
      · cases hresult
    · exact hprimary h
  · exact hprimary h

/-- A word in parentheses breaks off in itself or where it should be closed. -/
theorem enclosed (ih : FailsViably n) {f : Expr → Expr}
    (h : readEnclosed n f tokens = .error (.grammar g)) : BreaksOff .conditional tokens g.rest := by
  obtain hinner | ⟨⟨inner, rest⟩, hinner, hafter⟩ := bind_eq_error_iff.mp h
  · exact ih hinner
  · obtain ⟨ts, rfl, hts⟩ := readsOnlyWords n hinner
    obtain hparen | ⟨r, -, hresult⟩ := bind_eq_error_iff.mp hafter
    · rw [expect_eq_grammar hparen]
      exact ⟨ts, rfl, .of_derives hts⟩
    · cases hresult

theorem primary (ih : FailsViably n)
    (h : readLevel (n + 1) .primary tokens = .error (.grammar g)) :
    BreaksOff .primary tokens g.rest := by
  unfold readLevel at h
  split at h
  · rw [readInteger_eq] at h
    split at h
    · cases h
      exact ⟨[], rfl, .nil .primary⟩
    · split at h <;> cases h
  · split at h
    · next hname =>
      subst hname
      exact breaksOff_readDefined h
    · next hname =>
      split at h
      · cases h
      · obtain ⟨ts, hts, hviable⟩ := ih.enclosed (f := .call _) h
        exact ⟨⟨.identifier _, _⟩ :: ⟨.punctuator .leftParen, _⟩ :: ts, by rw [hts]; rfl,
          hviable.call hname⟩
      · cases h
  · obtain ⟨ts, hts, hviable⟩ := ih.enclosed (f := id) h
    exact ⟨⟨.punctuator .leftParen, _⟩ :: ts, by rw [hts]; rfl, hviable.parenthesized⟩
  · cases h
    exact ⟨[], rfl, .nil .primary⟩
  · cases h
    exact ⟨[], rfl, .nil .primary⟩
  · cases h
    exact ⟨[], rfl, .nil .primary⟩

end FailsViably

theorem failsViably (n : Nat) : FailsViably n := by
  induction n with
  | zero =>
    intro level tokens g h
    cases h
  | succ n ih =>
    intro level tokens g h
    cases level with
    | conditional => exact ih.conditional h
    | tier t => exact ih.tier h
    | negation => exact ih.negation h
    | unary => exact ih.unary h
    | primary => exact ih.primary h

end Presence.Expr

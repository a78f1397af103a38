import Presence.Proofs.Expr.Refusal

/-!
Every word of the grammar is read as its tree, whatever follows that does not go on with it. The
loop over the operands of a tier takes them from the left, as the tree of the tier grows.
-/
namespace Presence

/-- A limit of the reader, not a fault of the text. -/
def ConditionError.IsLimit : ConditionError → Prop
  | .tooDeep | .digitLimit _ => True
  | _ => False

/-- The outcome, unless a limit is met first. -/
def Yields {α : Type} (x : Except ConditionError α) (a : α) : Prop :=
  x = .ok a ∨ ∃ e, x = .error e ∧ e.IsLimit

theorem Yields.ok {α : Type} {a : α} : Yields (.ok a) a :=
  .inl rfl

theorem Yields.bind {α β : Type} {x : Except ConditionError α} {a : α}
    {f : α → Except ConditionError β} {b : β} (hx : Yields x a) (hf : Yields (f a) b) :
    Yields (x >>= f) b := by
  obtain rfl | ⟨e, rfl, he⟩ := hx
  · exact hf
  · exact .inr ⟨e, rfl, he⟩

namespace Expr

theorem lexemes_eq_append {ts : List Token} {u v : List Lexeme} (h : lexemes ts = u ++ v) :
    ∃ us vs, ts = us ++ vs ∧ lexemes us = u ∧ lexemes vs = v :=
  List.map_eq_append_iff.mp h

theorem lexemes_eq_cons {ts : List Token} {x : Lexeme} {v : List Lexeme}
    (h : lexemes ts = x :: v) : ∃ column vs, ts = ⟨x, column⟩ :: vs ∧ lexemes vs = v := by
  obtain ⟨⟨lexeme, column⟩, vs, rfl, rfl, rfl⟩ := List.map_eq_cons_iff.mp h
  exact ⟨column, vs, rfl, rfl⟩

/-- Operators of a tier, each with an operand, that take the left operand to a tree. -/
inductive Joins (t : Tier) : Expr → List Lexeme → Expr → Prop
  | nil (l : Expr) : Joins t l [] l
  | cons {p : Punctuator} {u v : List Lexeme} {l r e : Expr} (hp : p ∈ t.operators)
      (hr : Derives t.operand u r) (h : Joins t (.binary (.ofSymbol p.symbol) l r) v e) :
      Joins t l (.punctuator p :: u ++ v) e

theorem Joins.concat {t : Tier} {p : Punctuator} {u v : List Lexeme} {l e r : Expr}
    (h : Joins t l v e) (hp : p ∈ t.operators) (hr : Derives t.operand u r) :
    Joins t l (v ++ .punctuator p :: u) (.binary (.ofSymbol p.symbol) e r) := by
  induction h with
  | nil l => simpa using Joins.cons hp hr (.nil _)
  | cons hp' hr' _ ih => simpa using Joins.cons hp' hr' ih

theorem Derives.joins {t : Tier} {w : List Lexeme} {e : Expr} (h : Derives (.tier t) w e) :
    ∃ u v l, w = u ++ v ∧ Derives t.operand u l ∧ Joins t l v e := by
  generalize hlevel : Level.tier t = level at h
  induction h with
  | single h =>
    cases hlevel
    exact ⟨_, [], _, by simp, h, .nil _⟩
  | join hl hp hr ih =>
    cases hlevel
    obtain ⟨u, v, l, rfl, hu, hv⟩ := ih rfl
    exact ⟨u, _, l, by simp, hu, hv.concat hp hr⟩
  | _ => cases hlevel

theorem stops_of_joins {t : Tier} {l e : Expr} {ts rest : List Token}
    (h : Joins t l (lexemes ts) e) (hrest : Stops (Level.tier t).rank rest) :
    Stops t.operand.rank (ts ++ rest) := by
  rw [t.rank_operand]
  generalize hw : lexemes ts = w at h
  cases h with
  | nil =>
    obtain rfl := List.map_eq_nil_iff.mp hw
    exact hrest.mono (Nat.le_succ _)
  | cons hp _ _ =>
    obtain ⟨column, vs, rfl, -⟩ := lexemes_eq_cons hw
    exact Nat.lt_succ_of_le (Nat.le_of_eq (Tier.reach_of_mem hp))

theorem joinOperands_of_stops {t : Tier} {operand : List Token → Reading} {steps : Nat}
    {l : Expr} {rest : List Token} (h : Stops (Level.tier t).rank rest) :
    joinOperands t.operator? operand steps l rest = .ok (l, rest) := by
  cases steps with
  | zero => rfl
  | succ n =>
    unfold joinOperands
    split
    · rw [Tier.operator?_eq_none h]
    · rfl

theorem yields_joinOperands {t : Tier} {operand : List Token → Reading}
    (hread : ∀ {r : Expr} {ts rest : List Token}, Derives t.operand (lexemes ts) r →
      Stops t.operand.rank rest → Yields (operand (ts ++ rest)) (r, rest))
    {steps : Nat} {l e : Expr} {ts rest : List Token} (h : Joins t l (lexemes ts) e)
    (hsteps : ts.length ≤ steps) (hrest : Stops (Level.tier t).rank rest) :
    Yields (joinOperands t.operator? operand steps l (ts ++ rest)) (e, rest) := by
  generalize hw : lexemes ts = w at h
  induction h generalizing ts steps with
  | nil l =>
    obtain rfl := List.map_eq_nil_iff.mp hw
    exact .inl (joinOperands_of_stops hrest)
  | @cons p u v l r e hp hr h ih =>
    obtain ⟨us, vs, rfl, hus, rfl⟩ := lexemes_eq_append hw
    obtain ⟨column, us, rfl, rfl⟩ := lexemes_eq_cons hus
    cases steps with
    | zero => simp at hsteps
    | succ n =>
      have hop := Tier.operator?_eq_some_iff.mpr ⟨hp, rfl⟩
      simp only [List.cons_append, List.append_assoc, joinOperands, hop]
      refine (hread hr (stops_of_joins h hrest)).bind (ih ?_ rfl)
      simp only [List.length_append, List.length_cons] at hsteps
      omega

theorem yields_readInteger {s : String} {c : IntegerConstant} {tokens rest : List Token}
    (h : IntegerConstant.ofSpelling? s.toList = some c) :
    Yields (readInteger s tokens rest) (.integer s c.value, rest) := by
  rw [readInteger_eq, h]
  unfold IntegerConstant.read
  by_cases hlimit : c.radix = .decimal ∧ decimalDigitLimit < c.digits.length
  · simp only [hlimit]
    exact .inr ⟨_, rfl, trivial⟩
  · simp only [hlimit]
    exact .ok

theorem expect_cons (p : Punctuator) (column : Nat) (rest : List Token) :
    expect p (⟨.punctuator p, column⟩ :: rest) = .ok rest :=
  expect_eq_ok.mpr ⟨column, rfl⟩

/-- With this budget the words of all levels are read. -/
def ReadsWords (n : Nat) : Prop :=
  ∀ {level : Level} {e : Expr} {ts rest : List Token}, Derives level (lexemes ts) e →
    Stops level.rank rest → Yields (readLevel n level (ts ++ rest)) (e, rest)

section Step

variable {n : Nat} {ts rest : List Token} {e : Expr}

theorem ReadsWords.conditional (ih : ReadsWords n) (h : Derives .conditional (lexemes ts) e)
    (hrest : Stops 1 rest) : Yields (readLevel (n + 1) .conditional (ts ++ rest)) (e, rest) := by
  generalize hw : lexemes ts = w at h
  cases h with
  | plain h =>
    subst hw
    refine (ih h (hrest.mono (by decide))).bind ?_
    simp only
    split
    · simp [Stops, Punctuator.reach] at hrest
    · exact .ok
  | choice hc ht he =>
    rw [List.append_assoc, List.cons_append] at hw
    obtain ⟨us, xs, rfl, rfl, hxs⟩ := lexemes_eq_append hw
    obtain ⟨column, ys, rfl, hys⟩ := lexemes_eq_cons hxs
    obtain ⟨vs, zs, rfl, rfl, hzs⟩ := lexemes_eq_append hys
    obtain ⟨column', ws, rfl, rfl⟩ := lexemes_eq_cons hzs
    simp only [List.append_assoc, List.cons_append]
    refine (ih hc (by simp [Stops, Punctuator.reach, Level.rank])).bind ?_
    refine (ih ht (by simp [Stops, Punctuator.reach, Level.rank])).bind ?_
    simp only [expect_cons]
    exact (ih he hrest).bind .ok

theorem ReadsWords.tier {t : Tier} (ih : ReadsWords n) (h : Derives (.tier t) (lexemes ts) e)
    (hrest : Stops (Level.tier t).rank rest) :
    Yields (readLevel (n + 1) (.tier t) (ts ++ rest)) (e, rest) := by
  obtain ⟨u, v, l, hw, hl, hj⟩ := h.joins
  obtain ⟨us, vs, rfl, rfl, rfl⟩ := lexemes_eq_append hw
  rw [List.append_assoc]
  refine (ih hl (stops_of_joins hj hrest)).bind ?_
  exact yields_joinOperands ih hj (by simp) hrest

theorem ReadsWords.negation (ih : ReadsWords n) (h : Derives .negation (lexemes ts) e)
    (hrest : Stops 4 rest) : Yields (readLevel (n + 1) .negation (ts ++ rest)) (e, rest) := by
  generalize hw : lexemes ts = w at h
  cases h with
  | negated h =>
    obtain ⟨column, us, rfl, rfl⟩ := lexemes_eq_cons hw
    exact (ih h hrest).bind .ok
  | bare hne h =>
    subst hw
    obtain ⟨x, u, hx, -⟩ := h.begins
    obtain ⟨column, us, rfl, -⟩ := lexemes_eq_cons hx
    unfold readLevel
    split
    · next heq => simp_all
    · exact ih h (hrest.mono (by decide))

theorem ReadsWords.unary (ih : ReadsWords n) (h : Derives .unary (lexemes ts) e)
    (hrest : Stops 13 rest) : Yields (readLevel (n + 1) .unary (ts ++ rest)) (e, rest) := by
  generalize hw : lexemes ts = w at h
  cases h with
  | signed hp h =>
    obtain ⟨column, us, rfl, rfl⟩ := lexemes_eq_cons hw
    have hop := unaryOperator?_eq_some_iff.mpr ⟨hp, rfl⟩
    simp only [List.cons_append, readLevel, hop]
    exact (ih h hrest).bind .ok
  | unsigned h =>
    subst hw
    have hprimary := ih h (hrest.mono (by decide))
    unfold readLevel
    split
    · next p column tokens htokens =>
      split
      · next op hop =>
        obtain ⟨x, u, hx, hbegins⟩ := h.begins
        obtain ⟨column, us, rfl, -⟩ := lexemes_eq_cons hx
        cases htokens
        have hnone : unaryOperator? p = none := by
          unfold Begins at hbegins
          split at hbegins <;> simp_all [unaryOperator?]
        simp [hnone] at hop
      · exact hprimary
    · exact hprimary

/-- What stands in parentheses is read up to the one that closes. -/
theorem ReadsWords.parenthesis (ih : ReadsWords n) (h : Derives .conditional (lexemes ts) e)
    (f : Expr → Expr) (column : Nat) (rest : List Token) :
    Yields (do
      let (inner, rest) ← readLevel n .conditional
        (ts ++ ⟨.punctuator .rightParen, column⟩ :: rest)
      let rest ← expect .rightParen rest
      return (f inner, rest)) (f e, rest) := by
  refine (ih h (by simp [Stops, Punctuator.reach, Level.rank])).bind ?_
  simp only [expect_cons]
  exact .ok

theorem ReadsWords.primary (ih : ReadsWords n) (h : Derives .primary (lexemes ts) e)
    (hrest : Stops 14 rest) : Yields (readLevel (n + 1) .primary (ts ++ rest)) (e, rest) := by
  generalize hw : lexemes ts = w at h
  cases h with
  | integer h =>
    obtain ⟨column, us, rfl, hus⟩ := lexemes_eq_cons hw
    obtain rfl := List.map_eq_nil_iff.mp hus
    exact yields_readInteger h
  | identifier h =>
    obtain ⟨column, us, rfl, hus⟩ := lexemes_eq_cons hw
    obtain rfl := List.map_eq_nil_iff.mp hus
    simp only [List.cons_append, List.nil_append, readLevel, if_neg h]
    split
    · simp [Stops, Punctuator.reach] at hrest
    · simp [Stops, Punctuator.reach] at hrest
    · exact .ok
  | emptyCall h =>
    obtain ⟨c₁, us, rfl, hus⟩ := lexemes_eq_cons hw
    obtain ⟨c₂, vs, rfl, hvs⟩ := lexemes_eq_cons hus
    obtain ⟨c₃, ws, rfl, hws⟩ := lexemes_eq_cons hvs
    obtain rfl := List.map_eq_nil_iff.mp hws
    simp only [List.cons_append, List.nil_append, readLevel, if_neg h]
    exact .ok
  | @call w name a h ha =>
    rw [List.cons_append, List.cons_append] at hw
    obtain ⟨c₁, us, rfl, hus⟩ := lexemes_eq_cons hw
    obtain ⟨c₂, vs, rfl, hvs⟩ := lexemes_eq_cons hus
    obtain ⟨ts, ws, rfl, rfl, hws⟩ := lexemes_eq_append hvs
    obtain ⟨c₃, xs, rfl, hxs⟩ := lexemes_eq_cons hws
    obtain rfl := List.map_eq_nil_iff.mp hxs
    have hargument := ih.parenthesis ha (Expr.call name) c₃ rest
    obtain ⟨x, u, hx, hbegins⟩ := ha.begins
    simp only [List.cons_append, List.append_assoc, List.nil_append, readLevel, if_neg h]
    split
    · next heq =>
      obtain ⟨c₄, us, rfl, -⟩ := lexemes_eq_cons hx
      cases heq
      simp [Begins, unaryOperators] at hbegins
    · next heq =>
      cases heq
      exact hargument
    · next hne =>
      exact absurd rfl (hne _ _)
  | defined =>
    obtain ⟨c₁, us, rfl, hus⟩ := lexemes_eq_cons hw
    obtain ⟨c₂, vs, rfl, hvs⟩ := lexemes_eq_cons hus
    obtain rfl := List.map_eq_nil_iff.mp hvs
    exact .ok
  | definedIn =>
    obtain ⟨c₁, us, rfl, hus⟩ := lexemes_eq_cons hw
    obtain ⟨c₂, vs, rfl, hvs⟩ := lexemes_eq_cons hus
    obtain ⟨c₃, ws, rfl, hws⟩ := lexemes_eq_cons hvs
    obtain ⟨c₄, xs, rfl, hxs⟩ := lexemes_eq_cons hws
    obtain rfl := List.map_eq_nil_iff.mp hxs
    exact .ok
  | parenthesized h =>
    rw [List.cons_append] at hw
    obtain ⟨c₁, us, rfl, hus⟩ := lexemes_eq_cons hw
    obtain ⟨ts, vs, rfl, rfl, hvs⟩ := lexemes_eq_append hus
    obtain ⟨c₂, ws, rfl, hws⟩ := lexemes_eq_cons hvs
    obtain rfl := List.map_eq_nil_iff.mp hws
    simp only [List.cons_append, List.append_assoc, List.nil_append, readLevel]
    exact ih.parenthesis h id c₂ rest

end Step

theorem readsWords (n : Nat) : ReadsWords n := by
  induction n with
  | zero => exact fun _ _ => .inr ⟨_, rfl, trivial⟩
  | succ n ih =>
    intro level e ts rest h hrest
    cases level with
    | conditional => exact ih.conditional h hrest
    | tier t => exact ih.tier h hrest
    | negation => exact ih.negation h hrest
    | unary => exact ih.unary h hrest
    | primary => exact ih.primary h hrest

end Expr
end Presence

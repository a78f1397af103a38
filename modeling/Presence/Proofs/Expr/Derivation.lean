import Presence.Expr.Grammar

/-!
The grammar of condition expressions, apart from how they are read. Operators of one tier associate
to the left, and an operand of `&&` that begins with `!` is negated as a whole.
-/
namespace Presence

def Tier.operators : Tier → List Punctuator
  | .disjunction => [.or]
  | .conjunction => [.and]
  | .bitOr => [.bitOr]
  | .bitXor => [.bitXor]
  | .bitAnd => [.bitAnd]
  | .equality => [.equal, .unequal]
  | .relational => [.less, .atMost, .greater, .atLeast]
  | .shift => [.shiftLeft, .shiftRight]
  | .additive => [.plus, .minus]
  | .multiplicative => [.times, .divide, .remainder]

def unaryOperators : List Punctuator :=
  [.minus, .plus, .complement, .not]

namespace Expr

/-- The words of a level and their trees. -/
inductive Derives : Level → List Lexeme → Expr → Prop
  | plain {w : List Lexeme} {e : Expr} (h : Derives (.tier .disjunction) w e) :
      Derives .conditional w e
  | choice {u v w : List Lexeme} {c t e : Expr} (hc : Derives (.tier .disjunction) u c)
      (ht : Derives .conditional v t) (he : Derives .conditional w e) :
      Derives .conditional (u ++ .punctuator .question :: v ++ .punctuator .colon :: w)
        (.conditional c t e)
  | single {t : Tier} {w : List Lexeme} {e : Expr} (h : Derives t.operand w e) :
      Derives (.tier t) w e
  | join {t : Tier} {u w : List Lexeme} {p : Punctuator} {l r : Expr}
      (hl : Derives (.tier t) u l) (hp : p ∈ t.operators) (hr : Derives t.operand w r) :
      Derives (.tier t) (u ++ .punctuator p :: w) (.binary (.ofSymbol p.symbol) l r)
  | negated {w : List Lexeme} {e : Expr} (h : Derives .negation w e) :
      Derives .negation (.punctuator .not :: w) (.unary .not e)
  | bare {w : List Lexeme} {e : Expr} (hw : w.head? ≠ some (.punctuator .not))
      (h : Derives (.tier .bitOr) w e) : Derives .negation w e
  | signed {w : List Lexeme} {p : Punctuator} {e : Expr} (hp : p ∈ unaryOperators)
      (h : Derives .unary w e) :
      Derives .unary (.punctuator p :: w) (.unary (.ofSymbol p.symbol) e)
  | unsigned {w : List Lexeme} {e : Expr} (h : Derives .primary w e) : Derives .unary w e
  | integer {s : String} {c : IntegerConstant}
      (h : IntegerConstant.ofSpelling? s.toList = some c) :
      Derives .primary [.integer s] (.integer s c.value)
  | identifier {name : String} (h : name ≠ definedName) :
      Derives .primary [.identifier name] (.identifier name)
  | emptyCall {name : String} (h : name ≠ definedName) :
      Derives .primary
        [.identifier name, .punctuator .leftParen, .punctuator .rightParen] (.call name .absent)
  | call {w : List Lexeme} {name : String} {a : Expr} (h : name ≠ definedName)
      (ha : Derives .conditional w a) :
      Derives .primary
        (.identifier name :: .punctuator .leftParen :: w ++ [.punctuator .rightParen])
        (.call name a)
  | defined {name : String} :
      Derives .primary [.identifier definedName, .identifier name]
        (.call definedName (.identifier name))
  | definedIn {name : String} :
      Derives .primary [.identifier definedName, .punctuator .leftParen, .identifier name,
        .punctuator .rightParen] (.call definedName (.identifier name))
  | parenthesized {w : List Lexeme} {e : Expr} (h : Derives .conditional w e) :
      Derives .primary (.punctuator .leftParen :: w ++ [.punctuator .rightParen]) e

def Begins (level : Level) : Lexeme → Prop
  | .integer _ | .identifier _ | .punctuator .leftParen => True
  | .punctuator p => p ∈ unaryOperators ∧ level ≠ .primary
  | .endOfText => False

theorem Begins.of_ne {level level' : Level} {x : Lexeme} (h : Begins level' x)
    (hl : level ≠ .primary) : Begins level x := by
  unfold Begins at h ⊢
  split <;> simp_all

theorem Derives.begins {level : Level} {w : List Lexeme} {e : Expr} (h : Derives level w e) :
    ∃ x u, w = x :: u ∧ Begins level x := by
  induction h with
  | plain _ ih =>
    obtain ⟨x, u, rfl, hx⟩ := ih
    exact ⟨x, u, rfl, hx.of_ne (by simp)⟩
  | choice _ _ _ ih =>
    obtain ⟨x, u, rfl, hx⟩ := ih
    exact ⟨x, _, rfl, hx.of_ne (by simp)⟩
  | single _ ih =>
    obtain ⟨x, u, rfl, hx⟩ := ih
    exact ⟨x, u, rfl, hx.of_ne (by simp)⟩
  | join _ _ _ ih =>
    obtain ⟨x, u, rfl, hx⟩ := ih
    exact ⟨x, _, rfl, hx⟩
  | negated => exact ⟨_, _, rfl, by simp [Begins, unaryOperators]⟩
  | bare _ _ ih =>
    obtain ⟨x, u, rfl, hx⟩ := ih
    exact ⟨x, u, rfl, hx.of_ne (by simp)⟩
  | @signed w p e hp h =>
    refine ⟨_, _, rfl, ?_⟩
    unfold Begins
    split <;> simp_all
  | unsigned _ ih =>
    obtain ⟨x, u, rfl, hx⟩ := ih
    exact ⟨x, u, rfl, hx.of_ne (by simp)⟩
  | integer | identifier | emptyCall | call | defined | definedIn | parenthesized =>
    exact ⟨_, _, rfl, trivial⟩

/-- No word runs over the end of a text. -/
theorem Derives.endOfText_not_mem {level : Level} {w : List Lexeme} {e : Expr}
    (h : Derives level w e) : .endOfText ∉ w := by
  induction h with
  | choice _ _ _ ihc iht ihe => simp [ihc, iht, ihe]
  | join _ _ _ ihl ihr => simp [ihl, ihr]
  | plain _ ih | single _ ih | negated _ ih | bare _ _ ih | signed _ _ ih | unsigned _ ih
  | call _ _ ih | parenthesized _ ih => simpa using ih
  | integer | identifier | emptyCall | defined | definedIn => simp

/-- A word that is bare or in parentheses is one of every level. -/
theorem Derives.of_primary {w : List Lexeme} {e : Expr} (h : Derives .primary w e)
    (hw : w.head? ≠ some (.punctuator .not)) (level : Level) : Derives level w e := by
  have hmultiplicative : Derives (.tier .multiplicative) w e := .single (.unsigned h)
  have hadditive : Derives (.tier .additive) w e := .single hmultiplicative
  have hshift : Derives (.tier .shift) w e := .single hadditive
  have hrelational : Derives (.tier .relational) w e := .single hshift
  have hequality : Derives (.tier .equality) w e := .single hrelational
  have hbitAnd : Derives (.tier .bitAnd) w e := .single hequality
  have hbitXor : Derives (.tier .bitXor) w e := .single hbitAnd
  have hbitOr : Derives (.tier .bitOr) w e := .single hbitXor
  have hnegation : Derives .negation w e := .bare hw hbitOr
  have hconjunction : Derives (.tier .conjunction) w e := .single hnegation
  have hdisjunction : Derives (.tier .disjunction) w e := .single hconjunction
  cases level with
  | conditional => exact .plain hdisjunction
  | tier t => cases t <;> assumption
  | negation => exact hnegation
  | unary => exact .unsigned h
  | primary => exact h

end Expr

/-- The place of a level, from the loosest on. -/
def Level.rank : Level → Nat
  | .conditional => 1
  | .tier .disjunction => 2
  | .tier .conjunction => 3
  | .negation => 4
  | .tier .bitOr => 5
  | .tier .bitXor => 6
  | .tier .bitAnd => 7
  | .tier .equality => 8
  | .tier .relational => 9
  | .tier .shift => 10
  | .tier .additive => 11
  | .tier .multiplicative => 12
  | .unary => 13
  | .primary => 14

/-- The tightest level whose words go on at a punctuator, by its rank. A name goes on at a
parenthesis, as a call, and no word goes on at what has 0. -/
def Punctuator.reach : Punctuator → Nat
  | .question => 1
  | .or => 2
  | .and => 3
  | .bitOr => 5
  | .bitXor => 6
  | .bitAnd => 7
  | .equal | .unequal => 8
  | .less | .atMost | .greater | .atLeast => 9
  | .shiftLeft | .shiftRight => 10
  | .plus | .minus => 11
  | .times | .divide | .remainder => 12
  | .leftParen => 15
  | _ => 0

theorem Tier.rank_operand (t : Tier) : t.operand.rank = (Level.tier t).rank + 1 := by
  cases t <;> rfl

theorem Tier.reach_of_mem {t : Tier} {p : Punctuator} (h : p ∈ t.operators) :
    p.reach = (Level.tier t).rank := by
  cases t <;> simp only [operators, List.mem_cons, List.not_mem_nil, or_false] at h <;>
    rcases h with rfl | rfl | rfl | rfl <;> rfl

theorem Tier.operator?_eq_some_iff {t : Tier} {p : Punctuator} {op : BinaryOp} :
    t.operator? p = some op ↔ p ∈ t.operators ∧ op = .ofSymbol p.symbol := by
  constructor
  · intro h
    unfold operator? at h
    split at h <;> cases h <;> exact ⟨by simp [operators], by decide⟩
  · rintro ⟨hp, rfl⟩
    cases t <;> simp only [operators, List.mem_cons, List.not_mem_nil, or_false] at hp <;>
      rcases hp with rfl | rfl | rfl | rfl <;> decide

theorem unaryOperator?_eq_some_iff {p : Punctuator} {op : UnaryOp} :
    unaryOperator? p = some op ↔ p ∈ unaryOperators ∧ op = .ofSymbol p.symbol := by
  constructor
  · intro h
    unfold unaryOperator? at h
    split at h <;> cases h <;> exact ⟨by simp [unaryOperators], by decide⟩
  · rintro ⟨hp, rfl⟩
    simp only [unaryOperators, List.mem_cons, List.not_mem_nil, or_false] at hp
    rcases hp with rfl | rfl | rfl | rfl <;> decide

/-- A punctuator of looser reach is no operator of a tier. -/
theorem Tier.operator?_eq_none {t : Tier} {p : Punctuator}
    (h : p.reach < (Level.tier t).rank) : t.operator? p = none := by
  cases hop : t.operator? p with
  | none => rfl
  | some op =>
    have := reach_of_mem (operator?_eq_some_iff.mp hop).1
    omega

abbrev lexemes (tokens : List Token) : List Lexeme :=
  tokens.map (·.lexeme)

/-- No word of a level of this rank goes on at the first of these tokens. -/
def Stops (rank : Nat) : List Token → Prop
  | ⟨.punctuator p, _⟩ :: _ => p.reach < rank
  | _ => True

theorem Stops.mono {r s : Nat} {tokens : List Token} (h : Stops r tokens) (hrs : r ≤ s) :
    Stops s tokens := by
  unfold Stops at h ⊢
  split
  · exact Nat.lt_of_lt_of_le h hrs
  · trivial

end Presence

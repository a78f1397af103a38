import Presence.Proofs.Expr.Completeness

/-!
How far reading looks. What is read of an expression, or why it cannot be, depends on the tokens
that are taken and on the kind of the next one, and on no token behind that.
-/
namespace Presence

def Lexeme.Short (x : Lexeme) : Prop :=
  ∀ s c d, x = .integer s → IntegerConstant.ofSpelling? s.toList = some c → c.read ≠ .error d

theorem Lexeme.short_punctuator (p : Punctuator) : (Lexeme.punctuator p).Short := by
  intro s c d h
  cases h

theorem Lexeme.short_identifier (name : String) : (Lexeme.identifier name).Short := by
  intro s c d h
  cases h

namespace Expr

/-- A reader of something at the start of tokens. -/
abbrev Reader (α : Type) := List Token → Except ConditionError (α × List Token)

theorem expect_of_ne {p : Punctuator} (x : Lexeme) (column : Nat) (rest : List Token)
    (hx : x ≠ .punctuator p) : expect p (⟨x, column⟩ :: rest) =
      .error (.grammar ⟨.punctuatorMissing p, ⟨x, column⟩ :: rest⟩) := by
  cases x with
  | punctuator q =>
    have hq : q ≠ p := fun h => hx (congrArg Lexeme.punctuator h)
    simp only [expect, if_neg hq]
  | identifier | integer | endOfText => rfl

/-- Without a parenthesis the tested name comes first. -/
theorem readDefined_of_ne (x : Lexeme) (column : Nat) (rest : List Token)
    (hx : x ≠ .punctuator .leftParen) : readDefined (⟨x, column⟩ :: rest) =
      (readTestedName (⟨x, column⟩ :: rest) >>= fun r =>
        .ok (Expr.call definedName (.identifier r.1), r.2)) := by
  unfold readDefined
  split
  · next heq =>
    cases heq
    exact absurd rfl hx
  · rfl

def nextLexeme (tokens : List Token) : Option Lexeme :=
  (lexemes tokens).head?

/-- Where reading stops: behind what is read, or at the offending token. -/
def place? {α : Type} : Except ConditionError (α × List Token) → Option (List Token)
  | .ok (_, rest) => some rest
  | .error (.grammar g) => some g.rest
  | .error _ => none

/-- The same outcome in front of other tokens. -/
def moveTo {α : Type} (rest : List Token) :
    Except ConditionError (α × List Token) → Except ConditionError (α × List Token)
  | .ok (a, _) => .ok (a, rest)
  | .error (.grammar g) => .error (.grammar ⟨g.problem, rest⟩)
  | .error x => .error x

/-- Up to `rest`, the outcome depends on the kinds of the tokens that are taken and of the next
one. -/
def LocalAt {α : Type} (f : Reader α) (tokens rest : List Token) : Prop :=
  ∃ ts, tokens = ts ++ rest ∧ (∀ t ∈ ts, t.lexeme.Short) ∧
    ∀ ts' rest', lexemes ts' = lexemes ts → nextLexeme rest' = nextLexeme rest →
      f (ts' ++ rest') = moveTo rest' (f tokens)

/-- The reader takes some tokens and looks at the kind of the next one. -/
def Local {α : Type} (f : Reader α) : Prop :=
  ∀ tokens rest, place? (f tokens) = some rest → LocalAt f tokens rest

theorem nextLexeme_append_congr {ts ts' rest rest' : List Token} (hts : lexemes ts' = lexemes ts)
    (hrest : nextLexeme rest' = nextLexeme rest) :
    nextLexeme (ts' ++ rest') = nextLexeme (ts ++ rest) := by
  simp only [nextLexeme, lexemes, List.map_append, List.head?_append] at hts hrest ⊢
  rw [hts, hrest]

namespace Local

variable {α β : Type} {f g : Reader α} {tokens rest : List Token}

theorem pure (a : α) : Local fun tokens => .ok (a, tokens) := by
  intro tokens rest hplace
  cases hplace
  refine ⟨[], rfl, by simp, fun ts' rest' hts' _ => ?_⟩
  rw [List.map_eq_nil_iff.mp hts']
  rfl

theorem fail (p : GrammarProblem) : Local (α := α) fun tokens => .error (.grammar ⟨p, tokens⟩) := by
  intro tokens rest hplace
  cases hplace
  refine ⟨[], rfl, by simp, fun ts' rest' hts' _ => ?_⟩
  rw [List.map_eq_nil_iff.mp hts']
  rfl

theorem limit {x : ConditionError} (hx : x.IsLimit) : Local (α := α) fun _ => .error x := by
  intro tokens rest hplace
  cases x with
  | tooDeep | digitLimit => cases hplace
  | scan | grammar | meaning => exact hx.elim

theorem bind {g : α → Reader β} (hf : Local f) (hg : ∀ a, Local (g a)) :
    Local fun tokens => f tokens >>= fun r => g r.1 r.2 := by
  intro tokens rest hplace
  dsimp only at hplace
  cases hread : f tokens with
  | error x =>
    rw [hread] at hplace
    cases x with
    | grammar e =>
      obtain ⟨ts, hts, hshort, hlocal⟩ := hf tokens rest (by rw [hread]; exact hplace)
      refine ⟨ts, hts, hshort, fun ts' rest' hts' hrest' => ?_⟩
      dsimp only
      rw [hlocal ts' rest' hts' hrest', hread]
      rfl
    | scan | meaning | tooDeep | digitLimit => cases hplace
  | ok r =>
    obtain ⟨a, middle⟩ := r
    rw [hread] at hplace
    obtain ⟨us, rfl, hus, hsecond⟩ := hg a middle rest hplace
    obtain ⟨ts, rfl, hts, hfirst⟩ := hf tokens (us ++ rest) (by rw [hread]; rfl)
    refine ⟨ts ++ us, by simp, fun t ht => ?_, fun ts' rest' hts' hrest' => ?_⟩
    · exact (List.mem_append.mp ht).elim (hts t) (hus t)
    · have hparts : lexemes ts' = lexemes ts ++ lexemes us := by simpa using hts'
      obtain ⟨vs, ws, rfl, hvs, hws⟩ := lexemes_eq_append hparts
      have hnext := nextLexeme_append_congr hws hrest'
      dsimp only
      rw [List.append_assoc, hfirst vs (ws ++ rest') hvs hnext, hread]
      exact hsecond ws rest' hws hrest'

/-- What a reader does at a token of a kind: it takes the token, or leaves it where it is. -/
inductive Step (f : Reader α) (x : Lexeme) : Prop
  | take {g : Reader α} (hx : x.Short) (hg : Local g)
      (h : ∀ column rest, f (⟨x, column⟩ :: rest) = g rest)
  | stay {g : Reader α} (hg : Local g)
      (h : ∀ column rest, f (⟨x, column⟩ :: rest) = g (⟨x, column⟩ :: rest))

theorem localAt_of_agree (hg : Local g)
    (hagree : ∀ us, nextLexeme us = nextLexeme tokens → f us = g us)
    (hplace : place? (f tokens) = some rest) : LocalAt f tokens rest := by
  rw [hagree tokens rfl] at hplace
  obtain ⟨ts, rfl, hts, hlocal⟩ := hg tokens rest hplace
  refine ⟨ts, rfl, hts, fun ts' rest' hts' hrest' => ?_⟩
  rw [hagree _ (nextLexeme_append_congr hts' hrest'), hlocal ts' rest' hts' hrest', hagree _ rfl]

/-- A reader is told by what it does at each kind of token. -/
theorem of_step (hg : Local g) (hnil : f [] = g []) (h : ∀ x, Step f x) : Local f := by
  intro tokens rest hplace
  cases tokens with
  | nil =>
    refine localAt_of_agree hg (fun us hus => ?_) hplace
    have hempty : us = [] := by simpa [nextLexeme] using hus
    rw [hempty, hnil]
  | cons t tokens =>
    obtain ⟨x, column⟩ := t
    cases h x with
    | stay hg hstay =>
      refine localAt_of_agree hg (fun us hus => ?_) hplace
      obtain ⟨us', hcons⟩ := List.head?_eq_some_iff.mp hus
      obtain ⟨column', vs, rfl, -⟩ := lexemes_eq_cons hcons
      exact hstay column' vs
    | take hx hg htake =>
      rw [htake] at hplace
      obtain ⟨ts, rfl, hts, hlocal⟩ := hg tokens rest hplace
      refine ⟨⟨x, column⟩ :: ts, rfl, List.forall_mem_cons.mpr ⟨hx, hts⟩, ?_⟩
      intro ts' rest' hts' hrest'
      obtain ⟨column', us, rfl, hus⟩ := lexemes_eq_cons hts'
      rw [List.cons_append, htake, htake, hlocal us rest' hus hrest']

/-- A reader that takes one punctuator and leaves all other tokens where they are. -/
theorem of_punctuator {h : Reader α} (p : Punctuator) (hg : Local g) (hh : Local h)
    (hnil : f [] = g []) (htake : ∀ column rest, f (⟨.punctuator p, column⟩ :: rest) = h rest)
    (hstay : ∀ x column rest, x ≠ .punctuator p →
      f (⟨x, column⟩ :: rest) = g (⟨x, column⟩ :: rest)) : Local f := by
  refine of_step hg hnil fun x => ?_
  by_cases hx : x = .punctuator p
  · subst hx
    exact .take (Lexeme.short_punctuator p) hh htake
  · exact .stay hg fun column rest => hstay x column rest hx

/-- What a reader does within each bound on the tokens it does as a whole. -/
theorem of_bounded (h : ∀ n, ∃ g : Reader α, Local g ∧ ∀ us, us.length ≤ n → f us = g us) :
    Local f := by
  intro tokens rest hplace
  obtain ⟨g, hg, hsame⟩ := h tokens.length
  rw [hsame tokens (Nat.le_refl _)] at hplace
  obtain ⟨ts, rfl, hts, -⟩ := hg tokens rest hplace
  refine ⟨ts, rfl, hts, fun ts' rest' hts' hrest' => ?_⟩
  -- A bound for both of the texts gives one reader that stops at the same place in them.
  obtain ⟨g', hg', hsame'⟩ := h (max (ts ++ rest).length (ts' ++ rest').length)
  rw [← hsame _ (Nat.le_refl _), hsame' _ (Nat.le_max_left _ _)] at hplace
  obtain ⟨us, hus, -, hlocal⟩ := hg' (ts ++ rest) rest hplace
  obtain rfl := List.append_cancel_right hus
  rw [hsame' _ (Nat.le_max_right _ _), hlocal ts' rest' hts' hrest',
    hsame' _ (Nat.le_max_left _ _)]

theorem expect (p : Punctuator) (hg : Local g) :
    Local fun tokens => Expr.expect p tokens >>= g := by
  refine of_punctuator p (fail (.punctuatorMissing p)) hg rfl ?_ ?_
  · intro column rest
    simp only [expect_cons]
    rfl
  · intro x column rest hx
    rw [expect_of_ne x column rest hx]
    rfl

theorem readTestedName : Local Expr.readTestedName := by
  refine of_step (fail .testedNameMissing) rfl fun x => ?_
  cases x with
  | identifier name => exact .take (Lexeme.short_identifier name) (pure name) fun _ _ => rfl
  | integer | punctuator | endOfText => exact .stay (fail .testedNameMissing) fun _ _ => rfl

theorem readDefined : Local Expr.readDefined := by
  have hbare : Local fun tokens => Expr.readTestedName tokens >>= fun r =>
      .ok (Expr.call definedName (.identifier r.1), r.2) :=
    bind readTestedName fun name => pure (Expr.call definedName (.identifier name))
  have hparen : Local fun tokens => Expr.readTestedName tokens >>= fun r =>
      Expr.expect .rightParen r.2 >>= fun rest =>
        .ok (Expr.call definedName (.identifier r.1), rest) :=
    bind readTestedName fun name =>
      expect .rightParen (pure (Expr.call definedName (.identifier name)))
  exact of_punctuator .leftParen hbare hparen rfl (fun _ _ => rfl) readDefined_of_ne

/-- Within fixed steps, joining reads no further than its operands do. -/
theorem joinOperands (operator? : Punctuator → Option BinaryOp) {operand : Reader Expr}
    (hoperand : Local operand) (steps : Nat) (left : Expr) :
    Local (Expr.joinOperands operator? operand steps left) := by
  induction steps generalizing left with
  | zero => exact pure left
  | succ n ih =>
    refine of_step (pure left) rfl fun x => ?_
    cases x with
    | punctuator p =>
      cases hop : operator? p with
      | none =>
        refine .stay (pure left) fun column rest => ?_
        simp only [Expr.joinOperands, hop]
      | some op =>
        have hjoin : Local fun tokens => operand tokens >>= fun r =>
            Expr.joinOperands operator? operand n (.binary op left r.1) r.2 :=
          bind hoperand fun right => ih (.binary op left right)
        refine .take (Lexeme.short_punctuator p) hjoin fun column rest => ?_
        simp only [Expr.joinOperands, hop]
    | identifier | integer | endOfText => exact .stay (pure left) fun _ _ => rfl

end Local

/-- More steps than tokens make no difference. -/
theorem joinOperands_of_length {operator? : Punctuator → Option BinaryOp} {operand : Reader Expr}
    (hread : ∀ tokens e rest, operand tokens = .ok (e, rest) → rest.length < tokens.length)
    {m n : Nat} {left : Expr} {tokens : List Token} (hm : tokens.length ≤ m)
    (hn : tokens.length ≤ n) :
    joinOperands operator? operand m left tokens = joinOperands operator? operand n left tokens := by
  induction m generalizing n left tokens with
  | zero =>
    obtain rfl := List.length_eq_zero_iff.mp (Nat.le_zero.mp hm)
    cases n <;> rfl
  | succ m ih =>
    cases n with
    | zero =>
      obtain rfl := List.length_eq_zero_iff.mp (Nat.le_zero.mp hn)
      rfl
    | succ n =>
      unfold joinOperands
      split
      · next p column rest =>
        split
        · cases hoperand : operand rest with
          | error x => rfl
          | ok r =>
            obtain ⟨right, rest'⟩ := r
            have hlength := hread rest right rest' hoperand
            rw [List.length_cons] at hm hn
            exact ih (by omega) (by omega)
        · rfl
      · rfl

/-- Reads what follows a condition: the rest of a conditional expression, if it is one. -/
def readChoice (n : Nat) (c : Expr) : Reader Expr := fun tokens =>
  match tokens with
  | ⟨.punctuator .question, _⟩ :: rest => do
    let (t, rest) ← readLevel n .conditional rest
    let rest ← expect .colon rest
    let (e, rest) ← readLevel n .conditional rest
    return (.conditional c t e, rest)
  | _ => return (c, tokens)

/-- Reads an expression and the parenthesis that closes it. -/
def readEnclosed (n : Nat) (f : Expr → Expr) : Reader Expr := fun tokens => do
  let (inner, rest) ← readLevel n .conditional tokens
  let rest ← expect .rightParen rest
  return (f inner, rest)

/-- Reads what follows a name: the rest of a call, if it is one. -/
def readCall (n : Nat) (name : String) : Reader Expr := fun tokens =>
  match tokens with
  | ⟨.punctuator .leftParen, _⟩ :: ⟨.punctuator .rightParen, _⟩ :: rest =>
    .ok (.call name .absent, rest)
  | ⟨.punctuator .leftParen, _⟩ :: rest => readEnclosed n (.call name) rest
  | _ => .ok (.identifier name, tokens)

/-- Reads what follows the opening parenthesis of a call. -/
def readArgument (n : Nat) (name : String) : Reader Expr := fun tokens =>
  match tokens with
  | ⟨.punctuator .rightParen, _⟩ :: rest => .ok (.call name .absent, rest)
  | _ => readEnclosed n (.call name) tokens

theorem readCall_leftParen (n : Nat) (name : String) (column : Nat) (rest : List Token) :
    readCall n name (⟨.punctuator .leftParen, column⟩ :: rest) = readArgument n name rest := by
  unfold readCall readArgument
  split <;> simp_all

theorem readChoice_of_ne (n : Nat) (c : Expr) (x : Lexeme) (column : Nat) (rest : List Token)
    (hx : x ≠ .punctuator .question) :
    readChoice n c (⟨x, column⟩ :: rest) = .ok (c, ⟨x, column⟩ :: rest) := by
  unfold readChoice
  split
  · next heq =>
    cases heq
    exact absurd rfl hx
  · rfl

theorem readArgument_of_ne (n : Nat) (name : String) (x : Lexeme) (column : Nat)
    (rest : List Token) (hx : x ≠ .punctuator .rightParen) :
    readArgument n name (⟨x, column⟩ :: rest) =
      readEnclosed n (.call name) (⟨x, column⟩ :: rest) := by
  unfold readArgument
  split
  · next heq =>
    cases heq
    exact absurd rfl hx
  · rfl

theorem readCall_of_ne (n : Nat) (name : String) (x : Lexeme) (column : Nat)
    (rest : List Token) (hx : x ≠ .punctuator .leftParen) :
    readCall n name (⟨x, column⟩ :: rest) = .ok (.identifier name, ⟨x, column⟩ :: rest) := by
  unfold readCall
  split
  · next heq =>
    cases heq
    exact absurd rfl hx
  · next heq =>
    cases heq
    exact absurd rfl hx
  · rfl

theorem readLevel_negation_of_ne (n : Nat) (x : Lexeme) (column : Nat) (rest : List Token)
    (hx : x ≠ .punctuator .not) : readLevel (n + 1) .negation (⟨x, column⟩ :: rest) =
      readLevel n (.tier .bitOr) (⟨x, column⟩ :: rest) := by
  rw [readLevel]
  rintro column rest heq
  cases heq
  exact hx rfl

theorem readLevel_primary_identifier (n : Nat) (name : String) (column : Nat)
    (rest : List Token) : readLevel (n + 1) .primary (⟨.identifier name, column⟩ :: rest) =
      if name = definedName then readDefined rest else readCall n name rest := rfl

theorem readLevel_primary_punctuator (n : Nat) {p : Punctuator} (hp : p ≠ .leftParen)
    (column : Nat) (rest : List Token) :
    readLevel (n + 1) .primary (⟨.punctuator p, column⟩ :: rest) =
      .error (.grammar ⟨.unexpected, ⟨.punctuator p, column⟩ :: rest⟩) := by
  cases p <;> first | exact absurd rfl hp | rfl

/-- With this budget the reader of each level looks no further. -/
def ReadsLocally (n : Nat) : Prop :=
  ∀ level, Local (readLevel n level)

namespace ReadsLocally

variable {n : Nat}

theorem choice (ih : ReadsLocally n) (c : Expr) : Local (readChoice n c) := by
  have hbranches : Local fun tokens => readLevel n .conditional tokens >>= fun r =>
      expect .colon r.2 >>= fun rest => readLevel n .conditional rest >>= fun s =>
        .ok (Expr.conditional c r.1 s.1, s.2) :=
    .bind (ih .conditional) fun t => .expect .colon (.bind (ih .conditional) fun e =>
      .pure (Expr.conditional c t e))
  exact .of_punctuator .question (.pure c) hbranches rfl (fun _ _ => rfl) (readChoice_of_ne n c)

theorem conditional (ih : ReadsLocally n) : Local (readLevel (n + 1) .conditional) :=
  .bind (ih (.tier .disjunction)) ih.choice

theorem tier (ih : ReadsLocally n) (t : Tier) : Local (readLevel (n + 1) (.tier t)) := by
  have hlength : ∀ tokens e rest, readLevel n t.operand tokens = .ok (e, rest) →
      rest.length < tokens.length := fun _ _ _ h => (readsOnlyWords n h).length_lt
  refine .of_bounded fun m => ⟨_, .bind (ih t.operand)
    (Local.joinOperands t.operator? (ih t.operand) m), fun tokens hm => ?_⟩
  rw [readLevel]
  cases hread : readLevel n t.operand tokens with
  | error x => rfl
  | ok r =>
    obtain ⟨left, rest⟩ := r
    have hrest := hlength tokens left rest hread
    exact joinOperands_of_length hlength (Nat.le_refl _) (by omega)

theorem negation (ih : ReadsLocally n) : Local (readLevel (n + 1) .negation) := by
  have hoperand : Local fun tokens => readLevel n .negation tokens >>= fun r =>
      .ok (Expr.unary .not r.1, r.2) :=
    .bind (ih .negation) fun e => .pure (Expr.unary .not e)
  exact .of_punctuator .not (ih (.tier .bitOr)) hoperand rfl (fun _ _ => rfl)
    (readLevel_negation_of_ne n)

theorem unary (ih : ReadsLocally n) : Local (readLevel (n + 1) .unary) := by
  refine .of_step (ih .primary) rfl fun x => ?_
  cases x with
  | punctuator p =>
    cases hop : unaryOperator? p with
    | none =>
      refine .stay (ih .primary) fun column rest => ?_
      simp only [readLevel, hop]
    | some op =>
      have hoperand : Local fun tokens => readLevel n .unary tokens >>= fun r =>
          .ok (Expr.unary op r.1, r.2) :=
        .bind (ih .unary) fun e => .pure (Expr.unary op e)
      refine .take (Lexeme.short_punctuator p) hoperand fun column rest => ?_
      simp only [readLevel, hop]
      rfl
  | identifier | integer | endOfText => exact .stay (ih .primary) fun _ _ => rfl

theorem enclosed (ih : ReadsLocally n) (f : Expr → Expr) : Local (readEnclosed n f) :=
  .bind (ih .conditional) fun inner => .expect .rightParen (.pure (f inner))

theorem argument (ih : ReadsLocally n) (name : String) : Local (readArgument n name) :=
  .of_punctuator .rightParen (ih.enclosed (.call name)) (.pure (Expr.call name .absent)) rfl
    (fun _ _ => rfl) (readArgument_of_ne n name)

theorem call (ih : ReadsLocally n) (name : String) : Local (readCall n name) :=
  .of_punctuator .leftParen (.pure (.identifier name)) (ih.argument name) rfl
    (readCall_leftParen n name) (readCall_of_ne n name)

theorem integer (s : String) : Local.Step (readLevel (n + 1) .primary) (.integer s) := by
  cases hc : IntegerConstant.ofSpelling? s.toList with
  | none =>
    refine .stay (.fail .unexpected) fun column rest => ?_
    simp only [readLevel, readInteger_eq, hc]
  | some c =>
    cases hread : c.read with
    | error d =>
      refine .stay (.limit (x := .digitLimit d) trivial) fun column rest => ?_
      simp only [readLevel, readInteger_eq, hc, hread]
    | ok value =>
      have hshort : (Lexeme.integer s).Short := by
        rintro s' c' d heq hc' hd
        cases heq
        rw [hc] at hc'
        cases hc'
        rw [hread] at hd
        cases hd
      refine .take hshort (.pure (.integer s value)) fun column rest => ?_
      simp only [readLevel, readInteger_eq, hc, hread]

theorem primary (ih : ReadsLocally n) : Local (readLevel (n + 1) .primary) := by
  refine .of_step (.fail .operandMissing) rfl fun x => ?_
  cases x with
  | integer s => exact integer s
  | identifier name =>
    by_cases hname : name = definedName
    · refine .take (Lexeme.short_identifier name) .readDefined fun column rest => ?_
      rw [readLevel_primary_identifier, if_pos hname]
    · refine .take (Lexeme.short_identifier name) (ih.call name) fun column rest => ?_
      rw [readLevel_primary_identifier, if_neg hname]
  | punctuator p =>
    by_cases hp : p = .leftParen
    · subst hp
      exact .take (Lexeme.short_punctuator _) (ih.enclosed id) fun _ _ => rfl
    · exact .stay (.fail .unexpected) (readLevel_primary_punctuator n hp)
  | endOfText => exact .stay (.fail .operandMissing) fun _ _ => rfl

end ReadsLocally

theorem readsLocally (n : Nat) : ReadsLocally n := by
  induction n with
  | zero => exact fun level => .limit (x := .tooDeep) trivial
  | succ n ih =>
    intro level
    cases level with
    | conditional => exact ih.conditional
    | tier t => exact ih.tier t
    | negation => exact ih.negation
    | unary => exact ih.unary
    | primary => exact ih.primary

end Expr
end Presence

import Presence.Proofs.Expr.Locality

/-!
The two spellings of a name test. Texts that differ in them alone are read side by side, and where
one run stops or goes on, so does the other. They part only where `defined` is itself the tested
name, and there neither can go on.
-/
namespace Presence.Expr

/-- The same tokens, but some names behind `defined` stand in parentheses in the second text. -/
inductive Respelled : List Token → List Token → Prop
  | nil : Respelled [] []
  | cons (x : Lexeme) (c c' : Nat) {ts ts' : List Token} (h : Respelled ts ts') :
      Respelled (⟨x, c⟩ :: ts) (⟨x, c'⟩ :: ts')
  | pair (name : String) (c₁ c₂ d₁ d₂ d₃ d₄ : Nat) {ts ts' : List Token}
      (h : Respelled ts ts') :
      Respelled (⟨.identifier definedName, c₁⟩ :: ⟨.identifier name, c₂⟩ :: ts)
        (⟨.identifier definedName, d₁⟩ :: ⟨.punctuator .leftParen, d₂⟩ ::
          ⟨.identifier name, d₃⟩ :: ⟨.punctuator .rightParen, d₄⟩ :: ts')

/-- What the two runs have before them when they have read the same. If the `defined` of a pair was
taken for a tested name, they are inside the pair. -/
inductive Behind : List Token → List Token → Prop
  | aligned {ts ts' : List Token} (h : Respelled ts ts') : Behind ts ts'
  | inside (name : String) (c d : Nat) (ts ts' : List Token) :
      Behind (⟨.identifier name, c⟩ :: ts) (⟨.punctuator .leftParen, d⟩ :: ts')

/-- Two runs succeed alike, find the grammar broken both, or meet the same limit. -/
inductive Agree {α : Type} (R : α → α → Prop) :
    Except ConditionError α → Except ConditionError α → Prop
  | ok {a a' : α} (h : R a a') : Agree R (.ok a) (.ok a')
  | grammar (g g' : GrammarError) : Agree R (.error (.grammar g)) (.error (.grammar g'))
  | limit {x : ConditionError} (hx : x.IsLimit) : Agree R (.error x) (.error x)

theorem Agree.bind {α β : Type} {R : α → α → Prop} {S : β → β → Prop}
    {x x' : Except ConditionError α} {f f' : α → Except ConditionError β} (hx : Agree R x x')
    (hf : ∀ a a', R a a' → Agree S (f a) (f' a')) : Agree S (x >>= f) (x' >>= f') := by
  cases hx with
  | ok h => exact hf _ _ h
  | grammar g g' => exact .grammar g g'
  | limit hx => exact .limit hx

/-- The same was read, up to corresponding places. -/
def SameRead {α : Type} (r r' : α × List Token) : Prop :=
  r.1 = r'.1 ∧ Behind r.2 r'.2

/-- At tokens that are related so, the reader does the same. -/
def Alike {α : Type} (R : List Token → List Token → Prop) (f : Reader α) : Prop :=
  ∀ ts ts', R ts ts' → Agree SameRead (f ts) (f ts')

namespace Alike

variable {α β : Type} {R : List Token → List Token → Prop} {f g h : Reader α}

theorem aligned (hf : Alike Behind f) : Alike Respelled f :=
  fun ts ts' hts => hf ts ts' (.aligned hts)

theorem pure (a : α) : Alike Behind fun tokens => .ok (a, tokens) :=
  fun _ _ hts => .ok ⟨rfl, hts⟩

theorem fail (p : GrammarProblem) :
    Alike (α := α) Behind fun tokens => .error (.grammar ⟨p, tokens⟩) :=
  fun _ _ _ => .grammar _ _

theorem bind {g : α → Reader β} (hf : Alike R f) (hg : ∀ a, Alike Behind (g a)) :
    Alike R fun tokens => f tokens >>= fun r => g r.1 r.2 := by
  intro ts ts' hts
  refine (hf ts ts' hts).bind ?_
  rintro ⟨a, rest⟩ ⟨a', rest'⟩ ⟨rfl, hrest⟩
  exact hg a rest rest' hrest

theorem of_punctuator (p : Punctuator) (hg : Alike Respelled g) (hh : Alike Respelled h)
    (hnil : f [] = g []) (htake : ∀ column rest, f (⟨.punctuator p, column⟩ :: rest) = h rest)
    (hstay : ∀ x column rest, x ≠ .punctuator p →
      f (⟨x, column⟩ :: rest) = g (⟨x, column⟩ :: rest)) : Alike Respelled f := by
  intro ts ts' hts
  cases hts with
  | nil =>
    rw [hnil]
    exact hg _ _ .nil
  | cons x c c' hts =>
    by_cases hx : x = .punctuator p
    · subst hx
      rw [htake, htake]
      exact hh _ _ hts
    · rw [hstay x _ _ hx, hstay x _ _ hx]
      exact hg _ _ (.cons x c c' hts)
  | pair name c₁ c₂ d₁ d₂ d₃ d₄ hts =>
    rw [hstay _ _ _ (by simp), hstay _ _ _ (by simp)]
    exact hg _ _ (.pair name c₁ c₂ d₁ d₂ d₃ d₄ hts)

/-- Inside a pair no punctuator is taken but the one that is not there in the first text. -/
theorem behind_of_punctuator {p : Punctuator} (hp : p ≠ .leftParen) (hg : Alike Behind g)
    (hh : Alike Respelled h) (hnil : f [] = g [])
    (htake : ∀ column rest, f (⟨.punctuator p, column⟩ :: rest) = h rest)
    (hstay : ∀ x column rest, x ≠ .punctuator p →
      f (⟨x, column⟩ :: rest) = g (⟨x, column⟩ :: rest)) : Alike Behind f := by
  intro ts ts' hts
  cases hts with
  | aligned hts => exact of_punctuator p hg.aligned hh hnil htake hstay ts ts' hts
  | inside name c d ts ts' =>
    have hparen : Lexeme.punctuator .leftParen ≠ .punctuator p := by simpa using hp.symm
    rw [hstay _ _ _ (by simp), hstay _ _ _ hparen]
    exact hg _ _ (.inside name c d ts ts')

theorem expect {p : Punctuator} (hp : p ≠ .leftParen) (hg : Alike Respelled g) :
    Alike Behind fun tokens => Expr.expect p tokens >>= g := by
  refine behind_of_punctuator hp (fail (.punctuatorMissing p)) hg rfl ?_ ?_
  · intro column rest
    simp only [expect_cons]
    rfl
  · intro x column rest hx
    rw [expect_of_ne x column rest hx]
    rfl

/-- The one place where a pair is entered: its `defined` is the tested name. -/
theorem readTestedName : Alike Respelled Expr.readTestedName := by
  intro ts ts' hts
  cases hts with
  | nil => exact .grammar _ _
  | cons x c c' hts =>
    cases x with
    | identifier name => exact .ok ⟨rfl, .aligned hts⟩
    | integer | punctuator | endOfText => exact .grammar _ _
  | pair name c₁ c₂ d₁ d₂ d₃ d₄ hts => exact .ok ⟨rfl, .inside name c₂ d₂ _ _⟩

theorem readDefined : Alike Respelled Expr.readDefined := by
  have hbare : Alike Respelled fun tokens => Expr.readTestedName tokens >>= fun r =>
      .ok (Expr.call definedName (.identifier r.1), r.2) :=
    bind readTestedName fun name => pure (Expr.call definedName (.identifier name))
  have hparen : Alike Respelled fun tokens => Expr.readTestedName tokens >>= fun r =>
      Expr.expect .rightParen r.2 >>= fun rest =>
        .ok (Expr.call definedName (.identifier r.1), rest) :=
    bind readTestedName fun name =>
      expect (by decide) (pure (Expr.call definedName (.identifier name))).aligned
  exact of_punctuator .leftParen hbare hparen rfl (fun _ _ => rfl) readDefined_of_ne

/-- No tier has an operator at which the runs could part. -/
theorem joinOperands (t : Tier) {operand : Reader Expr} (hoperand : Alike Respelled operand)
    (steps : Nat) (left : Expr) :
    Alike Behind (Expr.joinOperands t.operator? operand steps left) := by
  induction steps generalizing left with
  | zero => exact pure left
  | succ n ih =>
    intro ts ts' hts
    have hstop : Alike Behind fun tokens => .ok (left, tokens) := pure left
    cases hts with
    | aligned hts =>
      cases hts with
      | nil => exact hstop _ _ (.aligned .nil)
      | cons x c c' hts =>
        cases x with
        | punctuator p =>
          cases hop : t.operator? p with
          | none =>
            simp only [Expr.joinOperands, hop]
            exact hstop _ _ (.aligned (.cons _ c c' hts))
          | some op =>
            have hjoin : Alike Respelled fun tokens => operand tokens >>= fun r =>
                Expr.joinOperands t.operator? operand n (.binary op left r.1) r.2 :=
              bind hoperand fun right => ih (.binary op left right)
            simp only [Expr.joinOperands, hop]
            exact hjoin _ _ hts
        | identifier | integer | endOfText => exact hstop _ _ (.aligned (.cons _ c c' hts))
      | pair name c₁ c₂ d₁ d₂ d₃ d₄ hts =>
        exact hstop _ _ (.aligned (.pair name c₁ c₂ d₁ d₂ d₃ d₄ hts))
    | inside name c d ts ts' =>
      have hop : t.operator? .leftParen = none := by cases t <;> rfl
      simp only [Expr.joinOperands, hop]
      exact hstop _ _ (.inside name c d ts ts')

end Alike

/-- With this budget the reader of each level treats both spellings alike. -/
def ReadsAlike (n : Nat) : Prop :=
  ∀ level, Alike Respelled (readLevel n level)

namespace ReadsAlike

variable {n : Nat}

theorem choice (ih : ReadsAlike n) (c : Expr) : Alike Behind (readChoice n c) := by
  have hbranches : Alike Respelled fun tokens => readLevel n .conditional tokens >>= fun r =>
      expect .colon r.2 >>= fun rest => readLevel n .conditional rest >>= fun s =>
        .ok (Expr.conditional c r.1 s.1, s.2) :=
    .bind (ih .conditional) fun t => .expect (by decide) (.bind (ih .conditional) fun e =>
      .pure (Expr.conditional c t e))
  exact .behind_of_punctuator (p := .question) (by decide) (.pure c) hbranches rfl
    (fun _ _ => rfl) (readChoice_of_ne n c)

theorem conditional (ih : ReadsAlike n) : Alike Respelled (readLevel (n + 1) .conditional) :=
  .bind (ih (.tier .disjunction)) ih.choice

theorem tier (ih : ReadsAlike n) (t : Tier) : Alike Respelled (readLevel (n + 1) (.tier t)) := by
  have hlength : ∀ tokens e rest, readLevel n t.operand tokens = .ok (e, rest) →
      rest.length < tokens.length := fun _ _ _ h => (readsOnlyWords n h).length_lt
  intro ts ts' hts
  refine (ih t.operand ts ts' hts).bind ?_
  rintro ⟨left, rest⟩ ⟨left', rest'⟩ ⟨rfl, hrest⟩
  -- the second text is longer, but so many steps are enough for both
  have hsteps (us : List Token) (hus : us.length ≤ max rest.length rest'.length) :
      joinOperands t.operator? (readLevel n t.operand) us.length left us =
        joinOperands t.operator? (readLevel n t.operand) (max rest.length rest'.length) left us :=
    joinOperands_of_length hlength (Nat.le_refl _) hus
  have hjoin := Alike.joinOperands t (ih t.operand) (max rest.length rest'.length) left
    rest rest' hrest
  rwa [← hsteps rest (Nat.le_max_left _ _), ← hsteps rest' (Nat.le_max_right _ _)] at hjoin

theorem negation (ih : ReadsAlike n) : Alike Respelled (readLevel (n + 1) .negation) := by
  have hoperand : Alike Respelled fun tokens => readLevel n .negation tokens >>= fun r =>
      .ok (Expr.unary .not r.1, r.2) :=
    .bind (ih .negation) fun e => .pure (Expr.unary .not e)
  exact .of_punctuator .not (ih (.tier .bitOr)) hoperand rfl (fun _ _ => rfl)
    (readLevel_negation_of_ne n)

theorem unary (ih : ReadsAlike n) : Alike Respelled (readLevel (n + 1) .unary) := by
  intro ts ts' hts
  have hprimary := ih .primary ts ts' hts
  cases hts with
  | nil => exact hprimary
  | cons x c c' hts =>
    cases x with
    | punctuator p =>
      cases hop : unaryOperator? p with
      | none =>
        simp only [readLevel, hop]
        exact hprimary
      | some op =>
        have hoperand : Alike Respelled fun tokens => readLevel n .unary tokens >>= fun r =>
            .ok (Expr.unary op r.1, r.2) :=
          .bind (ih .unary) fun e => .pure (Expr.unary op e)
        simp only [readLevel, hop]
        exact hoperand _ _ hts
    | identifier | integer | endOfText => exact hprimary
  | pair => exact hprimary

theorem enclosed (ih : ReadsAlike n) (f : Expr → Expr) : Alike Respelled (readEnclosed n f) :=
  .bind (ih .conditional) fun inner => .expect (by decide) (Alike.pure (f inner)).aligned

theorem argument (ih : ReadsAlike n) (name : String) : Alike Respelled (readArgument n name) :=
  .of_punctuator .rightParen (ih.enclosed (.call name))
    (Alike.pure (Expr.call name .absent)).aligned rfl (fun _ _ => rfl) (readArgument_of_ne n name)

theorem call (ih : ReadsAlike n) (name : String) : Alike Respelled (readCall n name) :=
  .of_punctuator .leftParen (Alike.pure (.identifier name)).aligned (ih.argument name) rfl
    (readCall_leftParen n name) (readCall_of_ne n name)

theorem primary (ih : ReadsAlike n) : Alike Respelled (readLevel (n + 1) .primary) := by
  intro ts ts' hts
  cases hts with
  | nil => exact .grammar _ _
  | cons x c c' hts =>
    cases x with
    | integer s =>
      simp only [readLevel, readInteger_eq]
      cases IntegerConstant.ofSpelling? s.toList with
      | none => exact .grammar _ _
      | some k =>
        simp only
        cases k.read with
        | ok value => exact .ok ⟨rfl, .aligned hts⟩
        | error d => exact .limit trivial
    | identifier name =>
      rw [readLevel_primary_identifier, readLevel_primary_identifier]
      split
      · exact Alike.readDefined _ _ hts
      · exact ih.call name _ _ hts
    | punctuator p =>
      by_cases hp : p = .leftParen
      · subst hp
        exact ih.enclosed id _ _ hts
      · rw [readLevel_primary_punctuator n hp, readLevel_primary_punctuator n hp]
        exact .grammar _ _
    | endOfText => exact .grammar _ _
  | pair name c₁ c₂ d₁ d₂ d₃ d₄ hts => exact .ok ⟨rfl, .aligned hts⟩

end ReadsAlike

theorem readsAlike (n : Nat) : ReadsAlike n := by
  induction n with
  | zero => exact fun level ts ts' _ => .limit trivial
  | succ n ih =>
    intro level
    cases level with
    | conditional => exact ih.conditional
    | tier t => exact ih.tier t
    | negation => exact ih.negation
    | unary => exact ih.unary
    | primary => exact ih.primary

theorem agree_ofTokens {ts ts' : List Token} (h : Respelled ts ts') (n : Nat) :
    Agree Eq (ofTokens n ts) (ofTokens n ts') := by
  refine (readsAlike n .conditional ts ts' h).bind ?_
  rintro ⟨e, rest⟩ ⟨e', rest'⟩ ⟨rfl, hrest⟩
  cases hrest with
  | aligned hrest =>
    cases hrest with
    | nil => exact .ok rfl
    | cons x c c' =>
      cases x with
      | endOfText => exact .ok rfl
      | identifier | integer | punctuator => exact .grammar _ _
    | pair => exact .grammar _ _
  | inside => exact .grammar _ _

theorem Respelled.append {us us' ts ts' : List Token} (hus : lexemes us = lexemes us')
    (h : Respelled ts ts') : Respelled (us ++ ts) (us' ++ ts') := by
  induction us generalizing us' with
  | nil =>
    obtain rfl := List.map_eq_nil_iff.mp hus.symm
    exact h
  | cons t us ih =>
    obtain ⟨c', vs, rfl, hvs⟩ := lexemes_eq_cons hus.symm
    exact .cons t.lexeme t.column c' (ih hvs.symm)

theorem Respelled.of_lexemes {tokens tokens' : List Token} {u v : List Lexeme} {name : String}
    (h : lexemes tokens = u ++ .identifier definedName :: .identifier name :: v)
    (h' : lexemes tokens' = u ++ .identifier definedName :: .punctuator .leftParen ::
      .identifier name :: .punctuator .rightParen :: v) : Respelled tokens tokens' := by
  obtain ⟨us, ts₁, rfl, hus, h₁⟩ := lexemes_eq_append h
  obtain ⟨c₁, ts₂, rfl, h₂⟩ := lexemes_eq_cons h₁
  obtain ⟨c₂, ts, rfl, hts⟩ := lexemes_eq_cons h₂
  obtain ⟨us', ts₁', rfl, hus', h₁'⟩ := lexemes_eq_append h'
  obtain ⟨d₁, ts₂', rfl, h₂'⟩ := lexemes_eq_cons h₁'
  obtain ⟨d₂, ts₃', rfl, h₃'⟩ := lexemes_eq_cons h₂'
  obtain ⟨d₃, ts₄', rfl, h₄'⟩ := lexemes_eq_cons h₃'
  obtain ⟨d₄, ts', rfl, hts'⟩ := lexemes_eq_cons h₄'
  have hrest : Respelled ts ts' := by
    simpa using Respelled.append (hts.trans hts'.symm) .nil
  exact .append (hus.trans hus'.symm) (.pair name c₁ c₂ d₁ d₂ d₃ d₄ hrest)

/-- Wherever `defined` stands directly before a name, to put the name in parentheses changes nothing
about an expression: both texts have the same tree, or both break the grammar. Within a budget also
the same limit stops both. -/
theorem ofTokens_respelled {tokens tokens' : List Token} {u v : List Lexeme} {name : String}
    (h : lexemes tokens = u ++ .identifier definedName :: .identifier name :: v)
    (h' : lexemes tokens' = u ++ .identifier definedName :: .punctuator .leftParen ::
      .identifier name :: .punctuator .rightParen :: v) (budget : Nat) :
    (∃ e, ofTokens budget tokens = .ok e ∧ ofTokens budget tokens' = .ok e) ∨
      (∃ g g', ofTokens budget tokens = .error (.grammar g) ∧
        ofTokens budget tokens' = .error (.grammar g')) ∨
      ∃ x : ConditionError, x.IsLimit ∧ ofTokens budget tokens = .error x ∧
        ofTokens budget tokens' = .error x := by
  have hagree := agree_ofTokens (.of_lexemes h h') budget
  generalize ofTokens budget tokens = r at hagree
  generalize ofTokens budget tokens' = r' at hagree
  cases hagree with
  | @ok e e' he =>
    subst he
    exact .inl ⟨e, rfl, rfl⟩
  | grammar g g' => exact .inr (.inl ⟨g, g', rfl, rfl⟩)
  | @limit x hx => exact .inr (.inr ⟨x, hx, rfl, rfl⟩)

/-- A pair below a negation in a branch, behind a test of the name `defined` itself. -/
theorem ofTokens_respelled_below_negation :
    let before : List Token := [⟨.identifier "f", 1⟩, ⟨.punctuator .leftParen, 2⟩,
      ⟨.identifier "defined", 3⟩, ⟨.identifier "defined", 11⟩, ⟨.punctuator .rightParen, 18⟩,
      ⟨.punctuator .question, 20⟩, ⟨.punctuator .not, 22⟩]
    let tokens := before ++ [⟨.identifier "defined", 23⟩, ⟨.identifier "X", 31⟩,
      ⟨.punctuator .colon, 33⟩, ⟨.integer "0", 35⟩, ⟨.endOfText, 36⟩]
    let tokens' := before ++ [⟨.identifier "defined", 23⟩, ⟨.punctuator .leftParen, 30⟩,
      ⟨.identifier "X", 31⟩, ⟨.punctuator .rightParen, 32⟩, ⟨.punctuator .colon, 34⟩,
      ⟨.integer "0", 36⟩, ⟨.endOfText, 37⟩]
    let v : List Lexeme := [.punctuator .colon, .integer "0", .endOfText]
    scan "f(defined defined) ? !defined X : 0".toList = .ok tokens ∧
      scan "f(defined defined) ? !defined(X) : 0".toList = .ok tokens' ∧
      lexemes tokens = lexemes before ++ .identifier definedName :: .identifier "X" :: v ∧
      lexemes tokens' = lexemes before ++ .identifier definedName :: .punctuator .leftParen ::
        .identifier "X" :: .punctuator .rightParen :: v ∧
      ∃ e, ofTokens 1000 tokens = .ok e ∧ ofTokens 1000 tokens' = .ok e := by
  intro before tokens tokens' v
  have hscan : scan "f(defined defined) ? !defined X : 0".toList = .ok tokens := by
    with_unfolding_all rfl
  have hscan' : scan "f(defined defined) ? !defined(X) : 0".toList = .ok tokens' := by
    with_unfolding_all rfl
  obtain ⟨e, he⟩ : ∃ e, ofTokens 1000 tokens = .ok e :=
    ⟨_, by with_unfolding_all rfl⟩
  have hw : lexemes tokens =
      lexemes before ++ .identifier definedName :: .identifier "X" :: v := rfl
  have hw' : lexemes tokens' = lexemes before ++ .identifier definedName ::
      .punctuator .leftParen :: .identifier "X" :: .punctuator .rightParen :: v := rfl
  refine ⟨hscan, hscan', hw, hw', e, he, ?_⟩
  rcases ofTokens_respelled hw hw' 1000 with ⟨e', h, h'⟩ | ⟨g, -, h, -⟩ | ⟨x, -, h, -⟩
  · cases he.symm.trans h
    exact h'
  · cases he.symm.trans h
  · cases he.symm.trans h

end Presence.Expr

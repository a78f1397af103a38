import Presence.Proofs.Condition.Fragment
import Presence.Proofs.Expr.Fault
import Presence.Proofs.Expr.Recognition
import Presence.Proofs.Formula.Rendering

/-!
Reading a rendered formula. The expression that is read mirrors the formula, so that nothing is lost
in the text.
-/
namespace Presence

namespace Expr

theorem Derives.of_negation {w : List Lexeme} {e : Expr} (h : Derives .negation w e) :
    Derives .conditional w e :=
  .plain (.single (.single h))

end Expr

namespace Formula

/-- The expression of the same shape, with the truth values as 1 and 0. -/
def mirror : Formula → Expr
  | const b => .integer (if b then "1" else "0") (if b then 1 else 0)
  | var name => .identifier name
  | not f => .unary .not f.mirror
  | and l r => .binary .and l.mirror r.mirror
  | or l r => .binary .or l.mirror r.mirror

def rename (g : String → String) : Formula → Formula
  | const b => const b
  | var name => var (g name)
  | not f => not (f.rename g)
  | and l r => and (l.rename g) (r.rename g)
  | or l r => or (l.rename g) (r.rename g)

theorem eq_of_mirror_eq {f g : Formula} (h : f.mirror = g.mirror) : f = g := by
  induction f generalizing g with
  | const b =>
    cases g with
    | const b' => cases b <;> cases b' <;> simp [mirror] at h ⊢
    | _ => simp [mirror] at h
  | var name =>
    cases g with
    | var name' => simpa [mirror] using h
    | _ => simp [mirror] at h
  | not f ih =>
    cases g with
    | not g =>
      have hfg : f.mirror = g.mirror := by simpa [mirror] using h
      rw [ih hfg]
    | _ => simp [mirror] at h
  | and l r ihl ihr =>
    cases g with
    | and l' r' =>
      have hparts : l.mirror = l'.mirror ∧ r.mirror = r'.mirror := by simpa [mirror] using h
      rw [ihl hparts.1, ihr hparts.2]
    | _ => simp [mirror] at h
  | or l r ihl ihr =>
    cases g with
    | or l' r' =>
      have hparts : l.mirror = l'.mirror ∧ r.mirror = r'.mirror := by simpa [mirror] using h
      rw [ihl hparts.1, ihr hparts.2]
    | _ => simp [mirror] at h

theorem ofSpelling?_one :
    IntegerConstant.ofSpelling? "1".toList = some ⟨.decimal, ['1'], []⟩ := by
  decide

theorem ofSpelling?_zero :
    IntegerConstant.ofSpelling? "0".toList = some ⟨.octal, ['0'], []⟩ := by
  decide

theorem derives_and {l r : Formula} (hl : Expr.Derives .negation (l.encloseWord l.word) l.mirror)
    (hr : Expr.Derives .negation (r.encloseWord r.word) r.mirror) :
    Expr.Derives .conditional (and l r).word (and l r).mirror :=
  .plain (.single (.join (t := .conjunction) (.single hl) List.mem_cons_self hr))

theorem derives_or {l r : Formula} (hl : Expr.Derives .negation (l.encloseWord l.word) l.mirror)
    (hr : Expr.Derives .negation (r.encloseWord r.word) r.mirror) :
    Expr.Derives .conditional (or l r).word (or l r).mirror :=
  .plain (.join (t := .disjunction) (.single (.single hl)) List.mem_cons_self (.single hr))

theorem derives_parentheses {f : Formula} (hf : f.isBinary = true)
    (h : Expr.Derives .conditional f.word f.mirror) :
    Expr.Derives .negation (f.encloseWord f.word) f.mirror := by
  rw [encloseWord, if_pos hf]
  exact .of_primary (.parenthesized h) (by simp) .negation

theorem derives_operand {f : Formula} (hf : f.Readable) :
    Expr.Derives .negation (f.encloseWord f.word) f.mirror := by
  induction f with
  | const b =>
    cases b with
    | true => exact .of_primary (.integer ofSpelling?_one) (by simp) .negation
    | false => exact .of_primary (.integer ofSpelling?_zero) (by simp) .negation
  | var name =>
    have hname := (hf name (by simp [count])).2
    exact .of_primary (.identifier hname) (by simp) .negation
  | not f ih => exact .negated (ih hf.of_not)
  | and l r ihl ihr =>
    exact derives_parentheses rfl (derives_and (ihl hf.of_and.1) (ihr hf.of_and.2))
  | or l r ihl ihr =>
    exact derives_parentheses rfl (derives_or (ihl hf.of_or.1) (ihr hf.of_or.2))

theorem derives_mirror {f : Formula} (hf : f.Readable) :
    Expr.Derives .conditional f.word f.mirror := by
  cases f with
  | and l r => exact derives_and (derives_operand hf.of_and.1) (derives_operand hf.of_and.2)
  | or l r => exact derives_or (derives_operand hf.of_or.1) (derives_operand hf.of_or.2)
  | const | var | not => exact (derives_operand hf).of_negation

/-- No integer of a rendered formula is too long to be read. -/
theorem not_hasLongInteger {f : Formula} {tokens : List Token}
    (h : lexemes tokens = f.word ++ [.endOfText]) : ¬ Expr.HasLongInteger tokens := by
  rintro ⟨t, ht, s, c, d, hs, hc, hd⟩
  have hmem : .integer s ∈ lexemes tokens := by
    rw [← hs]
    exact List.mem_map_of_mem ht
  have hword : .integer s ∈ f.word := by
    rw [h] at hmem
    simpa using hmem
  rcases integer_of_mem_word hword with rfl | rfl
  · rw [ofSpelling?_one] at hc
    cases hc
    cases hd
  · rw [ofSpelling?_zero] at hc
    cases hc
    cases hd

/-- Only the budget stands against reading a rendered formula. -/
theorem ofTokens_word {f : Formula} (hf : f.Readable) {tokens : List Token}
    (hend : EndsText tokens) (h : lexemes tokens = f.word ++ [.endOfText]) (n : Nat) :
    Expr.ofTokens n tokens = .ok f.mirror ∨
      Expr.ofTokens n tokens = .error .tooDeep ∧ n < Level.need .conditional tokens := by
  have hword : lexemes tokens.dropLast = f.word := calc
    lexemes tokens.dropLast = (lexemes tokens).dropLast := List.map_dropLast
    _ = f.word := by rw [h, List.dropLast_concat]
  have hderives := derives_mirror hf
  rw [← hword] at hderives
  obtain hok | ⟨x, hx, hlimit⟩ := Expr.yields_ofTokens n hend hderives
  · exact .inl hok
  · cases Expr.refuses_of_ofTokens hx with
    | grammar g => exact hlimit.elim
    | digitLimit d => exact absurd (Expr.hasLongInteger_of_ofTokens hx) (not_hasLongInteger h)
    | tooDeep hneed => exact .inr ⟨hx, hneed⟩

/-- Only the budget stands against the formula of a mirror. -/
theorem toFormula_mirror {o : Options} (ho : o.fuzzy = true) (f : Formula) (n : Nat) :
    f.mirror.toFormula o n = .ok (f.rename nonzeroVariable) ∨
      f.mirror.toFormula o n = .error .tooDeep ∧ n < f.mirror.depth := by
  induction n generalizing f with
  | zero => exact .inr ⟨rfl, f.mirror.depth_pos⟩
  | succ n ih =>
    cases f with
    | const b => cases b <;> exact .inl rfl
    | var name =>
      left
      simp [mirror, Expr.toFormula, ho, rename]
    | not f =>
      rw [mirror, Expr.toFormula]
      rcases ih f with hf | ⟨hf, hlt⟩
      · rw [hf]
        exact .inl rfl
      · rw [hf]
        exact .inr ⟨rfl, Nat.succ_lt_succ hlt⟩
    | and l r | or l r =>
      rw [mirror, Expr.toFormula]
      rcases ih l with hl | ⟨hl, hlt⟩
      · rw [hl]
        rcases ih r with hr | ⟨hr, hlt⟩
        · rw [hr]
          exact .inl rfl
        · rw [hr]
          have hmax := Nat.le_max_right l.mirror.depth r.mirror.depth
          exact .inr ⟨rfl, Nat.succ_lt_succ (Nat.lt_of_lt_of_le hlt hmax)⟩
      · rw [hl]
        have hmax := Nat.le_max_left l.mirror.depth r.mirror.depth
        exact .inr ⟨rfl, Nat.succ_lt_succ (Nat.lt_of_lt_of_le hlt hmax)⟩

/-- Within the budgets of a context the condition that a formula is written as is that formula
again, of other variables. -/
theorem formulaOf_render {o : Context} (ho : o.fuzzy = true) {f : Formula} (hf : f.Readable) :
    formulaOf o f.render.toList = .ok (f.rename nonzeroVariable) ∨
      formulaOf o f.render.toList = .error .tooDeep := by
  obtain ⟨tokens, hscan, hlexemes⟩ := scan_render hf
  have hchars : Expr.ofChars o.budget f.render.toList = Expr.ofTokens o.budget.calls tokens := by
    rw [Expr.ofChars, hscan]
  rw [formulaOf, hchars]
  rcases ofTokens_word hf (endsText_of_scan hscan) hlexemes o.budget.calls with h | ⟨h, -⟩
  · rw [h]
    rcases toFormula_mirror ho f o.budget.translatedLevels with h' | ⟨h', -⟩
    · exact .inl h'
    · exact .inr h'
  · rw [h]
    exact .inr rfl

/-- A formula over names that can be read is not lost in its text. The text is scanned, what is read
from the tokens mirrors the formula, and as a condition that is the formula again, of the variables
that say that a name is not zero. No other such formula has the text. Only the budgets can stand
against it, and enough of them is fourteen units for a token and the depth of the expression. -/
theorem render_readBack {f : Formula} (hf : f.Readable) :
    (∃ tokens, scan f.render.toList = .ok tokens ∧
      (∀ n, Level.need .conditional tokens ≤ n → Expr.ofTokens n tokens = .ok f.mirror) ∧
      ∀ n, Expr.ofTokens n tokens = .ok f.mirror ∨ Expr.ofTokens n tokens = .error .tooDeep) ∧
    (∀ o n, o.fuzzy = true → f.mirror.depth ≤ n →
      f.mirror.toFormula o n = .ok (f.rename nonzeroVariable)) ∧
    (∀ o, o.fuzzy = true → formulaOf o f.render.toList = .ok (f.rename nonzeroVariable) ∨
      formulaOf o f.render.toList = .error .tooDeep) ∧
    ∀ g, g.Readable → g.render = f.render → g = f := by
  obtain ⟨tokens, hscan, hlexemes⟩ := scan_render hf
  have hend := endsText_of_scan hscan
  have hread : ∀ {g : Formula} {n : Nat}, g.Readable → lexemes tokens = g.word ++ [.endOfText] →
      Level.need .conditional tokens ≤ n → Expr.ofTokens n tokens = .ok g.mirror := by
    intro g n hg hword hn
    rcases ofTokens_word hg hend hword n with hok | ⟨-, hlt⟩
    · exact hok
    · omega
  constructor
  · refine ⟨tokens, hscan, fun n => hread hf hlexemes, fun n => ?_⟩
    rcases ofTokens_word hf hend hlexemes n with hok | ⟨htoo, -⟩
    · exact .inl hok
    · exact .inr htoo
  constructor
  · intro o n ho hn
    rcases toFormula_mirror ho f n with hok | ⟨-, hlt⟩
    · exact hok
    · omega
  constructor
  · intro o ho
    exact formulaOf_render ho hf
  · intro g hg hrender
    obtain ⟨tokens', hscan', hlexemes'⟩ := scan_render hg
    have htokens : tokens' = tokens := by
      rw [hrender, hscan] at hscan'
      exact (Except.ok.inj hscan').symm
    rw [htokens] at hlexemes'
    have hf' := hread hf hlexemes (Nat.le_refl _)
    have hg' := hread hg hlexemes' (Nat.le_refl _)
    rw [hf'] at hg'
    exact (eq_of_mirror_eq (Except.ok.inj hg')).symm

/-- The parentheses keep the negation of a disjunction apart from that of its left operand. -/
theorem negated_disjunction_readBack :
    let f : Formula := .and (.not (.or (.var "A") (.const true))) (.not (.not (.var "B")))
    let e : Expr := .binary .and
      (.unary .not (.binary .or (.identifier "A") (.integer "1" 1)))
      (.unary .not (.unary .not (.identifier "B")))
    f.Readable ∧ f.render = "!(A || 1) && !!B" ∧
      (∃ tokens, scan "!(A || 1) && !!B".toList = .ok tokens ∧
        Expr.ofTokens (Level.need .conditional tokens) tokens = .ok e) ∧
      e.toFormula { fuzzy := true } 4 =
        .ok (.and (.not (.or (.var "A_ne_0") (.const true))) (.not (.not (.var "B_ne_0")))) := by
  intro f e
  have hf : f.Readable := by
    intro name hname
    rw [isVariableName_iff]
    by_cases hA : "A" = name
    · subst hA
      exact ⟨by simp [IsIdentifier]; decide, by decide⟩
    · have hB : "B" = name := by
        simp only [f, count, hA, if_false] at hname
        split at hname
        · assumption
        · omega
      subst hB
      exact ⟨by simp [IsIdentifier]; decide, by decide⟩
  have hrender : f.render = "!(A || 1) && !!B" := by decide
  obtain ⟨⟨tokens, hscan, hread, -⟩, hformula, -⟩ := render_readBack hf
  rw [hrender] at hscan
  exact ⟨hf, hrender, ⟨tokens, hscan, hread _ (Nat.le_refl _)⟩,
    hformula { fuzzy := true } 4 rfl (by decide)⟩

end Formula
end Presence

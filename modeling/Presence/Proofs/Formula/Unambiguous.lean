import Presence.Formula
import Presence.Proofs.Token.LongestMatch

/-!
Formulas as text are unambiguous. The first character of an operand says what kind of formula it is,
and where it ends is seen from its own characters and the one that follows.
-/
namespace Presence

namespace Formula

/-- Each variable is scanned as one name, `defined` among them. -/
def Spelled (f : Formula) : Prop :=
  ∀ name, 0 < f.count name →
    (scan name.toList).map lexemes = .ok [.identifier name, .endOfText]

theorem Spelled.isIdentifier {name : String} (h : (var name).Spelled) :
    IsIdentifier name.toList :=
  isIdentifier_iff_scan.mpr (h name (by simp [count]))

/-- The text as an operand: a conjunction or disjunction stands in parentheses. -/
def operandText (f : Formula) : List Char :=
  (f.enclose f.render).toList

inductive Connective
  | and
  | or
  deriving DecidableEq, Repr

namespace Connective

def join : Connective → Formula → Formula → Formula
  | and => Formula.and
  | or => Formula.or

def chars : Connective → List Char
  | and => " && ".toList
  | or => " || ".toList

theorem append_inj {k k' : Connective} {s s' : List Char} (h : k.chars ++ s = k'.chars ++ s') :
    k = k' ∧ s = s' := by
  cases k <;> cases k' <;> simp_all [chars]

theorem breaks_chars (k : Connective) (s : List Char) :
    Breaks continuesIdentifier (k.chars ++ s) := by
  cases k with
  | and | or =>
    intro c hc
    obtain rfl : ' ' = c := Option.some.inj hc
    decide

theorem spelled {k : Connective} {l r : Formula} (h : (k.join l r).Spelled) :
    l.Spelled ∧ r.Spelled := by
  cases k with
  | and | or =>
    constructor
    · intro name hname
      exact h name (Nat.lt_of_lt_of_le hname (Nat.le_add_right _ _))
    · intro name hname
      exact h name (Nat.lt_of_lt_of_le hname (Nat.le_add_left _ _))

theorem toList_render (k : Connective) (l r : Formula) :
    (k.join l r).render.toList = l.operandText ++ k.chars ++ r.operandText := by
  cases k with
  | and | or => simp only [join, render, String.toList_append, operandText, chars]

theorem operandText_join (k : Connective) (l r : Formula) :
    (k.join l r).operandText =
      '(' :: (l.operandText ++ k.chars ++ r.operandText ++ [')']) := by
  have henclose : (k.join l r).operandText = '(' :: (k.join l r).render.toList ++ [')'] := by
    cases k <;> simp [join, operandText, enclose, isBinary, String.toList_append]
  rw [henclose, toList_render]
  rfl

end Connective

theorem join_cases (f : Formula) :
    f.isBinary = false ∨ ∃ k : Connective, ∃ l r, f = k.join l r := by
  cases f with
  | and l r => exact .inr ⟨.and, l, r, rfl⟩
  | or l r => exact .inr ⟨.or, l, r, rfl⟩
  | _ => exact .inl rfl

theorem operandText_of_not_isBinary {f : Formula} (h : f.isBinary = false) :
    f.operandText = f.render.toList := by
  rw [operandText, enclose, h]
  rfl

theorem operandText_not (f : Formula) : f.not.operandText = '!' :: f.operandText :=
  String.toList_append

/-- What the first character of an operand tells. -/
inductive Lead
  | constant
  | name
  | negation
  | parenthesis
  deriving DecidableEq, Repr

def Lead.ofChar (c : Char) : Lead :=
  if c = '!' then .negation
  else if c = '(' then .parenthesis
  else if startsIdentifier c then .name
  else .constant

def lead : Formula → Lead
  | const _ => .constant
  | var _ => .name
  | not _ => .negation
  | and _ _ | or _ _ => .parenthesis

theorem exists_operandText_eq_cons {f : Formula} (hf : f.Spelled) :
    ∃ c s, f.operandText = c :: s ∧ Lead.ofChar c = f.lead := by
  cases f with
  | const b => cases b <;> exact ⟨_, _, rfl, by decide⟩
  | var name =>
    have hname := Spelled.isIdentifier hf
    cases hs : name.toList with
    | nil =>
      rw [hs] at hname
      exact hname.elim
    | cons c s =>
      rw [hs] at hname
      obtain ⟨-, -, hstart, -⟩ := hname
      refine ⟨c, s, hs, ?_⟩
      have hnot : c ≠ '!' := by
        rintro rfl
        exact absurd hstart (by decide)
      have hparen : c ≠ '(' := by
        rintro rfl
        exact absurd hstart (by decide)
      rw [Lead.ofChar, if_neg hnot, if_neg hparen, if_pos hstart]
      rfl
  | not f => exact ⟨'!', f.operandText, operandText_not f, rfl⟩
  | and l r => exact ⟨_, _, Connective.operandText_join .and l r, rfl⟩
  | or l r => exact ⟨_, _, Connective.operandText_join .or l r, rfl⟩

theorem lead_eq_of_operandText_append {f g : Formula} {rest rest' : List Char} (hf : f.Spelled)
    (hg : g.Spelled) (h : f.operandText ++ rest = g.operandText ++ rest') : f.lead = g.lead := by
  obtain ⟨c, s, hs, hc⟩ := exists_operandText_eq_cons hf
  obtain ⟨c', s', hs', hc'⟩ := exists_operandText_eq_cons hg
  rw [hs, hs'] at h
  rw [← hc, ← hc', (List.cons.inj h).1]

/-- As an operand the formula is told apart from every other one, and from what follows it. -/
def SelfDelimiting (f : Formula) : Prop :=
  ∀ g rest rest', g.Spelled → Breaks continuesIdentifier rest → Breaks continuesIdentifier rest' →
    f.operandText ++ rest = g.operandText ++ rest' → f = g ∧ rest = rest'

/-- Two operands with a connective between them. -/
theorem SelfDelimiting.join_inj {l r l' r' : Formula} {k k' : Connective} {rest rest' : List Char}
    (hl : l.SelfDelimiting) (hr : r.SelfDelimiting) (hl' : l'.Spelled) (hr' : r'.Spelled)
    (hrest : Breaks continuesIdentifier rest) (hrest' : Breaks continuesIdentifier rest')
    (h : l.operandText ++ (k.chars ++ (r.operandText ++ rest)) =
      l'.operandText ++ (k'.chars ++ (r'.operandText ++ rest'))) :
    k.join l r = k'.join l' r' ∧ rest = rest' := by
  obtain ⟨rfl, hbehind⟩ := hl l' _ _ hl' (k.breaks_chars _) (k'.breaks_chars _) h
  obtain ⟨rfl, hsecond⟩ := Connective.append_inj hbehind
  obtain ⟨rfl, hend⟩ := hr r' _ _ hr' hrest hrest' hsecond
  exact ⟨rfl, hend⟩

theorem breaks_rightParen (s : List Char) : Breaks continuesIdentifier (')' :: s) := by
  intro c hc
  obtain rfl : ')' = c := Option.some.inj hc
  decide

theorem selfDelimiting_join (k : Connective) {l r : Formula} (hf : (k.join l r).Spelled)
    (hl : l.SelfDelimiting) (hr : r.SelfDelimiting) : (k.join l r).SelfDelimiting := by
  intro g rest rest' hg hrest hrest' h
  have hlead := lead_eq_of_operandText_append hf hg h
  obtain hplain | ⟨k', l', r', rfl⟩ := g.join_cases
  · cases g with
    | and | or => cases hplain
    | _ => cases k <;> cases hlead
  · simp only [Connective.operandText_join, List.cons_append, List.append_assoc,
      List.nil_append] at h
    obtain ⟨hl', hr'⟩ := Connective.spelled hg
    obtain ⟨hjoin, hend⟩ := hl.join_inj hr hl' hr' (breaks_rightParen rest)
      (breaks_rightParen rest') (List.cons.inj h).2
    exact ⟨hjoin, (List.cons.inj hend).2⟩

theorem selfDelimiting {f : Formula} (hf : f.Spelled) : f.SelfDelimiting := by
  induction f with
  | const b =>
    intro g rest rest' hg _ _ h
    have hlead := lead_eq_of_operandText_append hf hg h
    cases g with
    | const b' => cases b <;> cases b' <;> simp_all [operandText, enclose, isBinary, render]
    | _ => cases hlead
  | var name =>
    intro g rest rest' hg hrest hrest' h
    have hlead := lead_eq_of_operandText_append hf hg h
    cases g with
    | var name' =>
      obtain ⟨hchars, hend⟩ := append_inj_of_breaks (Spelled.isIdentifier hf).continues
        (Spelled.isIdentifier hg).continues hrest hrest' h
      rw [String.toList_inj.mp hchars]
      exact ⟨rfl, hend⟩
    | _ => cases hlead
  | not f ih =>
    intro g rest rest' hg hrest hrest' h
    have hlead := lead_eq_of_operandText_append hf hg h
    cases g with
    | not g =>
      rw [operandText_not, operandText_not] at h
      obtain ⟨rfl, hend⟩ := ih hf g rest rest' hg hrest hrest' (List.cons.inj h).2
      exact ⟨rfl, hend⟩
    | _ => cases hlead
  | and l r ihl ihr =>
    obtain ⟨hl, hr⟩ := Connective.spelled (k := .and) hf
    exact selfDelimiting_join .and hf (ihl hl) (ihr hr)
  | or l r ihl ihr =>
    obtain ⟨hl, hr⟩ := Connective.spelled (k := .or) hf
    exact selfDelimiting_join .or hf (ihl hl) (ihr hr)

/-- No connective goes on behind the text of a formula. -/
def EndsFormula (rest : List Char) : Prop :=
  Breaks continuesIdentifier rest ∧ ∀ k : Connective, ¬ k.chars <+: rest

/-- A formula is told apart from every other one, and from what follows it. -/
theorem render_append_inj {f g : Formula} {rest rest' : List Char} (hf : f.Spelled)
    (hg : g.Spelled) (hrest : EndsFormula rest) (hrest' : EndsFormula rest')
    (h : f.render.toList ++ rest = g.render.toList ++ rest') : f = g ∧ rest = rest' := by
  obtain hplain | ⟨k, l, r, rfl⟩ := f.join_cases
  · rw [← operandText_of_not_isBinary hplain] at h
    obtain hplain' | ⟨k', l', r', rfl⟩ := g.join_cases
    · rw [← operandText_of_not_isBinary hplain'] at h
      exact selfDelimiting hf g rest rest' hg hrest.1 hrest'.1 h
    · simp only [Connective.toList_render, List.append_assoc] at h
      obtain ⟨-, hend⟩ := selfDelimiting hf l' _ _ (Connective.spelled hg).1 hrest.1
        (k'.breaks_chars _) h
      exact absurd ⟨_, hend.symm⟩ (hrest.2 k')
  · obtain ⟨hl, hr⟩ := Connective.spelled hf
    obtain hplain' | ⟨k', l', r', rfl⟩ := g.join_cases
    · rw [← operandText_of_not_isBinary hplain'] at h
      simp only [Connective.toList_render, List.append_assoc] at h
      obtain ⟨-, hend⟩ := selfDelimiting hl g _ _ hg (k.breaks_chars _) hrest'.1 h
      exact absurd ⟨_, hend⟩ (hrest'.2 k)
    · simp only [Connective.toList_render, List.append_assoc] at h
      obtain ⟨hl', hr'⟩ := Connective.spelled hg
      exact (selfDelimiting hl).join_inj (selfDelimiting hr) hl' hr' hrest.1 hrest'.1 h

end Formula
end Presence

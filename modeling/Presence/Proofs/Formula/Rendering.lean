import Presence.Expr.Grammar
import Presence.Formula
import Presence.Proofs.Token.Composition

/-!
The tokens of a rendered formula. An operand ends at a space, a closing parenthesis or the end of
the text, where no token goes on.
-/
namespace Presence

/-- The name is one token by itself and not the function that tests names. -/
def IsVariableName (name : String) : Prop :=
  (scan name.toList).map lexemes = .ok [.identifier name, .endOfText] ∧ name ≠ Expr.definedName

theorem isVariableName_iff {name : String} :
    IsVariableName name ↔ IsIdentifier name.toList ∧ name ≠ Expr.definedName := by
  rw [isIdentifier_iff_scan]
  rfl

namespace Formula

def Readable (f : Formula) : Prop :=
  ∀ name, 0 < f.count name → IsVariableName name

theorem Readable.of_not {f : Formula} (h : f.not.Readable) : f.Readable :=
  h

theorem Readable.of_and {l r : Formula} (h : (and l r).Readable) : l.Readable ∧ r.Readable := by
  constructor
  · intro name hname
    exact h name (Nat.lt_of_lt_of_le hname (Nat.le_add_right _ _))
  · intro name hname
    exact h name (Nat.lt_of_lt_of_le hname (Nat.le_add_left _ _))

theorem Readable.of_or {l r : Formula} (h : (or l r).Readable) : l.Readable ∧ r.Readable :=
  Readable.of_and h

/-- Parentheses around the lexemes of an operand, where its text has them. -/
def encloseWord (f : Formula) (w : List Lexeme) : List Lexeme :=
  if f.isBinary then .punctuator .leftParen :: w ++ [.punctuator .rightParen] else w

def word : Formula → List Lexeme
  | const b => [.integer (if b then "1" else "0")]
  | var name => [.identifier name]
  | not f => .punctuator .not :: f.encloseWord f.word
  | and l r => l.encloseWord l.word ++ .punctuator .and :: r.encloseWord r.word
  | or l r => l.encloseWord l.word ++ .punctuator .or :: r.encloseWord r.word

/-- What can come after an operand. -/
def EndsOperand (rest : List Char) : Prop :=
  ∀ c ∈ rest.head?, c = ' ' ∨ c = ')'

theorem EndsOperand.breaks {rest : List Char} (h : EndsOperand rest) :
    Breaks continuesIdentifier rest ∧ Breaks continuesNumber rest := by
  constructor
  · intro c hc
    rcases h c hc with rfl | rfl <;> decide
  · intro c hc
    rcases h c hc with rfl | rfl <;> decide

/-- The text becomes these lexemes wherever it stands as an operand. -/
def ScansOperand (s : List Char) (w : List Lexeme) : Prop :=
  ∀ rest, EndsOperand rest → Scans s w rest

theorem scans_operator {s s' rest : List Char} {w w' : List Lexeme} (p : Punctuator)
    (h : ScansOperand s w) (h' : Scans s' w' rest) :
    Scans (s ++ (' ' :: p.chars ++ [' ']) ++ s') (w ++ .punctuator p :: w') rest := by
  have hspace : isSeparator ' ' = true := by decide
  have hp : ∀ rest, Punctuator.longest? (p.chars ++ ' ' :: rest) = some p := by
    cases p <;> intro rest <;> rfl
  have hchars : Scans (p.chars ++ [' ']) [.punctuator p] (s' ++ rest) :=
    Scans.append (.punctuator (hp _)) (.separator hspace)
  have hoperator : Scans (' ' :: p.chars ++ [' ']) [.punctuator p] (s' ++ rest) :=
    Scans.append (.separator hspace) hchars
  have hleft : EndsOperand ((' ' :: p.chars ++ [' ']) ++ (s' ++ rest)) := by
    simp [EndsOperand]
  rw [List.append_cons w]
  exact Scans.append (Scans.append (h _ hleft) hoperator) h'

theorem scans_parenthesis {p : Punctuator} (hp : p = .leftParen ∨ p = .rightParen)
    (rest : List Char) : Scans p.chars [.punctuator p] rest := by
  apply Scans.punctuator
  cases rest with
  | nil => rcases hp with rfl | rfl <;> rfl
  | cons c rest =>
    rcases hp with rfl | rfl <;>
      simp [Punctuator.chars, Punctuator.longest?, Punctuator.pair?, Punctuator.single?]

theorem scans_parentheses {s rest : List Char} {w : List Lexeme} (h : ScansOperand s w) :
    Scans ('(' :: s ++ [')']) (.punctuator .leftParen :: w ++ [.punctuator .rightParen]) rest := by
  have hinner : EndsOperand ([')'] ++ rest) := by
    simp [EndsOperand]
  have hclosed : Scans (s ++ [')']) (w ++ [.punctuator .rightParen]) rest :=
    Scans.append (h _ hinner) (scans_parenthesis (.inr rfl) rest)
  have hopened := Scans.append (scans_parenthesis (.inl rfl) _) hclosed
  exact hopened

theorem toList_parenthesized (text : String) :
    ("(" ++ text ++ ")").toList = '(' :: text.toList ++ [')'] := by
  rw [String.toList_append, String.toList_append]
  rfl

theorem scans_enclose {f : Formula} (h : ScansOperand f.render.toList f.word) :
    ScansOperand (f.enclose f.render).toList (f.encloseWord f.word) := by
  intro rest hrest
  unfold enclose encloseWord
  split
  · rw [toList_parenthesized]
    exact scans_parentheses h
  · exact h rest hrest

/-- An operand does not begin with `=`, so that `!` in front of it is an operator of its own. -/
theorem head_enclose {f : Formula} (hf : f.Readable) :
    ∃ c s, (f.enclose f.render).toList = c :: s ∧ c ≠ '=' := by
  cases f with
  | const b => cases b <;> exact ⟨_, _, rfl, by decide⟩
  | var name =>
    have hname := (isVariableName_iff.mp (hf name (by simp [count]))).1
    change ∃ c s, name.toList = c :: s ∧ c ≠ '='
    cases hs : name.toList with
    | nil => exact absurd hname (by simp [hs, IsIdentifier])
    | cons c s =>
      rw [hs] at hname
      refine ⟨c, s, rfl, ?_⟩
      rintro rfl
      exact absurd hname.2.2.1 (by decide)
  | not f => exact ⟨'!', _, String.toList_append, by decide⟩
  | and l r | or l r => exact ⟨'(', _, toList_parenthesized _, by decide⟩

theorem scans_not {f : Formula} (hf : f.Readable) {w : List Lexeme} {rest : List Char}
    (h : Scans (f.enclose f.render).toList w rest) :
    Scans f.not.render.toList (.punctuator .not :: w) rest := by
  obtain ⟨c, s, hs, hc⟩ := head_enclose hf
  have hnot : Punctuator.longest? ('!' :: ((f.enclose f.render).toList ++ rest)) = some .not := by
    simp [hs, Punctuator.longest?, Punctuator.pair?, Punctuator.single?, hc]
  rw [render, String.toList_append]
  exact Scans.append (.punctuator hnot) h

/-- A rendered formula is scanned to its own lexemes. -/
theorem scans_render {f : Formula} (hf : f.Readable) : ScansOperand f.render.toList f.word := by
  induction f with
  | const b =>
    intro rest hrest
    have hbreak := hrest.breaks.2
    cases b with
    | true => exact Scans.integer (by decide) (by decide) (by simp) (by decide) hbreak
    | false => exact Scans.integer (by decide) (by decide) (by simp) (by decide) hbreak
  | var name =>
    intro rest hrest
    have hname := (isVariableName_iff.mp (hf name (by simp [count]))).1
    have hscans := Scans.identifier hname hrest.breaks.1
    rw [String.ofList_toList] at hscans
    exact hscans
  | not f ih =>
    intro rest hrest
    exact scans_not hf.of_not (scans_enclose (ih hf.of_not) rest hrest)
  | and l r ihl ihr =>
    intro rest hrest
    have hr := scans_enclose (ihr hf.of_and.2) rest hrest
    rw [render, String.toList_append, String.toList_append]
    exact scans_operator .and (scans_enclose (ihl hf.of_and.1)) hr
  | or l r ihl ihr =>
    intro rest hrest
    have hr := scans_enclose (ihr hf.of_or.2) rest hrest
    rw [render, String.toList_append, String.toList_append]
    exact scans_operator .or (scans_enclose (ihl hf.of_or.1)) hr

theorem scan_render {f : Formula} (hf : f.Readable) :
    ∃ tokens, scan f.render.toList = .ok tokens ∧ lexemes tokens = f.word ++ [.endOfText] :=
  (scans_render hf [] (by simp [EndsOperand])).scan

/-- The only integers are the truth values. -/
theorem integer_of_mem_word {f : Formula} {s : String} (h : .integer s ∈ f.word) :
    s = "1" ∨ s = "0" := by
  have henclose : ∀ (f : Formula) (w : List Lexeme), .integer s ∈ f.encloseWord w →
      .integer s ∈ w := by
    intro f w hw
    unfold encloseWord at hw
    split at hw
    · simpa using hw
    · exact hw
  induction f with
  | const b => cases b <;> simp_all [word]
  | var name => simp [word] at h
  | not f ih =>
    simp only [word, List.mem_cons, reduceCtorEq, false_or] at h
    exact ih (henclose f _ h)
  | and l r ihl ihr | or l r ihl ihr =>
    simp only [word, List.mem_append, List.mem_cons, reduceCtorEq, false_or] at h
    rcases h with h | h
    · exact ihl (henclose l _ h)
    · exact ihr (henclose r _ h)

end Formula
end Presence

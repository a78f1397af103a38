import Presence.Proofs.Block.Focus

/-!
The conditions that a run tests. A line depends on the options only through the condition that it
tests, if it tests one.
-/
namespace Presence

namespace Builder

/-- To take the line in, the builder needs the condition that the expression stands for. -/
inductive Tests (b : Builder) (l : LogicalLine) : List Char → Prop
  | opening {d : Directive} (hd : Directive.ofLine? l.text = some d)
      (hk : d.keyword.opensChain = true) : Tests b l d.expression
  | elseIf {d : Directive} {branch : OpenBranch} {stack : List OpenBranch}
      (hd : Directive.ofLine? l.text = some d) (hk : d.keyword = .elseIf)
      (hs : b.stack = branch :: stack) (he : branch.earlier ≠ []) : Tests b l d.expression

variable {b b' : Builder} {o o' : Context} {file : String} {l : LogicalLine}

/-- A directive that opens a conditional begins a branch, or fails for its condition. -/
theorem accept_opening {d : Directive} (hd : Directive.ofLine? l.text = some d)
    (hk : d.keyword.opensChain = true) (b : Builder) (o : Context) (file : String) :
    b.accept o file l = match testedCondition { b with line := l.number } o file d.expression with
      | .ok c => (openBranch { b with line := l.number } c [c], none)
      | .error x => ({ b with line := l.number }, some x) := by
  have hdirect : direct { b with line := l.number } o file d =
      (do let c ← testedCondition { b with line := l.number } o file d.expression
          return openBranch { b with line := l.number } c [c]) := by
    unfold direct
    cases hkeyword : d.keyword <;> simp_all [Keyword.opensChain]
  simp only [accept, handle, hd, hdirect]
  cases testedCondition { b with line := l.number } o file d.expression <;> rfl

theorem Tests.accept {e : List Char} (h : b.Tests l e) (file : String) :
    ∃ k : Formula → Builder, ∀ o, b.accept o file l =
      match testedCondition { b with line := l.number } o file e with
      | .ok c => (k c, none)
      | .error x => ({ b with line := l.number }, some x) := by
  cases h with
  | opening hd hk => exact ⟨_, fun o => accept_opening hd hk b o file⟩
  | @elseIf d branch stack hd hk hs he =>
    cases hearlier : branch.earlier with
    | nil => exact absurd hearlier he
    | cons f fs =>
      have hchain : chain { b with line := l.number } file .elseIf = .ok (f, fs) :=
        chain_eq_ok_iff.mpr ⟨branch, stack, hs, hearlier⟩
      refine ⟨fun c => (closeBranch { b with line := l.number } file).openBranch
        (.and (.noneOf f fs) c) (f :: fs ++ [c]), fun o => ?_⟩
      simp only [Builder.accept, handle, hd, direct, hk, hchain]
      simp only [bind, Except.bind]
      cases testedCondition { b with line := l.number } o file d.expression <;> rfl

theorem Tests.condition_error {e : List Char} {x : ReadError} (h : b.Tests l e)
    (hl : b.accept o file l = (b', some x)) : ∃ y, condition o e = .error y := by
  obtain ⟨k, hk⟩ := h.accept file
  cases hc : condition o e with
  | error y => exact ⟨y, rfl⟩
  | ok c =>
    rw [hk o, testedCondition, hc] at hl
    cases hl

theorem Tests.condition_ok {e : List Char} (h : b.Tests l e)
    (hl : b.accept o file l = (b', none)) : ∃ c, condition o e = .ok c := by
  obtain ⟨k, hk⟩ := h.accept file
  cases hc : condition o e with
  | ok c => exact ⟨c, rfl⟩
  | error y =>
    rw [hk o, testedCondition, hc] at hl
    cases y <;> cases hl

theorem accept_of_not_tests (h : ∀ e, ¬ b.Tests l e) (o o' : Context) (file : String) :
    b.accept o file l = b.accept o' file l := by
  cases hd : Directive.ofLine? l.text with
  | none => simp only [accept, handle, hd]
  | some d =>
    have hdirect : direct { b with line := l.number } o file d =
        direct { b with line := l.number } o' file d := by
      by_cases hopens : d.keyword.opensChain = true
      · exact absurd (.opening hd hopens) (h _)
      cases hk : d.keyword with
      | ifDefined | ifUndefined | ifHolds => exact absurd (by rw [hk]; rfl) hopens
      | otherwise | endIf => simp only [direct, hk]
      | elseIf =>
        simp only [direct, hk]
        cases hchain : chain { b with line := l.number } file .elseIf with
        | error x => rfl
        | ok cs =>
          obtain ⟨branch, stack, hs, hearlier⟩ := chain_eq_ok_iff.mp hchain
          have htested : branch.earlier ≠ [] := by simp [hearlier]
          exact absurd (.elseIf hd hk hs htested) (h _)
    simp only [accept, handle, hd, hdirect]

/-- Where the same is tested with the same outcome, the same becomes of a line. -/
theorem accept_congr (h : ∀ e, b.Tests l e → condition o e = condition o' e) (file : String) :
    b.accept o file l = b.accept o' file l := by
  by_cases htests : ∃ e, b.Tests l e
  · obtain ⟨e, he⟩ := htests
    obtain ⟨k, hk⟩ := he.accept file
    rw [hk o, hk o', testedCondition, testedCondition, h e he]
  · exact accept_of_not_tests (fun e he => htests ⟨e, he⟩) o o' file

/-- A line further on is reached only if the lines before it are taken in. -/
theorem acceptAll_append_error {before after : List LogicalLine} {b₁ : Builder} {x : ReadError}
    (hbefore : b.acceptAll o file before = (b₁, none))
    (hl : b₁.accept o file l = (b', some x)) :
    b.acceptAll o file (before ++ l :: after) = (b', some x) := by
  rw [acceptAll_append_of_ok hbefore]
  simp only [acceptAll, hl]

theorem acceptAll_congr {lines : List LogicalLine}
    (h : ∀ before l after b₁ e, lines = before ++ l :: after →
      b.acceptAll o file before = (b₁, none) → b₁.Tests l e → condition o e = condition o' e) :
    b.acceptAll o file lines = b.acceptAll o' file lines := by
  induction lines generalizing b with
  | nil => rfl
  | cons l lines ih =>
    have hl : b.accept o file l = b.accept o' file l :=
      accept_congr (fun e he => h [] l lines b e rfl rfl he) file
    simp only [acceptAll, ← hl]
    split
    · next b₁ hb₁ =>
      apply ih
      intro before l' after b₂ e hlines hb₂ he
      refine h (l :: before) l' after b₂ e (by rw [hlines]; rfl) ?_ he
      simp only [acceptAll, hb₁, hb₂]
    · rfl

/-- When all lines are taken in, each condition that is tested has a formula. -/
theorem condition_ok_of_acceptAll {before after : List LogicalLine} {b₁ : Builder} {e : List Char}
    (h : b.acceptAll o file (before ++ l :: after) = (b', none))
    (hbefore : b.acceptAll o file before = (b₁, none)) (he : b₁.Tests l e) :
    ∃ c, condition o e = .ok c := by
  obtain ⟨b₂, hb₂, hafter⟩ := acceptAll_append.mp h
  rw [hbefore] at hb₂
  cases hb₂
  simp only [acceptAll] at hafter
  split at hafter
  · next b₃ hb₃ => exact he.condition_ok hb₃
  · cases hafter

end Builder

/-- Reading these lines gets to a line at which the expression is tested. -/
def TestedAt (o : Context) (file : String) (lines : List (List Char)) (l : LogicalLine)
    (e : List Char) : Prop :=
  ∃ before after b, logicalLines lines = before ++ l :: after ∧
    Builder.acceptAll {} o file before = (b, none) ∧ b.Tests l e

variable {o o' : Context} {file : String} {lines : List (List Char)}

theorem TestedAt.directive {l : LogicalLine} {e : List Char} (h : TestedAt o file lines l e) :
    l ∈ logicalLines lines ∧ ∃ d, Directive.ofLine? l.text = some d ∧ e = d.expression ∧
      (d.keyword.opensChain = true ∨ d.keyword = .elseIf) := by
  obtain ⟨before, after, b, hlines, -, he⟩ := h
  constructor
  · rw [hlines]
    exact List.mem_append_right _ List.mem_cons_self
  · cases he with
    | opening hd hk => exact ⟨_, hd, rfl, .inl hk⟩
    | elseIf hd hk => exact ⟨_, hd, rfl, .inr hk⟩

theorem readBlocks_congr (hpseudo : o.pseudoBlock = o'.pseudoBlock)
    (h : ∀ l e, TestedAt o file lines l e → condition o e = condition o' e) :
    readBlocks o file lines = readBlocks o' file lines := by
  have hrun : Builder.acceptAll {} o file (logicalLines lines) =
      Builder.acceptAll {} o' file (logicalLines lines) := by
    apply Builder.acceptAll_congr
    intro before l after b e hlines hb he
    exact h l e ⟨before, after, b, hlines, hb, he⟩
  unfold readBlocks Builder.read
  rw [hrun]
  split
  · simp only [Builder.result, hpseudo]
  · rfl

theorem readBlocks_of_accept_error {before after : List LogicalLine} {l : LogicalLine}
    {b b' : Builder} {x : ReadError} (hlines : logicalLines lines = before ++ l :: after)
    (hb : Builder.acceptAll {} o file before = (b, none))
    (hl : b.accept o file l = (b', some x)) : readBlocks o file lines = .error x := by
  unfold readBlocks Builder.read
  rw [hlines, Builder.acceptAll_append_error hb hl]

/-- A condition that is tested and has no formula is reported with its line. -/
theorem readBlocks_of_condition_error {l : LogicalLine} {e : List Char} {x : ConditionError}
    (h : TestedAt o file lines l e) (hx : condition o e = .error x)
    (hrecoverable : x.isRecoverable = true) :
    readBlocks o file lines = .error (.format ⟨.invalidCondition e x, l.number, file⟩) := by
  obtain ⟨before, after, b, hlines, hb, he⟩ := h
  obtain ⟨k, hk⟩ := he.accept file
  apply readBlocks_of_accept_error hlines hb
  rw [hk o, Builder.testedCondition, hx]
  cases x with
  | digitLimit d => cases hrecoverable
  | _ => rfl

end Presence

import Presence.Block.Builder
import Presence.Proofs.Outcome

/-!
A builder seen from its innermost level. A closed branch goes behind the blocks before it, whether
those are in another branch or at the top, so each directive has one effect here.
-/
namespace Presence

def Keyword.opensChain : Keyword → Bool
  | ifDefined | ifUndefined | ifHolds => true
  | _ => false

/-- An open branch without what is in it, and the blocks before it on its own level. -/
structure Frame where
  before : List Block
  first : Nat
  condition : Formula
  presence : Formula
  earlier : List Formula

def Frame.close (f : Frame) (file : String) (last : Nat) (children : List Block) : Block :=
  ⟨f.first, last, file, f.condition, f.presence, children⟩

/-- The blocks of the innermost level and the branches around it, the innermost first. -/
structure Focus where
  blocks : List Block
  around : List Frame

namespace Focus

def presence (f : Focus) (condition : Formula) : Formula :=
  match f.around with
  | [] => condition
  | g :: _ => .and g.presence condition

def enter (f : Focus) (line : Nat) (condition : Formula) (earlier : List Formula) : Focus :=
  ⟨[], ⟨f.blocks, line, condition, f.presence condition, earlier⟩ :: f.around⟩

/-- The level that `f` stands on, with the block of `f` in its place. -/
def leave (f : Frame) (file : String) (line : Nat) (children : List Block)
    (around : List Frame) : Focus :=
  ⟨f.before ++ [f.close file (line - 1) children], around⟩

/-- What a line does that is taken in. -/
inductive Step (o : Context) (file : String) (l : LogicalLine) : Focus → Focus → Prop
  | plain {f : Focus} (hd : Directive.ofLine? l.text = none) : Step o file l f f
  | opening {f : Focus} {d : Directive} {c : Formula} (hd : Directive.ofLine? l.text = some d)
      (hk : d.keyword.opensChain = true) (hc : condition o d.expression = .ok c) :
      Step o file l f (f.enter l.number c [c])
  | elseIf {blocks : List Block} {f : Frame} {around : List Frame} {d : Directive}
      {c e : Formula} {cs : List Formula} (hd : Directive.ofLine? l.text = some d)
      (hk : d.keyword = .elseIf) (he : f.earlier = c :: cs)
      (hc : condition o d.expression = .ok e) :
      Step o file l ⟨blocks, f :: around⟩
        ((leave f file l.number blocks around).enter l.number (.and (.noneOf c cs) e)
          (c :: cs ++ [e]))
  | otherwise {blocks : List Block} {f : Frame} {around : List Frame} {d : Directive}
      {c : Formula} {cs : List Formula} (hd : Directive.ofLine? l.text = some d)
      (hk : d.keyword = .otherwise) (he : f.earlier = c :: cs) :
      Step o file l ⟨blocks, f :: around⟩
        ((leave f file l.number blocks around).enter l.number (.noneOf c cs) [])
  | endIf {blocks : List Block} {f : Frame} {around : List Frame} {d : Directive}
      (hd : Directive.ofLine? l.text = some d) (hk : d.keyword = .endIf) :
      Step o file l ⟨blocks, f :: around⟩ (leave f file l.number blocks around)

theorem Step.eq_of_plain {o : Context} {file : String} {l : LogicalLine} {f f' : Focus}
    (h : Step o file l f f') (hd : Directive.ofLine? l.text = none) : f' = f := by
  cases h <;> simp_all

def ofStack (finished : List Block) : List OpenBranch → Focus
  | [] => ⟨finished, []⟩
  | b :: stack =>
    ⟨b.children, ⟨(ofStack finished stack).blocks, b.first, b.condition, b.presence, b.earlier⟩ ::
      (ofStack finished stack).around⟩

end Focus

namespace Builder

def focus (b : Builder) : Focus :=
  Focus.ofStack b.finished b.stack

@[simp] theorem focus_start : focus {} = ⟨[], []⟩ := rfl

theorem focus_of_stack_nil {b : Builder} (h : b.stack = []) : b.focus = ⟨b.finished, []⟩ := by
  simp [focus, h, Focus.ofStack]

theorem focus_of_stack_cons {b : Builder} {branch : OpenBranch} {stack : List OpenBranch}
    (h : b.stack = branch :: stack) :
    b.focus = ⟨branch.children, ⟨(Focus.ofStack b.finished stack).blocks, branch.first,
      branch.condition, branch.presence, branch.earlier⟩ ::
        (Focus.ofStack b.finished stack).around⟩ := by
  simp [focus, h, Focus.ofStack]

theorem focus_openBranch (b : Builder) (condition : Formula) (earlier : List Formula) :
    (b.openBranch condition earlier).focus = b.focus.enter b.line condition earlier := by
  cases h : b.stack with
  | nil => simp [openBranch, focus, h, Focus.ofStack, Focus.enter, Focus.presence]
  | cons branch stack => simp [openBranch, focus, h, Focus.ofStack, Focus.enter, Focus.presence]

theorem focus_closeBranch {b : Builder} {branch : OpenBranch} {stack : List OpenBranch}
    (h : b.stack = branch :: stack) (file : String) :
    (b.closeBranch file).focus =
      Focus.leave ⟨(Focus.ofStack b.finished stack).blocks, branch.first, branch.condition,
        branch.presence, branch.earlier⟩ file b.line branch.children
          (Focus.ofStack b.finished stack).around := by
  cases stack with
  | nil => simp [closeBranch, h, focus, Focus.ofStack, Focus.leave, OpenBranch.close, Frame.close]
  | cons parent stack =>
    simp [closeBranch, h, focus, Focus.ofStack, Focus.leave, OpenBranch.close, Frame.close]

theorem line_closeBranch (b : Builder) (file : String) : (b.closeBranch file).line = b.line := by
  unfold closeBranch
  split
  · rfl
  · split <;> rfl

theorem testedCondition_eq_ok_iff {b : Builder} {o : Context} {file : String}
    {expression : List Char} {c : Formula} :
    b.testedCondition o file expression = .ok c ↔ condition o expression = .ok c := by
  unfold testedCondition
  split <;> simp_all

theorem chain_eq_ok_iff {b : Builder} {file : String} {k : Keyword} {c : Formula}
    {cs : List Formula} :
    b.chain file k = .ok (c, cs) ↔
      ∃ branch stack, b.stack = branch :: stack ∧ branch.earlier = c :: cs := by
  unfold chain
  split
  · simp_all
  · split <;> simp_all

theorem step_of_direct {b b' : Builder} {o : Context} {file : String} {l : LogicalLine}
    {d : Directive} (hd : Directive.ofLine? l.text = some d) (hl : b.line = l.number)
    (h : b.direct o file d = .ok b') :
    Focus.Step o file l b.focus b'.focus ∧ b'.line = l.number := by
  have opens (hk : d.keyword.opensChain = true)
      (h : (do let c ← b.testedCondition o file d.expression
               return b.openBranch c [c]) = .ok b') :
      Focus.Step o file l b.focus b'.focus ∧ b'.line = l.number := by
    obtain ⟨c, hc, hb⟩ := bind_eq_ok_iff.mp h
    cases hb
    rw [focus_openBranch, hl]
    exact ⟨.opening hd hk (testedCondition_eq_ok_iff.mp hc), hl⟩
  unfold direct at h
  split at h
  · next hk => exact opens (by rw [hk]; rfl) h
  · next hk => exact opens (by rw [hk]; rfl) h
  · next hk => exact opens (by rw [hk]; rfl) h
  · next hk =>
    obtain ⟨⟨c, cs⟩, hch, h⟩ := bind_eq_ok_iff.mp h
    obtain ⟨e, he, hb⟩ := bind_eq_ok_iff.mp h
    obtain ⟨branch, stack, hs, hearlier⟩ := chain_eq_ok_iff.mp hch
    cases hb
    have hline := line_closeBranch b file
    rw [focus_openBranch, focus_closeBranch hs, focus_of_stack_cons hs, hline, hl]
    exact ⟨.elseIf hd hk hearlier (testedCondition_eq_ok_iff.mp he), hline.trans hl⟩
  · next hk =>
    obtain ⟨⟨c, cs⟩, hch, hb⟩ := bind_eq_ok_iff.mp h
    obtain ⟨branch, stack, hs, hearlier⟩ := chain_eq_ok_iff.mp hch
    cases hb
    have hline := line_closeBranch b file
    rw [focus_openBranch, focus_closeBranch hs, focus_of_stack_cons hs, hline, hl]
    exact ⟨.otherwise hd hk hearlier, hline.trans hl⟩
  · next hk =>
    split at h
    · cases h
    · next branch stack hs =>
      cases h
      rw [focus_closeBranch hs, focus_of_stack_cons hs, hl]
      exact ⟨.endIf hd hk, (line_closeBranch b file).trans hl⟩

/-- A line that is taken in makes a step and becomes the current one. -/
theorem step_of_accept {b b' : Builder} {o : Context} {file : String} {l : LogicalLine}
    (h : b.accept o file l = (b', none)) :
    Focus.Step o file l b.focus b'.focus ∧ b'.line = l.number := by
  simp only [accept] at h
  split at h
  · next b'' hb =>
    cases h
    unfold handle at hb
    split at hb
    · next d hd => exact step_of_direct (b := { b with line := l.number }) hd rfl hb
    · next hd =>
      split at hb <;> cases hb <;> exact ⟨.plain hd, rfl⟩
  · cases h

theorem acceptAll_induction {o : Context} {file : String} {lines : List LogicalLine}
    {P : List LogicalLine → Focus → Prop}
    (hstep : ∀ done l rest f f', lines = done ++ l :: rest → P done f → Focus.Step o file l f f' →
      P (done ++ [l]) f')
    {b b' : Builder} (hstart : P [] b.focus) (h : b.acceptAll o file lines = (b', none)) :
    P lines b'.focus := by
  have go : ∀ rest done (b : Builder), lines = done ++ rest → P done b.focus →
      b.acceptAll o file rest = (b', none) → P lines b'.focus := by
    intro rest
    induction rest with
    | nil =>
      intro done b hl hp h
      cases h
      simpa [hl] using hp
    | cons l rest ih =>
      intro done b hl hp h
      simp only [acceptAll] at h
      split at h
      · next b₁ hb₁ =>
        have hs := (step_of_accept hb₁).1
        exact ih (done ++ [l]) b₁ (by simp [hl]) (hstep done l rest _ _ hl hp hs) h
      · cases h
  exact go lines [] b rfl hstart h

theorem acceptAll_append_of_ok {o : Context} {file : String} {b b₁ : Builder}
    {xs : List LogicalLine} (h : b.acceptAll o file xs = (b₁, none)) (ys : List LogicalLine) :
    b.acceptAll o file (xs ++ ys) = b₁.acceptAll o file ys := by
  induction xs generalizing b with
  | nil =>
    cases h
    rfl
  | cons x xs ih =>
    simp only [List.cons_append, acceptAll] at h ⊢
    split at h
    · exact ih h
    · cases h

theorem acceptAll_append {o : Context} {file : String} {b b' : Builder}
    {xs ys : List LogicalLine} :
    b.acceptAll o file (xs ++ ys) = (b', none) ↔
      ∃ b₁, b.acceptAll o file xs = (b₁, none) ∧ b₁.acceptAll o file ys = (b', none) := by
  induction xs generalizing b with
  | nil => simp [acceptAll]
  | cons x xs ih =>
    simp only [List.cons_append, acceptAll]
    split
    · exact ih
    · simp

/-- The line at which a run fails, with the builder before it. -/
theorem acceptAll_error {b b' : Builder} {o : Context} {file : String}
    {lines : List LogicalLine} {e : ReadError} (h : b.acceptAll o file lines = (b', some e)) :
    ∃ before l after b₁, lines = before ++ l :: after ∧
      b.acceptAll o file before = (b₁, none) ∧ b₁.accept o file l = (b', some e) := by
  induction lines generalizing b with
  | nil => cases h
  | cons l lines ih =>
    simp only [acceptAll] at h
    split at h
    · next b₁ hb₁ =>
      obtain ⟨before, l', after, b₂, rfl, hb₂, he⟩ := ih h
      exact ⟨l :: before, l', after, b₂, rfl, by simpa [acceptAll, hb₁] using hb₂, he⟩
    · next hb₁ =>
      cases h
      exact ⟨[], l, lines, b, rfl, rfl, hb₁⟩

end Builder
end Presence

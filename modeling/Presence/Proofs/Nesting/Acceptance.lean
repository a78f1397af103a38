import Presence.Proofs.Nesting.Language

/-!
Which files have blocks. When invalid conditions are overlooked, a file is refused for its nesting
alone, at the first directive that cannot stand where it does or for a conditional left open.
-/
namespace Presence

open Nesting

def keywords (lines : List LogicalLine) : List Keyword :=
  lines.filterMap fun l => Keyword.ofLine? l.text

@[simp] theorem keywords_append (xs ys : List LogicalLine) :
    keywords (xs ++ ys) = keywords xs ++ keywords ys := by
  simp [keywords]

theorem keywords_singleton (l : LogicalLine) :
    keywords [l] = (Keyword.ofLine? l.text).toList := by
  cases h : Keyword.ofLine? l.text <;> simp [keywords, h]

theorem Directive.keyword_of_ofLine? {line : List Char} {d : Directive}
    (h : ofLine? line = some d) : Keyword.ofLine? line = some d.keyword := by
  obtain ⟨k, hk, rfl⟩ := Option.map_eq_some_iff.mp h
  exact hk

theorem Keyword.startsBranch_of_opensChain {k : Keyword} (h : k.opensChain = true) :
    k.startsBranch = true := by
  cases k <;> first | rfl | cases h

theorem keywords_of_plain {l : LogicalLine} (h : Directive.ofLine? l.text = none) :
    keywords [l] = [] := by
  have hk : Keyword.ofLine? l.text = none := by simpa [Directive.ofLine?] using h
  simp [keywords_singleton, hk]

theorem keywords_of_directive {l : LogicalLine} {d : Directive}
    (h : Directive.ofLine? l.text = some d) : keywords [l] = [d.keyword] := by
  simp [keywords_singleton, Directive.keyword_of_ofLine? h]

/-- The fault lies with the nesting of directives. -/
def FormatProblem.IsStructural : FormatProblem → Prop
  | .invalidCondition _ _ => False
  | _ => True

/-- Whether a branch may be followed by another one of its conditional. -/
def Frame.continued (f : Frame) : Bool :=
  !f.earlier.isEmpty

def Focus.shape (f : Focus) : List Bool :=
  f.around.map Frame.continued

namespace Focus

/-- The machine of the language follows the builder. -/
theorem run_shape_of_step {o : Context} {file : String} {l : LogicalLine} {f f' : Focus}
    (h : Step o file l f f') : run f.shape (keywords [l]) = some f'.shape := by
  cases h with
  | plain hd => simp [keywords_of_plain hd]
  | opening hd hk hc =>
    simp [keywords_of_directive hd, step_of_opensChain hk, shape, enter, Frame.continued]
  | elseIf hd hk he hc =>
    simp [keywords_of_directive hd, hk, shape, enter, leave, Frame.continued, he]
  | otherwise hd hk he =>
    simp [keywords_of_directive hd, hk, shape, enter, leave, Frame.continued, he]
  | endIf hd hk => simp [keywords_of_directive hd, hk, shape, leave]

/-- Each open branch was begun by a directive, after which the conditionals inside it were opened
and closed as the branches above it on the stack show. -/
def Anchored (done : List LogicalLine) (f : Focus) : Prop :=
  ∀ above g below, f.around = above ++ g :: below →
    ∃ before l inner k, done = before ++ l :: inner ∧ Keyword.ofLine? l.text = some k ∧
      k.startsBranch = true ∧ l.number = g.first ∧
      run [] (keywords inner) = some (above.map Frame.continued)

/-- A directive further on changes what was opened inside a branch and not where it began. -/
theorem Anchored.later {done : List LogicalLine} {l : LogicalLine} {f : Focus}
    (h : Anchored done f) {above below : List Frame} {g : Frame} {s : List Bool}
    (hf : f.around = above ++ g :: below)
    (hs : run (above.map Frame.continued) (keywords [l]) = some s) :
    ∃ before l' inner k, done ++ [l] = before ++ l' :: inner ∧
      Keyword.ofLine? l'.text = some k ∧ k.startsBranch = true ∧ l'.number = g.first ∧
      run [] (keywords inner) = some s := by
  obtain ⟨before, l', inner, k, rfl, hk, hb, hn, hr⟩ := h above g below hf
  refine ⟨before, l', inner ++ [l], k, by simp, hk, hb, hn, ?_⟩
  rw [keywords_append, run_append, hr]
  exact hs

theorem anchored_begin {done : List LogicalLine} {l : LogicalLine} {d : Directive}
    (hd : Directive.ofLine? l.text = some d) (hk : d.keyword.startsBranch = true) :
    ∃ before l' inner k, done ++ [l] = before ++ l' :: inner ∧
      Keyword.ofLine? l'.text = some k ∧ k.startsBranch = true ∧ l'.number = l.number ∧
      run [] (keywords inner) = some [] :=
  ⟨done, l, [], d.keyword, rfl, Directive.keyword_of_ofLine? hd, hk, rfl, rfl⟩

theorem anchored_of_step {o : Context} {file : String} {done : List LogicalLine}
    {l : LogicalLine} {f f' : Focus} (h : Anchored done f) (hstep : Step o file l f f') :
    Anchored (done ++ [l]) f' := by
  intro above g below hf
  cases hstep with
  | plain hd => exact h.later hf (by simp [keywords_of_plain hd])
  | opening hd hk hc =>
    cases above with
    | nil =>
      obtain ⟨rfl, -⟩ := List.cons.inj hf
      exact anchored_begin hd (Keyword.startsBranch_of_opensChain hk)
    | cons a above =>
      obtain ⟨rfl, hrest⟩ := List.cons.inj hf
      exact h.later hrest
        (by simp [keywords_of_directive hd, step_of_opensChain hk, Frame.continued])
  | @elseIf blocks fr around d c e cs hd hk he hc =>
    cases above with
    | nil =>
      obtain ⟨rfl, -⟩ := List.cons.inj hf
      exact anchored_begin hd (by rw [hk]; rfl)
    | cons a above =>
      obtain ⟨rfl, hrest⟩ := List.cons.inj hf
      have hf' : fr :: around = (fr :: above) ++ g :: below := congrArg (fr :: ·) hrest
      refine h.later hf' ?_
      simp [keywords_of_directive hd, hk, Frame.continued, he]
  | @otherwise blocks fr around d c cs hd hk he =>
    cases above with
    | nil =>
      obtain ⟨rfl, -⟩ := List.cons.inj hf
      exact anchored_begin hd (by rw [hk]; rfl)
    | cons a above =>
      obtain ⟨rfl, hrest⟩ := List.cons.inj hf
      have hf' : fr :: around = (fr :: above) ++ g :: below := congrArg (fr :: ·) hrest
      refine h.later hf' ?_
      simp [keywords_of_directive hd, hk, Frame.continued, he]
  | @endIf blocks fr around d hd hk =>
    have hf' : fr :: around = (fr :: above) ++ g :: below := congrArg (fr :: ·) hf
    refine h.later hf' ?_
    simp [keywords_of_directive hd, hk]

end Focus

/-- An overlooked condition has a formula, unless a number is too long. -/
theorem condition_error_of_recovering {o : Context} (ho : o.invalid ≠ .fail)
    {expression : List Char} {e : ConditionError} (h : condition o expression = .error e) :
    ∃ x, e = .digitLimit x := by
  have hsub : ∃ f, o.invalid.substitute? = some f := by
    cases hi : o.invalid with
    | fail => exact absurd hi ho
    | assumeTrue => exact ⟨_, rfl⟩
    | errorVariable => exact ⟨_, rfl⟩
  obtain ⟨f, hf⟩ := hsub
  unfold condition at h
  split at h
  · cases h
  · next e' he =>
    simp only [hf] at h
    split at h
    · cases h
    · next hr =>
      cases h
      cases e <;> simp_all [ConditionError.isRecoverable]

namespace Builder

theorem testedCondition_error {b : Builder} {o : Context} {file : String}
    {expression : List Char} {e : ReadError} (ho : o.invalid ≠ .fail)
    (h : b.testedCondition o file expression = .error e) : ∃ x, e = .digitLimit x := by
  unfold testedCondition at h
  split at h
  · cases h
  · cases h
    exact ⟨_, rfl⟩
  · next c hc hne =>
    obtain ⟨x, rfl⟩ := condition_error_of_recovering ho hne
    exact absurd rfl (hc x)

/-- The directive of the current line cannot stand there. -/
def Misplaces (b : Builder) (file : String) (k : Keyword) (e : ReadError) : Prop :=
  step b.focus.shape k = none ∧ ∃ p : FormatProblem, p.IsStructural ∧ e = b.failure file p

theorem chain_error {b : Builder} {file : String} {k : Keyword} {e : ReadError}
    (hk : k = .elseIf ∨ k = .otherwise) (h : b.chain file k = .error e) :
    b.Misplaces file k e := by
  unfold chain at h
  split at h
  · next hs =>
    cases h
    refine ⟨?_, .branchWithoutOpening k, trivial, rfl⟩
    rw [focus_of_stack_nil hs]
    rcases hk with rfl | rfl <;> rfl
  · next branch stack hs =>
    split at h
    · next he =>
      cases h
      refine ⟨?_, .branchAfterElse k, trivial, rfl⟩
      rw [focus_of_stack_cons hs]
      rcases hk with rfl | rfl <;> simp [Focus.shape, Frame.continued, he, step]
    · cases h

/-- A directive fails for its condition or for its place. -/
theorem direct_error {b : Builder} {o : Context} {file : String} {d : Directive}
    {e : ReadError} (h : b.direct o file d = .error e) :
    b.testedCondition o file d.expression = .error e ∨ b.Misplaces file d.keyword e := by
  have tested {k : Formula → Except ReadError Builder} (hk : ∀ c, ∃ b', k c = .ok b')
      (h : b.testedCondition o file d.expression >>= k = .error e) :
      b.testedCondition o file d.expression = .error e := by
    rcases bind_eq_error_iff.mp h with h | ⟨c, -, h⟩
    · exact h
    · obtain ⟨b', hb⟩ := hk c
      rw [hb] at h
      cases h
  unfold direct at h
  split at h
  · exact .inl (tested (fun c => ⟨_, rfl⟩) h)
  · exact .inl (tested (fun c => ⟨_, rfl⟩) h)
  · exact .inl (tested (fun c => ⟨_, rfl⟩) h)
  · next hk =>
    rcases bind_eq_error_iff.mp h with h | ⟨⟨c, cs⟩, -, h⟩
    · exact .inr (chain_error (.inl hk) h)
    · exact .inl (tested (fun c => ⟨_, rfl⟩) h)
  · next hk =>
    rcases bind_eq_error_iff.mp h with h | ⟨⟨c, cs⟩, -, h⟩
    · exact .inr (chain_error (.inr hk) h)
    · cases h
  · next hk =>
    split at h
    · next hs =>
      cases h
      exact .inr ⟨by rw [focus_of_stack_nil hs, hk]; rfl, .endWithoutOpening, trivial, rfl⟩
    · cases h

theorem accept_error_cases {b b' : Builder} {o : Context} {file : String} {l : LogicalLine}
    {e : ReadError} (h : b.accept o file l = (b', some e)) :
    ∃ d, Directive.ofLine? l.text = some d ∧
      (testedCondition { b with line := l.number } o file d.expression = .error e ∨
        Misplaces { b with line := l.number } file d.keyword e) := by
  simp only [accept] at h
  split at h
  · cases h
  · next hb =>
    cases h
    unfold handle at hb
    split at hb
    · next d hd => exact ⟨d, hd, direct_error hb⟩
    · split at hb <;> cases hb

theorem accept_error {b b' : Builder} {o : Context} {file : String} {l : LogicalLine}
    {e : ReadError} (ho : o.invalid ≠ .fail) (h : b.accept o file l = (b', some e)) :
    (∃ x, e = .digitLimit x) ∨ (run b.focus.shape (keywords [l]) = none ∧
      ∃ p : FormatProblem, p.IsStructural ∧ e = .format ⟨p, l.number, file⟩) := by
  obtain ⟨d, hd, hc | ⟨hs, hp⟩⟩ := accept_error_cases h
  · exact .inl (testedCondition_error ho hc)
  · -- The focus does not depend on the current line.
    have hstep : step b.focus.shape d.keyword = none := hs
    refine .inr ⟨?_, hp⟩
    rw [keywords_of_directive hd, run_cons, hstep, Option.bind_none]

theorem run_of_acceptAll {b : Builder} {o : Context} {file : String}
    {lines : List LogicalLine} (h : Builder.acceptAll {} o file lines = (b, none)) :
    run [] (keywords lines) = some b.focus.shape := by
  refine acceptAll_induction (P := fun done f => run [] (keywords done) = some f.shape) ?_ rfl h
  intro done l rest f f' _ hf hs
  rw [keywords_append, run_append, hf]
  exact Focus.run_shape_of_step hs

theorem anchored_of_acceptAll {b : Builder} {o : Context} {file : String}
    {lines : List LogicalLine} (h : Builder.acceptAll {} o file lines = (b, none)) :
    Focus.Anchored lines b.focus := by
  refine acceptAll_induction (P := Focus.Anchored) ?_ ?_ h
  · exact fun done l rest f f' _ hf hs => Focus.anchored_of_step hf hs
  · intro above g below hf
    simp at hf

/-- What can come of a file: a line fails, a conditional stays open, or there are blocks. -/
theorem readBlocks_cases (o : Context) (file : String) (lines : List (List Char)) :
    (∃ b e, Builder.acceptAll {} o file (logicalLines lines) = (b, some e) ∧
      readBlocks o file lines = .error e) ∨
    ∃ b, Builder.acceptAll {} o file (logicalLines lines) = (b, none) ∧
      ((∃ branch stack, b.stack = branch :: stack ∧ readBlocks o file lines =
        .error (.format ⟨.unclosed branch.first, branch.first, file⟩)) ∨
      (b.stack = [] ∧ ∃ blocks, readBlocks o file lines = .ok blocks)) := by
  unfold readBlocks Builder.read
  split
  · next b hb =>
    refine .inr ⟨b, hb, ?_⟩
    unfold Builder.result
    split
    · next branch stack hs => exact .inl ⟨branch, stack, hs, rfl⟩
    · next hs =>
      refine .inr ⟨hs, ?_⟩
      split <;> exact ⟨_, rfl⟩
  · next b e hb => exact .inl ⟨b, e, hb, rfl⟩

end Builder

/-- Where a badly nested file fails: at the first line with which the directives no longer begin
a word of the language or, if every line goes on with one, where the innermost open branch began. -/
def Blames (lines : List LogicalLine) (n : Nat) : Prop :=
  (∃ before l after, lines = before ++ l :: after ∧ Viable (keywords before) ∧
    ¬ Viable (keywords (before ++ [l])) ∧ l.number = n) ∨
  (Viable (keywords lines) ∧ ∃ before l inner k, lines = before ++ l :: inner ∧
    Keyword.ofLine? l.text = some k ∧ k.startsBranch = true ∧ Balanced (keywords inner) ∧
    l.number = n)

theorem blames_of_misplaced {o : Context} {file : String} {lines : List LogicalLine}
    {b : Builder} {e : ReadError} (ho : o.invalid ≠ .fail)
    (hlimit : ∀ x, e ≠ .digitLimit x)
    (h : Builder.acceptAll {} o file lines = (b, some e)) :
    ¬ Balanced (keywords lines) ∧ ∃ f, e = .format f ∧ f.problem.IsStructural ∧ f.file = file ∧
      Blames lines f.line := by
  obtain ⟨before, l, after, b₁, rfl, hb₁, he⟩ := Builder.acceptAll_error h
  rcases Builder.accept_error ho he with ⟨x, rfl⟩ | ⟨hrun, p, hp, rfl⟩
  · exact absurd rfl (hlimit x)
  have hbefore := Builder.run_of_acceptAll hb₁
  have hstop : run [] (keywords (before ++ [l])) = none := by
    rw [keywords_append, run_append, hbefore]
    exact hrun
  have hdead : ¬ Viable (keywords (before ++ [l])) := by
    rw [viable_iff, hstop]
    simp
  refine ⟨fun hbal => hdead ⟨keywords after, ?_⟩, _, rfl, hp, rfl, .inl
    ⟨before, l, after, rfl, viable_iff.mpr ⟨_, hbefore⟩, hdead, rfl⟩⟩
  rw [← keywords_append]
  simpa using hbal

theorem blames_of_unclosed {o : Context} {file : String} {lines : List LogicalLine}
    {b : Builder} {branch : OpenBranch} {stack : List OpenBranch}
    (h : Builder.acceptAll {} o file lines = (b, none)) (hs : b.stack = branch :: stack) :
    ¬ Balanced (keywords lines) ∧ Blames lines branch.first := by
  have hrun := Builder.run_of_acceptAll h
  have hfocus := Builder.focus_of_stack_cons hs
  refine ⟨fun hbal => ?_, .inr ⟨viable_iff.mpr ⟨_, hrun⟩, ?_⟩⟩
  · rw [run_eq_nil_iff.mpr hbal, hfocus] at hrun
    simp [Focus.shape] at hrun
  · have hanchor := Builder.anchored_of_acceptAll h
    rw [hfocus] at hanchor
    obtain ⟨before, l, inner, k, hl, hk, hb, hn, hr⟩ := hanchor [] _ _ rfl
    exact ⟨before, l, inner, k, hl, hk, hb, run_eq_nil_iff.mp hr, hn⟩

/-- A further branch is only begun where the chain has conditions to negate. -/
theorem Builder.conjoin_of_chain {b : Builder} {file : String} {k : Keyword} {c : Formula}
    {cs : List Formula} (h : b.chain file k = .ok (c, cs)) :
    ∃ branch stack, b.stack = branch :: stack ∧
      Formula.conjoin? (branch.earlier.map .not) = some (.noneOf c cs) := by
  obtain ⟨branch, stack, hs, he⟩ := chain_eq_ok_iff.mp h
  exact ⟨branch, stack, hs, by rw [he]; rfl⟩

/-- With invalid conditions overlooked, and short of the digit limit, a file has blocks exactly if
its conditionals are balanced. Otherwise the nesting is at fault, and the line is the one to blame.
No conjunction of nothing is ever asked for. -/
theorem readBlocks_ok_iff_balanced {o : Context} {file : String} {lines : List (List Char)}
    (ho : o.invalid ≠ .fail) (hlimit : ∀ x, readBlocks o file lines ≠ .error (.digitLimit x)) :
    ((∃ blocks, readBlocks o file lines = .ok blocks) ↔
      Balanced (keywords (logicalLines lines))) ∧
    (¬ Balanced (keywords (logicalLines lines)) →
      ∃ e, readBlocks o file lines = .error (.format e) ∧ e.problem.IsStructural ∧
        e.file = file ∧ Blames (logicalLines lines) e.line) ∧
    ∀ (b : Builder) k c cs, b.chain file k = .ok (c, cs) →
      ∃ branch stack, b.stack = branch :: stack ∧
        Formula.conjoin? (branch.earlier.map .not) = some (.noneOf c cs) := by
  refine and_assoc.mp ⟨?_, fun b k c cs => Builder.conjoin_of_chain⟩
  rcases Builder.readBlocks_cases o file lines with
    ⟨b, e, hb, hr⟩ | ⟨b, hb, ⟨branch, stack, hs, hr⟩ | ⟨hs, blocks, hr⟩⟩
  · have hshort : ∀ x, e ≠ .digitLimit x := by
      rintro x rfl
      exact hlimit x hr
    obtain ⟨hbad, f, rfl, hf⟩ := blames_of_misplaced ho hshort hb
    have hnone : ¬ ∃ blocks, readBlocks o file lines = .ok blocks := by simp [hr]
    exact ⟨iff_of_false hnone hbad, fun _ => ⟨f, hr, hf⟩⟩
  · obtain ⟨hbad, hblame⟩ := blames_of_unclosed hb hs
    have hnone : ¬ ∃ blocks, readBlocks o file lines = .ok blocks := by simp [hr]
    exact ⟨iff_of_false hnone hbad, fun _ => ⟨_, hr, trivial, rfl, hblame⟩⟩
  · have hgood : Balanced (keywords (logicalLines lines)) := by
      have hrun := Builder.run_of_acceptAll hb
      rw [Builder.focus_of_stack_nil hs] at hrun
      exact run_eq_nil_iff.mp hrun
    exact ⟨iff_of_true ⟨blocks, hr⟩ hgood, fun h => absurd hgood h⟩

theorem branch_after_else_blamed :
    let o : Context := { invalid := .errorVariable }
    let lines := ["#ifdef A".toList, "#else".toList, "#elif B".toList, "#endif".toList]
    o.invalid ≠ .fail ∧ (∀ x, readBlocks o "a.c" lines ≠ .error (.digitLimit x)) ∧
      ¬ Balanced (keywords (logicalLines lines)) ∧ Blames (logicalLines lines) 3 := by
  intro o lines
  have hr : readBlocks o "a.c" lines = .error (.format ⟨.branchAfterElse .elseIf, 3, "a.c"⟩) := by
    with_unfolding_all rfl
  have ho : o.invalid ≠ .fail := by decide
  have hlimit : ∀ x, readBlocks o "a.c" lines ≠ .error (.digitLimit x) := by simp [hr]
  obtain ⟨hiff, hblame, -⟩ := readBlocks_ok_iff_balanced ho hlimit
  have hbad : ¬ Balanced (keywords (logicalLines lines)) := by simp [← hiff, hr]
  obtain ⟨e, he, -, -, hb⟩ := hblame hbad
  obtain rfl : ⟨.branchAfterElse .elseIf, 3, "a.c"⟩ = e := by simpa [hr] using he
  exact ⟨ho, hlimit, hbad, hb⟩

end Presence

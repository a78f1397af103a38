import Presence.Proofs.Block.Session
import Presence.Proofs.Nesting.Acceptance

/-!
The builder changed in place. A directive is a sequence of checks and single changes, each of which
stays made when a later step stops; yet all that can stop it comes before its first change.
-/
namespace Presence

/-- Why a procedure stops: the text is at fault, or a step is impossible where it stands. -/
inductive Stop
  | fault (e : ReadError)
  | noOpenBranch
  | noCondition

/-- A computation on a builder that keeps its changes when it stops. -/
abbrev Procedure := EStateM Stop Builder

namespace Procedure

section Definitions

variable (o : Context) (file : String)

def refuse {α : Type} (p : FormatProblem) : Procedure α := do
  let b ← get
  throw (.fault (b.failure file p))

/-- The innermost open branch, if its chain takes a further one. -/
def continued (k : Keyword) : Procedure OpenBranch := do
  let b ← get
  match b.stack with
  | [] => refuse file (.branchWithoutOpening k)
  | branch :: _ =>
    if branch.earlier.isEmpty then refuse file (.branchAfterElse k) else return branch

def tested (expression : List Char) : Procedure Formula := do
  let b ← get
  match b.testedCondition o file expression with
  | .ok c => return c
  | .error e => throw (.fault e)

def noneOf (cs : List Formula) : Procedure Formula :=
  match Formula.conjoin? (cs.map .not) with
  | some f => return f
  | none => throw .noCondition

def revise (g : List Formula → List Formula) : Procedure Unit :=
  modify fun b => { b with
    stack := b.stack.modifyHead fun branch => { branch with earlier := g branch.earlier } }

def pop : Procedure OpenBranch := do
  let b ← get
  match b.stack with
  | [] => throw .noOpenBranch
  | branch :: stack =>
    set { b with stack := stack }
    return branch

def attach (block : Block) : Procedure Unit :=
  modify fun b => match b.stack with
    | [] => { b with finished := b.finished ++ [block] }
    | parent :: stack =>
      { b with stack := { parent with children := parent.children ++ [block] } :: stack }

/-- Closes the innermost branch and hands over what it knew of its chain. -/
def finish : Procedure (List Formula) := do
  let branch ← pop
  let b ← get
  attach (branch.close file (b.line - 1))
  return branch.earlier

def enter (condition : Formula) (earlier : List Formula) : Procedure Unit :=
  modify (·.openBranch condition earlier)

def next (condition : Formula) (g : List Formula → List Formula) : Procedure Unit := do
  revise g
  let earlier ← finish file
  enter condition earlier

def directive (d : Directive) : Procedure Unit :=
  match d.keyword with
  | .ifDefined | .ifUndefined | .ifHolds => do
    let c ← tested o file d.expression
    enter c [c]
  | .elseIf => do
    let branch ← continued file d.keyword
    let c ← tested o file d.expression
    let others ← noneOf branch.earlier
    next file (.and others c) (· ++ [c])
  | .otherwise => do
    let branch ← continued file d.keyword
    let others ← noneOf branch.earlier
    next file others fun _ => []
  | .endIf => do
    let b ← get
    match b.stack with
    | [] => refuse file .endWithoutOpening
    | _ :: _ =>
      let _ ← finish file

def line (l : LogicalLine) : Procedure Unit := do
  modify fun b => { b with line := l.number }
  match Directive.ofLine? l.text with
  | some d => directive o file d
  | none => modify fun b =>
    if l.text.isEmpty || !b.stack.isEmpty then b else { b with contentOutside := true }

def lines : List LogicalLine → Procedure Unit
  | [] => return
  | l :: ls => do
    line o file l
    lines ls

def close : Procedure (List Block) := do
  let b ← get
  match b.stack with
  | branch :: _ => throw (.fault (.format ⟨.unclosed branch.first, branch.first, file⟩))
  | [] =>
    return if b.contentOutside && o.pseudoBlock then [.whole file (b.line + 1) b.finished]
      else b.finished

def call (source : List (List Char)) : Procedure (List Block) := do
  lines o file (logicalLines source)
  close o file

end Definitions

/-- The result of a check, which leaves the builder alone. -/
def checked {α : Type} (b : Builder) : Except ReadError α → EStateM.Result Stop Builder α
  | .ok a => .ok a b
  | .error e => .error (.fault e) b

/-- The builder that changes lead to, or the one before them. -/
def changed (b : Builder) : Except ReadError Builder → EStateM.Result Stop Builder Unit
  | .ok b' => .ok () b'
  | .error e => .error (.fault e) b

def accepted : Builder × Option ReadError → EStateM.Result Stop Builder Unit
  | (b, none) => .ok () b
  | (b, some e) => .error (.fault e) b

variable {o : Context} {file : String} {b : Builder}

theorem run_tested (expression : List Char) :
    (tested o file expression).run b = checked b (b.testedCondition o file expression) := by
  simp only [tested, EStateM.run_bind, EStateM.run_get]
  cases b.testedCondition o file expression <;> rfl

theorem run_continued_of_error {k : Keyword} {e : ReadError} (h : b.chain file k = .error e) :
    (continued file k).run b = .error (.fault e) b := by
  simp only [continued, EStateM.run_bind, EStateM.run_get]
  rcases hs : b.stack with _ | ⟨branch, stack⟩
  · simp only [Builder.chain, hs] at h
    cases h
    rfl
  · rcases hearlier : branch.earlier with _ | ⟨c, cs⟩
    · simp only [Builder.chain, hs, hearlier] at h
      cases h
      simp only [hearlier]
      rfl
    · simp only [Builder.chain, hs, hearlier] at h
      cases h

theorem run_continued_of_ok {k : Keyword} {c : Formula} {cs : List Formula}
    (h : b.chain file k = .ok (c, cs)) :
    ∃ branch stack, b.stack = branch :: stack ∧ branch.earlier = c :: cs ∧
      (continued file k).run b = .ok branch b := by
  obtain ⟨branch, stack, hs, hearlier⟩ := Builder.chain_eq_ok_iff.mp h
  refine ⟨branch, stack, hs, hearlier, ?_⟩
  simp only [continued, EStateM.run_bind, EStateM.run_get, hs, hearlier]
  rfl

/-- A chain that takes a further branch has conditions to negate. -/
theorem run_noneOf (c : Formula) (cs : List Formula) :
    (noneOf (c :: cs)).run b = .ok (.noneOf c cs) b := rfl

theorem run_finish {branch : OpenBranch} {stack : List OpenBranch}
    (hs : b.stack = branch :: stack) :
    (finish file).run b = .ok branch.earlier (b.closeBranch file) := by
  simp only [finish, pop, attach, EStateM.run_bind, EStateM.run_get, hs, EStateM.run_set,
    EStateM.run_pure, EStateM.run_modify, Builder.closeBranch]
  cases stack <;> rfl

/-- Once a branch is open, nothing stops the step to the next one of its chain. -/
theorem run_next {branch : OpenBranch} {stack : List OpenBranch}
    (hs : b.stack = branch :: stack) (c : Formula) (g : List Formula → List Formula) :
    (next file c g).run b = .ok () ((b.closeBranch file).openBranch c (g branch.earlier)) := by
  have hrevise : (revise g).run b =
      .ok () { b with stack := { branch with earlier := g branch.earlier } :: stack } := by
    simp [revise, hs]
  have hclose : Builder.closeBranch
      { b with stack := { branch with earlier := g branch.earlier } :: stack } file =
        b.closeBranch file := by
    simp only [Builder.closeBranch, hs]
    cases stack <;> rfl
  have hfinish : (finish file).run
      { b with stack := { branch with earlier := g branch.earlier } :: stack } =
        .ok (g branch.earlier) (b.closeBranch file) := by
    rw [run_finish rfl, hclose]
  simp only [next, EStateM.run_bind, hrevise, hfinish]
  rfl

theorem run_opening (expression : List Char) :
    (do let c ← tested o file expression
        enter c [c] : Procedure Unit).run b =
      changed b (do
        let c ← b.testedCondition o file expression
        return b.openBranch c [c]) := by
  simp only [EStateM.run_bind, run_tested]
  cases b.testedCondition o file expression <;> rfl

/-- A directive is carried out, or it stops before it has changed anything. -/
theorem run_directive (d : Directive) :
    (directive o file d).run b = changed b (b.direct o file d) := by
  cases hk : d.keyword with
  | ifDefined => simp only [directive, Builder.direct, hk, run_opening]
  | ifUndefined => simp only [directive, Builder.direct, hk, run_opening]
  | ifHolds => simp only [directive, Builder.direct, hk, run_opening]
  | elseIf =>
    simp only [directive, Builder.direct, hk, EStateM.run_bind]
    cases hchain : b.chain file .elseIf with
    | error e =>
      rw [run_continued_of_error hchain]
      rfl
    | ok cs =>
      obtain ⟨branch, stack, hs, hearlier, hrun⟩ := run_continued_of_ok hchain
      simp only [hrun, run_tested, hearlier]
      cases b.testedCondition o file d.expression with
      | error e => rfl
      | ok c =>
        simp only [checked, run_noneOf, run_next hs, hearlier]
        rfl
  | otherwise =>
    simp only [directive, Builder.direct, hk, EStateM.run_bind]
    cases hchain : b.chain file .otherwise with
    | error e =>
      rw [run_continued_of_error hchain]
      rfl
    | ok cs =>
      obtain ⟨branch, stack, hs, hearlier, hrun⟩ := run_continued_of_ok hchain
      simp only [hrun, hearlier, run_noneOf, run_next hs]
      rfl
  | endIf =>
    simp only [directive, Builder.direct, hk, EStateM.run_bind, EStateM.run_get]
    cases hs : b.stack with
    | nil => rfl
    | cons branch stack =>
      simp only [EStateM.run_bind, run_finish hs]
      rfl

theorem run_line (l : LogicalLine) :
    (line o file l).run b = accepted (b.accept o file l) := by
  simp only [line, EStateM.run_bind, EStateM.run_modify, Builder.accept, Builder.handle]
  cases hd : Directive.ofLine? l.text with
  | none =>
    simp only [EStateM.run_modify]
    split <;> rfl
  | some d =>
    simp only [run_directive]
    cases Builder.direct { b with line := l.number } o file d <;> rfl

theorem run_lines (ls : List LogicalLine) :
    (lines o file ls).run b = accepted (b.acceptAll o file ls) := by
  induction ls generalizing b with
  | nil => rfl
  | cons l ls ih =>
    simp only [lines, EStateM.run_bind, run_line, Builder.acceptAll]
    rcases b.accept o file l with ⟨b', _ | e⟩
    · exact ih
    · rfl

theorem run_close : (close o file).run b = checked b (b.result o file) := by
  simp only [close, EStateM.run_bind, EStateM.run_get, Builder.result]
  cases b.stack with
  | nil => cases b.contentOutside && o.pseudoBlock <;> rfl
  | cons branch stack => rfl

/-- Changed in place, a builder goes through the same calls. -/
theorem run_call (source : List (List Char)) :
    (call o file source).run b =
      checked (b.read o file source).1 (b.read o file source).2 := by
  simp only [call, EStateM.run_bind, run_lines, Builder.read]
  rcases b.acceptAll o file (logicalLines source) with ⟨b', _ | e⟩
  · exact run_close
  · rfl

end Procedure

namespace Builder

variable {o : Context} {file : String} {b b' : Builder} {e : ReadError}

theorem testedCondition_failure {expression : List Char}
    (h : b.testedCondition o file expression = .error e) :
    (∃ x, e = .digitLimit x) ∨ ∃ p, e = b.failure file p := by
  unfold testedCondition at h
  split at h
  · cases h
  · cases h
    exact .inl ⟨_, rfl⟩
  · cases h
    exact .inr ⟨_, rfl⟩

/-- A line fails at its own number, and for its condition only if invalid ones are to fail. -/
theorem accept_failure {l : LogicalLine} (h : b.accept o file l = (b', some e)) :
    (∃ x, e = .digitLimit x) ∨
      ∃ p : FormatProblem, e = .format ⟨p, l.number, file⟩ ∧ (p.IsStructural ∨ o.invalid = .fail) := by
  obtain ⟨d, -, hc | ⟨-, p, hp, he⟩⟩ := accept_error_cases h
  · by_cases ho : o.invalid = .fail
    · rcases testedCondition_failure hc with hx | ⟨p, he⟩
      · exact .inl hx
      · exact .inr ⟨p, he, .inr ho⟩
    · exact .inl (testedCondition_error ho hc)
  · exact .inr ⟨p, he, .inl hp⟩

end Builder

open Procedure

/-- Failures leave a builder as it was, whatever calls led to it. Carried out in place, a line that
stops has only become the current one; it stops for a fault of the text, never at a step of its own
that is impossible, and as the line is refused otherwise. An end of the text that stops, for a
branch left open, has changed nothing. Whole calls agree as well. -/
theorem failure_keeps_builder (o : Context) (file : String) (b : Builder) :
    (∀ l s b', (line o file l).run b = .error s b' →
      b' = { b with line := l.number } ∧
        ∃ e, s = .fault e ∧ b.accept o file l = (b', some e) ∧
          ((∃ x, e = .digitLimit x) ∨ ∃ p : FormatProblem, e = .format ⟨p, l.number, file⟩ ∧
            (p.IsStructural ∨ o.invalid = .fail))) ∧
    (∀ s b', (close o file).run b = .error s b' →
      b' = b ∧ ∃ branch stack, b.stack = branch :: stack ∧
        s = .fault (.format ⟨.unclosed branch.first, branch.first, file⟩)) ∧
    ∀ source, (call o file source).run b =
      checked (b.read o file source).1 (b.read o file source).2 := by
  refine ⟨fun l s b' h => ?_, fun s b' h => ?_, run_call⟩
  · rw [run_line] at h
    rcases haccept : b.accept o file l with ⟨b₁, _ | e⟩
    · rw [haccept] at h
      cases h
    · rw [haccept] at h
      cases h
      exact ⟨Builder.eq_of_accept_error haccept, e, rfl, rfl, Builder.accept_failure haccept⟩
  · rw [run_close, Builder.result] at h
    split at h
    · next branch stack hs =>
      cases h
      exact ⟨rfl, branch, stack, hs, rfl⟩
    · split at h <;> cases h

theorem failure_keeps_builder_incomplete :
    let b := Formula.var "B"
    let inner : OpenBranch := ⟨2, b, .and (.var "A") b, [], [b]⟩
    let outer : OpenBranch := ⟨1, .var "A", .var "A", [], [.var "A"]⟩
    let s : Builder := { stack := [inner, outer], line := 2 }
    let l : LogicalLine := ⟨3, "#elif 1 +".toList⟩
    (∃ e, (line {} "a.c" l).run s = .error e { s with line := 3 } ∧
      (∃ x, s.accept {} "a.c" l = ({ s with line := 3 }, some x))) ∧
    ∃ e, (close {} "a.c").run s = .error e s := by
  intro b inner outer s l
  obtain ⟨hline, hclose, -⟩ := failure_keeps_builder {} "a.c" s
  obtain ⟨e, b₁, hrun⟩ : ∃ e b₁, (line {} "a.c" l).run s = .error e b₁ :=
    ⟨_, _, by with_unfolding_all rfl⟩
  obtain ⟨e', b₂, hrun'⟩ : ∃ e b₂, (close {} "a.c").run s = .error e b₂ := ⟨_, _, rfl⟩
  obtain ⟨rfl, x, -, haccept, -⟩ := hline l e b₁ hrun
  obtain ⟨rfl, -⟩ := hclose e' b₂ hrun'
  exact ⟨⟨e, hrun, x, haccept⟩, e', hrun'⟩

end Presence

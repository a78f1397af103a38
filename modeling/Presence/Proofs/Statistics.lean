import Mathlib.Algebra.Ring.Nat
import Presence.Proofs.Block.LongChain
import Presence.Proofs.Block.Traversal
import Presence.Proofs.Block.WholeFile
import Presence.Proofs.CommandLine.Independence
import Presence.Statistics

/-!
What statistics say of a source. There is a condition for each directive that begins a branch. A
stand-in for an invalid condition is counted at the directive that tests it and again in each
further branch of its chain, whose condition has it among those that do not hold.
-/
namespace Presence

open Block Nesting

namespace ConditionCount

theorem add_comm (a b : ConditionCount) : a.add b = b.add a := by
  simp [add, Nat.add_comm]

theorem add_assoc (a b c : ConditionCount) : (a.add b).add c = a.add (b.add c) := by
  simp [add, Nat.add_assoc]

@[simp] theorem add_zero (a : ConditionCount) : a.add ⟨0, 0⟩ = a := rfl

@[simp] theorem zero_add (a : ConditionCount) : add ⟨0, 0⟩ a = a := by
  simp [add]

def one (c : Formula) : ConditionCount :=
  ⟨1, c.count errorVariableName⟩

end ConditionCount

namespace Block

theorem conditionCount_eq (b : Block) :
    b.conditionCount = (ConditionCount.one b.condition).add (conditionCounts b.children) := by
  cases b
  rfl

theorem conditionCounts_cons (b : Block) (bs : List Block) :
    conditionCounts (b :: bs) = b.conditionCount.add (conditionCounts bs) := rfl

@[simp] theorem conditionCounts_append (xs ys : List Block) :
    conditionCounts (xs ++ ys) = (conditionCounts xs).add (conditionCounts ys) := by
  induction xs with
  | nil => simp [conditionCounts]
  | cons x xs ih =>
    rw [List.cons_append, conditionCounts_cons, conditionCounts_cons, ih,
      ConditionCount.add_assoc]

@[simp] theorem conditionCounts_singleton (b : Block) :
    conditionCounts [b] = b.conditionCount := rfl

/-- The block around a whole file counts as one condition. -/
theorem conditionCounts_whole (file : String) (last : Nat) (bs : List Block) :
    conditionCounts [.whole file last bs] = (conditionCounts bs).add ⟨1, 0⟩ := by
  rw [conditionCounts_singleton, conditionCount_eq, ConditionCount.add_comm]
  rfl

@[simp] theorem conditionCounts_reverse (bs : List Block) :
    conditionCounts bs.reverse = conditionCounts bs := by
  induction bs with
  | nil => rfl
  | cons b bs ih =>
    rw [List.reverse_cons, conditionCounts_append, ih, conditionCounts_singleton,
      ConditionCount.add_comm, conditionCounts_cons]

theorem countable_append {calls : Nat} {xs ys : List Block} :
    Countable calls (xs ++ ys) ↔ Countable calls xs ∧ Countable calls ys := by
  simp only [Countable, preorders_append, List.forall_mem_append]

theorem countable_reverse {calls : Nat} {bs : List Block} :
    Countable calls bs.reverse ↔ Countable calls bs := by
  induction bs with
  | nil => rfl
  | cons b bs ih =>
    rw [List.reverse_cons, countable_append, ih, and_comm, ← countable_append,
      List.singleton_append]

theorem countable_cons {calls : Nat} {b : Block} {bs : List Block} :
    Countable calls (b :: bs) ↔
      b.condition.depth ≤ calls ∧ Countable calls b.children ∧ Countable calls bs := by
  simp only [Countable, preorders_cons, List.cons_append, List.forall_mem_cons,
    List.forall_mem_append]

/-- Counts from a list of pending blocks: the first of them is taken, and its children come before
the others, the last child first. -/
def countPending? (calls : Nat) (done : ConditionCount) : List Block → Option ConditionCount
  | [] => some done
  | b :: pending => do
    let own ← b.condition.count? errorVariableName calls
    countPending? calls (done.add ⟨1, own⟩) (b.children.reverse ++ pending)
termination_by pending => (conditionCounts pending).conditions
decreasing_by
  simp [conditionCounts_cons, conditionCount_eq, ConditionCount.add, ConditionCount.one]

theorem countPending?_cons (calls : Nat) (done : ConditionCount) (b : Block)
    (pending : List Block) : countPending? calls done (b :: pending) =
      (b.condition.count? errorVariableName calls).bind fun own =>
        countPending? calls (done.add ⟨1, own⟩) (b.children.reverse ++ pending) := by
  rw [countPending?]
  rfl

theorem countPending?_eq_some_iff {calls : Nat} {done c : ConditionCount} {pending : List Block} :
    countPending? calls done pending = some c ↔
      Countable calls pending ∧ c = done.add (conditionCounts pending) := by
  -- the number of blocks that are left goes down, and nothing else does
  generalize hn : (conditionCounts pending).conditions = n
  induction n using Nat.strong_induction_on generalizing done pending with
  | _ n ih =>
    cases pending with
    | nil => simp [countPending?, Countable, preorders, conditionCounts, eq_comm]
    | cons b pending =>
      have hcounts : conditionCounts (b :: pending) =
          (ConditionCount.one b.condition).add (conditionCounts (b.children.reverse ++ pending)) := by
        rw [conditionCounts_append, conditionCounts_reverse, conditionCounts_cons,
          conditionCount_eq, ConditionCount.add_assoc]
      have hless : (conditionCounts (b.children.reverse ++ pending)).conditions < n := by
        rw [← hn, hcounts]
        exact Nat.lt_add_of_pos_left Nat.one_pos
      rw [countPending?_cons, countable_cons, hcounts, ← ConditionCount.add_assoc]
      simp only [Option.bind_eq_some_iff, Formula.count?_eq, Option.ite_none_right_eq_some,
        Option.some.injEq, ih _ hless rfl, countable_append, countable_reverse]
      constructor
      · rintro ⟨own, ⟨hown, rfl⟩, hrest, rfl⟩
        exact ⟨⟨hown, hrest⟩, rfl⟩
      · rintro ⟨⟨hown, hrest⟩, rfl⟩
        exact ⟨_, ⟨hown, rfl⟩, hrest, rfl⟩

/-- The order in which blocks are taken does not matter. -/
theorem countPending?_reverse (calls : Nat) (blocks : List Block) :
    countPending? calls ⟨0, 0⟩ blocks.reverse = conditionCounts? calls blocks := by
  apply Option.ext
  intro c
  rw [countPending?_eq_some_iff, conditionCounts?_eq_some_iff, countable_reverse,
    conditionCounts_reverse, ConditionCount.zero_add]

end Block

namespace Nesting

/-- The further branches of a chain with `depth` conditionals open inside, up to its `#endif`. -/
def further : (depth : Nat) → List Keyword → Nat
  | _, [] => 0
  | n, .ifDefined :: w | n, .ifUndefined :: w | n, .ifHolds :: w => further (n + 1) w
  | 0, .elseIf :: w | 0, .otherwise :: w => further 0 w + 1
  | n + 1, .elseIf :: w | n + 1, .otherwise :: w => further (n + 1) w
  | 0, .endIf :: _ => 0
  | n + 1, .endIf :: w => further n w

theorem further_of_opensChain {k : Keyword} (hk : k.opensChain = true) (n : Nat)
    (w : List Keyword) : further n (k :: w) = further (n + 1) w := by
  cases k <;> first | simp [further] | cases hk

/-- A chain that had its `#else` has no further branches. -/
theorem further_eq_zero {s u v : List Bool} {w : List Keyword}
    (h : run (u ++ false :: v) w = some s) : further u.length w = 0 := by
  induction w generalizing u with
  | nil => simp [further]
  | cons k w ih =>
    obtain ⟨s', hs, hw⟩ := Option.bind_eq_some_iff.mp h
    by_cases hk : k.opensChain = true
    · rw [step_of_opensChain hk] at hs
      cases hs
      rw [further_of_opensChain hk]
      exact ih (u := true :: u) hw
    match k, u with
    | .endIf, [] => simp [further]
    | .endIf, _ :: u =>
      cases hs
      exact ih hw
    | .elseIf, true :: u =>
      cases hs
      exact ih (u := true :: u) hw
    | .otherwise, true :: u =>
      cases hs
      exact ih (u := false :: u) hw
    | .elseIf, [] | .otherwise, [] | .elseIf, false :: _ | .otherwise, false :: _ => cases hs
    | .ifDefined, _ | .ifUndefined, _ | .ifHolds, _ => exact absurd rfl hk

end Nesting

def Keyword.testsCondition (k : Keyword) : Bool :=
  k.opensChain || k = .elseIf

def LogicalLine.tested? (l : LogicalLine) : Option (List Char) :=
  (Directive.ofLine? l.text).bind fun d =>
    if d.keyword.testsCondition then some d.expression else none

/-- If the line tests an invalid condition, one stand-in at the line itself, and one for each further
branch of its chain in the directives behind it. -/
def LogicalLine.standIns (o : Context) (l : LogicalLine) (w : List Keyword) : Nat :=
  match l.tested? with
  | some e => if Invalid o e then 1 + further 0 w else 0
  | none => 0

def standIns (o : Context) : List LogicalLine → Nat
  | [] => 0
  | l :: rest => l.standIns o (keywords rest) + standIns o rest

/-- No condition that has a formula mentions the variable for those that have none. -/
def KeepsErrorVariable (o : Context) (lines : List LogicalLine) : Prop :=
  ∀ l ∈ lines, ∀ e ∈ l.tested?, ∀ f, formulaOf o e = .ok f → f.count errorVariableName = 0

/-- Then each occurrence of the variable stands for an invalid condition. -/
theorem count_of_condition {o : Context} (ho : o.invalid = .errorVariable) {e : List Char}
    (hname : ∀ f, formulaOf o e = .ok f → f.count errorVariableName = 0) {c : Formula}
    (hc : condition o e = .ok c) :
    c.count errorVariableName = if Invalid o e then 1 else 0 := by
  unfold condition at hc
  split at hc
  · next hf =>
    cases hc
    rw [if_neg, hname _ hf]
    rintro ⟨x, hx, -⟩
    cases hf.symm.trans hx
  · next x hx =>
    simp only [ho, InvalidHandling.substitute?] at hc
    split at hc
    · next hrecoverable =>
      cases hc
      rw [if_pos ⟨x, hx, hrecoverable⟩]
      decide
    · cases hc

namespace LogicalLine

variable {o : Context} {l : LogicalLine} {d : Directive}

theorem tested?_of_testsCondition (hd : Directive.ofLine? l.text = some d)
    (hk : d.keyword.testsCondition = true) : l.tested? = some d.expression := by
  simp [tested?, hd, hk]

theorem standIns_of_condition (ho : o.invalid = .errorVariable)
    (hname : ∀ e ∈ l.tested?, ∀ f, formulaOf o e = .ok f → f.count errorVariableName = 0)
    (hd : Directive.ofLine? l.text = some d) (hk : d.keyword.testsCondition = true)
    {c : Formula} (hc : condition o d.expression = .ok c) (w : List Keyword) :
    l.standIns o w = c.count errorVariableName * (1 + further 0 w) := by
  have htested := tested?_of_testsCondition hd hk
  rw [standIns, htested, count_of_condition ho (hname _ htested) hc]
  by_cases hinvalid : Invalid o d.expression <;> simp [hinvalid]

theorem standIns_of_plain (hd : Directive.ofLine? l.text = none) (w : List Keyword) :
    l.standIns o w = 0 := by
  simp [standIns, tested?, hd]

theorem standIns_of_not_testsCondition (hd : Directive.ofLine? l.text = some d)
    (hk : d.keyword.testsCondition = false) (w : List Keyword) : l.standIns o w = 0 := by
  simp [standIns, tested?, hd, hk]

end LogicalLine

theorem Formula.count_andAll (name : String) (f : Formula) (fs : List Formula) :
    (andAll f fs).count name = f.count name + (fs.map (·.count name)).sum := by
  induction fs generalizing f with
  | nil => simp
  | cons g gs ih => simp [ih, count, Nat.add_assoc]

theorem Formula.count_noneOf (name : String) (c : Formula) (cs : List Formula) :
    (noneOf c cs).count name = ((c :: cs).map (·.count name)).sum := by
  rw [noneOf, count_andAll, List.map_map]
  rfl

/-- The stand-ins among the conditions of its chain so far. -/
def Frame.standIns (g : Frame) : Nat :=
  (g.earlier.map (·.count errorVariableName)).sum

namespace Focus

/-- What there is to count in open branches and before them. -/
def countAround : List Frame → ConditionCount
  | [] => ⟨0, 0⟩
  | g :: around => ((countAround around).add (conditionCounts g.before)).add (.one g.condition)

/-- What there is to count in all that has been begun. -/
def counted (f : Focus) : ConditionCount :=
  (countAround f.around).add (conditionCounts f.blocks)

@[simp] theorem counted_top (blocks : List Block) :
    counted ⟨blocks, []⟩ = conditionCounts blocks := by
  simp [counted, countAround]

theorem counted_enter (f : Focus) (n : Nat) (c : Formula) (earlier : List Formula) :
    (f.enter n c earlier).counted = f.counted.add (.one c) := rfl

theorem counted_leave (blocks : List Block) (g : Frame) (around : List Frame) (file : String)
    (n : Nat) : (leave g file n blocks around).counted = counted ⟨blocks, g :: around⟩ := by
  simp [counted, leave, countAround, Block.conditionCount_eq, Frame.close, ConditionCount.add_assoc]

/-- The stand-ins that the directives to come will repeat, by the branches that are open. -/
def owed : (depth : Nat) → List Frame → List Keyword → Nat
  | _, [], _ => 0
  | n, g :: around, w => g.standIns * further n w + owed (n + 1) around w

theorem owed_nil (n : Nat) (around : List Frame) : owed n around [] = 0 := by
  induction around generalizing n with
  | nil => rfl
  | cons g around ih => simp [owed, further, ih]

theorem owed_congr {m n : Nat} {u w : List Keyword} (around : List Frame)
    (h : ∀ i, further (m + i) u = further (n + i) w) : owed m around u = owed n around w := by
  induction around generalizing m n with
  | nil => rfl
  | cons g around ih =>
    have hnext : owed (m + 1) around u = owed (n + 1) around w := by
      apply ih
      intro i
      have hi := h (1 + i)
      rwa [← Nat.add_assoc, ← Nat.add_assoc] at hi
    rw [owed, owed, hnext, ← Nat.add_zero m, ← Nat.add_zero n, h 0]

theorem errorVariables_enter (f : Focus) (n : Nat) (c : Formula) (earlier : List Formula) :
    (f.enter n c earlier).counted.errorVariables =
      f.counted.errorVariables + c.count errorVariableName := rfl

theorem owed_enter (f : Focus) (n : Nat) (c : Formula) (earlier : List Formula)
    (w : List Keyword) : owed 0 (f.enter n c earlier).around w =
      (earlier.map (·.count errorVariableName)).sum * further 0 w + owed 1 f.around w := rfl

theorem owed_opening {k : Keyword} (hk : k.opensChain = true) (n : Nat) (around : List Frame)
    (w : List Keyword) : owed n around (k :: w) = owed (n + 1) around w := by
  refine owed_congr around fun i => ?_
  rw [further_of_opensChain hk, Nat.add_right_comm]

theorem owed_branch {k : Keyword} (hk : k = .elseIf ∨ k = .otherwise) (n : Nat)
    (around : List Frame) (w : List Keyword) :
    owed (n + 1) around (k :: w) = owed (n + 1) around w := by
  refine owed_congr around fun i => ?_
  rw [Nat.add_right_comm]
  rcases hk with rfl | rfl <;> rfl

/-- A further branch repeats the stand-ins of its chain once. -/
theorem owed_next {k : Keyword} (hk : k = .elseIf ∨ k = .otherwise) (g : Frame)
    (around : List Frame) (w : List Keyword) :
    owed 0 (g :: around) (k :: w) = g.standIns + g.standIns * further 0 w + owed 1 around w := by
  have hfurther : further 0 (k :: w) = further 0 w + 1 := by
    rcases hk with rfl | rfl <;> rfl
  rw [owed, owed_branch hk, hfurther, Nat.mul_succ, Nat.add_comm (g.standIns * further 0 w)]

theorem owed_endIf (n : Nat) (around : List Frame) (w : List Keyword) :
    owed (n + 1) around (.endIf :: w) = owed n around w := by
  refine owed_congr around fun i => ?_
  rw [Nat.add_right_comm]
  rfl

variable {o : Context} {file : String} {l : LogicalLine} {f f' : Focus}

theorem conditions_of_step (h : Step o file l f f') :
    f'.counted.conditions = f.counted.conditions + if l.startsBranch then 1 else 0 := by
  cases h with
  | plain hd => simp [LogicalLine.startsBranch_of_plain hd]
  | opening hd hk hc =>
    have hstarts := Keyword.startsBranch_of_opensChain hk
    simp [LogicalLine.startsBranch_of_directive hd, hstarts, counted_enter, ConditionCount.add,
      ConditionCount.one]
  | elseIf hd hk he hc =>
    simp [LogicalLine.startsBranch_of_directive hd, hk, Keyword.startsBranch, counted_enter,
      counted_leave, ConditionCount.add, ConditionCount.one]
  | otherwise hd hk he =>
    simp [LogicalLine.startsBranch_of_directive hd, hk, Keyword.startsBranch, counted_enter,
      counted_leave, ConditionCount.add, ConditionCount.one]
  | endIf hd hk =>
    simp [LogicalLine.startsBranch_of_directive hd, hk, Keyword.startsBranch, counted_leave]

/-- What a directive adds to the count is what was owed for it and what it makes owed anew. -/
theorem errorVariables_of_step (ho : o.invalid = .errorVariable)
    (hname : ∀ e ∈ l.tested?, ∀ f, formulaOf o e = .ok f → f.count errorVariableName = 0)
    (h : Step o file l f f') {w : List Keyword} {s : List Bool} (hw : run f'.shape w = some s) :
    f'.counted.errorVariables + owed 0 f'.around w =
      f.counted.errorVariables + l.standIns o w + owed 0 f.around (keywords [l] ++ w) := by
  cases h with
  | plain hd => simp [keywords_of_plain hd, LogicalLine.standIns_of_plain hd]
  | @opening f d c hd hk hc =>
    have htests : d.keyword.testsCondition = true := by simp [Keyword.testsCondition, hk]
    rw [LogicalLine.standIns_of_condition ho hname hd htests hc, keywords_of_directive hd,
      List.singleton_append, owed_opening hk, errorVariables_enter, owed_enter]
    simp only [List.map_cons, List.map_nil, List.sum_cons, List.sum_nil, Nat.zero_add,
      Nat.add_zero, Nat.mul_add]
    omega
  | @elseIf blocks g around d c e cs hd hk he hc =>
    have htests : d.keyword.testsCondition = true := by rw [hk]; rfl
    have hcount : (Formula.and (.noneOf c cs) e).count errorVariableName =
        g.standIns + e.count errorVariableName := by
      rw [Formula.count, Formula.count_noneOf, Frame.standIns, he]
    have hearlier : ((c :: cs ++ [e]).map (·.count errorVariableName)).sum =
        g.standIns + e.count errorVariableName := by
      rw [Frame.standIns, he]
      simp [Nat.add_assoc]
    rw [LogicalLine.standIns_of_condition ho hname hd htests hc, keywords_of_directive hd,
      List.singleton_append, owed_next (.inl hk), errorVariables_enter, counted_leave, hcount,
      owed_enter, hearlier, Nat.add_mul, Nat.mul_add, Nat.mul_one]
    simp only [leave]
    omega
  | @otherwise blocks g around d c cs hd hk he =>
    have htests : d.keyword.testsCondition = false := by rw [hk]; rfl
    have hcount : (Formula.noneOf c cs).count errorVariableName = g.standIns := by
      rw [Formula.count_noneOf, Frame.standIns, he]
    have hclosed : further 0 w = 0 := further_eq_zero (u := []) hw
    rw [LogicalLine.standIns_of_not_testsCondition hd htests, keywords_of_directive hd,
      List.singleton_append, owed_next (.inr hk), errorVariables_enter, counted_leave, hcount,
      owed_enter, hclosed, Nat.mul_zero, Nat.mul_zero]
    simp only [leave]
    omega
  | @endIf blocks g around d hd hk =>
    have htests : d.keyword.testsCondition = false := by rw [hk]; rfl
    rw [LogicalLine.standIns_of_not_testsCondition hd htests, keywords_of_directive hd,
      List.singleton_append, hk, counted_leave]
    simp only [owed, further, leave, owed_endIf, Nat.mul_zero, Nat.zero_add, Nat.add_zero]

end Focus

namespace Builder

variable {o : Context} {file : String} {lines : List LogicalLine} {b b' : Builder}

theorem run_shape_of_acceptAll (h : b.acceptAll o file lines = (b', none)) :
    run b.focus.shape (keywords lines) = some b'.focus.shape := by
  induction lines generalizing b with
  | nil =>
    cases h
    rfl
  | cons l lines ih =>
    obtain ⟨b₁, hl, hrest⟩ := acceptAll_cons.mp h
    rw [← List.singleton_append, keywords_append, run_append,
      Focus.run_shape_of_step (step_of_accept hl).1]
    exact ih hrest

theorem conditions_of_acceptAll (h : acceptAll {} o file lines = (b, none)) :
    b.focus.counted.conditions = lines.countP (·.startsBranch) := by
  refine acceptAll_induction
    (P := fun done f => f.counted.conditions = done.countP (·.startsBranch)) ?_ rfl h
  intro done l rest f f' _ hf hs
  rw [Focus.conditions_of_step hs, hf, List.countP_append, List.countP_singleton]

/-- In the end all that was owed for the open branches is counted. -/
theorem errorVariables_of_acceptAll (ho : o.invalid = .errorVariable)
    (hname : KeepsErrorVariable o lines) (h : b.acceptAll o file lines = (b', none)) :
    b'.focus.counted.errorVariables =
      b.focus.counted.errorVariables + standIns o lines +
        Focus.owed 0 b.focus.around (keywords lines) := by
  induction lines generalizing b with
  | nil =>
    cases h
    simp [standIns, keywords, Focus.owed_nil]
  | cons l lines ih =>
    obtain ⟨b₁, hl, hrest⟩ := acceptAll_cons.mp h
    obtain ⟨hfirst, hlines⟩ := List.forall_mem_cons.mp hname
    have hstep := Focus.errorVariables_of_step ho hfirst (step_of_accept hl).1
      (run_shape_of_acceptAll hrest)
    rw [← keywords_append, List.singleton_append] at hstep
    have hih := ih hlines hrest
    rw [standIns]
    omega

theorem counted_of_acceptAll (ho : o.invalid = .errorVariable)
    (hname : KeepsErrorVariable o lines) (h : acceptAll {} o file lines = (b, none)) :
    b.focus.counted = ⟨lines.countP (·.startsBranch), standIns o lines⟩ := by
  have hconditions := conditions_of_acceptAll h
  have herrors := errorVariables_of_acceptAll ho hname h
  have hstart : (focus {}).counted.errorVariables = 0 ∧
      Focus.owed 0 (focus {}).around (keywords lines) = 0 := ⟨rfl, rfl⟩
  rw [hstart.1, hstart.2, Nat.zero_add, Nat.add_zero] at herrors
  rw [← hconditions, ← herrors]

end Builder

namespace Statistics

theorem total_perm {ss ss' : List Statistics} (h : ss.Perm ss') : total ss = total ss' := by
  induction h with
  | nil => rfl
  | cons s _ ih => rw [total_cons, total_cons, ih]
  | swap s s' ss =>
    rw [total_cons, total_cons, total_cons, total_cons, ← add_assoc, ← add_assoc, add_comm s]
  | trans _ _ ih ih' => exact ih.trans ih'

theorem total_map_ofFile (rs : List (Option (List Block))) :
    total (rs.map ofFile) =
      { files := rs.countP (·.isSome)
        failedFiles := rs.countP (·.isNone)
        conditions := ((rs.filterMap id).map fun bs => (conditionCounts bs).conditions).sum
        errorVariables :=
          ((rs.filterMap id).map fun bs => (conditionCounts bs).errorVariables).sum } := by
  induction rs with
  | nil => rfl
  | cons r rs ih =>
    rw [List.map_cons, total_cons, ih]
    cases r <;> simp [ofFile, ofCount, add, Nat.add_comm]

theorem ofFiles?_perm {calls : Nat} {rs rs' : List (Option (List Block))} (h : rs.Perm rs') :
    ofFiles? calls rs = ofFiles? calls rs' := by
  apply Option.ext
  intro s
  have hcountable : (∀ f ∈ rs, ∀ bs ∈ f, Countable calls bs) ↔
      ∀ f ∈ rs', ∀ bs ∈ f, Countable calls bs := by
    simp only [h.mem_iff]
  rw [ofFiles?_eq_some_iff, ofFiles?_eq_some_iff, hcountable, total_perm (h.map ofFile)]

end Statistics

/-- What statistics count in a source, if its formulas are not too deep to be searched with the
calls that are left; if one is, there are none. There are as many conditions as directives that
begin a branch, and one more if there is a block around the whole file. The variable for invalid
conditions occurs once for each directive that tests one and once more for each further branch of
its chain, unless a condition that has a formula mentions it. The blocks may be taken from a list of
pending ones, and statistics over several files are the sums of each number, in any order. -/
theorem statistics_match_source (calls : Nat) :
    (∀ {o : Context} {file : String} {source : List (List Char)} {blocks : List Block},
      o.invalid = .errorVariable → KeepsErrorVariable o (logicalLines source) →
      readBlocks o file source = .ok blocks →
        let lines := logicalLines source
        ((∃ c, conditionCounts? calls blocks = some c) ↔
          ∀ b ∈ preorders blocks, b.condition.depth ≤ calls) ∧
        ∀ c, conditionCounts? calls blocks = some c →
          (o.pseudoBlock = true ∧ HasContentOutside lines →
            c = ⟨lines.countP (·.startsBranch) + 1, standIns o lines⟩) ∧
          (¬ (o.pseudoBlock = true ∧ HasContentOutside lines) →
            c = ⟨lines.countP (·.startsBranch), standIns o lines⟩)) ∧
    (∀ blocks, countPending? calls ⟨0, 0⟩ blocks.reverse = conditionCounts? calls blocks) ∧
    ∀ results : List (Option (List Block)),
      ((∃ s, Statistics.ofFiles? calls results = some s) ↔
        ∀ r ∈ results, ∀ blocks ∈ r, ∃ c, conditionCounts? calls blocks = some c) ∧
      (∀ s, Statistics.ofFiles? calls results = some s → s =
        { files := results.countP (·.isSome)
          failedFiles := results.countP (·.isNone)
          conditions := ((results.filterMap id).map fun bs => (conditionCounts bs).conditions).sum
          errorVariables :=
            ((results.filterMap id).map fun bs => (conditionCounts bs).errorVariables).sum }) ∧
      ∀ results', results.Perm results' →
        Statistics.ofFiles? calls results = Statistics.ofFiles? calls results' := by
  have hcountable (blocks : List Block) :
      (∃ c, conditionCounts? calls blocks = some c) ↔ Countable calls blocks := by
    simp only [conditionCounts?_eq_some_iff, exists_and_left, exists_eq, and_true]
  refine ⟨?_, countPending?_reverse calls, fun results =>
    ⟨?_, ?_, fun _ => Statistics.ofFiles?_perm⟩⟩
  · intro o file source blocks ho hname h lines
    refine ⟨hcountable blocks, fun c hc => ?_⟩
    obtain ⟨-, rfl⟩ := conditionCounts?_eq_some_iff.mp hc
    obtain ⟨b, hread⟩ : ∃ b, Builder.read {} o file source = (b, .ok blocks) :=
      ⟨_, Prod.ext rfl h⟩
    obtain ⟨hacc, hend, hblocks⟩ := Builder.read_eq_ok hread
    have hcontent : b.contentOutside = true ↔ HasContentOutside lines :=
      Builder.contentOutside_of_acceptAll (fun _ => eq_nil_of_blank) hacc
    have hforest := Builder.counted_of_acceptAll ho hname hacc
    rw [hend, Focus.counted_top] at hforest
    rw [← hcontent]
    refine ⟨fun ⟨hp, hc⟩ => ?_, fun hno => ?_⟩
    · have hwhole : blocks = [.whole file (b.line + 1) b.finished] := by
        rw [hblocks, hp, hc]
        rfl
      rw [hwhole, conditionCounts_whole, hforest]
      rfl
    · have hplain : (b.contentOutside && o.pseudoBlock) = false := by
        rw [Bool.and_comm]
        simpa using hno
      rw [hblocks, hplain]
      exact hforest
  · simp only [hcountable, Statistics.ofFiles?_eq_some_iff, exists_and_left, exists_eq, and_true]
  · intro s hs
    rw [(Statistics.ofFiles?_eq_some_iff.mp hs).2, Statistics.total_map_ofFile]

/-- An invalid condition opens a chain of three branches, in the first of which another one opens a
chain of two. -/
theorem statistics_match_nested_chains :
    let o : Context := { invalid := .errorVariable }
    let source := ["x".toList, "#if 1 +".toList, "#ifdef A B".toList, "#else".toList,
      "#endif".toList, "#elif defined C".toList, "#else".toList, "#endif".toList]
    KeepsErrorVariable o (logicalLines source) ∧ HasContentOutside (logicalLines source) ∧
      ∃ blocks, readBlocks o "a.c" source = .ok blocks ∧
        conditionCounts? 1000 blocks = some ⟨6, 5⟩ ∧
        Statistics.ofFiles? 1000 [none, some blocks] = some ⟨1, 1, 6, 5⟩ := by
  intro o source
  have hlines : logicalLines source = [⟨1, "x".toList⟩, ⟨2, "#if 1 +".toList⟩,
      ⟨3, "#ifdef A B".toList⟩, ⟨4, "#else".toList⟩, ⟨5, "#endif".toList⟩,
      ⟨6, "#elif defined C".toList⟩, ⟨7, "#else".toList⟩, ⟨8, "#endif".toList⟩] := by
    with_unfolding_all rfl
  have hdefined : formulaOf o " defined C".toList = .ok (.var "C") := by
    with_unfolding_all rfl
  obtain ⟨x, hsum⟩ : ∃ x, formulaOf o " 1 +".toList = .error x :=
    ⟨_, by with_unfolding_all rfl⟩
  obtain ⟨y, hname⟩ : ∃ y, formulaOf o "defined(A B)".toList = .error y :=
    ⟨_, by with_unfolding_all rfl⟩
  have hkeeps : KeepsErrorVariable o (logicalLines source) := by
    intro l hl e he f hf
    rw [hlines] at hl
    simp only [List.mem_cons, List.not_mem_nil, or_false] at hl
    rcases hl with rfl | rfl | rfl | rfl | rfl | rfl | rfl | rfl <;> cases he
    · cases hsum.symm.trans hf
    · cases hname.symm.trans hf
    · cases hdefined.symm.trans hf
      decide
  have hcontent : HasContentOutside (logicalLines source) := by
    have hplain : ¬ Text.Blank ['x'] := fun hblank => absurd (hblank 'x' (by simp)) (by decide)
    exact ⟨[], ⟨1, ['x']⟩, _, hlines, hplain, by decide, .nil⟩
  obtain ⟨blocks, hblocks⟩ : ∃ blocks, readBlocks o "a.c" source = .ok blocks :=
    ⟨_, by with_unfolding_all rfl⟩
  have hbranches : (logicalLines source).countP (·.startsBranch) = 5 := by
    with_unfolding_all rfl
  have hstandIns : standIns o (logicalLines source) = 5 := by
    with_unfolding_all rfl
  obtain ⟨hfile, -, hfiles⟩ := statistics_match_source 1000
  obtain ⟨hsome, hnumbers⟩ := hfile rfl hkeeps hblocks
  have hdepths : ∀ b ∈ preorders blocks, b.condition.depth ≤ 1000 := by
    have hall : (readBlocks o "a.c" source).toOption.all fun blocks =>
        (preorders blocks).all fun b => decide (b.condition.depth ≤ 1000) := by
      decide +kernel
    rw [hblocks] at hall
    simpa [Except.toOption] using hall
  obtain ⟨c, hc⟩ := hsome.mpr hdepths
  have hcount : c = ⟨6, 5⟩ := by
    rw [(hnumbers c hc).1 ⟨rfl, hcontent⟩, hbranches, hstandIns]
  rw [hcount] at hc
  obtain ⟨hdone, hsums, -⟩ := hfiles [none, some blocks]
  obtain ⟨s, hs⟩ := hdone.mpr (by simp [hc])
  have htotal : s = ⟨1, 1, 6, 5⟩ := by
    rw [hsums s hs]
    simp [(conditionCounts?_eq_some_iff.mp hc).2.symm]
  rw [htotal] at hs
  exact ⟨hkeeps, hcontent, blocks, hblocks, hc, hs⟩

theorem keepsErrorVariable_longChain (o : Context) (n : Nat) :
    KeepsErrorVariable o (logicalLines (longChain n)) := by
  intro l hl e he f hf
  rw [logicalLines_longChain] at hl
  obtain ⟨i, hi, rfl⟩ := List.mem_mapIdx.mp hl
  have htests : LogicalLine.tested? ⟨i + 1, (longChain n)[i]⟩ = some " 0".toList ∨
      LogicalLine.tested? ⟨i + 1, (longChain n)[i]⟩ = none := by
    rcases eq_of_mem_longChain (List.getElem_mem hi) with htext | htext | htext <;> rw [htext]
    · exact .inl rfl
    · exact .inl rfl
    · exact .inr rfl
  rcases htests with htests | htests
  · rw [htests] at he
    obtain rfl := Option.some.inj he
    rw [formulaOf_zero] at hf
    obtain rfl := Except.ok.inj hf
    rfl
  · rw [htests] at he
    cases he

/-- There are no statistics of a file if a condition in it is too deep to be searched. -/
theorem statistics_missing_for_long_chain :
    let o : Context := { invalid := .errorVariable }
    KeepsErrorVariable o (logicalLines (longChain 1200)) ∧
      ∃ blocks, readBlocks o "a.c" (longChain 1200) = .ok blocks ∧
        conditionCounts? 1000 blocks = none ∧ Statistics.ofFiles? 1000 [some blocks] = none := by
  intro o
  have hcalls : 1000 ≤ 1200 := by decide
  obtain ⟨blocks, hread, hcount, -⟩ := longChain_too_deep o "a.c" hcalls
  refine ⟨keepsErrorVariable_longChain o 1200, blocks, hread, hcount, ?_⟩
  simp [Statistics.ofFiles?, Statistics.ofFile?, hcount]

end Presence

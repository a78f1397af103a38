import Presence.CommandLine.Run
import Presence.Proofs.Block.Printing
import Presence.Proofs.CommandLine.Parsing

/-!
Inputs on their own. A run over several inputs does what runs over each of them do, one after
another: nothing passes from one input to the next but that standard input is used up.
-/
namespace Presence

open Block

namespace Statistics

def total (ss : List Statistics) : Statistics :=
  ss.foldr add {}

theorem total_cons (s : Statistics) (ss : List Statistics) :
    total (s :: ss) = s.add (total ss) := rfl

theorem total_singleton (s : Statistics) : total [s] = s := rfl

section Countable

variable {calls : Nat}

theorem ofFile?_eq_some_iff {blocks? : Option (List Block)} {s : Statistics} :
    ofFile? calls blocks? = some s ↔ (∀ bs ∈ blocks?, Countable calls bs) ∧ s = ofFile blocks? := by
  cases blocks? with
  | none => simp [ofFile?, ofFile, eq_comm]
  | some bs =>
    simp only [ofFile?, ofFile, Option.map_eq_some_iff, conditionCounts?_eq_some_iff,
      Option.mem_def, Option.some.injEq, forall_eq']
    constructor
    · rintro ⟨c, ⟨hcountable, rfl⟩, rfl⟩
      exact ⟨hcountable, rfl⟩
    · rintro ⟨hcountable, rfl⟩
      exact ⟨_, ⟨hcountable, rfl⟩, rfl⟩

/-- Statistics are the sums over the files, if no condition of them is too deep to be searched. -/
theorem ofFiles?_eq_some_iff {files : List (Option (List Block))} {s : Statistics} :
    ofFiles? calls files = some s ↔
      (∀ f ∈ files, ∀ bs ∈ f, Countable calls bs) ∧ s = total (files.map ofFile) := by
  have hfold (start : Statistics) :
      files.foldlM (fun s f => return s.add (← ofFile? calls f)) start = some s ↔
        (∀ f ∈ files, ∀ bs ∈ f, Countable calls bs) ∧ s = start.add (total (files.map ofFile)) := by
    induction files generalizing start with
    | nil => simp [total, add, eq_comm]
    | cons f files ih =>
      simp only [List.foldlM_cons, Option.bind_eq_bind, Option.bind_eq_some_iff, Option.pure_def,
        Option.some.injEq, ofFile?_eq_some_iff, List.forall_mem_cons, List.map_cons, total_cons]
      constructor
      · rintro ⟨_, ⟨_, ⟨hf, rfl⟩, rfl⟩, hrest⟩
        obtain ⟨hfiles, rfl⟩ := (ih _).mp hrest
        exact ⟨⟨hf, hfiles⟩, add_assoc _ _ _⟩
      · rintro ⟨⟨hf, hfiles⟩, rfl⟩
        exact ⟨_, ⟨_, ⟨hf, rfl⟩, rfl⟩, (ih _).mpr ⟨hfiles, (add_assoc _ _ _).symm⟩⟩
  have hstart : add {} (total (files.map ofFile)) = total (files.map ofFile) := by simp [add]
  rw [ofFiles?, hfold, hstart]

end Countable

theorem records_none (o : Options) (s : Statistics) : s.records o none = [] := by
  simp [records, logged]

end Statistics

namespace CommandLine

open Text

/-- The blocks of an input by itself, if it has any. -/
def Arguments.blocks? (a : Arguments) (o : Options) (s : Sources) (input : String) :
    Option (List Block) :=
  match a.extract o s input with
  | .ok e => e.outcome.toOption.map (·.blocks)
  | .error _ => none

/-- What an input by itself contributes. -/
def Arguments.statistics (a : Arguments) (o : Options) (s : Sources) (input : String) :
    Statistics :=
  .ofFile (a.blocks? o s input)

variable {a : Arguments} {o : Options} {s : Sources} {i : String}
  {lines : List OutputLine} {results : List (Option (List Block))}

theorem orTooDeep_eq_ok_iff {α : Type} {result? : Option α} {x : α} :
    orTooDeep result? = .ok x ↔ result? = some x := by
  cases result? <;> simp [orTooDeep]

theorem runInputs_cons (h : runInputs a o s [i] = .ok (lines, results)) (rest : List String) :
    results = [a.blocks? o s i] ∧
    runInputs a o s (i :: rest) = (runInputs a o (s.after i) rest).map fun r =>
      (lines ++ r.1, results ++ r.2) := by
  rw [runInputs] at h
  obtain ⟨e, he, h⟩ := bind_eq_ok_iff.mp h
  rw [runInputs, Arguments.blocks?, he]
  simp only [bind, Except.bind]
  rcases hout : e.outcome with (d | abort) | source <;> rw [hout] at h
  · cases h
    refine ⟨rfl, ?_⟩
    cases runInputs a o (s.after i) rest <;> simp [Except.map, pure, Except.pure]
  · cases h
  · obtain ⟨printed, hprinted, h⟩ := bind_eq_ok_iff.mp h
    cases h
    refine ⟨rfl, ?_⟩
    simp only [hprinted]
    cases runInputs a o (s.after i) rest <;> simp [Except.map, pure, Except.pure]

@[simp] theorem budget_after (s : Sources) (used : String) : (s.after used).budget = s.budget := by
  unfold Sources.after
  split <;> rfl

/-- Only standard input is not the same when it is read again. -/
theorem extract_after (hi : i ≠ stdinInput) (used : String) :
    a.extract o (s.after used) i = a.extract o s i := by
  have hcontents : (s.after used).contents = s.contents := by
    unfold Sources.after
    by_cases h : used = stdinInput <;> simp [h]
  unfold Arguments.extract
  rw [if_neg hi, if_neg hi, hcontents, budget_after]

theorem runInputs_after (hi : i ≠ stdinInput) (used : String) :
    runInputs a o (s.after used) [i] = runInputs a o s [i] := by
  rw [runInputs, runInputs, extract_after hi, budget_after]
  rfl

/-- What each input does by itself is all that they do together. -/
theorem runInputs_eq {inputs : List String} {lines : String → List OutputLine}
    {result : String → Option (List Block)} (honce : inputs.count stdinInput ≤ 1)
    (h : ∀ i ∈ inputs, runInputs a o s [i] = .ok (lines i, [result i])) :
    runInputs a o s inputs = .ok (inputs.flatMap lines, inputs.map result) := by
  induction inputs generalizing s with
  | nil => rfl
  | cons i rest ih =>
    obtain ⟨hi, hrest⟩ := List.forall_mem_cons.mp h
    have hnext : runInputs a o (s.after i) rest = .ok (rest.flatMap lines, rest.map result) := by
      -- Standard input is used up by the one input that reads it; the others leave all as it is.
      by_cases hstdin : i = stdinInput
      · have hnone : rest.count stdinInput = 0 := by
          rw [hstdin, List.count_cons_self] at honce
          omega
        apply ih (by omega)
        intro j hj
        have hne : j ≠ stdinInput := by
          rintro rfl
          exact List.count_eq_zero.mp hnone hj
        rw [runInputs_after hne]
        exact hrest j hj
      · have hsame : s.after i = s := if_neg hstdin
        rw [List.count_cons_of_ne hstdin] at honce
        rw [hsame]
        exact ih honce hrest
    rw [(runInputs_cons hi rest).2, hnext]
    rfl

/-- Inputs and the wish for statistics have no part in what inputs print. -/
theorem runInputs_congr (a : Arguments) (all : List String) (stats : Bool)
    (inputs : List String) :
    runInputs { a with inputs := all, stats := stats } o s inputs = runInputs a o s inputs := by
  induction inputs generalizing s with
  | nil => rfl
  | cons i rest ih =>
    rw [runInputs, runInputs, ih]
    rfl

theorem countable_of_sourceLines? {f : Format} {calls : Nat} {source : SourceBlocks}
    (h : sourceLines? f calls source = some lines) : Countable calls source.blocks := by
  cases f with
  | human =>
    obtain ⟨printed, hprinted, -⟩ := Option.bind_eq_some_iff.mp h
    exact countable_of_outlines? hprinted
  | json =>
    obtain ⟨objects, hobjects, -⟩ := Option.bind_eq_some_iff.mp h
    exact countable_of_jsons? hobjects

/-- What has been printed can also be counted. -/
theorem countable_of_runInputs {inputs : List String}
    (h : runInputs a o s inputs = .ok (lines, results)) :
    ∀ f ∈ results, ∀ bs ∈ f, Countable s.budget.calls bs := by
  induction inputs generalizing s lines results with
  | nil =>
    cases h
    simp
  | cons i rest ih =>
    rw [runInputs] at h
    obtain ⟨e, -, h⟩ := bind_eq_ok_iff.mp h
    rcases hout : e.outcome with (d | abort) | source <;> rw [hout] at h
    · obtain ⟨⟨ls, rs⟩, hrest, h⟩ := bind_eq_ok_iff.mp h
      cases h
      have hcountable := ih hrest
      rw [budget_after] at hcountable
      exact List.forall_mem_cons.mpr ⟨nofun, hcountable⟩
    · cases h
    · obtain ⟨printed, hprinted, h⟩ := bind_eq_ok_iff.mp h
      obtain ⟨⟨ls, rs⟩, hrest, h⟩ := bind_eq_ok_iff.mp h
      cases h
      have hcountable := ih hrest
      rw [budget_after] at hcountable
      have hsource := countable_of_sourceLines? (orTooDeep_eq_ok_iff.mp hprinted)
      refine List.forall_mem_cons.mpr ⟨fun bs hbs => ?_, hcountable⟩
      obtain rfl := Option.some.inj hbs
      exact hsource

theorem run_eq_ok_iff {arguments inputs : List String} {stats : Bool} {outcome : Outcome}
    (hrequest : Request.ofStrings arguments =
      .ok (.run { a with inputs := inputs, stats := stats }))
    (ho : a.options = .ok o) (hverbose : a.verbose = false) :
    run s arguments = .ok outcome ↔ ∃ lines results,
      runInputs a o s inputs = .ok (lines, results) ∧
      outcome = ⟨if results.any Option.isNone then 1 else 0,
        lines ++ if stats then (Statistics.total (results.map .ofFile)).lines.map .out
          else []⟩ := by
  have hoptions : Arguments.options { a with inputs := inputs, stats := stats } = .ok o := ho
  have hchannel : Arguments.channel { a with inputs := inputs, stats := stats } = none := by
    simp [Arguments.channel, hverbose]
  have hstatistics {lines : List OutputLine} {results : List (Option (List Block))}
      (hrun : runInputs a o s inputs = .ok (lines, results)) :
      statisticsLines { a with inputs := inputs, stats := stats } o s.budget.calls results =
        .ok (if stats then (Statistics.total (results.map .ofFile)).lines.map .out else []) := by
    have hcounted := Statistics.ofFiles?_eq_some_iff.mpr ⟨countable_of_runInputs hrun, rfl⟩
    cases stats with
    | false => rfl
    | true =>
      simp only [statisticsLines, hcounted, orTooDeep, hchannel, Statistics.records_none]
      rfl
  unfold run
  simp only [hrequest, hoptions, runInputs_congr]
  constructor
  · intro h
    obtain ⟨⟨lines, results⟩, hrun, h⟩ := bind_eq_ok_iff.mp h
    rw [hstatistics hrun] at h
    exact ⟨lines, results, hrun, (Except.ok.inj h).symm⟩
  · rintro ⟨lines, results, hrun, rfl⟩
    refine bind_eq_ok_iff.mpr ⟨(lines, results), hrun, ?_⟩
    rw [hstatistics hrun]
    rfl

namespace Outcome

theorem unlines_append (xs ys : List String) : unlines (xs ++ ys) = unlines xs ++ unlines ys := by
  unfold unlines
  rw [List.map_append, String.join_append]

/-- What one stream shows of the outcomes in a row. -/
theorem unlines_flatMap (stream : OutputLine → Option String) (f : String → Outcome)
    (inputs : List String) :
    unlines ((inputs.flatMap fun i => (f i).lines).filterMap stream) =
      String.join (inputs.map fun i => unlines ((f i).lines.filterMap stream)) := by
  induction inputs with
  | nil => rfl
  | cons i inputs ih =>
    rw [List.flatMap_cons, List.filterMap_append, unlines_append, ih, List.map_cons,
      String.join_cons]

end Outcome

/-- A run over one input shows what the input prints, and if it fails. -/
theorem runInputs_of_run {arguments : List String} {outcome : Outcome}
    (hrequest : Request.ofStrings arguments =
      .ok (.run { a with inputs := [i], stats := false }))
    (ho : a.options = .ok o) (hverbose : a.verbose = false)
    (hrun : run s arguments = .ok outcome) :
    runInputs a o s [i] = .ok (outcome.lines, [a.blocks? o s i]) ∧
      outcome.code = if (a.blocks? o s i).isNone then 1 else 0 := by
  obtain ⟨lines, results, hinputs, rfl⟩ := (run_eq_ok_iff hrequest ho hverbose).mp hrun
  obtain ⟨rfl, -⟩ := runInputs_cons hinputs []
  simp [hinputs]

/-- Inputs are independent. Take options that are valid, without a log, and inputs of which one at
most is standard input, and let each input by itself come to an outcome. Together they print to
each stream what each prints by itself, in order, and fail if one of them does. With statistics
there are as many more lines as for one input, with the sums of what each input contributes by
itself; an input that fails contributes that and nothing else. -/
theorem run_together {plain counted : Layout} {a : Arguments} {o : Options} {s : Sources}
    {inputs : List String} {single : String → Outcome}
    (hplain : plain.Takes a inputs) (hcounted : counted.Takes { a with stats := true } inputs)
    (hstats : a.stats = false) (hverbose : a.verbose = false) (ho : a.options = .ok o)
    (hne : inputs ≠ []) (honce : inputs.count stdinInput ≤ 1)
    (hsingle : ∀ i ∈ inputs, run s (plain.place [i]) = .ok (single i)) :
    ∃ whole : Outcome, run s (plain.place inputs) = .ok whole ∧
      whole.stdout = String.join (inputs.map fun i => (single i).stdout) ∧
      whole.stderr = String.join (inputs.map fun i => (single i).stderr) ∧
      whole.code = (if inputs.any fun i => (single i).code = 1 then 1 else 0) ∧
      run s (counted.place inputs) = .ok { whole with
        lines := whole.lines ++
          (Statistics.total (inputs.map (a.statistics o s))).lines.map .out } ∧
      ∀ i ∈ inputs,
        run s (counted.place [i]) = .ok { single i with
          lines := (single i).lines ++ (a.statistics o s i).lines.map .out } ∧
        ((single i).code = 1 → a.statistics o s i = { failedFiles := 1 }) := by
  have huncounted (all : List String) :
      ({ a with inputs := all } : Arguments) = { a with inputs := all, stats := false } := by
    rw [← hstats]
  have halone (i : String) (hi : i ∈ inputs) :
      runInputs a o s [i] = .ok ((single i).lines, [a.blocks? o s i]) ∧
        (single i).code = if (a.blocks? o s i).isNone then 1 else 0 := by
    apply runInputs_of_run _ ho hverbose (hsingle i hi)
    rw [← huncounted]
    exact hplain.alone i hi
  have htogether : runInputs a o s inputs =
      .ok (inputs.flatMap fun i => (single i).lines, inputs.map (a.blocks? o s)) :=
    runInputs_eq honce fun i hi => (halone i hi).1
  have hfailed : (inputs.map (a.blocks? o s)).any Option.isNone =
      inputs.any fun i => (single i).code = 1 := by
    rw [List.any_map, Bool.eq_iff_iff, List.any_eq_true, List.any_eq_true]
    refine exists_congr fun i => and_congr_right fun hi => ?_
    rw [Function.comp_apply, (halone i hi).2]
    cases a.blocks? o s i <;> simp
  refine ⟨⟨if inputs.any fun i => (single i).code = 1 then 1 else 0,
    inputs.flatMap fun i => (single i).lines⟩, ?_, ?_, ?_, rfl, ?_, ?_⟩
  · have hrequest : Request.ofStrings (plain.place inputs) =
        .ok (.run { a with inputs := inputs, stats := false }) := by
      rw [← huncounted]
      exact hplain.together hne
    refine (run_eq_ok_iff hrequest ho hverbose).mpr ⟨_, _, htogether, ?_⟩
    simp [hfailed]
  · exact Outcome.unlines_flatMap _ single inputs
  · exact Outcome.unlines_flatMap _ single inputs
  · refine (run_eq_ok_iff (a := a) (hcounted.together hne) ho hverbose).mpr ⟨_, _, htogether, ?_⟩
    rw [hfailed, List.map_map]
    rfl
  · intro i hi
    obtain ⟨hrun, hcode⟩ := halone i hi
    constructor
    · refine (run_eq_ok_iff (a := a) (hcounted.alone i hi) ho hverbose).mpr ⟨_, _, hrun, ?_⟩
      rw [List.map_singleton, Statistics.total_singleton]
      simp [hcode, Arguments.statistics]
    · intro hfail
      rw [hcode] at hfail
      unfold Arguments.statistics
      cases hblocks : a.blocks? o s i with
      | none => rfl
      | some blocks => simp [hblocks] at hfail

/-- A file, one that is not there, and standard input. -/
def mixedSources : Sources where
  stdin := .text "#ifdef B\n#endif\n".toList
  contents p :=
    if p.text = "tree/a.c" then .ok (Utf8.encode "#ifdef A\nint a;\n#else\n#endif\n".toList)
    else .error .notFound

def treeLayout (options : List String) : Layout :=
  ⟨["--source-tree", "tree"], options⟩

def singleOutcome (input : String) : Outcome :=
  if input = "a.c" then ⟨0, [.out "a.c:", .out "  1-2: A", .out "  3-3: !A"]⟩
  else if input = stdinInput then ⟨0, [.out "<stdin>:", .out "  1-1: B"]⟩
  else ⟨1, [.err
    "b.c: read: Can't read tree/b.c: [Errno 2] No such file or directory: 'tree/b.c'"]⟩

theorem run_together_past_failure :
    ∃ whole : Outcome,
      run mixedSources ((treeLayout ["--fuzzy-parsing"]).place ["a.c", "b.c", stdinInput]) =
        .ok whole ∧
      whole.stdout = "a.c:\n  1-2: A\n  3-3: !A\n<stdin>:\n  1-1: B\n" ∧
      whole.stderr =
        "b.c: read: Can't read tree/b.c: [Errno 2] No such file or directory: 'tree/b.c'\n" ∧
      whole.code = 1 ∧
      run mixedSources
          ((treeLayout ["--stats", "--fuzzy-parsing"]).place ["a.c", "b.c", stdinInput]) =
        .ok { whole with lines := whole.lines ++ (Statistics.lines ⟨2, 1, 3, 0⟩).map .out } := by
  have htakes (stats : Bool) :
      (treeLayout (if stats then ["--stats", "--fuzzy-parsing"] else ["--fuzzy-parsing"])).Takes
        { fuzzy := true, sourceTree := some (.given "tree"), stats := stats }
        ["a.c", "b.c", stdinInput] := by
    cases stats <;>
      exact
        { awaitsInput := by with_unfolding_all rfl
          reads := by
            simp only [List.forall_mem_cons]
            exact ⟨.inr (by with_unfolding_all rfl), .inr (by with_unfolding_all rfl),
              .inr (by with_unfolding_all rfl), nofun⟩
          alone := by
            simp only [List.forall_mem_cons]
            exact ⟨by with_unfolding_all rfl, by with_unfolding_all rfl,
              by with_unfolding_all rfl, nofun⟩ }
  have hsingle : ∀ i ∈ ["a.c", "b.c", stdinInput],
      run mixedSources ((treeLayout ["--fuzzy-parsing"]).place [i]) = .ok (singleOutcome i) := by
    have hruns : ∀ i ∈ ["a.c", "b.c", stdinInput],
        (run mixedSources ((treeLayout ["--fuzzy-parsing"]).place [i])).toOption =
          some (singleOutcome i) := by
      decide +kernel
    exact fun i hi => toOption_eq_some_iff.mp (hruns i hi)
  have hoptions : Arguments.options
      { fuzzy := true, sourceTree := some (.given "tree") } = .ok { fuzzy := true } := by
    with_unfolding_all rfl
  have htotal : Statistics.total (["a.c", "b.c", stdinInput].map
      (Arguments.statistics { fuzzy := true, sourceTree := some (.given "tree") }
        { fuzzy := true } mixedSources)) = ⟨2, 1, 3, 0⟩ := by
    decide +kernel
  obtain ⟨whole, hrun, hout, herr, hcode, hstats, -⟩ :=
    run_together (htakes false) (htakes true) rfl rfl hoptions (by simp) (by decide) hsingle
  rw [htotal] at hstats
  exact ⟨whole, hrun, hout.trans rfl, herr.trans rfl, hcode.trans rfl, hstats⟩

end CommandLine
end Presence

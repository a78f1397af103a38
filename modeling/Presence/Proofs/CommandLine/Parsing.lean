import Presence.CommandLine.Arguments
import Presence.Proofs.Outcome

/-!
Options around a place for inputs. What such a layout makes of inputs does not depend on how many
there are, or on which ones.
-/
namespace Presence.CommandLine

theorem interpret_switch {s : Switch} (hs : s ≠ .help) (p : Parsing) (ws : List Word) :
    interpret p (.flag (.switch s) none :: ws) =
      interpret { p.endRun with arguments := p.arguments.switch s } ws := by
  cases s
  case help => exact absurd rfl hs
  all_goals rfl

theorem interpret_value_missing {ws : List Word} (h : ∀ value ws', ws = .input value :: ws' → False)
    (p : Parsing) (q : Parameter) :
    interpret p (.flag (.parameter q) none :: ws) = .error (.valueMissing (.parameter q)) := by
  cases ws with
  | nil => rfl
  | cons w ws =>
    cases w
    case input value => exact absurd rfl (h value ws)
    all_goals rfl

/-! Inputs that are there before stay in front of those that are read. -/

def Arguments.prepend (inputs : List String) (a : Arguments) : Arguments :=
  { a with inputs := inputs ++ a.inputs }

def Request.prepend (inputs : List String) : Request → Request
  | .help => .help
  | .run a => .run (a.prepend inputs)

namespace Parsing

def prepend (inputs : List String) (p : Parsing) : Parsing :=
  { p with arguments := p.arguments.prepend inputs }

variable {p : Parsing} {inputs : List String}

theorem run_prepend : (p.prepend inputs).run = p.run := rfl

theorem addInput_prepend (text : String) :
    (p.prepend inputs).addInput text = (p.addInput text).prepend inputs := by
  unfold addInput
  by_cases h : p.run = .over
  · simp [prepend, h]
  · simp [prepend, Arguments.prepend, h]

theorem endRun_prepend : (p.prepend inputs).endRun = p.endRun.prepend inputs := by
  unfold endRun
  by_cases h : p.run = .here <;> simp [prepend, h]

theorem finish_prepend :
    (p.prepend inputs).finish = p.finish.map (Request.prepend inputs) := by
  unfold finish
  by_cases hrun : p.run = .ahead
  · simp [prepend, hrun, Except.map]
  · by_cases hextras : p.extras = [] <;> simp [prepend, hrun, hextras, Except.map, Request.prepend]

end Parsing

theorem Arguments.switch_prepend (a : Arguments) (inputs : List String) (s : Switch) :
    (a.prepend inputs).switch s = (a.switch s).prepend inputs := by
  cases s <;> rfl

theorem Arguments.assign_prepend (a : Arguments) (inputs : List String) (p : Parameter)
    (value : String) :
    (a.prepend inputs).assign p value = (a.assign p value).map (Arguments.prepend inputs) := by
  unfold assign
  cases p <;> cases Value.ofString value
  case invalid.given word =>
    simp only
    cases choose _ InvalidHandling.all (·.word) word <;> rfl
  case format.given word =>
    simp only
    cases choose _ Format.all (·.word) word <;> rfl
  all_goals rfl

theorem Parsing.flag_prepend (p : Parsing) (inputs : List String) (a : Arguments) :
    { (p.prepend inputs).endRun with arguments := a.prepend inputs } =
      prepend inputs { p.endRun with arguments := a } := by
  rw [endRun_prepend]
  rfl

/-- A value has the same effect behind more inputs if the words after it have. -/
theorem assign_bind_prepend {p : Parsing} {inputs : List String} {q : Parameter} {value : String}
    {ws : List Word}
    (h : ∀ a, interpret (Parsing.prepend inputs { p.endRun with arguments := a }) ws =
      (interpret { p.endRun with arguments := a } ws).map (Request.prepend inputs)) :
    ((p.prepend inputs).arguments.assign q value >>= fun a =>
        interpret { (p.prepend inputs).endRun with arguments := a } ws) =
      (p.arguments.assign q value >>= fun a =>
        interpret { p.endRun with arguments := a } ws).map (Request.prepend inputs) := by
  have hassign : (p.prepend inputs).arguments.assign q value =
      (p.arguments.assign q value).map (Arguments.prepend inputs) :=
    p.arguments.assign_prepend inputs q value
  rw [hassign]
  cases p.arguments.assign q value with
  | error e => rfl
  | ok a =>
    show interpret { (p.prepend inputs).endRun with arguments := a.prepend inputs } ws = _
    rw [p.flag_prepend inputs a, h]
    rfl

theorem interpret_prepend (p : Parsing) (inputs : List String) (ws : List Word) :
    interpret (p.prepend inputs) ws = (interpret p ws).map (Request.prepend inputs) := by
  -- One case for each kind of word; a cluster and a parameter have more than one.
  fun_induction interpret p ws with
  | case1 p => exact Parsing.finish_prepend
  | case2 p text ws ih => rw [interpret, Parsing.addInput_prepend, ih]
  | case3 p ws h ih =>
    rw [interpret, Parsing.run_prepend, if_pos h]
    exact ih
  | case4 p ws h ih =>
    rw [interpret, Parsing.run_prepend, if_neg h]
    exact ih
  | case5 p text ws ih =>
    rw [interpret, Parsing.endRun_prepend]
    exact ih
  | case6 p letters ws hletters hempty => simp [interpret, hletters, hempty, Except.map]
  | case7 p letters ws hletters hempty =>
    simp [interpret, hletters, hempty, Except.map, Request.prepend]
  | case8 p letters ws hletters =>
    rw [interpret]
    cases h : letters.toList.dropWhile (· = 'h') with
    | nil => exact absurd h hletters
    | cons c rest => rfl
  | case9 p s value ws => rfl
  | case10 p ws => rfl
  | case11 p s ws hs ih =>
    rw [interpret_switch hs, ← ih]
    show interpret { (p.prepend inputs).endRun with
      arguments := (p.arguments.prepend inputs).switch s } ws = _
    rw [Arguments.switch_prepend, p.flag_prepend]
  | case12 p q value ws ih => exact assign_bind_prepend ih
  | case13 p q value ws ih => exact assign_bind_prepend ih
  | case14 p q ws hws =>
    rw [interpret_value_missing hws]
    rfl

/-! Where inputs are missing, only inputs are. -/

theorem Arguments.switch_inputs (a : Arguments) (s : Switch) : (a.switch s).inputs = a.inputs := by
  cases s <;> rfl

theorem Arguments.assign_inputs {a a' : Arguments} {p : Parameter} {value : String}
    (h : a.assign p value = .ok a') : a'.inputs = a.inputs := by
  unfold assign at h
  cases p <;> cases hv : Value.ofString value <;> simp only [hv] at h
  case invalid.given | format.given =>
    obtain ⟨x, -, rfl⟩ := map_eq_ok_iff.mp h
    rfl
  all_goals
    cases h
    rfl

theorem Arguments.assign_ne_inputsMissing (a : Arguments) (p : Parameter) (value : String) :
    a.assign p value ≠ .error .inputsMissing := by
  unfold assign
  cases p <;> cases Value.ofString value
  case invalid.given word =>
    simp only [choose]
    cases InvalidHandling.all.find? (·.word = word) <;> simp [Except.map]
  case format.given word =>
    simp only [choose]
    cases Format.all.find? (·.word = word) <;> simp [Except.map]
  all_goals simp

namespace Parsing

theorem run_addInput (p : Parsing) (text : String) : (p.addInput text).run ≠ .ahead := by
  unfold addInput
  by_cases h : p.run = .over <;> simp [h]

theorem run_endRun (p : Parsing) : p.endRun.run = .ahead ↔ p.run = .ahead := by
  unfold endRun
  by_cases h : p.run = .here <;> simp [h]

theorem endRun_of_ahead {p : Parsing} (h : p.run = .ahead) : p.endRun = p := by
  unfold endRun
  simp [h]

end Parsing

theorem interpret_ne_inputsMissing {p : Parsing} (h : p.run ≠ .ahead) (ws : List Word) :
    interpret p ws ≠ .error .inputsMissing := by
  fun_induction interpret p ws with
  | case1 p =>
    unfold Parsing.finish
    by_cases hextras : p.extras = [] <;> simp [h, hextras]
  | case2 p text ws ih => exact ih (p.run_addInput text)
  | case3 p ws _ ih => exact ih h
  | case4 p ws _ ih => exact ih h
  | case5 p text ws ih => exact ih (mt p.run_endRun.mp h)
  | case6 | case7 | case8 | case9 | case10 | case14 => nofun
  | case11 p s ws _ ih => exact ih (mt p.run_endRun.mp h)
  | case12 p q value ws ih | case13 p q value ws ih =>
    intro hmissing
    rcases bind_eq_error_iff.mp hmissing with hassign | ⟨a, -, ha⟩
    · exact p.arguments.assign_ne_inputsMissing q value hassign
    · exact ih a (mt p.run_endRun.mp h) ha

/-- Words that lack nothing but an input have no input among them, and leave what follows to be read
from where they end. -/
theorem interpret_behind {p : Parsing} (hp : p.run = .ahead) {ws : List Word}
    (h : interpret p ws = .error .inputsMissing) :
    ∃ q : Parsing, q.run = .ahead ∧ q.arguments.inputs = p.arguments.inputs ∧
      ∀ rest, rest ≠ [] → interpret p (ws ++ rest) = interpret q rest := by
  fun_induction interpret p ws with
  | case1 p => exact ⟨p, hp, rfl, fun _ _ => rfl⟩
  | case2 p text ws => exact absurd h (interpret_ne_inputsMissing (p.run_addInput text) ws)
  | case3 p ws hlast =>
    have hws : ws = [] := by
      rcases hlast with hover | ⟨-, hws⟩
      · rw [hp] at hover
        cases hover
      · exact hws
    refine ⟨p, hp, rfl, fun rest hrest => ?_⟩
    rw [hws, List.singleton_append, interpret, if_neg (by simp [hp, hrest])]
  | case4 p ws hlast ih =>
    obtain ⟨q, hq, hinputs, hrest⟩ := ih hp h
    refine ⟨q, hq, hinputs, fun rest hne => ?_⟩
    rw [List.cons_append, interpret, if_neg (by simp [hp, hne]), hrest rest hne]
  | case5 p text ws ih =>
    rw [Parsing.endRun_of_ahead hp] at h ih
    obtain ⟨q, hq, hinputs, hrest⟩ := ih hp h
    refine ⟨q, hq, hinputs, fun rest hne => ?_⟩
    rw [List.cons_append, interpret, Parsing.endRun_of_ahead hp, hrest rest hne]
  | case6 | case7 | case8 | case9 | case10 | case14 => cases h
  | case11 p s ws hs ih =>
    obtain ⟨q, hq, hinputs, hrest⟩ := ih (p.run_endRun.mpr hp) h
    refine ⟨q, hq, hinputs.trans (p.arguments.switch_inputs s), fun rest hne => ?_⟩
    rw [List.cons_append, interpret_switch hs, hrest rest hne]
  | case12 p r value ws ih | case13 p r value ws ih =>
    rcases bind_eq_error_iff.mp h with hassign | ⟨a, hassign, ha⟩
    · exact absurd hassign (p.arguments.assign_ne_inputsMissing r value)
    · obtain ⟨q, hq, hinputs, hrest⟩ := ih a (p.run_endRun.mpr hp) ha
      refine ⟨q, hq, hinputs.trans (Arguments.assign_inputs hassign), fun rest hne => ?_⟩
      simp only [List.cons_append, interpret, hassign]
      exact hrest rest hne

theorem interpret_inputs {p : Parsing} (hp : p.run ≠ .over) (first : String) (inputs : List String)
    (ws : List Word) :
    interpret p ((first :: inputs).map .input ++ ws) =
      interpret
        { p with
          run := .here
          arguments := { p.arguments with inputs := p.arguments.inputs ++ first :: inputs } } ws := by
  induction inputs generalizing p first with
  | nil =>
    simp only [List.map_cons, List.map_nil, List.singleton_append, interpret, Parsing.addInput,
      if_neg hp]
  | cons second inputs ih =>
    have hnext : (p.addInput first).run ≠ .over := by
      simp [Parsing.addInput, hp]
    rw [List.map_cons, List.cons_append, interpret, ih hnext]
    simp [Parsing.addInput, hp]

/-! Arguments become words one by one, up to two dashes. -/

namespace Word

theorem plain_ne_separator (x : String) : plain x ≠ .separator := by
  unfold plain
  split <;> simp

theorem long_cases (x : String) :
    (∃ f value, long x = .ok (.flag f value)) ∨ long x = .ok (plain x) ∨
      ∃ candidates, long x = .error (.ambiguous x candidates) := by
  unfold long
  simp only
  split
  · exact .inl ⟨_, _, rfl⟩
  · exact .inl ⟨_, _, rfl⟩
  · split
    · exact .inr (.inl rfl)
    · exact .inl ⟨_, _, rfl⟩
    · exact .inr (.inr ⟨_, rfl⟩)

theorem ofString_eq_separator_iff {x : String} : ofString x = .ok .separator ↔ x = "--" := by
  constructor
  · intro h
    unfold ofString at h
    split at h
    case h_1 hx => exact String.toList_inj.mp hx
    case h_2 =>
      rcases long_cases x with ⟨f, value, hx⟩ | hx | ⟨candidates, hx⟩ <;> rw [hx] at h
      · cases h
      · exact absurd (Except.ok.inj h) (plain_ne_separator x)
      · cases h
    case h_6 => exact absurd (Except.ok.inj h) (plain_ne_separator x)
    all_goals cases h
  · rintro rfl
    rfl

theorem ofString_ne_inputsMissing (x : String) : ofString x ≠ .error .inputsMissing := by
  unfold ofString
  split
  case h_2 =>
    rcases long_cases x with ⟨f, value, hx⟩ | hx | ⟨candidates, hx⟩ <;> rw [hx] <;> nofun
  all_goals nofun

theorem ofStrings_ne_inputsMissing (xs : List String) : ofStrings xs ≠ .error .inputsMissing := by
  induction xs with
  | nil => nofun
  | cons x xs ih =>
    intro h
    rw [ofStrings] at h
    rcases bind_eq_error_iff.mp h with hx | ⟨w, -, hw⟩
    · exact ofString_ne_inputsMissing x hx
    · split at hw
      · cases hw
      · rcases bind_eq_error_iff.mp hw with hxs | ⟨ws, -, hws⟩
        · exact ih hxs
        · cases hws

theorem ofStrings_append {xs : List String} {ws : List Word} (h : ofStrings xs = .ok ws)
    (ys : List String) :
    ofStrings (xs ++ ys) =
      (if "--" ∈ xs then .ok (ys.map .input) else ofStrings ys).map (ws ++ ·) := by
  induction xs generalizing ws with
  | nil =>
    cases h
    cases hys : ofStrings ys <;> simp [hys, Except.map]
  | cons x xs ih =>
    rw [ofStrings] at h
    obtain ⟨w, hx, hws⟩ := bind_eq_ok_iff.mp h
    have hhere : ofStrings (x :: xs ++ ys) =
        if w = .separator then .ok (w :: (xs ++ ys).map .input)
        else (ofStrings (xs ++ ys)).map (w :: ·) := by
      rw [List.cons_append, ofStrings, hx]
      rfl
    rw [hhere]
    by_cases hw : w = .separator
    · have hdashes : x = "--" := ofString_eq_separator_iff.mp (by rw [hx, hw])
      rw [if_pos hw] at hws ⊢
      cases hws
      simp [hdashes, Except.map]
    · have hdashes : "--" ≠ x := fun heq =>
        hw (Except.ok.inj (hx.symm.trans (ofString_eq_separator_iff.mpr heq.symm)))
      rw [if_neg hw] at hws ⊢
      obtain ⟨ws', hws', heq⟩ := bind_eq_ok_iff.mp hws
      cases heq
      rw [ih hws']
      simp only [List.mem_cons, hdashes, false_or]
      cases (if "--" ∈ xs then .ok (ys.map .input) else ofStrings ys) <;> rfl

theorem ofStrings_inputs {inputs : List String}
    (h : ∀ i ∈ inputs, ofString i = .ok (.input i)) :
    ofStrings inputs = .ok (inputs.map .input) := by
  induction inputs with
  | nil => rfl
  | cons i inputs ih =>
    obtain ⟨hi, hinputs⟩ := List.forall_mem_cons.mp h
    rw [ofStrings, hi, ih hinputs]
    rfl

end Word

/-- Arguments with a place for inputs among them. -/
structure Layout where
  before : List String
  after : List String := []

namespace Layout

def place (t : Layout) (inputs : List String) : List String :=
  t.before ++ inputs ++ t.after

/-- An argument that is an input by itself, or for standing behind two dashes. -/
def Reads (t : Layout) (input : String) : Prop :=
  "--" ∈ t.before ∨ Word.ofString input = .ok (.input input)

/-- What stands before the inputs lacks nothing but an input, and each input alone makes a request
with the same arguments but for the input. -/
structure Takes (t : Layout) (a : Arguments) (inputs : List String) : Prop where
  awaitsInput : Request.ofStrings t.before = .error .inputsMissing
  reads : ∀ i ∈ inputs, t.Reads i
  alone : ∀ i ∈ inputs, Request.ofStrings (t.place [i]) = .ok (.run { a with inputs := [i] })

theorem ofStrings_place {t : Layout} {ws : List Word} (hws : Word.ofStrings t.before = .ok ws) :
    ∃ after : Except UsageError (List Word), ∀ inputs, (∀ i ∈ inputs, t.Reads i) →
      Word.ofStrings (t.place inputs) = after.map (ws ++ inputs.map .input ++ ·) := by
  by_cases hdashes : "--" ∈ t.before
  · refine ⟨.ok (t.after.map .input), fun inputs _ => ?_⟩
    rw [place, List.append_assoc, Word.ofStrings_append hws, if_pos hdashes]
    simp [Except.map]
  · refine ⟨Word.ofStrings t.after, fun inputs hinputs => ?_⟩
    have hread (i : String) (hi : i ∈ inputs) : Word.ofString i = .ok (.input i) :=
      (hinputs i hi).resolve_left hdashes
    have hnone : "--" ∉ inputs := by
      intro hmem
      cases hread "--" hmem
    rw [place, List.append_assoc, Word.ofStrings_append hws, if_neg hdashes,
      Word.ofStrings_append (Word.ofStrings_inputs hread), if_neg hnone]
    cases Word.ofStrings t.after <;> simp [Except.map]

/-- The inputs are passed on as they are: all else of a request, or why there is none, is the same
whatever inputs there are. -/
theorem ofStrings_eq_map_prepend {t : Layout}
    (ht : Request.ofStrings t.before = .error .inputsMissing) :
    ∃ r : Except UsageError Request, ∀ inputs, inputs ≠ [] → (∀ i ∈ inputs, t.Reads i) →
      Request.ofStrings (t.place inputs) = r.map (Request.prepend inputs) := by
  obtain ⟨ws, hws, hmissing⟩ : ∃ ws, Word.ofStrings t.before = .ok ws ∧
      interpret {} ws = .error .inputsMissing := by
    rcases bind_eq_error_iff.mp ht with hwords | hwords
    · exact absurd hwords (Word.ofStrings_ne_inputsMissing t.before)
    · exact hwords
  obtain ⟨q, hq, hnone, hrest⟩ := interpret_behind rfl hmissing
  obtain ⟨after, hafter⟩ := ofStrings_place hws
  refine ⟨after >>= interpret { q with run := .here }, fun inputs hne hinputs => ?_⟩
  rw [Request.ofStrings, hafter inputs hinputs]
  cases after with
  | error e => rfl
  | ok vs =>
    obtain ⟨first, others, rfl⟩ := List.exists_cons_of_ne_nil hne
    show interpret {} (ws ++ (first :: others).map .input ++ vs) =
      (interpret { q with run := .here } vs).map (Request.prepend (first :: others))
    have hover : q.run ≠ .over := by simp [hq]
    rw [List.append_assoc, hrest _ (by simp), interpret_inputs hover, ← interpret_prepend, hnone]
    simp [Parsing.prepend, Arguments.prepend, hnone]

/-- Where each input makes a request alone, all make one together. -/
theorem Takes.together {t : Layout} {a : Arguments} {inputs : List String}
    (h : t.Takes a inputs) (hne : inputs ≠ []) :
    Request.ofStrings (t.place inputs) = .ok (.run { a with inputs := inputs }) := by
  obtain ⟨i, hi⟩ := List.exists_mem_of_ne_nil inputs hne
  obtain ⟨r, hr⟩ := ofStrings_eq_map_prepend h.awaitsInput
  have halone : r.map (Request.prepend [i]) = .ok (.run { a with inputs := [i] }) := by
    rw [← hr [i] (by simp) (by simpa using h.reads i hi)]
    exact h.alone i hi
  obtain ⟨request, hrun, hrest⟩ := map_eq_ok_iff.mp halone
  cases request with
  | help => cases hrest
  | run b =>
    have hb : b.prepend [i] = { a with inputs := [i] } := Request.run.inj hrest
    have hempty : b = { a with inputs := [] } := by
      cases b
      cases a
      simp_all [Arguments.prepend]
    rw [hr inputs hne h.reads, hrun, hempty]
    simp [Except.map, Request.prepend, Arguments.prepend]

end Layout
end Presence.CommandLine

import Presence.Proofs.Block.Focus

/-!
The language of balanced conditionals, and the stack machine that recognises it from left to right.
A chain of branches takes further ones up to its `#else`.
-/
namespace Presence.Nesting

mutual

/-- Whole conditionals, one after the other. -/
inductive Balanced : List Keyword → Prop
  | nil : Balanced []
  | conditional {k : Keyword} {body tail after : List Keyword} (hk : k.opensChain = true)
      (hb : Balanced body) (ht : Branches tail) (ha : Balanced after) :
      Balanced (k :: body ++ tail ++ .endIf :: after)

/-- The branches of a conditional after its first. -/
inductive Branches : List Keyword → Prop
  | nil : Branches []
  | elseIf {body tail : List Keyword} (hb : Balanced body) (ht : Branches tail) :
      Branches (.elseIf :: body ++ tail)
  | otherwise {body : List Keyword} (hb : Balanced body) : Branches (.otherwise :: body)

end

def Viable (w : List Keyword) : Prop :=
  ∃ x, Balanced (w ++ x)

/-- The stack says of each open conditional whether it takes further branches. -/
def step : List Bool → Keyword → Option (List Bool)
  | s, .ifDefined | s, .ifUndefined | s, .ifHolds => some (true :: s)
  | true :: s, .elseIf => some (true :: s)
  | true :: s, .otherwise => some (false :: s)
  | _ :: s, .endIf => some s
  | _, _ => none

def run (s : List Bool) (w : List Keyword) : Option (List Bool) :=
  w.foldlM step s

@[simp] theorem run_nil (s : List Bool) : run s [] = some s := rfl

@[simp] theorem run_cons (s : List Bool) (k : Keyword) (w : List Keyword) :
    run s (k :: w) = (step s k).bind (run · w) := rfl

theorem run_append (s : List Bool) (u w : List Keyword) :
    run s (u ++ w) = (run s u).bind (run · w) := by
  simp [run]

@[simp] theorem step_elseIf (s : List Bool) : step (true :: s) .elseIf = some (true :: s) := rfl

@[simp] theorem step_otherwise (s : List Bool) :
    step (true :: s) .otherwise = some (false :: s) := rfl

@[simp] theorem step_endIf (b : Bool) (s : List Bool) : step (b :: s) .endIf = some s := rfl

theorem step_of_opensChain {k : Keyword} (hk : k.opensChain = true) (s : List Bool) :
    step s k = some (true :: s) := by
  cases k <;> first | rfl | cases hk

mutual

theorem run_of_balanced {w : List Keyword} (h : Balanced w) (s : List Bool) :
    run s w = some s := by
  match h with
  | .nil => rfl
  | .conditional hk hb ht ha =>
    obtain ⟨b, hb'⟩ := run_of_branches ht s
    simp [run_append, step_of_opensChain hk, run_of_balanced hb, hb', run_of_balanced ha]

theorem run_of_branches {w : List Keyword} (h : Branches w) (s : List Bool) :
    ∃ b, run (true :: s) w = some (b :: s) := by
  match h with
  | .nil => exact ⟨true, rfl⟩
  | .elseIf hb ht =>
    obtain ⟨b, hb'⟩ := run_of_branches ht s
    exact ⟨b, by simp [run_append, run_of_balanced hb, hb']⟩
  | .otherwise hb => exact ⟨false, by simp [run_of_balanced hb]⟩

end

/-- What closes every conditional of a stack: the rest of its innermost branch, its further
branches if it takes any, its end, and so on outwards. -/
def Closes : List Bool → List Keyword → Prop
  | [], w => Balanced w
  | continued :: s, w => ∃ body tail rest, w = body ++ tail ++ .endIf :: rest ∧ Balanced body ∧
      Branches tail ∧ (continued = false → tail = []) ∧ Closes s rest

theorem Closes.conditional {s : List Bool} {k : Keyword} {body tail rest : List Keyword}
    (hk : k.opensChain = true) (hb : Balanced body) (ht : Branches tail) (h : Closes s rest) :
    Closes s (k :: body ++ tail ++ .endIf :: rest) := by
  cases s with
  | nil => exact Balanced.conditional hk hb ht h
  | cons continued s =>
    obtain ⟨body', tail', rest', rfl, hb', ht', hc, hr⟩ := h
    exact ⟨k :: body ++ tail ++ .endIf :: body', tail', rest', by simp,
      Balanced.conditional hk hb ht hb', ht', hc, hr⟩

/-- A step takes back what it put into the word. -/
theorem closes_of_step {s s' : List Bool} {k : Keyword} {w : List Keyword}
    (h : step s k = some s') (hw : Closes s' w) : Closes s (k :: w) := by
  unfold step at h
  split at h
  · cases h
    obtain ⟨body, tail, rest, rfl, hb, ht, -, hr⟩ := hw
    exact hr.conditional rfl hb ht
  · cases h
    obtain ⟨body, tail, rest, rfl, hb, ht, -, hr⟩ := hw
    exact hr.conditional rfl hb ht
  · cases h
    obtain ⟨body, tail, rest, rfl, hb, ht, -, hr⟩ := hw
    exact hr.conditional rfl hb ht
  · cases h
    obtain ⟨body, tail, rest, rfl, hb, ht, -, hr⟩ := hw
    exact ⟨[], .elseIf :: body ++ tail, rest, by simp, .nil, .elseIf hb ht, by simp, hr⟩
  · cases h
    obtain ⟨body, tail, rest, rfl, hb, ht, hc, hr⟩ := hw
    rw [hc rfl]
    exact ⟨[], .otherwise :: body, rest, by simp, .nil, .otherwise hb, by simp, hr⟩
  · cases h
    exact ⟨[], [], w, by simp, .nil, .nil, by simp, hw⟩
  · cases h

theorem closes_of_run {s : List Bool} {w : List Keyword} (h : run s w = some []) :
    Closes s w := by
  induction w generalizing s with
  | nil =>
    cases h
    exact Balanced.nil
  | cons k w ih =>
    obtain ⟨s', hs, hr⟩ := Option.bind_eq_some_iff.mp h
    exact closes_of_step hs (ih hr)

/-- The machine recognises the language. -/
theorem run_eq_nil_iff {w : List Keyword} : run [] w = some [] ↔ Balanced w :=
  ⟨closes_of_run, fun h => run_of_balanced h []⟩

theorem run_replicate_endIf (s : List Bool) :
    run s (List.replicate s.length .endIf) = some [] := by
  induction s with
  | nil => rfl
  | cons b s ih => simpa [List.replicate_succ] using ih

/-- The machine stops at the first keyword that no word of the language has there. -/
theorem viable_iff {w : List Keyword} : Viable w ↔ ∃ s, run [] w = some s := by
  constructor
  · rintro ⟨x, hx⟩
    have h := run_of_balanced hx []
    rw [run_append] at h
    obtain ⟨s, hs, -⟩ := Option.bind_eq_some_iff.mp h
    exact ⟨s, hs⟩
  · rintro ⟨s, hs⟩
    refine ⟨List.replicate s.length .endIf, run_eq_nil_iff.mp ?_⟩
    rw [run_append, hs]
    exact run_replicate_endIf s

end Presence.Nesting

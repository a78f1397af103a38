import Presence.CommandLine.Run
import Presence.Proofs.Options.Settings
import Presence.Proofs.Text.Trim

/-!
Flags over settings over defaults. Which options a run has depends, for each of them, on its flag
and on the last item with its key, and not on how items of different keys are mixed.
-/
namespace Presence.CommandLine

open Text

/-- The item is no setting: it has no equals sign, or nothing but white space before it. -/
def Malformed (item : String) : Prop :=
  '=' ∉ item.toList ∨ Blank (item.toList.takeWhile (· ≠ '='))

/-- The name and the value on either side of the first equals sign, both trimmed. -/
def itemSetting (item : String) : String × String :=
  (String.ofList (trim (item.toList.takeWhile (· ≠ '='))),
    String.ofList (trim ((item.toList.dropWhile (· ≠ '=')).drop 1)))

variable {item : String} {items : List String}

theorem dropWhile_sign_eq_nil_iff {s : List Char} :
    s.dropWhile (· ≠ '=') = [] ↔ '=' ∉ s := by
  rw [List.dropWhile_eq_nil_iff]
  constructor
  · intro h hsign
    simpa using h '=' hsign
  · intro h c hc
    simpa using ne_of_mem_of_not_mem hc h

theorem settingOfItem_of_malformed (h : Malformed item) :
    settingOfItem item = .error (.malformed item) := by
  unfold settingOfItem
  dsimp only
  rcases h with hsign | hblank
  · rw [dropWhile_sign_eq_nil_iff.mpr hsign]
  · rw [trim_eq_nil_iff.mpr hblank]
    split <;> rfl

theorem settingOfItem_of_not_malformed (h : ¬ Malformed item) :
    settingOfItem item = .ok (itemSetting item) := by
  obtain ⟨hsign, hblank⟩ := not_or.mp h
  obtain ⟨c, value, hvalue⟩ :=
    List.exists_cons_of_ne_nil (mt dropWhile_sign_eq_nil_iff.mp hsign)
  have hname : (trim (item.toList.takeWhile (· ≠ '='))).isEmpty = false := by
    rw [List.isEmpty_eq_false_iff]
    exact mt trim_eq_nil_iff.mp hblank
  simp only [settingOfItem, itemSetting, hvalue, hname, Bool.false_eq_true, if_false,
    List.drop_succ_cons, List.drop_zero]

/-- One malformed item is enough, wherever it stands. -/
theorem settingsOfItems_of_malformed (hmem : item ∈ items) (h : Malformed item) :
    ∃ e, settingsOfItems (items.map .given) = .error (.setting e) := by
  induction items with
  | nil => cases hmem
  | cons first items ih =>
    rw [List.map_cons, settingsOfItems]
    by_cases hfirst : Malformed first
    · rw [settingOfItem_of_malformed hfirst]
      exact ⟨_, rfl⟩
    · have hrest : item ∈ items := by
        rcases List.mem_cons.mp hmem with rfl | hrest
        · exact absurd h hfirst
        · exact hrest
      obtain ⟨e, he⟩ := ih hrest
      rw [settingOfItem_of_not_malformed hfirst, he]
      exact ⟨e, rfl⟩

theorem settingsOfItems_of_not_malformed (h : ∀ item ∈ items, ¬ Malformed item) :
    settingsOfItems (items.map .given) = .ok (items.map itemSetting) := by
  induction items with
  | nil => rfl
  | cons item items ih =>
    obtain ⟨hitem, hitems⟩ := List.forall_mem_cons.mp h
    rw [List.map_cons, settingsOfItems, settingOfItem_of_not_malformed hitem, ih hitems]
    rfl

/-- The value that the last item of an option's key gives it. -/
def lastItem? (items : List String) (key : SettingKey) : Option String :=
  lastValue? (items.map itemSetting) key.text

/-- Some item is malformed, or the last value of some name is not accepted for it. -/
def Refused (items : List String) : Prop :=
  (∃ item ∈ items, Malformed item) ∨
    ∃ name value, lastValue? (items.map itemSetting) name = some value ∧
      ¬ AcceptedSetting name value

/-- The choice of a flag, else that of an item, else the default. -/
def layer {α : Type} (flag item : Option α) (default : α) : α :=
  (flag.or item).getD default

def switched (given value : Bool) : Option Bool :=
  if given then some value else none

theorem layer_switched_true (given : Bool) (item : Option Bool) (default : Bool) :
    layer (switched given true) item default = (given || item.getD default) := by
  cases given <;> rfl

theorem layer_switched_false (given : Bool) (item : Option Bool) (default : Bool) :
    layer (switched given false) item default = (!given && item.getD default) := by
  cases given <;> rfl

/-- Each option by itself, from its flag, the last item of its key and its default. -/
def Arguments.layered (a : Arguments) (handling : Option InvalidHandling)
    (items : List String) : Options where
  linux := layer (switched a.linux true) ((lastItem? items .linux).bind boolOfText?) false
  fuzzy := layer (switched a.fuzzy true) ((lastItem? items .fuzzy).bind boolOfText?) false
  invalid := layer handling ((lastItem? items .invalid).bind InvalidHandling.ofText?) .fail
  pseudoBlock :=
    layer (switched a.noPseudoBlock false) ((lastItem? items .pseudoBlock).bind boolOfText?) true

def Arguments.withItems (a : Arguments) (items : List String) : Arguments :=
  { a with settings := items.map .given }

variable {a : Arguments} {handling : Option InvalidHandling}

theorem options_of_refused (h : Refused items) :
    ∃ e, (a.withItems items).options = .error (.setting e) := by
  unfold Arguments.options Arguments.withItems
  dsimp only
  by_cases hformed : ∀ item ∈ items, ¬ Malformed item
  · have hwrong := h.resolve_left fun ⟨item, hmem, hitem⟩ => hformed item hmem hitem
    obtain ⟨name, value, hlast, hvalue⟩ := hwrong
    obtain ⟨e, he⟩ := Options.ofSettings_of_not_accepted (o := {}) hlast hvalue
    rw [settingsOfItems_of_not_malformed hformed]
    exact ⟨e, by simp [bind, Except.bind, he, Except.mapError]⟩
  · push Not at hformed
    obtain ⟨item, hmem, hitem⟩ := hformed
    obtain ⟨e, he⟩ := settingsOfItems_of_malformed hmem hitem
    rw [he]
    exact ⟨e, rfl⟩

theorem options_of_not_refused (hhandling : a.invalid = handling.map .given)
    (h : ¬ Refused items) : (a.withItems items).options = .ok (a.layered handling items) := by
  have hformed : ∀ item ∈ items, ¬ Malformed item :=
    fun item hmem hitem => h (.inl ⟨item, hmem, hitem⟩)
  have haccepted : ∀ name value, lastValue? (items.map itemSetting) name = some value →
      AcceptedSetting name value := by
    intro name value hlast
    by_contra hvalue
    exact h (.inr ⟨name, value, hlast, hvalue⟩)
  unfold Arguments.options Arguments.withItems
  dsimp only
  rw [hhandling, settingsOfItems_of_not_malformed hformed]
  simp only [bind, Except.bind, Options.ofSettings_of_accepted haccepted, Except.mapError]
  cases handling <;>
    simp only [Arguments.layered, layer_switched_true, layer_switched_false] <;> rfl

/-- Only items of different names change places: those of one name stay in their order. -/
def Reordered (items items' : List String) : Prop :=
  ∀ name, items'.filter (fun item => (itemSetting item).1 = name) =
    items.filter fun item => (itemSetting item).1 = name

namespace Reordered

variable {items' : List String}

theorem swap {i j : String} (h : (itemSetting i).1 ≠ (itemSetting j).1)
    (before after : List String) :
    Reordered (before ++ i :: j :: after) (before ++ j :: i :: after) := by
  intro name
  rw [List.filter_append, List.filter_append, List.append_cancel_left_eq]
  by_cases hi : (itemSetting i).1 = name
  · have hj : (itemSetting j).1 ≠ name := hi ▸ h.symm
    simp [hi, hj]
  · simp [List.filter_cons, hi]

theorem mem_iff (h : Reordered items items') : item ∈ items' ↔ item ∈ items := by
  have hname := congrArg (item ∈ ·) (h (itemSetting item).1)
  simpa using hname

theorem lastValue?_eq (h : Reordered items items') (name : String) :
    lastValue? (items'.map itemSetting) name = lastValue? (items.map itemSetting) name := by
  simp only [lastValue?, List.filter_map, Function.comp_def, h name]

theorem refused_iff (h : Reordered items items') : Refused items' ↔ Refused items := by
  simp only [Refused, h.mem_iff, h.lastValue?_eq]

theorem layered_eq (h : Reordered items items') (a : Arguments)
    (handling : Option InvalidHandling) : a.layered handling items' = a.layered handling items := by
  simp only [Arguments.layered, lastItem?, h.lastValue?_eq]

end Reordered

/-- Options are refused for what the last items say, or else have for each option the choice of its
flag, of the last item of its key or its default; a new order of the items makes no difference. -/
theorem options_layered (hhandling : a.invalid = handling.map .given) (items : List String) :
    ((∃ e, (a.withItems items).options = .error (.setting e)) ↔ Refused items) ∧
    (¬ Refused items → (a.withItems items).options = .ok (a.layered handling items)) ∧
    ∀ items', Reordered items items' →
      (a.withItems items').options.toOption = (a.withItems items).options.toOption := by
  refine ⟨⟨?_, options_of_refused⟩, options_of_not_refused hhandling, fun items' hitems => ?_⟩
  · rintro ⟨e, he⟩
    by_contra hrefused
    rw [options_of_not_refused hhandling hrefused] at he
    cases he
  · by_cases hrefused : Refused items
    · obtain ⟨e, he⟩ := options_of_refused (a := a) hrefused
      obtain ⟨e', he'⟩ := options_of_refused (a := a) (hitems.refused_iff.mpr hrefused)
      rw [he, he']
      rfl
    · rw [options_of_not_refused hhandling hrefused,
        options_of_not_refused hhandling (mt hitems.refused_iff.mp hrefused), hitems.layered_eq]

/-- A wrong value counts until a later item of its key takes its place. -/
theorem options_layered_superseded :
    let flags : Arguments := { noPseudoBlock := true, invalid := some (.given .errorVariable) }
    let wrong := "code.extractor.fuzzy_parsing=maybe"
    let right := [" code.extractor.fuzzy_parsing = Yes", "code.extractor.invalid_condition=true"]
    let other := "code.extractor.add_pseudo_block=on"
    Refused [wrong, other] ∧ ¬ Refused (wrong :: other :: right) ∧
      Reordered (wrong :: other :: right) (other :: wrong :: right) ∧
      (flags.withItems (other :: wrong :: right)).options.toOption =
        some { fuzzy := true, invalid := .errorVariable, pseudoBlock := false } := by
  intro flags wrong right other
  have hinvalid : flags.invalid = (some .errorVariable).map .given := rfl
  have hlayered := options_layered hinvalid
  have hrefused : Refused [wrong, other] := by
    have hnone : (flags.withItems [wrong, other]).options.toOption = none := by decide +kernel
    by_contra h
    rw [(hlayered _).2.1 h] at hnone
    cases hnone
  obtain ⟨hfails, -, hreordered⟩ := hlayered (wrong :: other :: right)
  have hoptions : (flags.withItems (wrong :: other :: right)).options.toOption =
      some { fuzzy := true, invalid := .errorVariable, pseudoBlock := false } := by
    decide +kernel
  have haccepted : ¬ Refused (wrong :: other :: right) := by
    intro h
    obtain ⟨e, he⟩ := hfails.mpr h
    rw [he] at hoptions
    cases hoptions
  have hswap : Reordered (wrong :: other :: right) (other :: wrong :: right) :=
    .swap (by decide +kernel) [] right
  exact ⟨hrefused, haccepted, hswap, (hreordered _ hswap).trans hoptions⟩

end Presence.CommandLine

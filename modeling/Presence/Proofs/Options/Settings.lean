import Mathlib.Data.List.Induction
import Presence.Options.Settings
import Presence.Proofs.Outcome

/-!
Settings of repeated names. The last value of a name is the one that counts, whether it is accepted
or not.
-/
namespace Presence

/-- The value that the last setting of a name gives it. -/
def lastValue? (settings : List (String × String)) (name : String) : Option String :=
  (settings.filter (·.1 = name)).getLast?.map (·.2)

variable {settings : List (String × String)} {name value : String}

theorem lastValue?_concat (settings : List (String × String)) (s : String × String)
    (name : String) : lastValue? (settings ++ [s]) name =
      if s.1 = name then some s.2 else lastValue? settings name := by
  unfold lastValue?
  split
  · next hs => simp [hs]
  · next hs => simp [hs]

theorem lastValue?_cons (s : String × String) (settings : List (String × String))
    (name : String) : lastValue? (s :: settings) name =
      (lastValue? settings name).or (if s.1 = name then some s.2 else none) := by
  unfold lastValue?
  rw [List.filter_cons]
  by_cases hs : s.1 = name
  · rw [if_pos (by simpa using hs), if_pos hs, List.getLast?_cons]
    cases (settings.filter (·.1 = name)).getLast? <;> rfl
  · rw [if_neg (by simpa using hs), if_neg hs, Option.or_none]

theorem mem_of_lastValue? (h : lastValue? settings name = some value) :
    (name, value) ∈ settings := by
  obtain ⟨s, hs, rfl⟩ := Option.map_eq_some_iff.mp h
  obtain ⟨hmem, hname⟩ := List.mem_filter.mp (List.mem_of_getLast? hs)
  obtain rfl : s.1 = name := by simpa using hname
  exact hmem

theorem lastValue?_eq_none_iff :
    lastValue? settings name = none ↔ ∀ s ∈ settings, s.1 ≠ name := by
  simp [lastValue?]

/-- What is put for a name takes the place of all that it had. -/
theorem mem_putSetting {s : String × String} :
    s ∈ putSetting settings name value ↔ s = (name, value) ∨ s ∈ settings ∧ s.1 ≠ name := by
  unfold putSetting
  split
  · next hany =>
    obtain ⟨t, ht, hname⟩ : ∃ t ∈ settings, t.1 = name := by simpa using hany
    rw [List.mem_map]
    constructor
    · rintro ⟨u, hu, rfl⟩
      by_cases huname : u.1 = name
      · simp [huname]
      · simp [huname, hu]
    · rintro (rfl | ⟨hs, hne⟩)
      · exact ⟨t, ht, if_pos hname⟩
      · exact ⟨s, hs, if_neg hne⟩
  · next hany =>
    have hother : ∀ t ∈ settings, t.1 ≠ name := fun t ht hname =>
      hany (List.any_eq_true.mpr ⟨t, ht, by simpa using hname⟩)
    rw [List.mem_append, List.mem_singleton, or_comm]
    exact or_congr_right ⟨fun hs => ⟨hs, hother s hs⟩, And.left⟩

theorem lastSettings_concat (settings : List (String × String)) (s : String × String) :
    lastSettings (settings ++ [s]) = putSetting (lastSettings settings) s.1 s.2 := by
  rw [lastSettings, List.foldl_append]
  rfl

/-- A name is kept with its last value and no other. -/
theorem mem_lastSettings_iff :
    (name, value) ∈ lastSettings settings ↔ lastValue? settings name = some value := by
  induction settings using List.reverseRecOn with
  | nil => simp [lastSettings, lastValue?]
  | append_singleton settings s ih =>
    obtain ⟨other, put⟩ := s
    rw [lastSettings_concat, mem_putSetting, lastValue?_concat, ih]
    by_cases hname : other = name
    · simp [hname, eq_comm]
    · have hother : name ≠ other := Ne.symm hname
      simp [hname, hother]

theorem lastValue?_lastSettings (settings : List (String × String)) (name : String) :
    lastValue? (lastSettings settings) name = lastValue? settings name := by
  cases h : lastValue? (lastSettings settings) name with
  | some value => exact (mem_lastSettings_iff.mp (mem_of_lastValue? h)).symm
  | none =>
    cases hvalue : lastValue? settings name with
    | none => rfl
    | some value =>
      have hmem := mem_lastSettings_iff.mpr hvalue
      exact absurd rfl (lastValue?_eq_none_iff.mp h _ hmem)

namespace SettingKey

theorem ofText?_eq_some_iff {key : SettingKey} : ofText? name = some key ↔ key.text = name := by
  constructor
  · intro h
    simpa using List.find?_some h
  · rintro rfl
    cases key <;> decide

theorem text_injective : Function.Injective text := by
  intro key other h
  have hkey := ofText?_eq_some_iff.mpr h
  rw [ofText?_eq_some_iff.mpr rfl] at hkey
  exact (Option.some.inj hkey).symm

/-- The words that are accepted for an option. -/
def Accepts : SettingKey → String → Prop
  | invalid, value => ∃ h : InvalidHandling, h.word = comparedWord value
  | _, value => comparedWord value ∈ trueWords ∨ comparedWord value ∈ falseWords

end SettingKey

/-- The setting is one of a known key, with a word that is accepted for it. -/
def AcceptedSetting (name value : String) : Prop :=
  ∃ key : SettingKey, key.text = name ∧ key.Accepts value

def InvalidHandling.ofText? (value : String) : Option InvalidHandling :=
  (ofText value).toOption

theorem isSome_boolOfText?_iff : (boolOfText? value).isSome ↔
    comparedWord value ∈ trueWords ∨ comparedWord value ∈ falseWords := by
  unfold boolOfText?
  split
  · next htrue => simp [htrue]
  · next htrue => simp [htrue]

theorem InvalidHandling.isSome_ofText?_iff : (ofText? value).isSome ↔
    ∃ h : InvalidHandling, h.word = comparedWord value := by
  unfold ofText? ofText
  constructor
  · intro hsome
    split at hsome
    · next h hfind => exact ⟨h, by simpa using List.find?_some hfind⟩
    · cases hsome
  · rintro ⟨h, hword⟩
    have hfind : (all.find? (·.word = comparedWord value)).isSome :=
      List.find?_isSome.mpr ⟨h, h.mem_all, by simpa using hword⟩
    split
    · rfl
    · next hnone =>
      rw [hnone] at hfind
      cases hfind

/-- A value that is read lies over another as what is read of it lies over what is read of the
other. -/
theorem getD_bind_or {α β : Type} {f : α → Option β} {v w : Option α}
    (h : ∀ a, v = some a → (f a).isSome) (b : β) :
    (v.bind f).getD ((w.bind f).getD b) = ((v.or w).bind f).getD b := by
  cases v with
  | none => rfl
  | some a =>
    obtain ⟨c, hc⟩ := Option.isSome_iff_exists.mp (h a rfl)
    simp [hc]

namespace Options

/-- Options that are those of `base` where no value changes them. -/
def layered (base : Options) (value? : SettingKey → Option String) : Options where
  linux := ((value? .linux).bind boolOfText?).getD base.linux
  fuzzy := ((value? .fuzzy).bind boolOfText?).getD base.fuzzy
  invalid := ((value? .invalid).bind InvalidHandling.ofText?).getD base.invalid
  pseudoBlock := ((value? .pseudoBlock).bind boolOfText?).getD base.pseudoBlock

variable {o : Options} {key : SettingKey}

/-- An accepted value changes its own option and no other. -/
theorem set_of_accepts (h : key.Accepts value) :
    o.set key value = .ok (o.layered fun k => if k = key then some value else none) := by
  cases key with
  | invalid =>
    have hsome : (InvalidHandling.ofText? value).isSome := InvalidHandling.isSome_ofText?_iff.mpr h
    obtain ⟨i, hi⟩ := Option.isSome_iff_exists.mp hsome
    have hok := toOption_eq_some_iff.mp hi
    simp [set, layered, hok, hi, Except.map]
  | linux | fuzzy | pseudoBlock =>
    have hsome : (boolOfText? value).isSome := isSome_boolOfText?_iff.mpr h
    obtain ⟨b, hb⟩ := Option.isSome_iff_exists.mp hsome
    simp [set, boolSetting, layered, hb, Except.map]

theorem set_of_not_accepts (h : ¬ key.Accepts value) : ∃ e, o.set key value = .error e := by
  cases hset : o.set key value with
  | error e => exact ⟨e, rfl⟩
  | ok p =>
    exfalso
    apply h
    cases key with
    | invalid =>
      rw [set] at hset
      obtain ⟨i, hi, -⟩ := map_eq_ok_iff.mp hset
      exact InvalidHandling.isSome_ofText?_iff.mp
        (Option.isSome_of_eq_some (toOption_eq_some_iff.mpr hi))
    | linux | fuzzy | pseudoBlock =>
      rw [set] at hset
      obtain ⟨b, hb, -⟩ := map_eq_ok_iff.mp hset
      apply isSome_boolOfText?_iff.mp
      unfold boolSetting at hb
      split at hb
      · next hsome => exact Option.isSome_of_eq_some hsome
      · cases hb

/-- Values lie over values as they lie over options, if those on top are accepted. -/
theorem layered_layered {value? under? : SettingKey → Option String}
    (h : ∀ key value, value? key = some value → key.Accepts value) :
    (o.layered under?).layered value? = o.layered fun key => (value? key).or (under? key) := by
  have hbool (key : SettingKey) (hkey : key ≠ .invalid) :
      ∀ value, value? key = some value → (boolOfText? value).isSome := by
    intro value hvalue
    have haccepts := h key value hvalue
    cases key with
    | invalid => exact absurd rfl hkey
    | linux | fuzzy | pseudoBlock => exact isSome_boolOfText?_iff.mpr haccepts
  have hinvalid : ∀ value, value? .invalid = some value →
      (InvalidHandling.ofText? value).isSome :=
    fun value hvalue => InvalidHandling.isSome_ofText?_iff.mpr (h .invalid value hvalue)
  simp only [layered, Options.mk.injEq]
  exact ⟨getD_bind_or (hbool .linux (by decide)) _, getD_bind_or (hbool .fuzzy (by decide)) _,
    getD_bind_or hinvalid _, getD_bind_or (hbool .pseudoBlock (by decide)) _⟩

theorem setAll_of_accepted (h : ∀ s ∈ settings, AcceptedSetting s.1 s.2) :
    o.setAll settings = .ok (o.layered fun key => lastValue? settings key.text) := by
  induction settings generalizing o with
  | nil => rfl
  | cons s settings ih =>
    obtain ⟨⟨key, hname, haccepts⟩, hrest⟩ := List.forall_mem_cons.mp h
    -- The settings after this one lie over it, and only accepted ones do so field by field.
    have hover : ∀ k value, lastValue? settings (SettingKey.text k) = some value →
        k.Accepts value := by
      intro k value hk
      obtain ⟨k', hname, haccepts⟩ := hrest _ (mem_of_lastValue? hk)
      rwa [← SettingKey.text_injective hname]
    have hvalue (k : SettingKey) : lastValue? (s :: settings) k.text =
        (lastValue? settings k.text).or (if k = key then some s.2 else none) := by
      rw [lastValue?_cons, ← hname]
      simp only [SettingKey.text_injective.eq_iff, eq_comm]
    simp only [setAll, SettingKey.ofText?_eq_some_iff.mpr hname, set_of_accepts haccepts,
      ih hrest, layered_layered hover, hvalue]

theorem setAll_of_not_accepted (hs : (name, value) ∈ settings)
    (h : ¬ AcceptedSetting name value) : ∃ e, o.setAll settings = .error e := by
  induction settings generalizing o with
  | nil => cases hs
  | cons s settings ih =>
    rw [setAll]
    split
    · exact ⟨_, rfl⟩
    · next key hkey =>
      split
      · exact ⟨_, rfl⟩
      · next p hset =>
        rcases List.mem_cons.mp hs with rfl | hmem
        · obtain ⟨e, he⟩ := set_of_not_accepts (o := o)
            fun haccepts => h ⟨key, SettingKey.ofText?_eq_some_iff.mp hkey, haccepts⟩
          rw [he] at hset
          cases hset
        · exact ih hmem

/-- The last setting of each name counts, and no other. -/
theorem ofSettings_of_accepted
    (h : ∀ name value, lastValue? settings name = some value → AcceptedSetting name value) :
    o.ofSettings settings = .ok (o.layered fun key => lastValue? settings key.text) := by
  have hmem : ∀ s ∈ lastSettings settings, AcceptedSetting s.1 s.2 :=
    fun s hs => h s.1 s.2 (mem_lastSettings_iff.mp hs)
  simp only [ofSettings, setAll_of_accepted hmem, lastValue?_lastSettings]

theorem ofSettings_of_not_accepted (hlast : lastValue? settings name = some value)
    (h : ¬ AcceptedSetting name value) : ∃ e, o.ofSettings settings = .error e :=
  setAll_of_not_accepted (mem_lastSettings_iff.mpr hlast) h

end Options

end Presence

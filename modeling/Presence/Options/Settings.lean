import Presence.Options
import Presence.Text.Blank

/-! Options from textual settings. -/
namespace Presence

open Text

inductive SettingKey
  | linux
  | fuzzy
  | invalid
  | pseudoBlock
  deriving DecidableEq, Repr

namespace SettingKey

def text : SettingKey → String
  | linux => "code.extractor.handle_linux_macros"
  | fuzzy => "code.extractor.fuzzy_parsing"
  | invalid => "code.extractor.invalid_condition"
  | pseudoBlock => "code.extractor.add_pseudo_block"

def all : List SettingKey :=
  [linux, fuzzy, invalid, pseudoBlock]

def ofText? (s : String) : Option SettingKey :=
  all.find? (·.text = s)

end SettingKey

inductive SettingError
  | malformed (item : String)
  | unknownKey (key : String)
  | notBoolean (key value : String)
  | unknownHandling (value : String)
  deriving DecidableEq, Repr

def SettingError.message : SettingError → String
  | .malformed item => "Invalid setting (expected KEY=VALUE): " ++ item
  | .unknownKey key => "Unknown setting: " ++ key
  | .notBoolean key value => "Invalid boolean value for " ++ key ++ ": " ++ value
  | .unknownHandling value => "Unsupported invalid condition handling: " ++ value

/-- A value as it is compared: trimmed and in lower case. The words that count are in ASCII, and
no character beyond ASCII has one of their letters as its lower case. -/
def comparedWord (value : String) : String :=
  String.ofList ((trim value.toList).map Char.toLower)

def trueWords : List String := ["true", "1", "yes", "on"]

def falseWords : List String := ["false", "0", "no", "off"]

def boolOfText? (value : String) : Option Bool :=
  if comparedWord value ∈ trueWords then some true
  else if comparedWord value ∈ falseWords then some false
  else none

def InvalidHandling.ofText (value : String) : Except SettingError InvalidHandling :=
  match all.find? (·.word = comparedWord value) with
  | some h => .ok h
  | none => .error (.unknownHandling value)

namespace Options

def boolSetting (key : SettingKey) (value : String) : Except SettingError Bool :=
  match boolOfText? value with
  | some b => .ok b
  | none => .error (.notBoolean key.text value)

def set (o : Options) (key : SettingKey) (value : String) : Except SettingError Options :=
  match key with
  | .linux => (boolSetting key value).map fun b => { o with linux := b }
  | .fuzzy => (boolSetting key value).map fun b => { o with fuzzy := b }
  | .invalid => (InvalidHandling.ofText value).map fun h => { o with invalid := h }
  | .pseudoBlock => (boolSetting key value).map fun b => { o with pseudoBlock := b }

/-- Applies settings in order up to the first that fails. -/
def setAll (o : Options) : List (String × String) → Except SettingError Options
  | [] => .ok o
  | (name, value) :: rest =>
    match SettingKey.ofText? name with
    | none => .error (.unknownKey name)
    | some key =>
      match o.set key value with
      | .error e => .error e
      | .ok o => o.setAll rest

end Options

/-- Puts a setting into a list without repeated names: a name keeps its place and takes the new
value. -/
def putSetting (settings : List (String × String)) (name value : String) :
    List (String × String) :=
  if settings.any (·.1 = name) then
    settings.map fun s => if s.1 = name then (name, value) else s
  else settings ++ [(name, value)]

/-- Every name once, where it came first, with its last value. -/
def lastSettings (settings : List (String × String)) : List (String × String) :=
  settings.foldl (fun acc s => putSetting acc s.1 s.2) []

/-- Splits an item at its first equals sign; the name must not be blank. -/
def settingOfItem (item : String) : Except SettingError (String × String) :=
  let chars := item.toList
  let name := trim (chars.takeWhile (· ≠ '='))
  match chars.dropWhile (· ≠ '=') with
  | [] => .error (.malformed item)
  | _ :: value =>
    if name.isEmpty then .error (.malformed item)
    else .ok (String.ofList name, String.ofList (trim value))

def Options.ofSettings (base : Options) (settings : List (String × String)) :
    Except SettingError Options :=
  base.setAll (lastSettings settings)

end Presence

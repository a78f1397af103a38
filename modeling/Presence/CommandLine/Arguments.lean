import Presence.Options
import Presence.Text.Numeral
import Presence.Text.Quoted

/-! The arguments of the command line. -/
namespace Presence.CommandLine

open Text

inductive Switch
  | help
  | linux
  | fuzzy
  | noPseudoBlock
  | stats
  | verbose
  deriving DecidableEq, Repr

inductive Parameter
  | invalid
  | setting
  | sourceTree
  | format
  deriving DecidableEq, Repr

inductive Flag
  | switch (s : Switch)
  | parameter (p : Parameter)
  deriving DecidableEq, Repr

namespace Flag

def longNames : List (String × Flag) := [
  ("--help", switch .help),
  ("--handle-linux-macros", switch .linux),
  ("--fuzzy-parsing", switch .fuzzy),
  ("--invalid-condition", parameter .invalid),
  ("--no-pseudo-block", switch .noPseudoBlock),
  ("--set", parameter .setting),
  ("--source-tree", parameter .sourceTree),
  ("--format", parameter .format),
  ("--stats", switch .stats),
  ("--verbose", switch .verbose)]

def shortHelp : String := "-h"

/-- A flag in error messages. -/
def display (f : Flag) : String :=
  let long := match longNames.find? (·.2 = f) with
    | some n => n.1
    | none => ""
  if f = switch .help then shortHelp ++ "/" ++ long else long

end Flag

inductive Format
  | human
  | json
  deriving DecidableEq, Repr

def Format.word : Format → String
  | human => "human"
  | json => "json"

def Format.all : List Format :=
  [human, json]

inductive UsageError
  | ambiguous (given : String) (candidates : List String)
  | valueMissing (f : Flag)
  | valueIgnored (f : Flag) (value : String)
  | invalidChoice (f : Flag) (value : String) (choices : List String)
  | inputsMissing
  | unrecognized (arguments : List String)
  deriving DecidableEq, Repr

def UsageError.message : UsageError → String
  | .ambiguous given candidates =>
    "ambiguous option: " ++ given ++ " could match " ++ ", ".intercalate candidates
  | .valueMissing f => "argument " ++ f.display ++ ": expected one argument"
  | .valueIgnored f value =>
    "argument " ++ f.display ++ ": ignored explicit argument " ++ quoted value
  | .invalidChoice f value choices =>
    "argument " ++ f.display ++ ": invalid choice: " ++ quoted value ++ " (choose from "
      ++ ", ".intercalate (choices.map quoted) ++ ")"
  | .inputsMissing => "the following arguments are required: inputs"
  | .unrecognized arguments => "unrecognized arguments: " ++ " ".intercalate arguments

/-- What a single argument is before its neighbours are looked at. -/
inductive Word
  | input (text : String)
  /-- Two dashes, after which every argument is an input. -/
  | separator
  | flag (f : Flag) (value : Option String)
  /-- Letters joined to the short name for help. -/
  | helpCluster (letters : String)
  | unknown (text : String)
  deriving DecidableEq, Repr

/-- A minus sign and a decimal number without an exponent; one line feed may follow. -/
def looksNegative (s : List Char) : Bool :=
  match s with
  | '-' :: s =>
    let s := if s.getLast? = some '\n' then s.dropLast else s
    match s.dropWhile isDecimal with
    | [] => s ≠ []
    | '.' :: fraction => fraction ≠ [] && fraction.all isDecimal
    | _ => false
  | _ => false

/-- An argument that names no flag. -/
def Word.plain (argument : String) : Word :=
  if looksNegative argument.toList || argument.toList.contains ' ' then .input argument
  else .unknown argument

/-- The name before the first equals sign, and the value after it if there is one. -/
def splitValue (s : List Char) : List Char × Option (List Char) :=
  match s.dropWhile (· ≠ '=') with
  | [] => (s, none)
  | _ :: value => (s.takeWhile (· ≠ '='), some value)

/-- A flag by its full long name or by the start of just one. -/
def Word.long (argument : String) : Except UsageError Word :=
  let (name, value) := splitValue argument.toList
  let value := value.map String.ofList
  match Flag.longNames.find? (·.1 = argument), Flag.longNames.find? (·.1.toList = name) with
  | some n, _ => .ok (.flag n.2 none)
  | none, some n => .ok (.flag n.2 value)
  | none, none =>
    match Flag.longNames.filter fun n => name.isPrefixOf n.1.toList with
    | [] => .ok (plain argument)
    | [n] => .ok (.flag n.2 value)
    | ns => .error (.ambiguous argument (ns.map (·.1)))

def Word.ofString (argument : String) : Except UsageError Word :=
  match argument.toList with
  | ['-', '-'] => .ok .separator
  | '-' :: '-' :: _ => Word.long argument
  | ['-', 'h'] => .ok (.flag (.switch .help) none)
  | '-' :: 'h' :: '=' :: letters => .ok (.helpCluster (String.ofList letters))
  | '-' :: 'h' :: letters => .ok (.helpCluster (String.ofList letters))
  | '-' :: _ :: _ => .ok (plain argument)
  | _ => .ok (.input argument)

/-- Ambiguous names fail here, before any flag has an effect. -/
def Word.ofStrings : List String → Except UsageError (List Word)
  | [] => .ok []
  | argument :: rest => do
    let w ← ofString argument
    if w = .separator then return w :: rest.map .input
    else
      let ws ← ofStrings rest
      return w :: ws

/-- A value as it reaches its parameter. Two dashes count as a separator even after an equals
sign, and nothing is left of such a value. -/
inductive Value (α : Type)
  | given (a : α)
  | lost
  deriving DecidableEq, Repr

def Value.ofString (s : String) : Value String :=
  if s = "--" then .lost else .given s

structure Arguments where
  inputs : List String := []
  linux : Bool := false
  fuzzy : Bool := false
  invalid : Option (Value InvalidHandling) := none
  noPseudoBlock : Bool := false
  settings : List (Value String) := []
  sourceTree : Option (Value String) := none
  format : Format := .human
  stats : Bool := false
  verbose : Bool := false
  deriving DecidableEq, Repr

/-- The inputs are one run of arguments without a flag in it. -/
inductive InputRun
  | ahead
  | here
  | over
  deriving DecidableEq, Repr

structure Parsing where
  arguments : Arguments := {}
  run : InputRun := .ahead
  extras : List String := []
  deriving DecidableEq, Repr

namespace Parsing

def addInput (p : Parsing) (text : String) : Parsing :=
  if p.run = .over then { p with extras := p.extras ++ [text] }
  else
    { p with run := .here
             arguments := { p.arguments with inputs := p.arguments.inputs ++ [text] } }

def endRun (p : Parsing) : Parsing :=
  if p.run = .here then { p with run := .over } else p

def addExtra (p : Parsing) (text : String) : Parsing :=
  { p with extras := p.extras ++ [text] }

end Parsing

def Arguments.switch (a : Arguments) : Switch → Arguments
  | .help => a
  | .linux => { a with linux := true }
  | .fuzzy => { a with fuzzy := true }
  | .noPseudoBlock => { a with noPseudoBlock := true }
  | .stats => { a with stats := true }
  | .verbose => { a with verbose := true }

def choose {α : Type} (p : Parameter) (choices : List α) (word : α → String) (value : String) :
    Except UsageError α :=
  match choices.find? (word · = value) with
  | some a => .ok a
  | none => .error (.invalidChoice (.parameter p) value (choices.map word))

/-- A later value replaces an earlier one, except that settings add up. A lost format is as good as
any that is not JSON. -/
def Arguments.assign (a : Arguments) (p : Parameter) (value : String) :
    Except UsageError Arguments :=
  match p, Value.ofString value with
  | .setting, v => .ok { a with settings := a.settings ++ [v] }
  | .sourceTree, v => .ok { a with sourceTree := some v }
  | .invalid, .lost => .ok { a with invalid := some .lost }
  | .invalid, .given word =>
    (choose p InvalidHandling.all (·.word) word).map fun h => { a with invalid := some (.given h) }
  | .format, .lost => .ok { a with format := .human }
  | .format, .given word =>
    (choose p Format.all (·.word) word).map fun f => { a with format := f }

inductive Request
  | help
  | run (a : Arguments)
  deriving DecidableEq, Repr

/-- All words are read: inputs must be there, and nothing may be left over. -/
def Parsing.finish (p : Parsing) : Except UsageError Request :=
  if p.run = .ahead then .error .inputsMissing
  else if p.extras ≠ [] then .error (.unrecognized p.extras)
  else .ok (.run p.arguments)

/-- Goes through the words. A call for help takes effect where it stands. -/
def interpret (p : Parsing) : List Word → Except UsageError Request
  | [] => p.finish
  | .input text :: ws => interpret (p.addInput text) ws
  | .separator :: ws =>
    if p.run = .over ∨ (p.run = .ahead ∧ ws = []) then interpret (p.addExtra "--") ws
    else interpret p ws
  | .unknown text :: ws => interpret (p.endRun.addExtra text) ws
  | .helpCluster letters :: _ =>
    match letters.toList.dropWhile (· = 'h') with
    | [] => if letters.isEmpty then .error (.valueIgnored (.switch .help) "") else .ok .help
    | rest => .error (.valueIgnored (.switch .help) (String.ofList rest))
  | .flag (.switch s) (some value) :: _ => .error (.valueIgnored (.switch s) value)
  | .flag (.switch .help) none :: _ => .ok .help
  | .flag (.switch s) none :: ws =>
    interpret { p.endRun with arguments := p.arguments.switch s } ws
  | .flag (.parameter q) (some value) :: ws => do
    let a ← p.arguments.assign q value
    interpret { p.endRun with arguments := a } ws
  | .flag (.parameter q) none :: .input value :: ws => do
    let a ← p.arguments.assign q value
    interpret { p.endRun with arguments := a } ws
  | .flag (.parameter q) none :: _ => .error (.valueMissing (.parameter q))

def Request.ofStrings (arguments : List String) : Except UsageError Request := do
  let words ← Word.ofStrings arguments
  interpret {} words

end Presence.CommandLine

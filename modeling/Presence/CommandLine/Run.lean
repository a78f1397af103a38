import Presence.Block.Report
import Presence.CommandLine.Arguments
import Presence.CommandLine.Help
import Presence.Extraction
import Presence.Options.Settings
import Presence.Statistics

/-! A run of the command line. -/
namespace Presence.CommandLine

open Text

inductive OutputLine
  | out (text : String)
  | err (text : String)
  deriving DecidableEq, Repr

structure Outcome where
  code : Nat
  lines : List OutputLine
  deriving DecidableEq, Repr

namespace Outcome

def unlines (ls : List String) : String :=
  String.join (ls.map (· ++ "\n"))

def stdout (o : Outcome) : String :=
  unlines (o.lines.filterMap fun | .out t => some t | .err _ => none)

def stderr (o : Outcome) : String :=
  unlines (o.lines.filterMap fun | .out _ => none | .err t => some t)

end Outcome

/-- The parameters that cannot do without their value. -/
inductive LostValue
  | setting
  | invalid
  | sourceTree
  deriving DecidableEq, Repr

def LostValue.message : LostValue → String
  | setting => "'list' object has no attribute 'partition'"
  | invalid => "'list' object has no attribute 'strip'"
  | sourceTree => "expected str, bytes or os.PathLike object, not list"

inductive OptionsError
  | setting (e : SettingError)
  | lost (v : LostValue)
  deriving DecidableEq, Repr

/-- Splits items in order up to the first that is none. -/
def settingsOfItems : List (Value String) → Except OptionsError (List (String × String))
  | [] => .ok []
  | .lost :: _ => .error (.lost .setting)
  | .given item :: items => do
    let s ← (settingOfItem item).mapError .setting
    let rest ← settingsOfItems items
    return s :: rest

/-- Settings first, then the flags on top of them. -/
def Arguments.options (a : Arguments) : Except OptionsError Options := do
  let settings ← settingsOfItems a.settings
  let o ← (Options.ofSettings {} settings).mapError .setting
  let invalid ← match a.invalid with
    | none => .ok o.invalid
    | some (.given h) => .ok h
    | some .lost => .error (.lost .invalid)
  return {
    linux := a.linux || o.linux
    fuzzy := a.fuzzy || o.fuzzy
    invalid := invalid
    pseudoBlock := !a.noPseudoBlock && o.pseudoBlock }

def Arguments.tree? (a : Arguments) : Except LostValue (Option String) :=
  match a.sourceTree with
  | none => .ok none
  | some (.given tree) => .ok (some tree)
  | some .lost => .error .sourceTree

/-- Verbose runs log everything. -/
def Arguments.channel (a : Arguments) : Option LogChannel :=
  if a.verbose then some { name := LogChannel.toolName } else none

def recordLines (records : List LogRecord) : List OutputLine :=
  records.map fun r => .err (r.channel ++ ": " ++ r.message)

def sourceLines? (f : Format) (calls : Nat) (s : SourceBlocks) : Option (List OutputLine) :=
  match f with
  | .json => do
    let objects ← Block.jsons? calls s.blocks
    return [.out (Json.object [
      ("path", Json.string s.path), ("blocks", Json.array objects)])]
  | .human => do
    let lines ← Block.outlines? calls 1 s.blocks
    return .out (s.path ++ ":") :: lines.map .out

def diagnosticLine (f : Format) (d : Diagnostic) : OutputLine :=
  match f with
  | .json =>
    .err (Json.object [
      ("stage", Json.string d.stage),
      ("filename", Json.string d.file),
      ("line", match d.line with | some n => Json.number n | none => Json.null),
      ("message", Json.string d.message)])
  | .human => .err d.text

/-- Where inputs come from, and the calls that are left to a run. -/
structure Sources where
  stdin : Stdin
  contents : Path → Except OpenError (List UInt8)
  budget : CallBudget := .full

def stdinInput : String := "-"

/-- What ends a run without an outcome. -/
inductive RunError
  | aborted (a : Abort)
  | lost (v : LostValue)
  /-- A formula is too deep to be printed or searched. -/
  | tooDeep
  deriving DecidableEq, Repr

def RunError.message : RunError → String
  | aborted a => a.message
  | lost v => v.message
  | tooDeep => "maximum recursion depth exceeded"

/-- A result, or else a formula was too deep for it. -/
def orTooDeep {α : Type} (result? : Option α) : Except RunError α :=
  match result? with
  | some x => .ok x
  | none => .error .tooDeep

/-- The extraction that an input stands for. Only files lie below the source tree. -/
def Arguments.extract (a : Arguments) (o : Options) (s : Sources) (input : String) :
    Except RunError Extraction :=
  if input = stdinInput then .ok (Extraction.ofStdin ⟨o, s.budget⟩ a.channel s.stdin)
  else match a.tree? with
    | .ok tree => .ok (Extraction.ofFile ⟨o, s.budget⟩ a.channel tree s.contents input)
    | .error v => .error (.lost v)

/-- What is left after an input: standard input is empty when it is read again. -/
def Sources.after (s : Sources) (input : String) : Sources :=
  if input = stdinInput then { s with stdin := .text [] } else s

/-- What the inputs print, and their blocks or that there are none. -/
def runInputs (a : Arguments) (o : Options) (s : Sources) :
    List String → Except RunError (List OutputLine × List (Option (List Block)))
  | [] => .ok ([], [])
  | input :: rest => do
    let extraction ← a.extract o s input
    let logLines := recordLines extraction.records
    match extraction.outcome with
    | .error (.aborted abort) => .error (.aborted abort)
    | .error (.reported d) => do
      let (lines, results) ← runInputs a o (s.after input) rest
      return (logLines ++ diagnosticLine a.format d :: lines, none :: results)
    | .ok source => do
      let printed ← orTooDeep (sourceLines? a.format s.budget.calls source)
      let (lines, results) ← runInputs a o (s.after input) rest
      return (logLines ++ printed ++ lines, some source.blocks :: results)

def statisticsLines (a : Arguments) (o : Options) (calls : Nat)
    (results : List (Option (List Block))) : Except RunError (List OutputLine) :=
  if a.stats then do
    let s ← orTooDeep (Statistics.ofFiles? calls results)
    return recordLines (s.records o a.channel) ++ s.lines.map .out
  else .ok []

/-- A run fails with 1 if an input does, and with 2 if it does not come to the inputs. -/
def run (s : Sources) (arguments : List String) : Except RunError Outcome :=
  match Request.ofStrings arguments with
  | .error e =>
    .ok ⟨2, (usageLines ++ [LogChannel.toolName ++ ": error: " ++ e.message]).map .err⟩
  | .ok .help => .ok ⟨0, helpLines.map .out⟩
  | .ok (.run a) =>
    match a.options with
    | .error (.lost v) => .error (.lost v)
    | .error (.setting e) =>
      .ok ⟨2, [.err (LogChannel.toolName ++ ": configuration error: " ++ e.message)]⟩
    | .ok o => do
      let (lines, results) ← runInputs a o s a.inputs
      let statistics ← statisticsLines a o s.budget.calls results
      return ⟨if results.any Option.isNone then 1 else 0, lines ++ statistics⟩

end Presence.CommandLine

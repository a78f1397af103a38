import Presence.Block
import Presence.Condition
import Presence.Log

/-! Counting conditions over files. -/
namespace Presence

/-- Conditions, and stand-ins for conditions without a formula among them. -/
structure ConditionCount where
  conditions : Nat
  errorVariables : Nat
  deriving DecidableEq, Repr

def ConditionCount.add (a b : ConditionCount) : ConditionCount :=
  ⟨a.conditions + b.conditions, a.errorVariables + b.errorVariables⟩

mutual

/-- Counts a block's own condition and those of the blocks in it; a presence condition would count
the enclosing ones again. -/
def Block.conditionCount : Block → ConditionCount
  | ⟨_, _, _, condition, _, children⟩ =>
    ConditionCount.add ⟨1, condition.count errorVariableName⟩ (Block.conditionCounts children)

def Block.conditionCounts : List Block → ConditionCount
  | [] => ⟨0, 0⟩
  | b :: bs => b.conditionCount.add (Block.conditionCounts bs)

end

mutual

/-- The count of a block, if its formulas are not too deep to be searched. -/
def Block.conditionCount? (calls : Nat) : Block → Option ConditionCount
  | ⟨_, _, _, condition, _, children⟩ => do
    let own ← condition.count? errorVariableName calls
    let inner ← Block.conditionCounts? calls children
    return ConditionCount.add ⟨1, own⟩ inner

def Block.conditionCounts? (calls : Nat) : List Block → Option ConditionCount
  | [] => some ⟨0, 0⟩
  | b :: bs => do
    let first ← b.conditionCount? calls
    let rest ← Block.conditionCounts? calls bs
    return first.add rest

end

structure Statistics where
  files : Nat := 0
  failedFiles : Nat := 0
  conditions : Nat := 0
  errorVariables : Nat := 0
  deriving DecidableEq, Repr

namespace Statistics

def add (a b : Statistics) : Statistics where
  files := a.files + b.files
  failedFiles := a.failedFiles + b.failedFiles
  conditions := a.conditions + b.conditions
  errorVariables := a.errorVariables + b.errorVariables

def ofCount (c : ConditionCount) : Statistics :=
  { files := 1, conditions := c.conditions, errorVariables := c.errorVariables }

/-- What one file contributes: its blocks, or nothing but a failure. -/
def ofFile (blocks? : Option (List Block)) : Statistics :=
  match blocks? with
  | none => { failedFiles := 1 }
  | some blocks => ofCount (Block.conditionCounts blocks)

def ofFile? (calls : Nat) (blocks? : Option (List Block)) : Option Statistics :=
  match blocks? with
  | none => some { failedFiles := 1 }
  | some blocks => (Block.conditionCounts? calls blocks).map ofCount

/-- The sums over files, if the conditions of all of them can be counted. -/
def ofFiles? (calls : Nat) (files : List (Option (List Block))) : Option Statistics :=
  files.foldlM (fun s f => return s.add (← ofFile? calls f)) {}

def report (files failedFiles conditions errorVariables : Int) : List String := [
  "Parsing statistics:",
  "\tNumber of files: " ++ toString files,
  "\tNumber of exceptions (unparseable files): " ++ toString failedFiles,
  "\tNumber of conditions: " ++ toString conditions,
  "\tNumber of error variables in conditions (unparseable conditions): "
    ++ toString errorVariables]

def lines (s : Statistics) : List String :=
  report s.files s.failedFiles s.conditions s.errorVariables

/-- The channel of statistics when logging is asked for by no other name. -/
def channelName : String := LogChannel.toolName ++ ".stats"

/-- Stand-ins are only there to be counted under one handling of invalid conditions. -/
def warning? (o : Options) : Option String :=
  if o.invalid = .errorVariable then none
  else some ("Can't find number of unparseable conditions when invalid condition handling is not "
    ++ InvalidHandling.errorVariable.word)

def records (o : Options) (channel : Option LogChannel) (s : Statistics) : List LogRecord :=
  (warning? o).toList.flatMap (logged channel .warning ·) ++ s.lines.flatMap (logged channel .info ·)

theorem add_comm (a b : Statistics) : a.add b = b.add a := by
  simp [add, Nat.add_comm]

theorem add_assoc (a b c : Statistics) : (a.add b).add c = a.add (b.add c) := by
  simp [add, Nat.add_assoc]

end Statistics
end Presence

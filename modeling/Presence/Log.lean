/-! Log records and where they go. -/
namespace Presence

inductive Severity
  | debug
  | info
  | warning
  | error
  deriving DecidableEq, Repr

def Severity.number : Severity → Int
  | debug => 10
  | info => 20
  | warning => 30
  | error => 40

def Severity.word : Severity → String
  | debug => "DEBUG"
  | info => "INFO"
  | warning => "WARNING"
  | error => "ERROR"

structure LogRecord where
  severity : Severity
  channel : String
  message : String
  deriving DecidableEq, Repr

/-- A named receiver of records, with the least severity number it takes if it has one. -/
structure LogChannel where
  name : String
  threshold : Option Int := none
  deriving DecidableEq, Repr

namespace LogChannel

/-- The name of the tool, and of its channel when no other is asked for. -/
def toolName : String := "cppblocks"

/-- A channel that is given wins; else there is one only if logging is asked for. -/
def choose (given : Option LogChannel) (enabled : Bool) (name : Option String)
    (level : Int) : Option LogChannel :=
  match given with
  | some c => some c
  | none =>
    if enabled then
      let named := match name with
        | none | some "" => toolName
        | some n => n
      some ⟨named, some level⟩
    else none

def defaultLevel : Int := Severity.info.number

def takes (c : LogChannel) (s : Severity) : Bool :=
  match c.threshold with
  | none => true
  | some t => t ≤ s.number

end LogChannel

/-- The record of a message, if there is a channel that takes it. -/
def logged (channel : Option LogChannel) (s : Severity) (message : String) : List LogRecord :=
  match channel with
  | none => []
  | some c => if c.takes s then [⟨s, c.name, message⟩] else []

end Presence

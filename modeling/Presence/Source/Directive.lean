import Presence.Text.Blank

/-! The six conditional directives. -/
namespace Presence

open Text

inductive Keyword
  | ifDefined
  | ifUndefined
  | ifHolds
  | elseIf
  | otherwise
  | endIf
  deriving DecidableEq, Repr

namespace Keyword

def text : Keyword → String
  | ifDefined => "#ifdef"
  | ifUndefined => "#ifndef"
  | ifHolds => "#if"
  | elseIf => "#elif"
  | otherwise => "#else"
  | endIf => "#endif"

def chars (k : Keyword) : List Char :=
  k.text.toList

/-- In the order in which they are tried: the first two start like the third. -/
def all : List Keyword :=
  [ifDefined, ifUndefined, ifHolds, elseIf, otherwise, endIf]

/-- The keyword that a line starts with, whatever follows it. -/
def ofLine? (line : List Char) : Option Keyword :=
  all.find? (·.chars.isPrefixOf line)

def startsBranch : Keyword → Bool
  | endIf => false
  | _ => true

end Keyword

structure Directive where
  keyword : Keyword
  rest : List Char
  deriving DecidableEq, Repr

def Directive.ofLine? (line : List Char) : Option Directive :=
  (Keyword.ofLine? line).map fun k => ⟨k, line.drop k.chars.length⟩

/-- The expression that a directive tests; for those with a bare name it is a test of the name. -/
def Directive.expression (d : Directive) : List Char :=
  match d.keyword with
  | .ifDefined => "defined(".toList ++ trim d.rest ++ [')']
  | .ifUndefined => "!defined(".toList ++ trim d.rest ++ [')']
  | _ => d.rest

example : (Directive.ofLine? "#ifndef A".toList).map (·.expression) =
    some "!defined(A)".toList := by decide
example : (Directive.ofLine? "#ifA".toList).map (·.expression) = some "A".toList := by decide
example : Directive.ofLine? "# if".toList = none := by decide

end Presence

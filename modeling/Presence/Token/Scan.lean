import Presence.IntegerConstant
import Presence.Text.Numeral
import Presence.Text.Quoted
import Presence.Token

/-! Cutting an expression into tokens. -/
namespace Presence

open Text

/-- White space between tokens: ASCII only. -/
def isSeparator (c : Char) : Bool :=
  c = ' ' || c = '\t' || c = '\x0b' || c = '\x0c' || c = '\r' || c = '\n'

def startsIdentifier (c : Char) : Bool :=
  c = '_' || isLetter c

def continuesIdentifier (c : Char) : Bool :=
  c = '_' || isAlphanumeric c

/-- A number runs over letters, dots and underscores too, so that what it ends in is checked as a
whole. -/
def continuesNumber (c : Char) : Bool :=
  isAlphanumeric c || c = '.' || c = '_'

inductive ScanError
  | invalidInteger (column : Nat)
  | unexpectedCharacter (c : Char) (column : Nat)
  deriving DecidableEq, Repr

def ScanError.message : ScanError → String
  | .invalidInteger column => "Invalid integer constant at column " ++ toString column
  | .unexpectedCharacter c column =>
    "Unexpected character " ++ quoted (String.ofList [c]) ++ " at column " ++ toString column

/-- The tokens of a text whose first character stands at `column`; the end counts as one. -/
def scanFrom (column : Nat) (s : List Char) : Except ScanError (List Token) :=
  match s with
  | [] => .ok [⟨.endOfText, column⟩]
  | c :: rest =>
    if isSeparator c then scanFrom (column + 1) rest
    else if isDigit c then
      let run := c :: rest.takeWhile continuesNumber
      if (IntegerConstant.ofSpelling? run).isSome then
        (scanFrom (column + run.length) (rest.dropWhile continuesNumber)).map
          (⟨.integer (String.ofList run), column⟩ :: ·)
      else .error (.invalidInteger column)
    else if startsIdentifier c then
      let run := c :: rest.takeWhile continuesIdentifier
      (scanFrom (column + run.length) (rest.dropWhile continuesIdentifier)).map
        (⟨.identifier (String.ofList run), column⟩ :: ·)
    else match Punctuator.longest? (c :: rest) with
      | some p =>
        (scanFrom (column + p.chars.length) (rest.drop (p.chars.length - 1))).map
          (⟨.punctuator p, column⟩ :: ·)
      | none => .error (.unexpectedCharacter c column)
termination_by s.length
decreasing_by
  · simp
  · have := (List.dropWhile_sublist continuesNumber (l := rest)).length_le
    simp only [List.length_cons]
    omega
  · have := (List.dropWhile_sublist continuesIdentifier (l := rest)).length_le
    simp only [List.length_cons]
    omega
  · simp only [List.length_drop, List.length_cons]
    omega

def scan (expression : List Char) : Except ScanError (List Token) :=
  scanFrom 1 expression

end Presence

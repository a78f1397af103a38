/-! Integer constants: their spellings, their values and the limit on decimal text. -/
namespace Presence

inductive Radix
  | octal
  | decimal
  | hexadecimal
  deriving DecidableEq, Repr

def Radix.base : Radix → Nat
  | .octal => 8
  | .decimal => 10
  | .hexadecimal => 16

/-- The value of a digit, letters in either case; meant for hexadecimal digits. -/
def digitValue (c : Char) : Nat :=
  if c.isDigit then c.toNat - '0'.toNat
  else if 'a' ≤ c ∧ c ≤ 'f' then c.toNat - 'a'.toNat + 10
  else c.toNat - 'A'.toNat + 10

def Radix.isDigit : Radix → Char → Bool
  | .octal, c => '0' ≤ c && c ≤ '7'
  | .decimal, c => c.isDigit
  | .hexadecimal, c => c.isDigit || ('a' ≤ c && c ≤ 'f') || ('A' ≤ c && c ≤ 'F')

/-- Reads digits from the most significant one on. -/
def Radix.valueOf (r : Radix) (digits : List Char) : Nat :=
  digits.foldl (fun n c => r.base * n + digitValue c) 0

/-- An optional `u` and an optional `l` or `ll`, in either order; both letters of `ll` have one
case. -/
def integerSuffixes : List (List Char) :=
  let unsigned := [['u'], ['U']]
  let long := [['l'], ['L'], ['l', 'l'], ['L', 'L']]
  [] :: unsigned ++ long
    ++ unsigned.flatMap (fun u => long.map (u ++ ·))
    ++ long.flatMap (fun l => unsigned.map (l ++ ·))

structure IntegerConstant where
  radix : Radix
  digits : List Char
  suffix : List Char
  deriving DecidableEq, Repr

namespace IntegerConstant

/-- Splits the digits of a radix off; a suffix has to be all that is left. -/
def ofDigits? (r : Radix) (s : List Char) : Option IntegerConstant :=
  let digits := s.takeWhile r.isDigit
  let suffix := s.dropWhile r.isDigit
  if digits ≠ [] ∧ suffix ∈ integerSuffixes then some ⟨r, digits, suffix⟩ else none

/-- `0x` or `0X` marks hexadecimal digits and a leading zero octal ones. -/
def ofSpelling? : List Char → Option IntegerConstant
  | '0' :: 'x' :: s => ofDigits? .hexadecimal s
  | '0' :: 'X' :: s => ofDigits? .hexadecimal s
  | '0' :: s => ofDigits? .octal ('0' :: s)
  | s => ofDigits? .decimal s

def value (c : IntegerConstant) : Nat :=
  c.radix.valueOf c.digits

end IntegerConstant

/-- Decimal text of more digits is neither read nor written. -/
def decimalDigitLimit : Nat := 4300

inductive DigitLimitError
  | reading (digits : Nat)
  | writing
  deriving DecidableEq, Repr

def DigitLimitError.message : DigitLimitError → String
  | .reading n =>
    "Exceeds the limit (" ++ toString decimalDigitLimit ++ " digits) for integer string conversion: value has "
      ++ toString n ++ " digits; use sys.set_int_max_str_digits() to increase the limit"
  | .writing =>
    "Exceeds the limit (" ++ toString decimalDigitLimit ++ " digits) for integer string conversion; "
      ++ "use sys.set_int_max_str_digits() to increase the limit"

/-- The value of a constant; only decimal spellings are limited in length. -/
def IntegerConstant.read (c : IntegerConstant) : Except DigitLimitError Nat :=
  if c.radix = .decimal ∧ decimalDigitLimit < c.digits.length then
    .error (.reading c.digits.length)
  else .ok c.value

def isSuffixLetter (c : Char) : Bool :=
  c = 'u' || c = 'U' || c = 'l' || c = 'L'

namespace IntegerConstant

def dropSuffix (s : List Char) : List Char :=
  (s.reverse.dropWhile isSuffixLetter).reverse

/-- Reads a text that is made of digits of the radix and nothing else. -/
def readDigits? (r : Radix) (digits : List Char) : Option (Except DigitLimitError Nat) :=
  if digits ≠ [] ∧ digits.all r.isDigit then some (read ⟨r, digits, []⟩) else none

/-- Reads a spelling that has been checked before: what is in front of the suffix begins with the
mark of its radix. A zero by itself is a decimal digit here. -/
def readSpelling? (s : List Char) : Option (Except DigitLimitError Nat) :=
  match dropSuffix s with
  | '0' :: 'x' :: digits => readDigits? .hexadecimal digits
  | '0' :: 'X' :: digits => readDigits? .hexadecimal digits
  | '0' :: c :: digits => readDigits? .octal ('0' :: c :: digits)
  | digits => readDigits? .decimal digits

end IntegerConstant

/-- The decimal text of a number, with a minus sign before a negative one. -/
def decimalText (n : Int) : Except DigitLimitError String :=
  if decimalDigitLimit < (Nat.toDigits 10 n.natAbs).length then .error .writing
  else .ok (toString n)

theorem IntegerConstant.ofDigits?_eq_some_iff {r : Radix} {s : List Char} {c : IntegerConstant} :
    ofDigits? r s = some c ↔
      s.takeWhile r.isDigit ≠ [] ∧ s.dropWhile r.isDigit ∈ integerSuffixes ∧
        c = ⟨r, s.takeWhile r.isDigit, s.dropWhile r.isDigit⟩ := by
  simp only [ofDigits?, Option.ite_none_right_eq_some, Option.some.injEq, and_assoc]
  simp only [eq_comm]

example : (IntegerConstant.ofSpelling? "0x1FuL".toList).map (·.value) = some 31 := by decide
example : (IntegerConstant.ofSpelling? "010".toList).map (·.value) = some 8 := by decide
example : (IntegerConstant.ofSpelling? "65536ll".toList).map (·.value) = some 65536 := by decide
example : IntegerConstant.ofSpelling? "08".toList = none := by decide
example : IntegerConstant.ofSpelling? "1lL".toList = none := by decide
example : IntegerConstant.ofSpelling? "0x".toList = none := by decide

end Presence

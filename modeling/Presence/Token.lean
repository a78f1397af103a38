/-! The tokens of an expression. -/
namespace Presence

inductive Punctuator
  | or | and | equal | unequal | atMost | atLeast | shiftLeft | shiftRight
  | leftParen | rightParen | not | complement | plus | minus | times | divide | remainder
  | less | greater | bitAnd | bitOr | bitXor | question | colon | comma
  deriving DecidableEq, Repr

namespace Punctuator

def chars : Punctuator → List Char
  | or => ['|', '|']
  | and => ['&', '&']
  | equal => ['=', '=']
  | unequal => ['!', '=']
  | atMost => ['<', '=']
  | atLeast => ['>', '=']
  | shiftLeft => ['<', '<']
  | shiftRight => ['>', '>']
  | leftParen => ['(']
  | rightParen => [')']
  | not => ['!']
  | complement => ['~']
  | plus => ['+']
  | minus => ['-']
  | times => ['*']
  | divide => ['/']
  | remainder => ['%']
  | less => ['<']
  | greater => ['>']
  | bitAnd => ['&']
  | bitOr => ['|']
  | bitXor => ['^']
  | question => ['?']
  | colon => [':']
  | comma => [',']

def symbol (p : Punctuator) : String :=
  String.ofList p.chars

def single? : Char → Option Punctuator
  | '(' => some leftParen
  | ')' => some rightParen
  | '!' => some not
  | '~' => some complement
  | '+' => some plus
  | '-' => some minus
  | '*' => some times
  | '/' => some divide
  | '%' => some remainder
  | '<' => some less
  | '>' => some greater
  | '&' => some bitAnd
  | '|' => some bitOr
  | '^' => some bitXor
  | '?' => some question
  | ':' => some colon
  | ',' => some comma
  | _ => none

def pair? : Char → Char → Option Punctuator
  | '|', '|' => some or
  | '&', '&' => some and
  | '=', '=' => some equal
  | '!', '=' => some unequal
  | '<', '=' => some atMost
  | '>', '=' => some atLeast
  | '<', '<' => some shiftLeft
  | '>', '>' => some shiftRight
  | _, _ => none

/-- The longest punctuator at the start of a text. -/
def longest? : List Char → Option Punctuator
  | [] => none
  | [c] => single? c
  | c :: d :: _ => (pair? c d).or (single? c)

theorem chars_of_single? {c : Char} {p : Punctuator} (h : single? c = some p) :
    p.chars = [c] := by
  unfold single? at h
  split at h <;> cases h <;> rfl

theorem chars_of_pair? {c d : Char} {p : Punctuator} (h : pair? c d = some p) :
    p.chars = [c, d] := by
  unfold pair? at h
  split at h <;> cases h <;> rfl

theorem chars_ne_nil (p : Punctuator) : p.chars ≠ [] := by
  cases p <;> simp [chars]

theorem chars_length_pos (p : Punctuator) : 0 < p.chars.length := by
  cases p <;> simp [chars]

theorem chars_prefix_of_longest? {s : List Char} {p : Punctuator} (h : longest? s = some p) :
    p.chars <+: s := by
  match s with
  | [] => simp [longest?] at h
  | [c] => simp [chars_of_single? h]
  | c :: d :: s =>
    simp only [longest?, Option.or_eq_some_iff] at h
    rcases h with h | ⟨_, h⟩
    · simp [chars_of_pair? h]
    · simp [chars_of_single? h]

end Punctuator

inductive Lexeme
  | identifier (name : String)
  | integer (spelling : String)
  | punctuator (p : Punctuator)
  | endOfText
  deriving DecidableEq, Repr

/-- A lexeme and the column of its first character, counted from 1. -/
structure Token where
  lexeme : Lexeme
  column : Nat
  deriving DecidableEq, Repr

end Presence

import Presence.Source.Comment
import Presence.Text.Blank

/-! Logical lines: trimmed and without comments, directives joined over their backslashes. -/
namespace Presence

open Text

/-- A line of text and the number of the first physical line it was read from. -/
structure LogicalLine where
  number : Nat
  text : List Char
  deriving DecidableEq, Repr

def LogicalLine.isDirective (l : LogicalLine) : Bool :=
  l.text.head? = some '#'

/-- What is known between two physical lines: how many were read, whether a comment is open, and
the directive that waits for a continuation, with the number of its first line. -/
structure LineReader where
  number : Nat := 0
  state : CommentState := .code
  waiting : Option (Nat × List Char) := none
  deriving DecidableEq, Repr

namespace LineReader

def complete (r : LineReader) (start : Nat) (text : List Char) : LineReader × LogicalLine :=
  let stripped := stripComments r.state text
  ({ r with state := stripped.2, waiting := none }, ⟨start, trim stripped.1⟩)

/-- A directive that ends in a backslash waits for the next physical line. -/
def directive (r : LineReader) (start : Nat) (text : List Char) :
    LineReader × Option LogicalLine :=
  if text.getLast? = some '\\' then ({ r with waiting := some (start, text.dropLast) }, none)
  else
    let (r, l) := r.complete start text
    (r, some l)

/-- Reads a physical line. Continuation lines are joined as they are, apart from their line end. -/
def feed (r : LineReader) (line : List Char) : LineReader × Option LogicalLine :=
  let r := { r with number := r.number + 1 }
  match r.waiting with
  | some (start, text) => r.directive start (text ++ chomp line)
  | none =>
    match trim (chomp line) with
    | '#' :: text => r.directive r.number ('#' :: trimLeft text)
    | text =>
      let (r, l) := r.complete r.number text
      (r, some l)

/-- At the end of the lines, a waiting directive is complete. -/
def finish (r : LineReader) : LineReader × Option LogicalLine :=
  match r.waiting with
  | some (start, text) =>
    let (r, l) := r.complete start text
    (r, some l)
  | none => (r, none)

def feedAll (r : LineReader) : List (List Char) → LineReader × List LogicalLine
  | [] => (r, [])
  | line :: lines =>
    let (r, l) := r.feed line
    let (r, ls) := r.feedAll lines
    (r, l.toList ++ ls)

theorem feedAll_append (r : LineReader) (xs ys : List (List Char)) :
    r.feedAll (xs ++ ys) =
      (((r.feedAll xs).1.feedAll ys).1, (r.feedAll xs).2 ++ ((r.feedAll xs).1.feedAll ys).2) := by
  induction xs generalizing r with
  | nil => rfl
  | cons x xs ih => simp [feedAll, ih]

end LineReader

def logicalLines (lines : List (List Char)) : List LogicalLine :=
  let (r, ls) := LineReader.feedAll {} lines
  ls ++ r.finish.2.toList

end Presence

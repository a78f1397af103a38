/-! Physical lines of a text. -/
namespace Presence.Text

/-- Cuts after every line feed and nowhere else; each line keeps its line feed. -/
def splitLines : List Char → List (List Char)
  | [] => []
  | c :: s =>
    if c = '\n' then ['\n'] :: splitLines s
    else match splitLines s with
      | [] => [[c]]
      | l :: ls => (c :: l) :: ls

/-- Turns a carriage return, with the line feed after it if there is one, into a line feed. -/
def unifyNewlines : List Char → List Char
  | [] => []
  | '\r' :: '\n' :: s => '\n' :: unifyNewlines s
  | '\r' :: s => '\n' :: unifyNewlines s
  | c :: s => c :: unifyNewlines s

/-- The lines whose end is already certain when more text may follow: a last carriage return may
still be half of a line end. -/
def settledLines (s : List Char) : List (List Char) :=
  let known := if s.getLast? = some '\r' then s.dropLast else s
  (splitLines (unifyNewlines known)).filter fun l => l.getLast? = some '\n'

@[simp] theorem flatten_splitLines (s : List Char) : (splitLines s).flatten = s := by
  induction s with
  | nil => rfl
  | cons c s ih =>
    simp only [splitLines]
    split
    · next h => simp [h, ih]
    · split
      · next h => simp [h] at ih; simp [← ih]
      · next l ls h => rw [h] at ih; simp [← ih]

theorem splitLines_line_feed (s : List Char) : splitLines ('\n' :: s) = ['\n'] :: splitLines s := by
  simp [splitLines]

end Presence.Text

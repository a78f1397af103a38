import Presence.Block
import Presence.Options
import Presence.Text.Json

/-!
Blocks as indented lines and as JSON. Both are made as far as the calls that are left allow: each
level of blocks takes some, and what is left there has to do for the formulas.
-/
namespace Presence.Block

open Text

def indentation (depth : Nat) : String :=
  String.ofList (List.replicate (2 * depth) ' ')

def rangeText (b : Block) (condition : String) : String :=
  toString b.first ++ "-" ++ toString b.last ++ ": " ++ condition

def noteText (presence : String) : String :=
  "  [pc: " ++ presence ++ "]"

/-- The file, the range and the own condition. -/
def summary? (calls : Nat) (b : Block) : Option String := do
  let condition ← b.condition.render? (printedLevels calls)
  return b.file ++ ":" ++ b.rangeText condition

/-- The line of a block. The presence condition is given where it says more than the condition. -/
def headline (depth : Nat) (b : Block) : String :=
  let line := indentation depth ++ b.rangeText b.condition.render
  if b.presence = b.condition then line else line ++ noteText b.presence.render

def headline? (calls depth : Nat) (b : Block) : Option String := do
  let condition ← b.condition.render? (printedLevels calls)
  let line := indentation depth ++ b.rangeText condition
  if b.presence = b.condition then return line
  let presence ← b.presence.render? (printedLevels calls)
  return line ++ noteText presence

mutual

/-- The line of a block and, one level deeper, those of the blocks in it. -/
def outline (depth : Nat) : Block → List String
  | ⟨first, last, file, condition, presence, children⟩ =>
    headline depth ⟨first, last, file, condition, presence, children⟩ ::
      outlines (depth + 1) children

def outlines (depth : Nat) : List Block → List String
  | [] => []
  | b :: bs => outline depth b ++ outlines depth bs

end

mutual

def outline? (calls depth : Nat) : Block → Option (List String)
  | ⟨first, last, file, condition, presence, children⟩ => do
    let line ← headline? calls depth ⟨first, last, file, condition, presence, children⟩
    let inner ← outlines? (calls - 1) (depth + 1) children
    return line :: inner

def outlines? (calls depth : Nat) : List Block → Option (List String)
  | [] => some []
  | b :: bs => do
    let lines ← outline? calls depth b
    let rest ← outlines? calls depth bs
    return lines ++ rest

end

/-- An object for a block, with the texts of its conditions and those of the blocks in it. The file
is left out. -/
def jsonObject (first last : Nat) (condition presence : String) (children : List String) :
    String :=
  Json.object [
    ("start", Json.number first),
    ("end", Json.number last),
    ("condition", Json.string condition),
    ("presence_condition", Json.string presence),
    ("children", Json.array children)]

mutual

def json : Block → String
  | ⟨first, last, _, condition, presence, children⟩ =>
    jsonObject first last condition.render presence.render (jsons children)

def jsons : List Block → List String
  | [] => []
  | b :: bs => json b :: jsons bs

end

mutual

/-- The object for a block, if it can be made. A level of blocks takes two calls. -/
def json? (calls : Nat) : Block → Option String
  | ⟨first, last, _, condition, presence, children⟩ => do
    let conditionText ← condition.render? (printedLevels calls)
    let presenceText ← presence.render? (printedLevels calls)
    let inner ← jsons? (calls - 2) children
    return jsonObject first last conditionText presenceText inner

def jsons? (calls : Nat) : List Block → Option (List String)
  | [] => some []
  | b :: bs => do
    let object ← json? calls b
    let rest ← jsons? calls bs
    return object :: rest

end

end Presence.Block

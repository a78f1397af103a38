import Presence.Text.Hex

/-! JSON text in ASCII, without spaces. -/
namespace Presence.Text.Json

/-- An escape for one unit of UTF-16. -/
def unitEscape (n : Nat) : List Char :=
  '\\' :: 'u' :: hexPadded 4 n

def escape (c : Char) : List Char :=
  if c = '"' ∨ c = '\\' then ['\\', c]
  else if c = '\n' then ['\\', 'n']
  else if c = '\r' then ['\\', 'r']
  else if c = '\t' then ['\\', 't']
  else if c = '\x08' then ['\\', 'b']
  else if c = '\x0c' then ['\\', 'f']
  else if 0x20 ≤ c.toNat ∧ c.toNat < 0x7F then [c]
  else if c.toNat < 0x10000 then unitEscape c.toNat
  else
    let n := c.toNat - 0x10000
    unitEscape (0xD800 + n / 0x400) ++ unitEscape (0xDC00 + n % 0x400)

def string (s : String) : String :=
  String.ofList ('"' :: (s.toList.flatMap escape ++ ['"']))

def number (n : Int) : String :=
  toString n

def null : String := "null"

/-- An array of values that are text already. -/
def array (values : List String) : String :=
  "[" ++ ",".intercalate values ++ "]"

/-- An object of values that are text already, in the order given. -/
def object (fields : List (String × String)) : String :=
  "\x7b" ++ ",".intercalate (fields.map fun f => string f.1 ++ ":" ++ f.2) ++ "\x7d"

example : string "q\"\t\x7f😀" = "\"q\\\"\\t\\u007f\\ud83d\\ude00\"" := by decide

end Presence.Text.Json

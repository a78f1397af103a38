import Presence.Text.Hex
import Presence.Text.Printable

/-! Text in quotation marks, with escapes for what cannot be shown. -/
namespace Presence.Text

/-- The apostrophe, unless the text holds one and no double quotation mark. -/
def quoteMark (s : List Char) : Char :=
  if s.contains '\'' && !s.contains '"' then '"' else '\''

def escapeFor (mark c : Char) : List Char :=
  if c = mark ∨ c = '\\' then ['\\', c]
  else if c = '\t' then ['\\', 't']
  else if c = '\n' then ['\\', 'n']
  else if c = '\r' then ['\\', 'r']
  else if isPrintable c then [c]
  else if c.toNat < 0x100 then '\\' :: 'x' :: hexPadded 2 c.toNat
  else if c.toNat < 0x10000 then '\\' :: 'u' :: hexPadded 4 c.toNat
  else '\\' :: 'U' :: hexPadded 8 c.toNat

def quotedChars (s : List Char) : List Char :=
  quoteMark s :: (s.flatMap (escapeFor (quoteMark s)) ++ [quoteMark s])

def quoted (s : String) : String :=
  String.ofList (quotedChars s.toList)

example : quoted "it's" = "\"it's\"" := by decide
example : quoted "a\"b'.c" = "'a\"b\\'.c'" := by decide
example : quoted "a\tb\x7f" = "'a\\tb\\x7f'" := by decide

end Presence.Text

import Presence.Text.CodeRange

/-! White space and trimming. -/
namespace Presence.Text

def blankRanges : List CodeRange := [
  (0x0009, 0x000D), (0x001C, 0x0020), (0x0085, 0x0085), (0x00A0, 0x00A0), (0x1680, 0x1680),
  (0x2000, 0x200A), (0x2028, 0x2029), (0x202F, 0x202F), (0x205F, 0x205F), (0x3000, 0x3000)]

/-- White space in the Unicode sense, with the four information separators. -/
def isBlank (c : Char) : Bool :=
  inRanges blankRanges c

def trimLeft (s : List Char) : List Char :=
  s.dropWhile isBlank

def trimRight (s : List Char) : List Char :=
  (s.reverse.dropWhile isBlank).reverse

def trim (s : List Char) : List Char :=
  trimRight (trimLeft s)

/-- Drops every carriage return and line feed at the end. -/
def chomp (s : List Char) : List Char :=
  (s.reverse.dropWhile fun c => c = '\r' || c = '\n').reverse

@[simp] theorem trimLeft_nil : trimLeft [] = [] := rfl

@[simp] theorem trim_nil : trim [] = [] := rfl

@[simp] theorem chomp_nil : chomp [] = [] := rfl

end Presence.Text

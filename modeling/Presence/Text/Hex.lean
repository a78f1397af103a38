/-! Hexadecimal text of a fixed least width, in lower case. -/
namespace Presence.Text

def hexPadded (width n : Nat) : List Char :=
  (Nat.toDigits 16 n).leftpad width '0'

end Presence.Text

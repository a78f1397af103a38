/-! Sets of characters given by closed ranges of code points. -/
namespace Presence.Text

abbrev CodeRange := Nat × Nat

def CodeRange.holds (r : CodeRange) (c : Char) : Bool :=
  r.1 ≤ c.toNat && c.toNat ≤ r.2

def inRanges (rs : List CodeRange) (c : Char) : Bool :=
  rs.any (·.holds c)

end Presence.Text

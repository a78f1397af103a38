import Presence.Text.Hex

/-! UTF-8: encoding, and decoding that says where and how the bytes go wrong. -/
namespace Presence.Text.Utf8

def encodeChar (c : Char) : List UInt8 :=
  let n := c.toNat
  if n < 0x80 then [.ofNat n]
  else if n < 0x800 then [.ofNat (0xC0 + n / 0x40), .ofNat (0x80 + n % 0x40)]
  else if n < 0x10000 then
    [.ofNat (0xE0 + n / 0x1000), .ofNat (0x80 + n / 0x40 % 0x40), .ofNat (0x80 + n % 0x40)]
  else
    [.ofNat (0xF0 + n / 0x40000), .ofNat (0x80 + n / 0x1000 % 0x40),
      .ofNat (0x80 + n / 0x40 % 0x40), .ofNat (0x80 + n % 0x40)]

def encode (s : List Char) : List UInt8 :=
  s.flatMap encodeChar

inductive FaultKind
  | invalidStart
  | invalidContinuation
  | truncated
  deriving DecidableEq, Repr

/-- The bytes of a sequence that no character has, from `position` on: what was read of it before
it went wrong. -/
structure Fault where
  kind : FaultKind
  position : Nat
  bytes : List UInt8
  deriving DecidableEq, Repr

/-- The text before the first fault. -/
structure Decoded where
  text : List Char
  fault : Option Fault := none
  deriving DecidableEq, Repr

/-- A character under way: its bytes so far, their value, how many bytes are owed and the range of
the next one. -/
structure Partial where
  bytes : List UInt8
  code : Nat
  owed : Nat
  low : Nat := 0x80
  high : Nat := 0xBF
  deriving DecidableEq, Repr

/-- What a first byte beyond ASCII begins. The tight ranges rule out overlong forms, surrogates and
numbers above the last code point. -/
def Partial.start? (b : UInt8) : Option Partial :=
  let n := b.toNat
  if 0xC2 ≤ n ∧ n ≤ 0xDF then some { bytes := [b], code := n - 0xC0, owed := 1 }
  else if n = 0xE0 then some { bytes := [b], code := 0, owed := 2, low := 0xA0 }
  else if n = 0xED then some { bytes := [b], code := 0xD, owed := 2, high := 0x9F }
  else if 0xE1 ≤ n ∧ n ≤ 0xEF then some { bytes := [b], code := n - 0xE0, owed := 2 }
  else if n = 0xF0 then some { bytes := [b], code := 0, owed := 3, low := 0x90 }
  else if 0xF1 ≤ n ∧ n ≤ 0xF3 then some { bytes := [b], code := n - 0xF0, owed := 3 }
  else if n = 0xF4 then some { bytes := [b], code := 4, owed := 3, high := 0x8F }
  else none

def Partial.accepts (p : Partial) (b : UInt8) : Bool :=
  p.low ≤ b.toNat && b.toNat ≤ p.high

def Partial.extend (p : Partial) (b : UInt8) : Partial :=
  { bytes := p.bytes ++ [b], code := p.code * 0x40 + (b.toNat - 0x80), owed := p.owed - 1 }

def Decoded.cons (c : Char) (d : Decoded) : Decoded :=
  { d with text := c :: d.text }

/-- Decodes the bytes from `position` on; `pending` has the bytes just before it. -/
def decodeFrom (position : Nat) (pending : Option Partial) : List UInt8 → Decoded
  | [] =>
    match pending with
    | none => ⟨[], none⟩
    | some p => ⟨[], some ⟨.truncated, position - p.bytes.length, p.bytes⟩⟩
  | b :: bs =>
    match pending with
    | none =>
      if b.toNat < 0x80 then (decodeFrom (position + 1) none bs).cons (Char.ofNat b.toNat)
      else match Partial.start? b with
        | none => ⟨[], some ⟨.invalidStart, position, [b]⟩⟩
        | some p => decodeFrom (position + 1) (some p) bs
    | some p =>
      if !p.accepts b then
        ⟨[], some ⟨.invalidContinuation, position - p.bytes.length, p.bytes⟩⟩
      else if p.owed ≤ 1 then
        (decodeFrom (position + 1) none bs).cons (Char.ofNat (p.extend b).code)
      else decodeFrom (position + 1) (some (p.extend b)) bs

def decode (bytes : List UInt8) : Decoded :=
  decodeFrom 0 none bytes

def FaultKind.message : FaultKind → String
  | .invalidStart => "invalid start byte"
  | .invalidContinuation => "invalid continuation byte"
  | .truncated => "unexpected end of data"

def Fault.message (f : Fault) : String :=
  let place := match f.bytes with
    | [b] => "byte 0x" ++ String.ofList (hexPadded 2 b.toNat) ++ " in position " ++ toString f.position
    | bs => "bytes in position " ++ toString f.position ++ "-" ++
        toString (f.position + bs.length - 1)
  "'utf-8' codec can't decode " ++ place ++ ": " ++ f.kind.message

/-- Files are decoded in pieces of so many bytes. -/
def pieceSize : Nat := 8192

/-- The place of the byte that shows the fault. A character that is cut off shows at the end of the
bytes, and the start of a surrogate does not before a third byte. -/
def Fault.noticedAt (f : Fault) (bytes : List UInt8) : Nat :=
  match f.kind with
  | .invalidStart => f.position
  | .truncated => bytes.length
  | .invalidContinuation =>
    match bytes.drop f.position with
    | 0xED :: b :: _ => if 0xA0 ≤ b && b ≤ 0xBF then f.position + 2 else f.position + 1
    | _ => f.position + f.bytes.length

/-- The bytes of the pieces before the one that shows the fault. -/
def Fault.piecesBefore (f : Fault) (bytes : List UInt8) : List UInt8 :=
  let n := f.noticedAt bytes
  if n < bytes.length then bytes.take (n / pieceSize * pieceSize) else bytes

/-- The fault as it shows behind these bytes: places are counted from the first byte that is not
decoded yet. -/
def Fault.behind (f : Fault) (bytes : List UInt8) : Fault :=
  let start := match (decode bytes).fault with
    | some pending => pending.position
    | none => bytes.length
  { f with position := f.position - start }

example : decode [0x78, 0xC3, 0xA9] = ⟨['x', 'é'], none⟩ := by decide
example : decode [0x78, 0xE2, 0x82] = ⟨['x'], some ⟨.truncated, 1, [0xE2, 0x82]⟩⟩ := by decide
example : (decode (encode "aé中😀".toList)).text = "aé中😀".toList := by decide

end Presence.Text.Utf8

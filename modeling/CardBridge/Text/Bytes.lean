/-!
# Byte strings

Script strings are sequences of bytes. `bytes` gives the UTF-8 bytes of host text; the way
back, which has to deal with bytes that are no text, is in `CardBridge.Text.Utf8`.
-/

namespace CardBridge

/-- The contents of a script string. -/
abbrev Bytes := List UInt8

/-- The UTF-8 bytes of a text. -/
def bytes (s : String) : Bytes :=
  s.toUTF8.data.toList

namespace Bytes

/-- The byte of an ASCII character. -/
def ofAscii (c : Char) : UInt8 :=
  c.toNat.toUInt8

/-- Read bytes as characters of the same number. Right for ASCII, and used only to look for
ASCII characters. -/
def toChars (s : Bytes) : List Char :=
  s.map fun b => Char.ofNat b.toNat

/-- Byte order, shorter strings first among equals. -/
def lt : Bytes → Bytes → Bool
  | _, [] => false
  | [], _ :: _ => true
  | a :: s, b :: t => a < b || (a == b && lt s t)

/-- Byte order or equality. -/
def le (s t : Bytes) : Bool :=
  !lt t s

/-- `s` written `n` times, with `sep` between the copies. -/
def repeated (s sep : Bytes) : Nat → Bytes
  | 0 => []
  | 1 => s
  | n + 2 => s ++ sep ++ repeated s sep (n + 1)

end Bytes

end CardBridge

import CardBridge.Text.Bytes

/-!
# Reading bytes as text

`Utf8.lossy` reads bytes as UTF-8 and puts one U+FFFD for every longest piece that begins a
character and cannot be continued. `Utf8.decode?` reads only bytes that are UTF-8 throughout.
-/

namespace CardBridge.Utf8

/-- A character begun: how many bytes it still needs, the bits read so far and the range of
the next byte. -/
structure Pending where
  missing : Nat
  code : Nat
  low : UInt8
  high : UInt8

/-- What stands for bytes that are no character. -/
def replacement : Char := '\uFFFD'

/-- What a first byte says: a whole character, the beginning of one, or nothing. The narrow
ranges after E0, ED, F0 and F4 leave out overlong forms, surrogates and codes past U+10FFFF. -/
def lead (b : UInt8) : Char ⊕ Pending :=
  let begun (missing bits : Nat) (low high : UInt8) : Char ⊕ Pending :=
    .inr { missing, code := b.toNat % bits, low, high }
  if b < 0x80 then .inl (Char.ofNat b.toNat)
  else if b < 0xC2 then .inl replacement
  else if b < 0xE0 then begun 1 0x20 0x80 0xBF
  else if b = 0xE0 then begun 2 0x10 0xA0 0xBF
  else if b = 0xED then begun 2 0x10 0x80 0x9F
  else if b < 0xF0 then begun 2 0x10 0x80 0xBF
  else if b = 0xF0 then begun 3 0x08 0x90 0xBF
  else if b < 0xF4 then begun 3 0x08 0x80 0xBF
  else if b = 0xF4 then begun 3 0x08 0x80 0x8F
  else .inl replacement

/-- Read on, with a character perhaps begun. -/
def lossyFrom : Option Pending → Bytes → List Char
  | none, [] => []
  | some _, [] => [replacement]
  | none, b :: rest =>
    match lead b with
    | .inl c => c :: lossyFrom none rest
    | .inr p => lossyFrom (some p) rest
  | some p, b :: rest =>
    if p.low ≤ b ∧ b ≤ p.high then
      let code := p.code * 64 + b.toNat % 64
      match p.missing with
      | 0 | 1 => Char.ofNat code :: lossyFrom none rest
      | n + 2 => lossyFrom (some ⟨n + 1, code, 0x80, 0xBF⟩) rest
    else
      match lead b with
      | .inl c => replacement :: c :: lossyFrom none rest
      | .inr q => replacement :: lossyFrom (some q) rest

/-- The text of `s`, with U+FFFD for what is no text. -/
def lossy (s : Bytes) : String :=
  String.ofList (lossyFrom none s)

/-- The text of `s`, if all of it is UTF-8: then the lossy reading has the same bytes. -/
def decode? (s : Bytes) : Option String :=
  let text := lossy s
  if bytes text = s then some text else none

end CardBridge.Utf8

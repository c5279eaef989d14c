/-!
# Reading whole numbers

A whole number in a text is a run of digits. `Digits.decimal?` and `Digits.hexadecimal?` read a
text that is nothing but such a run.
-/

namespace CardBridge.Digits

/-- The value of a decimal digit. -/
def decimalValue? (c : Char) : Option Nat :=
  if '0' ≤ c ∧ c ≤ '9' then some (c.toNat - '0'.toNat) else none

/-- The value of a hexadecimal digit, in either case. -/
def hexadecimalValue? (c : Char) : Option Nat :=
  if '0' ≤ c ∧ c ≤ '9' then some (c.toNat - '0'.toNat)
  else if 'a' ≤ c ∧ c ≤ 'f' then some (c.toNat - 'a'.toNat + 10)
  else if 'A' ≤ c ∧ c ≤ 'F' then some (c.toNat - 'A'.toNat + 10)
  else none

/-- Whether a character is a decimal digit. -/
def isDecimal (c : Char) : Bool :=
  (decimalValue? c).isSome

/-- Whether a character is a hexadecimal digit. -/
def isHexadecimal (c : Char) : Bool :=
  (hexadecimalValue? c).isSome

/-- The value of a run of digits in base `b` after a run worth `n`. -/
def readFrom (b : Nat) (value? : Char → Option Nat) : Nat → List Char → Option Nat
  | n, [] => some n
  | n, c :: cs =>
    match value? c with
    | some d => readFrom b value? (n * b + d) cs
    | none => none

/-- A run of decimal digits, at least one. -/
def decimal? : List Char → Option Nat
  | [] => none
  | cs => readFrom 10 decimalValue? 0 cs

/-- A run of hexadecimal digits, at least one. -/
def hexadecimal? : List Char → Option Nat
  | [] => none
  | cs => readFrom 16 hexadecimalValue? 0 cs

/-- The value of a run of characters all of which are decimal digits. -/
def decimalValue (cs : List Char) : Nat :=
  (readFrom 10 decimalValue? 0 cs).getD 0

end CardBridge.Digits

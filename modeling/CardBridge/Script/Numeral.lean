import CardBridge.Numeral.Decimal
import CardBridge.Numeral.Rounded
import CardBridge.Script.Value

/-!
# Numerals of the script language

How scripts read and write numbers. A numeral is an integer if it is written as one: a decimal
one that does not fit becomes a float, a hexadecimal one wraps. Floats are written with at most
14 significant digits and always look like floats.
-/

namespace CardBridge.Script.Numeral

/-- The white space of the script language, which is ASCII. -/
def isSpace (c : Char) : Bool :=
  c == ' ' || ('\t' ≤ c && c ≤ '\r')

/-- Without the script language's white space at either end. -/
def trim (cs : List Char) : List Char :=
  ((cs.dropWhile isSpace).reverse.dropWhile isSpace).reverse

/-- Take the sign off a numeral. -/
def sign : List Char → Bool × List Char
  | '-' :: cs => (true, cs)
  | '+' :: cs => (false, cs)
  | cs => (false, cs)

/-- An integer numeral without sign: decimal and in range, or hexadecimal and wrapped. The one
decimal that is in range only below zero is allowed when `negative`. -/
def unsignedInt? (negative : Bool) : List Char → Option Int64
  | '0' :: 'x' :: cs | '0' :: 'X' :: cs =>
    (Digits.hexadecimal? cs).map fun n => Int64.ofNat (n % UInt64.size)
  | cs =>
    match Digits.decimal? cs with
    | some n =>
      if n < Nat.pow 2 63 ∨ (negative ∧ n = Nat.pow 2 63) then some (Int64.ofNat n) else none
    | none => none

/-- The digits of a hexadecimal float, read to a mantissa and how many of them stand after the
point; at least one digit. -/
def hexMantissa? (cs : List Char) : Option (Nat × Nat) :=
  let whole := cs.takeWhile Digits.isHexadecimal
  match cs.dropWhile Digits.isHexadecimal with
  | [] => (Digits.hexadecimal? whole).map fun n => (n, 0)
  | '.' :: rest =>
    if rest.all Digits.isHexadecimal then
      (Digits.hexadecimal? (whole ++ rest)).map fun n => (n, rest.length)
    else none
  | _ => none

/-- A hexadecimal float without sign and `0x`: its exponent is a power of two, written in
decimal. -/
def hexFloat? (cs : List Char) : Option Float :=
  let isMark (c : Char) : Bool := c == 'p' || c == 'P'
  match hexMantissa? (cs.takeWhile fun c => !isMark c), cs.dropWhile fun c => !isMark c with
  | some (m, places), [] => some (Binary64.ofDyadic false m (-(4 * places : Int)))
  | some (m, places), _ :: e =>
    (Decimal.exponent? e).map fun n => Binary64.ofDyadic false m (n - (4 * places : Int))
  | none, _ => none

/-- A float numeral without sign. -/
def unsignedFloat? : List Char → Option Float
  | '0' :: 'x' :: cs | '0' :: 'X' :: cs => hexFloat? cs
  | cs => (Decimal.read? cs).map Decimal.toFloat

/-- The number of a numeral whose sign has been taken off: an integer, or else a float. -/
def signed? (negative : Bool) (cs : List Char) : Option Value :=
  match unsignedInt? negative cs with
  | some n => some (.int (if negative then -n else n))
  | none => (unsignedFloat? cs).map fun x => .num (if negative then -x else x)

/-- Read a numeral, with white space around it allowed. -/
def read? (s : Bytes) : Option Value :=
  let (negative, cs) := sign (trim s.toChars)
  signed? negative cs

/-- Significant digits of a float in a script. -/
def precision : Nat := 14

/-- Write a float: positional from `1e-4` up to 14 digits before the point, with an exponent
otherwise, and `.0` after what would read as an integer. -/
def writeFloat (x : Float) : String :=
  match Binary64.decode x with
  | .nan => "nan"
  | .infinite negative => if negative then "-inf" else "inf"
  | .finite negative m e =>
    let text :=
      if m = 0 then "0.0"
      else
        let d := Rounded.significant precision (.ofDyadic m e)
        let power := d.exponent + (precision - 1)
        if power < -4 ∨ (precision : Int) ≤ power then Rounded.scientific d
        else
          let s := Rounded.positional d
          if s.toList.contains '.' then s else s ++ ".0"
    if negative then "-" ++ text else text

/-- Write an integer in decimal. -/
def writeInt (n : Int64) : String :=
  toString n.toInt

/-- Write a number; other values have no numeral. -/
def write? : Value → Option String
  | .int n => some (writeInt n)
  | .num x => some (writeFloat x)
  | .nan negative => some (if negative then "-nan" else "nan")
  | _ => none

end CardBridge.Script.Numeral

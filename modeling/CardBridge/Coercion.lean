import CardBridge.Numeral.Decimal
import CardBridge.Numeral.Binary64
import CardBridge.Script.Value
import CardBridge.Text.Blank
import CardBridge.Text.Utf8

/-!
# Reading script values as integers

The engine works with 64-bit integers. `toInteger` reads any script value as one: what is no
number reads as zero. A float has to be equal to an integer, and a string has to be a numeral,
decimal or hexadecimal, with white space allowed around it.
-/

namespace CardBridge

/-- An integer if it is one of 64 bits. -/
def narrow? (n : Int) : Option Int64 :=
  if -Int.pow 2 63 ≤ n ∧ n < Int.pow 2 63 then some (Int64.ofInt n) else none

/-- The integer a float is equal to. -/
def floatToInteger? (x : Float) : Option Int64 :=
  (Binary64.toInt? x).bind narrow?

/-- Take a sign off: whether it was a minus, and the rest. -/
def splitSign : List Char → Bool × List Char
  | '-' :: cs => (true, cs)
  | '+' :: cs => (false, cs)
  | cs => (false, cs)

/-- Take a minus sign off: whether there was one, and the rest. -/
def splitMinus : List Char → Bool × List Char
  | '-' :: cs => (true, cs)
  | cs => (false, cs)

/-- Take a plus sign off. -/
def dropPlus : List Char → List Char
  | '+' :: cs => cs
  | cs => cs

/-- A decimal integer of 64 bits, with a sign or without. -/
def parseDecimal? (cs : List Char) : Option Int64 :=
  let (negative, digits) := splitSign cs
  match Digits.decimal? digits with
  | some n => narrow? (if negative then -(n : Int) else n)
  | none => none

/-- The digits of a hexadecimal numeral, after an optional plus sign; at most 64 bits. -/
def parseHexDigits? (cs : List Char) : Option Int64 :=
  match Digits.hexadecimal? (dropPlus cs) with
  | some n => if n < UInt64.size then some (Int64.ofNat n) else none
  | none => none

/-- A decimal numeral with a sign or without, read as a float. The names of what is no finite
number are not numerals of an integer, so they are left out. -/
def parseFloat? (cs : List Char) : Option Float :=
  let (negative, digits) := splitSign cs
  (Decimal.read? digits).map fun d => if negative then -d.toFloat else d.toFloat

/-- Read a text without white space around it. A hexadecimal numeral may have a minus sign, which
wraps. -/
def parseTrimmed? (cs : List Char) : Option Int64 :=
  match parseDecimal? cs with
  | some n => some n
  | none =>
    let (negative, digits) := splitMinus cs
    match digits with
    | '0' :: 'x' :: hex | '0' :: 'X' :: hex =>
      (parseHexDigits? hex).map fun n => if negative then -n else n
    | _ => (parseFloat? cs).bind floatToInteger?

/-- The integer that a text is a numeral of. -/
def parseInteger? (text : String) : Option Int64 :=
  parseTrimmed? (trim text.toList)

/-- Read a script value as an integer. -/
def toInteger : Script.Value → Int64
  | .bool b => if b then 1 else 0
  | .int n => n
  | .num x => (floatToInteger? x).getD 0
  | .str s => (parseInteger? (Utf8.lossy s)).getD 0
  | _ => 0

/-- How many results of a call are kept: exactly so many, cut or filled up with `nil`, or all. -/
inductive ReturnCount
  | exactly (n : Nat)
  | all
  deriving DecidableEq, Repr

/-- Keep as many results as are wanted. -/
def ReturnCount.adjust : ReturnCount → List Script.Value → List Script.Value
  | exactly n, vs => Script.exactly n vs
  | all, vs => vs

end CardBridge

import CardBridge.Numeral.Integer

/-!
# Decimal numerals

A decimal numeral is a run of digits with at most one point in it and perhaps an exponent. It
stands for `mantissa * 10 ^ exponent`, and `Decimal.toFloat` is the double nearest to that.
-/

namespace CardBridge

/-- The number `mantissa * 10 ^ exponent`. -/
structure Decimal where
  mantissa : Nat
  exponent : Int
  deriving DecidableEq, Repr

namespace Decimal

/-- A whole number after an optional sign: an exponent. -/
def exponent? : List Char → Option Int
  | '+' :: cs => (Digits.decimal? cs).map Int.ofNat
  | '-' :: cs => (Digits.decimal? cs).map fun n => -(n : Int)
  | cs => (Digits.decimal? cs).map Int.ofNat

/-- Digits with an optional point among them; at least one digit. -/
def mantissa? (cs : List Char) : Option Decimal :=
  let whole := cs.takeWhile Digits.isDecimal
  match cs.dropWhile Digits.isDecimal with
  | [] => if whole.isEmpty then none else some ⟨Digits.decimalValue whole, 0⟩
  | '.' :: rest =>
    if rest.all Digits.isDecimal && !(whole.isEmpty && rest.isEmpty) then
      some ⟨Digits.decimalValue (whole ++ rest), -(rest.length : Int)⟩
    else none
  | _ => none

/-- Read a numeral without a sign. -/
def read? (cs : List Char) : Option Decimal :=
  let isMark (c : Char) : Bool := c == 'e' || c == 'E'
  match mantissa? (cs.takeWhile fun c => !isMark c), cs.dropWhile fun c => !isMark c with
  | some m, [] => some m
  | some m, _ :: e => (exponent? e).map fun n => { m with exponent := m.exponent + n }
  | none, _ => none

/-- How many decimal digits `n` has. -/
def digitCount (n : Nat) : Nat :=
  (Nat.toDigits 10 n).length

/-- The double nearest to the number. Numbers past every double or below half the least one
are told by their size alone, so that no vast power of ten is computed. -/
def toFloat (d : Decimal) : Float :=
  let size := d.exponent + digitCount d.mantissa
  if d.mantissa = 0 ∨ size < -400 then 0.0
  else if size > 400 then 1.0 / 0.0
  else
    match d.exponent with
    | .ofNat e => Float.ofScientific d.mantissa false e
    | .negSucc e => Float.ofScientific d.mantissa true (e + 1)

end Decimal

end CardBridge

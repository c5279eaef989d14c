import CardBridge.Script.Numeral

/-!
# Arithmetic

What operators do with numbers. Integers wrap at 64 bits and are compared with floats exactly.
Every operation here leaves values it does not apply to alone (`none`), since a script may have
given them a meaning of their own.
-/

namespace CardBridge.Script

namespace Value

/-- A number as a float. -/
def toFloat? : Value → Option Float
  | int n => some n.toFloat
  | num x => some x
  | nan _ => some (0.0 / 0.0)
  | _ => none

/-- Whether an integer is one of the 64-bit integers. -/
def inRange (n : Int) : Bool :=
  -Int.pow 2 63 ≤ n && n < Int.pow 2 63

/-- The integer a number is equal to. -/
def toInteger? : Value → Option Int64
  | int n => some n
  | num x =>
    match Binary64.toInt? x with
    | some n => if inRange n then some (Int64.ofInt n) else none
    | none => none
  | _ => none

/-- The value as a key of a table: a float that is equal to an integer is that integer. -/
def key (v : Value) : Value :=
  match v with
  | num _ => (v.toInteger?.map int).getD v
  | v => v

/-- The number that a number is, or that a string can be read as. -/
def toNumber? : Value → Option Value
  | str s => Numeral.read? s
  | int n => some (int n)
  | num x => some (num x)
  | nan s => some (nan s)
  | _ => none

/-- The text of a string or a number. -/
def toText? : Value → Option Bytes
  | str s => some s
  | v => (Numeral.write? v).map bytes

/-- Equality without regard to what scripts say about it. -/
def rawEqual : Value → Value → Bool
  | num x, num y => x == y
  | int n, num x | num x, int n => Binary64.toInt? x == some n.toInt
  | nan _, _ | _, nan _ => false
  | v, w => v == w

end Value

/-! ## Floats -/

/-- Apply an operation on floats. What is no number stays what it is; what turns out as no
number from numbers has the sign the hardware gives it. -/
def onFloats (f : Float → Float → Float) : Value → Value → Option Value
  | .nan s, b => b.toFloat?.map fun _ => .nan s
  | a, .nan s => a.toFloat?.map fun _ => .nan s
  | a, b =>
    match a.toFloat?, b.toFloat? with
    | some x, some y => some (.ofFloat (f x y) true)
    | _, _ => none

/-- The remainder with the sign of the divisor. -/
def floatMod (x y : Float) : Float :=
  let r := Binary64.remainder x y
  if r != 0 && ((r < 0) != (y < 0)) then r + y else r

/-- A power; squares are exact products. -/
def floatPow (x y : Float) : Float :=
  if y == 2.0 then x * x else Float.pow x y

/-! ## Integers -/

/-- Shift to the left, or to the right by a negative count; zeros come in on either side. -/
def shiftLeft (x y : Int64) : Int64 :=
  let n := y.toInt
  let w := x.toBitVec
  if n ≤ -64 ∨ 64 ≤ n then 0
  else if 0 ≤ n then ⟨⟨w <<< n.toNat⟩⟩
  else ⟨⟨w >>> (-n).toNat⟩⟩

/-- What an arithmetic operator does. -/
inductive Computed
  | value (v : Value)
  | failed (message : String)
  /-- The operator does not apply to these values. -/
  | undefined

/-- Operators on two integers that give an integer; division by zero has no result. -/
def integerArith (op : Arith) (a b : Int64) : Computed :=
  let wrap (n : Int) : Computed := .value (.int (Int64.ofInt n))
  match op with
  | .add => .value (.int (a + b))
  | .sub => .value (.int (a - b))
  | .mul => .value (.int (a * b))
  | .unm => .value (.int (-a))
  | .idiv => if b = 0 then .failed "attempt to divide by zero" else wrap (a.toInt.fdiv b.toInt)
  | .mod => if b = 0 then .failed "attempt to perform 'n%0'" else wrap (a.toInt.fmod b.toInt)
  | .band => .value (.int (a &&& b))
  | .bor => .value (.int (a ||| b))
  | .bxor => .value (.int (a ^^^ b))
  | .shl => .value (.int (shiftLeft a b))
  | .shr => .value (.int (shiftLeft a (-b)))
  | .bnot => .value (.int (~~~a))
  | .div | .pow => .undefined

/-- Whether an operator works on the bits of integers. -/
def Arith.isBitwise : Arith → Bool
  | .band | .bor | .bxor | .shl | .shr | .bnot => true
  | _ => false

/-- The operation on floats. -/
def floatArith (op : Arith) (a b : Value) : Option Value :=
  match op with
  | .add => onFloats (· + ·) a b
  | .sub => onFloats (· - ·) a b
  | .mul => onFloats (· * ·) a b
  | .div => onFloats (· / ·) a b
  | .idiv => onFloats (fun x y => (x / y).floor) a b
  | .mod => onFloats floatMod a b
  | .pow => onFloats floatPow a b
  | .unm =>
    match a with
    | .nan s => some (.nan !s)
    | a => a.toFloat?.map fun x => .num (-x)
  | _ => none

/-- Whether a value is a number. -/
def Value.isNumber : Value → Bool
  | .int _ | .num _ | .nan _ => true
  | _ => false

/-- Apply an arithmetic operator to numbers. An operator of one operand gets it twice. -/
def arith (op : Arith) (a b : Value) : Computed :=
  if op.isBitwise then
    match a.toInteger?, b.toInteger? with
    | some m, some n => integerArith op m n
    | _, _ => .undefined
  else
    match a, b with
    | .int m, .int n =>
      match integerArith op m n with
      | .undefined => ((floatArith op a b).map .value).getD .undefined
      | r => r
    | a, b => ((floatArith op a b).map .value).getD .undefined

/-! ## Order -/

/-- Whether an integer is less than a float. -/
def intLtFloat (n : Int) (x : Float) : Bool :=
  match Binary64.decode x with
  | .nan => false
  | .infinite negative => !negative
  | .finite .. => ((Binary64.ceilInt? x).map fun c => decide (n < c)).getD false

/-- Whether an integer is at most a float. -/
def intLeFloat (n : Int) (x : Float) : Bool :=
  match Binary64.decode x with
  | .nan => false
  | .infinite negative => !negative
  | .finite .. => ((Binary64.floorInt? x).map fun c => decide (n ≤ c)).getD false

/-- Whether one value is less than another; `none` for values without an order. -/
def lessThan? : Value → Value → Option Bool
  | .int m, .int n => some (decide (m < n))
  | .int m, .num x => some (intLtFloat m.toInt x)
  | .num x, .int n => some (!intLeFloat n.toInt x)
  | .num x, .num y => some (x < y)
  | .str s, .str t => some (Bytes.lt s t)
  | a, b => if a.isNumber && b.isNumber then some false else none

/-- Whether one value is at most another; `none` for values without an order. -/
def lessEqual? : Value → Value → Option Bool
  | .int m, .int n => some (decide (m ≤ n))
  | .int m, .num x => some (intLeFloat m.toInt x)
  | .num x, .int n => some (!intLtFloat n.toInt x)
  | .num x, .num y => some (x ≤ y)
  | .str s, .str t => some (Bytes.le s t)
  | a, b => if a.isNumber && b.isNumber then some false else none

/-! ## Loops over numbers -/

/-- How a loop over numbers goes on: over integers, with how many turns follow the current one,
or over floats up to a limit. -/
inductive Counting
  | integers (current step : Int64) (left : Nat)
  | floats (current limit step : Float)

/-- The limit of a loop over integers; `none` if the loop does not run at all. A limit that is no
integer is rounded towards the start, and one out of range is cut. -/
def integerLimit? (limit : Value) (step : Int64) : Option Int64 :=
  match limit with
  | .int n => some n
  | .num x =>
    let rounded := if step < 0 then Binary64.ceilInt? x else Binary64.floorInt? x
    match rounded with
    | some n =>
      if Value.inRange n then some (Int64.ofInt n)
      else if 0 < n then (if step < 0 then none else some Int64.maxValue)
      else if 0 < step then none
      else some Int64.minValue
    | none =>
      if 0.0 < x then (if step < 0 then none else some Int64.maxValue)
      else if 0 < step then none
      else some Int64.minValue
  | _ => if 0 < step then none else some Int64.minValue

/-- Prepare a loop over numbers: `none` if it does not run, an error message if it cannot. -/
def startCounting (typeText : Value → Bytes) (start limit step : Value) :
    Except Bytes (Option Counting) :=
  let bad (what : String) (v : Value) : Except Bytes (Option Counting) :=
    .error (bytes ("bad 'for' " ++ what ++ " (number expected, got ") ++ typeText v ++ bytes ")")
  match start, step with
  | .int a, .int s =>
    if s = 0 then .error (bytes "'for' step is zero")
    else
      match limit.toNumber? with
      | none => bad "limit" limit
      | some l =>
        match integerLimit? l s with
        | none => .ok none
        | some b =>
          if (0 < s ∧ b < a) ∨ (s < 0 ∧ a < b) then .ok none
          else .ok (some (.integers a s ((b.toInt - a.toInt).natAbs / s.toInt.natAbs)))
  | _, _ =>
    match limit.toNumber?.bind Value.toFloat?, step.toNumber?.bind Value.toFloat?,
        start.toNumber?.bind Value.toFloat? with
    | none, _, _ => bad "limit" limit
    | _, none, _ => bad "step" step
    | _, _, none => bad "initial value" start
    | some b, some s, some a =>
      if s == 0.0 then .error (bytes "'for' step is zero")
      else if (if 0.0 < s then a ≤ b else b ≤ a) then .ok (some (.floats a b s))
      else .ok none

namespace Counting

/-- The value of the loop's variable. -/
def value : Counting → Value
  | integers n _ _ => .int n
  | floats x _ _ => .ofFloat x true

/-- The next turn, if there is one. -/
def next : Counting → Option Counting
  | integers _ _ 0 => none
  | integers n s (k + 1) => some (integers (n + s) s k)
  | floats x b s =>
    let y := x + s
    if (if 0.0 < s then y ≤ b else b ≤ y) then some (floats y b s) else none

end Counting

end CardBridge.Script

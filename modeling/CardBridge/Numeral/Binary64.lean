/-!
# The exact value of a double

`Binary64.decode` takes a double apart into a sign, an integer mantissa and a power of two, so
that questions about its value become questions about integers. `Binary64.toInt?` is the
integer a double is exactly equal to. Powers are written with `Nat.pow` and `Int.pow`: which
instance `^` stands for depends on what else is imported.
-/

namespace CardBridge

/-- A double as what it stands for. A finite one is `± mantissa * 2 ^ exponent`. -/
inductive Binary64
  | nan
  | infinite (negative : Bool)
  | finite (negative : Bool) (mantissa : Nat) (exponent : Int)
  deriving DecidableEq, Repr

namespace Binary64

/-- Take a double apart. -/
def decode (x : Float) : Binary64 :=
  let w := x.toBits.toNat
  let negative := decide (Nat.pow 2 63 ≤ w)
  let field : Nat := w / Nat.pow 2 52 % Nat.pow 2 11
  let fraction : Nat := w % Nat.pow 2 52
  if field = 2047 then
    if fraction = 0 then infinite negative else nan
  else if field = 0 then finite negative fraction (-1074)
  else finite negative (Nat.pow 2 52 + fraction) ((field : Int) - 1075)

/-- `m` with a sign. -/
def signed (negative : Bool) (m : Nat) : Int :=
  if negative then -(m : Int) else m

/-- The integer that a double is exactly equal to. -/
def exactInt? : Binary64 → Option Int
  | nan | infinite _ => none
  | finite negative m (.ofNat e) => some (signed negative (m * Nat.pow 2 e))
  | finite negative m (.negSucc e) =>
    if m % Nat.pow 2 (e + 1) = 0 then some (signed negative (m / Nat.pow 2 (e + 1))) else none

/-- The integer that a double is exactly equal to. -/
def toInt? (x : Float) : Option Int :=
  (decode x).exactInt?

/-- The greatest integer that is at most the double; `none` for what is not finite. -/
def floorInt? (x : Float) : Option Int :=
  match decode x with
  | nan | infinite _ => none
  | finite negative m (.ofNat e) => some (signed negative (m * Nat.pow 2 e))
  | finite negative m (.negSucc e) => some (Int.fdiv (signed negative m) (Int.pow 2 (e + 1)))

/-- The least integer that is at least the double; `none` for what is not finite. -/
def ceilInt? (x : Float) : Option Int :=
  (floorInt? (-x)).map (- ·)

/-- The double nearest to `± m * 2 ^ e`. Numbers past every double or below half the least one are
told by their size alone, so that no vast power of two is computed. -/
def ofDyadic (negative : Bool) (m : Nat) (e : Int) : Float :=
  let size := e + m.log2
  let x :=
    if m = 0 ∨ size < -1100 then 0.0
    else if size > 1100 then 1.0 / 0.0
    else .ofModel (.pack (.round .binary64 .positive m e))
  if negative then -x else x

/-- The remainder of `x / y` with the sign of `x`, computed exactly on integers. -/
def remainder (x y : Float) : Float :=
  match decode x, decode y with
  | finite negative m e, finite _ m' e' =>
    if m' = 0 then 0.0 / 0.0
    else
      let low := min e e'
      let a := m * Nat.pow 2 (e - low).toNat
      let b := m' * Nat.pow 2 (e' - low).toNat
      ofDyadic negative (a % b) low
  | finite _ _ _, infinite _ => x
  | _, _ => 0.0 / 0.0

end Binary64

end CardBridge

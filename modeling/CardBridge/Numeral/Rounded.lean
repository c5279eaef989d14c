import CardBridge.Numeral.Binary64

/-!
# Decimal digits of a double

A finite double is a fraction of whole numbers, so its decimal digits are found by whole-number
division. `Rounded.significant` keeps a given count of digits, `Rounded.shortest` the fewest that
read back as the same double. Both give `digits * 10 ^ exponent`. `positional` and `scientific`
write such a pair.
-/

namespace CardBridge.Rounded

/-- A positive fraction. -/
structure Fraction where
  num : Nat
  den : Nat

/-- The fraction `m * 2 ^ e`. -/
def Fraction.ofDyadic (m : Nat) : Int → Fraction
  | .ofNat e => ⟨m * Nat.pow 2 e, 1⟩
  | .negSucc e => ⟨m, Nat.pow 2 (e + 1)⟩

/-- The least `j` below `fuel` for which `num * 10 ^ j` is at least `den`, counted on from `j`. -/
def Fraction.lift (den : Nat) : Nat → Nat → Nat → Nat
  | 0, _, j => j
  | fuel + 1, num, j => if den ≤ num then j else Fraction.lift den fuel (num * 10) (j + 1)

/-- The `k` with `10 ^ (k - 1) ≤ x < 10 ^ k`. No double needs more than 324 steps up. -/
def Fraction.magnitude (x : Fraction) : Int :=
  if x.den ≤ x.num then (Nat.toDigits 10 (x.num / x.den)).length
  else 1 - (Fraction.lift x.den 400 x.num 0 : Int)

/-- `x * 10 ^ s`. -/
def Fraction.scale (x : Fraction) : Int → Fraction
  | .ofNat s => ⟨x.num * Nat.pow 10 s, x.den⟩
  | .negSucc s => ⟨x.num, x.den * Nat.pow 10 (s + 1)⟩

/-- The whole number nearest to `x`; a tie goes to the even one. -/
def Fraction.round (x : Fraction) : Nat :=
  let q := x.num / x.den
  let r := x.num % x.den
  if 2 * r < x.den then q
  else if 2 * r = x.den then q + q % 2
  else q + 1

/-- Digits and the power of ten they are multiplied by. -/
structure Digits where
  digits : Nat
  exponent : Int
  deriving DecidableEq, Repr

/-- `x` rounded to `n` significant digits. -/
def significant (n : Nat) (x : Fraction) : Digits :=
  let k := x.magnitude
  let c := (x.scale (n - k)).round
  if c = Nat.pow 10 n then ⟨Nat.pow 10 (n - 1), k - n + 1⟩ else ⟨c, k - n⟩

/-- The decimals between the two halfway points around the double `m * 2 ^ e` read back as that
double, the halfway points themselves only if `m` is even. The lower one is nearer when `m` is
the least mantissa of its binade. All three are counted in quarters of the last binary place. -/
def readsBack (m : Nat) (e : Int) (c : Nat) (s : Int) : Bool :=
  let low := if m = Nat.pow 2 52 ∧ e ≠ -1074 then 4 * m - 1 else 4 * m - 2
  let high := 4 * m + 2
  let point := (Fraction.ofDyadic 1 (-(e - 2))).num * c
  let quarter := (Fraction.ofDyadic 1 (-(e - 2))).den
  let x := (Fraction.mk point quarter).scale s
  if m % 2 = 0 then low * x.den ≤ x.num && x.num ≤ high * x.den
  else low * x.den < x.num && x.num < high * x.den

/-- Look for digits that read back, on grids of `n`, `n + 1`, … digits. On each grid the two
neighbours of the double are tried, the nearer one first. -/
def shortestFrom (m : Nat) (e k : Int) : Nat → Nat → Digits
  | 0, n => significant n (.ofDyadic m e)
  | fuel + 1, n =>
    let x := (Fraction.ofDyadic m e).scale (n - k)
    let near := x.round
    let below := x.num / x.den
    let far := if near = below then below + 1 else below
    if readsBack m e near (k - n) then ⟨near, k - n⟩
    else if readsBack m e far (k - n) then ⟨far, k - n⟩
    else shortestFrom m e k fuel (n + 1)

/-- The fewest digits that read back as the double `m * 2 ^ e`, and of those the nearest. -/
def shortest (m : Nat) (e : Int) : Digits :=
  shortestFrom m e (Fraction.ofDyadic m e).magnitude 17 1

/-- The digits without the zeros at their end. -/
def trimZeros (cs : List Char) : List Char :=
  (cs.reverse.dropWhile (· == '0')).reverse

/-- Write `digits * 10 ^ exponent` with a point and no exponent; no zeros at the end of the
fraction, and no point without one. -/
def positional (d : Digits) : String :=
  let cs := Nat.toDigits 10 d.digits
  match d.exponent with
  | .ofNat e => String.ofList (cs ++ List.replicate e '0')
  | .negSucc e =>
    let places := e + 1
    let padded := List.replicate (places + 1 - cs.length) '0' ++ cs
    let whole := padded.take (padded.length - places)
    let fraction := trimZeros (padded.drop (padded.length - places))
    if fraction.isEmpty then String.ofList whole
    else String.ofList (whole ++ '.' :: fraction)

/-- A whole number with at least two digits. -/
def twoDigits (n : Nat) : String :=
  if n < 10 then "0" ++ toString n else toString n

/-- Write `digits * 10 ^ exponent` with one digit before the point and a signed exponent of at
least two digits. -/
def scientific (d : Digits) : String :=
  let cs := Nat.toDigits 10 d.digits
  let power := d.exponent + (cs.length - 1)
  let fraction := trimZeros (cs.drop 1)
  let mark := if power < 0 then "e-" else "e+"
  let head := String.ofList (cs.take 1)
  let tail := if fraction.isEmpty then "" else "." ++ String.ofList fraction
  head ++ tail ++ mark ++ twoDigits power.natAbs

end CardBridge.Rounded

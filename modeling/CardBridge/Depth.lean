/-!
# Nested invocations

A counter of the invocations in progress, with a bound. `CallDepth.enter?` refuses to go past it.
-/

namespace CardBridge

/-- How many invocations are in progress, how many may be, and the most there were since the
counter was made or `resetPeak`. -/
structure CallDepth where
  current : Nat
  max : Nat
  peak : Nat
  deriving DecidableEq, Repr

namespace CallDepth

/-- A counter that allows `max` nested invocations. -/
def new (max : Nat) : CallDepth :=
  ⟨0, max, 0⟩

/-- Whether the bound is reached. -/
def isSaturated (d : CallDepth) : Bool :=
  d.max ≤ d.current

/-- One level more, unless the bound is reached. -/
def enter? (d : CallDepth) : Option CallDepth :=
  if d.isSaturated then none
  else some { d with current := d.current + 1, peak := Nat.max d.peak (d.current + 1) }

/-- One level less; never below zero. -/
def leave (d : CallDepth) : CallDepth :=
  { d with current := d.current - 1 }

/-- Forget the peak. -/
def resetPeak (d : CallDepth) : CallDepth :=
  { d with peak := d.current }

theorem enter?_eq_none_iff (d : CallDepth) : d.enter? = none ↔ d.max ≤ d.current := by
  simp [enter?, isSaturated]

theorem enter?_eq_some_iff (d d' : CallDepth) : d.enter? = some d' ↔
    d.current < d.max ∧ ⟨d.current + 1, d.max, Nat.max d.peak (d.current + 1)⟩ = d' := by
  unfold enter? isSaturated
  split
  case isTrue h => simpa using fun hlt => absurd (of_decide_eq_true h) (Nat.not_le.mpr hlt)
  case isFalse h =>
    have hlt : d.current < d.max := Nat.not_le.mp fun hle => h (decide_eq_true hle)
    simp [hlt]

end CallDepth

end CardBridge

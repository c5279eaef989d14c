import CardBridge.Script.Arithmetic

/-!
# Tables

A table maps keys to values and has perhaps a metatable. The values at `1`, `2`, … up to some
number lie in an array, all others in a list. `Table.get` and `Table.set` are the reading and
writing that no metatable has a say in; `Table.border` is the length.
-/

namespace CardBridge.Script

/-- The contents of a table. -/
structure Table where
  items : Array Value
  fields : List (Value × Value)
  /-- The table that says what operators do with this one. -/
  metatable : Option Nat
  deriving Inhabited

namespace Table

/-- A table with nothing in it. -/
def empty : Table :=
  ⟨#[], [], none⟩

/-- The place of an integer key in the array, if it has one there. -/
def place? (t : Table) : Value → Option Nat
  | .int n => if 1 ≤ n ∧ n.toInt ≤ t.items.size then some (n.toInt.toNat - 1) else none
  | _ => none

/-- The value at a key; `nil` if there is none. -/
def get (t : Table) (key : Value) : Value :=
  let k := key.key
  match t.place? k with
  | some i => t.items[i]?.getD .nil
  | none => (t.fields.lookup k).getD .nil

/-- Put a value into a list of fields, at its old place if there is one. -/
def setField (k v : Value) : List (Value × Value) → List (Value × Value)
  | [] => [(k, v)]
  | (k', v') :: rest => if k' = k then (k, v) :: rest else (k', v') :: setField k v rest

/-- Put a value at a key. `nil` takes away what was there. -/
def set (t : Table) (key v : Value) : Table :=
  let k := key.key
  match t.place? k with
  | some i => { t with items := t.items.setIfInBounds i v }
  | none =>
    if v = .nil then { t with fields := t.fields.filter fun p => p.1 ≠ k }
    else if k = .int (Int64.ofNat (t.items.size + 1)) ∧ (t.fields.lookup k).isNone then
      { t with items := t.items.push v }
    else { t with fields := setField k v t.fields }

/-- A place in `low < i ≤ high` with a value before it and none at it, given that there is a value
before `low + 1` and none at `high`, counting from 1. -/
def searchBorder (items : Array Value) : Nat → Nat → Nat → Nat
  | 0, low, _ => low
  | fuel + 1, low, high =>
    if high ≤ low + 1 then low
    else
      let middle := (low + high) / 2
      if items[middle - 1]?.getD .nil = .nil then searchBorder items fuel low middle
      else searchBorder items fuel middle high

/-- Count on from `n` while the fields hold the next integer. -/
def countFields (fields : List (Value × Value)) : Nat → Nat → Nat
  | 0, n => n
  | fuel + 1, n =>
    match fields.lookup (.int (Int64.ofNat (n + 1))) with
    | some _ => countFields fields fuel (n + 1)
    | none => n

/-- The length: some `n` with a value at `n`, or 0, and none at `n + 1`. -/
def border (t : Table) : Nat :=
  let n := t.items.size
  if n ≠ 0 ∧ t.items[n - 1]?.getD .nil = .nil then
    if 2 ≤ n ∧ t.items[n - 2]?.getD .nil ≠ .nil then n - 1
    else searchBorder t.items (n + 1) 0 n
  else countFields t.fields (t.fields.length + 1) n

/-- The values at `1`, `2`, … up to the first `nil`, read past any metatable; at most as many as
the table holds. -/
def sequence (t : Table) : List Value :=
  ((List.range (t.items.size + t.fields.length)).map fun i =>
    t.get (.int (Int64.ofNat (i + 1)))).takeWhile (· ≠ .nil)

/-- A table with values at `1`, `2`, …; a `nil` leaves its place out. -/
def ofList (vs : List Value) : Table :=
  vs.zipIdx.foldl (fun t p => t.set (.int (Int64.ofNat (p.2 + 1))) p.1) empty

end Table

end CardBridge.Script

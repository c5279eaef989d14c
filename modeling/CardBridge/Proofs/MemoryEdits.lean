import CardBridge.Script.Frame
import Mathlib.Logic.Relation

/-!
# What a script does to the memory

A script changes the memory by `Memory.Edit`s : it sets cells, tables and coroutines that are there,
adds new ones, and tells the collector something. Nothing is ever taken away. In particular a
coroutine keeps its number (`Memory.Edits.threads_size_le`).
-/

namespace CardBridge.Script

open Relation

/-! ## Edits -/

/-- One change of the memory. -/
inductive Memory.Edit : Memory → Memory → Prop
  | setCell (m : Memory) (c : Nat) (v : Value) : Edit m (m.setCell c v)
  | addCells (m : Memory) (vs : List Value) : Edit m { m with cells := m.cells ++ vs.toArray }
  | addTable (m : Memory) (t : Table) : Edit m (m.addTable t).2
  | updateTable (m : Memory) (t : Nat) (f : Table → Table) : Edit m (m.updateTable t f)
  | addClosure (m : Memory) (c : Closure) : Edit m (m.addClosure c).2
  | addThread (m : Memory) (f : Value) : Edit m (m.addThread f).2
  | setThread (m : Memory) (t : Nat) (st : ThreadState) : Edit m (m.setThread t st)
  | collect (m : Memory) (marked : List Nat) (collects : Bool) : Edit m { m with marked, collects }

/-- Changes of the memory, one after the other. -/
def Memory.Edits : Memory → Memory → Prop :=
  ReflTransGen Memory.Edit

namespace Memory

variable {m m' m'' : Memory}

@[refl] theorem Edits.refl (m : Memory) : Edits m m :=
  ReflTransGen.refl

theorem Edits.edit (h : Edits m m') (e : Edit m' m'') : Edits m m'' :=
  ReflTransGen.tail h e

theorem Edits.updateTable (h : Edits m m') (t : Nat) (f : Table → Table) :
    Edits m (m'.updateTable t f) :=
  h.edit (.updateTable _ t f)

theorem Edits.rawSet (h : Edits m m') (t : Nat) (key v : Value) : Edits m (m'.rawSet t key v) :=
  h.updateTable t _

/-- No coroutine is taken away. -/
theorem Edits.threads_size_le (h : Edits m m') : m.threads.size ≤ m'.threads.size := by
  induction h with
  | refl => exact Nat.le_refl _
  | tail _ e ih =>
    refine Nat.le_trans ih ?_
    cases e <;> simp [Memory.setCell, Memory.addTable, Memory.updateTable,
      Memory.addClosure, Memory.addThread, Memory.setThread]

end Memory

end CardBridge.Script

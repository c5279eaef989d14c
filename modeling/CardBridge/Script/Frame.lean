import CardBridge.Script.ChunkName
import CardBridge.Script.Syntax
import CardBridge.Script.Table

/-!
# The state of a running script

A script runs on a stack of frames, each of which says what is to be done with the result of
what runs above it. A call leaves an `activation` and the start of a coroutine a `boundary`. Each
time the host starts something it does so on a stack of its own; what the host was called from
below is only known by its `Base`.

The memory holds what values refer to by number. Together with the stack and the `Control`, which
says what to do next, it is all there is to the state: running is a function of it.
-/

namespace CardBridge.Script

/-- The variables a function sees, innermost first, each named by its cell, the further arguments
it got, and the chunk it stands in. -/
structure Env where
  vars : List Nat
  varargs : List Value
  chunk : Bytes

/-- A function of a script with the variables it sees. -/
structure Closure where
  body : FunctionBody
  vars : List Nat
  chunk : Bytes

/-- How a call is made: from where in a script, if from one, and by which name of the function. -/
structure Site where
  position : Option Position
  name : Option Described

/-- A call from outside any script. -/
def Site.outside : Site :=
  ⟨none, none⟩

/-- A call in progress. -/
structure Activation where
  site : Site
  /-- Activations below it in its coroutine. -/
  depth : Nat
  /-- Calls below it that were not made by a script directly. -/
  levels : Nat
  /-- Whether the coroutine can be left from inside it. -/
  yieldable : Bool

/-- Who resumed a coroutine, and so gets to know how it went on. -/
inductive Resumer
  /-- `coroutine.resume`, which catches errors. -/
  | resume
  /-- A function made by `coroutine.wrap`, which passes them on. -/
  | wrapper
  | host
  deriving DecidableEq

/-- What to do with the values of the operands of an operation. -/
inductive Ready
  | index (name : Option Described) (line : Nat)
  | call (name : Option Described) (line : Nat)
  | tailCall (name : Option Described) (line : Nat)
  | binary (op : BinOp) (left right : Option Described) (line : Nat)
  | unary (op : UnOp) (name : Option Described) (line : Nat)
  /-- Put a named entry into a table being made. -/
  | entry (table : Nat) (pending : List Value) (rest : List Item) (line : Nat)
  | ret
  | locals (count : Nat)
  | closing (name : Bytes) (before after : Nat) (line : Nat)
  | assign (targets : List Target)
  | count (body : List Stat) (line : Nat)
  | each (names : Nat) (body : List Stat) (line : Nat)

/-- A place that a value is being assigned to. -/
inductive Place
  | variable (cell : Nat)
  | slot (object key : Value) (name : Option Described) (line : Nat)

/-- Ways to leave statements before their end. -/
inductive Exit
  | leave
  | jump (label : Bytes)
  | ret (values : List Value)

/-- What waits on the stack. -/
inductive Frame
  /-- Operands: values so far, last first, and what is still to be evaluated. -/
  | operands (done : List Value) (rest : List Expr) (env : Env) (ready : Ready)
  /-- The left side of `and` (`isAnd`) or `or`. -/
  | branch (isAnd : Bool) (right : Expr) (env : Env)
  /-- Keeps one value. -/
  | single
  /-- Turns a value into a truth value, perhaps the opposite one. -/
  | truth (negated : Bool)
  /-- The object of a method call. -/
  | method (name : Bytes) (args : List Expr) (env : Env) (described : Option Described) (line : Nat)
      (isTail : Bool)
  /-- The function of a method call on `object`. -/
  | methodArgs (object : Value) (name : Bytes) (args : List Expr) (env : Env) (line : Nat)
      (isTail : Bool)
  /-- A positional entry of a table being made. -/
  | entries (table : Nat) (env : Env) (pending : List Value) (rest : List Item)
  /-- A block, with all its statements and those still to come. -/
  | block (all rest : List Stat) (env : Env)
  | discard
  | choose (yes no : List Stat) (env : Env)
  | whileTest (condition : Expr) (body : List Stat) (env : Env)
  | whileBody (condition : Expr) (body : List Stat) (env : Env)
  | untilBody (body : List Stat) (env : Env)
  | untilTest
  | countBody (counting : Counting) (body : List Stat) (env : Env)
  | eachTest (f state : Value) (names : Nat) (body : List Stat) (env : Env) (line : Nat)
  | eachBody (f state control : Value) (names : Nat) (body : List Stat) (env : Env) (line : Nat)
  /-- Further assignments of the same statement. -/
  | stores (rest : List (Place × Value)) (env : Env)
  /-- A value to be closed when the scope ends. -/
  | toClose (v : Value) (env : Env)
  /-- What to go on with after a value was closed: an exit, an error or just the end. -/
  | closed (next : Option (Exit ⊕ Value))
  | activation (a : Activation)
  /-- The function called is to return what the call gives. -/
  | returning
  | pcall
  /-- The text of a value is being asked for. -/
  | rendered
  /-- The next element of a list is being looked up. -/
  | element (index : Int64)
  /-- The elements of a table are being looked up, those so far last first. -/
  | elements (table : Value) (next : Int64) (left : Nat) (done : List Value)
  /-- The length of a table is being asked for, before its elements. -/
  | elementsTo (table : Value) (start : Int64)
  /-- The start of a coroutine. -/
  | boundary (thread : Nat) (resumer : Resumer)

/-- Where a coroutine stands. -/
inductive ThreadState
  | fresh (f : Value)
  | suspended (stack : List Frame)
  | active
  | dead

/-- What values refer to by number, and what the collector of garbage knows. -/
structure Memory where
  tables : Array Table
  cells : Array Value
  closures : Array Closure
  threads : Array ThreadState
  /-- The tables that are to be finalized when nothing refers to them, the last one marked first. -/
  marked : List Nat
  /-- Whether the collector works. -/
  collects : Bool

/-- What to do next. -/
inductive Control
  | eval (env : Env) (e : Expr)
  | exec (env : Env) (s : Stat)
  /-- An expression is done. -/
  | give (vs : List Value)
  /-- A statement is done. -/
  | done
  /-- A statement is done and has brought variables into scope. -/
  | bind (env : Env)
  | call (f : Value) (args : List Value) (site : Site)
  | tailCall (f : Value) (args : List Value) (site : Site)
  /-- Look a key up, having followed `chain` metatables. -/
  | index (object key : Value) (site : Site) (chain : Nat)
  /-- Assign to a key, having followed `chain` metatables. -/
  | store (object key v : Value) (site : Site) (chain : Nat)
  | leave (exit : Exit)
  | throw (v : Value)
  | resume (thread : Nat) (args : List Value) (resumer : Resumer)
  /-- A coroutine of the host is suspended. -/
  | suspended (vs : List Value)

/-- What lies below a stack. -/
structure Base where
  depth : Nat
  levels : Nat
  /-- Whether a coroutine runs down there. -/
  threaded : Bool

/-- The whole state of a running script. -/
structure State where
  memory : Memory
  control : Control
  stack : List Frame
  base : Base

/-- How what the host has started has ended, or for a coroutine perhaps only stopped. -/
inductive Completion
  | returned (vs : List Value)
  | yielded (vs : List Value)
  | raised (v : Value)
  deriving DecidableEq

/-- What a step comes to. -/
inductive Outcome
  | next (s : State)
  /-- A function of the host is called. The state is what to go on with, once its control is
  replaced by the answer. -/
  | native (n : Native) (args : List Value) (s : State)
  /-- What the host started has come to an end. -/
  | settled (c : Completion) (memory : Memory)
  /-- Nothing on the stack waits for this. -/
  | stuck

namespace Memory

/-- A memory with nothing in it. -/
def nothing : Memory :=
  ⟨#[], #[], #[], #[], [], true⟩

/-- The table of a number. -/
def table (m : Memory) (t : Nat) : Table :=
  m.tables[t]?.getD .empty

/-- The value of a cell. -/
def cell (m : Memory) (c : Nat) : Value :=
  m.cells[c]?.getD .nil

/-- Change a table. -/
def updateTable (m : Memory) (t : Nat) (f : Table → Table) : Memory :=
  { m with tables := m.tables.modify t f }

/-- Put a value into a cell. -/
def setCell (m : Memory) (c : Nat) (v : Value) : Memory :=
  { m with cells := m.cells.setIfInBounds c v }

/-- Add a table. -/
def addTable (m : Memory) (t : Table) : Nat × Memory :=
  (m.tables.size, { m with tables := m.tables.push t })

/-- Add a closure. -/
def addClosure (m : Memory) (c : Closure) : Nat × Memory :=
  (m.closures.size, { m with closures := m.closures.push c })

/-- Add a coroutine that will run a function. -/
def addThread (m : Memory) (f : Value) : Nat × Memory :=
  (m.threads.size, { m with threads := m.threads.push (.fresh f) })

/-- Set where a coroutine stands. -/
def setThread (m : Memory) (t : Nat) (s : ThreadState) : Memory :=
  { m with threads := m.threads.setIfInBounds t s }

/-- Give each value a new cell. The first value's cell is the outermost. -/
def bind (m : Memory) (env : Env) (vs : List Value) : Env × Memory :=
  let base := m.cells.size
  let added := (List.range vs.length).map (base + ·)
  ({ env with vars := added.reverse ++ env.vars }, { m with cells := m.cells ++ vs.toArray })

/-- The read of a table that no metatable has a say in. -/
def rawGet (m : Memory) (t : Nat) (key : Value) : Value :=
  (m.table t).get key

/-- The write to a table that no metatable has a say in. -/
def rawSet (m : Memory) (t : Nat) (key v : Value) : Memory :=
  m.updateTable t fun table => table.set key v

end Memory

/-! ## The stack -/

/-- What a call made now would find around it. -/
structure Surroundings where
  depth : Nat
  levels : Nat
  yieldable : Bool

/-- What is around the top of the stack. The ground cannot be left by a coroutine; the start of
one can. -/
def surroundings (base : Base) : List Frame → Surroundings
  | [] => ⟨base.depth, base.levels, false⟩
  | .activation a :: _ => ⟨a.depth, a.levels, a.yieldable⟩
  | .boundary _ _ :: rest => ⟨0, (surroundings base rest).levels + 1, true⟩
  | _ :: rest => surroundings base rest

/-- The calls in progress in the current coroutine, innermost first. -/
def activations : List Frame → List Activation
  | [] => []
  | .activation a :: rest => a :: activations rest
  | .boundary _ _ :: _ => []
  | _ :: rest => activations rest

/-- The coroutine that is running, if one is. -/
def currentThread : List Frame → Option Nat
  | [] => none
  | .boundary t _ :: _ => some t
  | _ :: rest => currentThread rest

/-- Cut the stack at the start of the current coroutine: the frames of the coroutine, who runs
it and for whom, and the frames below. -/
def splitThread : List Frame → Option (List Frame × Nat × Resumer × List Frame)
  | [] => none
  | .boundary t r :: rest => some ([], t, r, rest)
  | f :: rest => (splitThread rest).map fun (above, t, r, below) => (f :: above, t, r, below)

/-- Where the caller of the call at the top of the stack stands, as the front of a message. -/
def callerMark (stack : List Frame) (level : Nat) : Bytes :=
  match (activations stack)[level - 1]? with
  | some ⟨⟨some p, _⟩, _, _, _⟩ => p.mark
  | _ => []

/-! ## Metatables -/

/-- What a metatable can speak about. -/
inductive Event
  | index | newindex | call | concat | len | eq | lt | le | tostring | name | close | metatable | gc
  | arith (op : Arith)

/-- The operator's name. -/
def Arith.text : Arith → String
  | .add => "add" | .sub => "sub" | .mul => "mul" | .div => "div" | .mod => "mod" | .pow => "pow"
  | .idiv => "idiv" | .band => "band" | .bor => "bor" | .bxor => "bxor" | .shl => "shl"
  | .shr => "shr" | .unm => "unm" | .bnot => "bnot"

/-- The name of what a metatable can speak about. -/
def Event.text : Event → String
  | .index => "index" | .newindex => "newindex" | .call => "call" | .concat => "concat"
  | .len => "len" | .eq => "eq" | .lt => "lt" | .le => "le" | .tostring => "tostring"
  | .name => "name" | .close => "close" | .metatable => "metatable" | .gc => "gc"
  | .arith op => op.text

/-- The key of it in a metatable. -/
def Event.key (e : Event) : Value :=
  .text ("__" ++ e.text)

/-- The table of the globals. -/
def globalTable : Nat := 0

/-- The metatable of strings. -/
def stringMetatable : Nat := 1

/-- The name of the type of game objects. -/
def objectTypeName : String := "ScriptObject"

/-- What the metatable of a value says. Game objects and errors have metatables of their own. -/
def Memory.metafield (m : Memory) (v : Value) (e : Event) : Value :=
  match v with
  | .table t =>
    match (m.table t).metatable with
    | some mt => m.rawGet mt e.key
    | none => .nil
  | .str _ => m.rawGet stringMetatable e.key
  | .object _ =>
    match e with
    | .index => .native .member
    | .newindex => .native .assign
    | .len => .native .length
    | .concat => .native .join
    | .tostring => .native .render
    | .name => .text objectTypeName
    | .metatable => .bool false
    | _ => .nil
  | .failure _ =>
    match e with
    | .metatable => .bool false
    | _ => .nil
  | _ => .nil

/-- Mark a table that has got a metatable, if that has a finalizer. -/
def Memory.mark (m : Memory) (t : Nat) : Memory :=
  if m.metafield (.table t) .gc = .nil ∨ t ∈ m.marked then m else { m with marked := t :: m.marked }

/-- Take the mark off a table. -/
def Memory.unmark (m : Memory) (t : Nat) : Memory :=
  { m with marked := m.marked.erase t }

/-- The name of the type of a value as messages give it. -/
def Memory.typeText (m : Memory) (v : Value) : Bytes :=
  match m.metafield v .name with
  | .str s => s
  | _ => bytes v.typeName

end CardBridge.Script

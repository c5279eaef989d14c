import CardBridge.Session.Machine

/-!
# The collector of garbage

Scripts have a collector of garbage. A table whose metatable has a finalizer is marked, and when
nothing refers to it any more the collector has the finalizer run. It works where memory is asked
for, and host code asks for some when it makes a game object. So while a new object is registered,
after its handle has been given out and before its game object is made, scripts may run, and they
may have the host do anything, even register the same object.

A `Machine` takes a registration as one step. `Collecting` is a machine with a collector, which
takes the steps of a registration one by one and has finalizers run between them. Without marked
tables both come to the same.
-/

namespace CardBridge

open Script (Value Memory)

namespace Script

/-- Whether a value is a given table. -/
def Value.isTable (t : Nat) : Value → Bool
  | .table n => n = t
  | _ => false

/-- Whether something in a table refers to another one. -/
def Table.refersTo (x : Table) (t : Nat) : Bool :=
  x.metatable = some t || x.items.toList.any (·.isTable t) ||
    x.fields.any fun p => p.1.isTable t || p.2.isTable t

/-- Whether something in the memory may refer to a table. What a coroutine refers to that is not at
its end is not looked at. -/
def Memory.mayReferTo (m : Memory) (t : Nat) : Bool :=
  m.tables.toList.any (·.refersTo t) || m.cells.toList.any (·.isTable t) ||
    m.threads.toList.any fun
      | .dead => false
      | _ => true

end Script

/-- A registration in progress. -/
structure Binding where
  /-- How much is on the stack of the machine where it goes on. -/
  height : Nat
  object : ObjectRef
  handle : Handle
  /-- Its game object, once that is made. -/
  made : Option Nat
  deriving DecidableEq

/-- Which table is finalized next, if any, before a game object is made. -/
abbrev Collector := Machine → Option Nat

/-- Whether what waits is host code that has begun a scope. -/
def Frame.isScope : Frame → Bool
  | .scope _ _ => true
  | _ => false

/-- Whether an argument is a given table. -/
def Argument.isTable (t : Nat) : Argument → Bool
  | .value v => v.isTable t
  | _ => false

/-- The usual collector: as long as it works and no script is in progress, it finalizes the table
marked last of those to which nothing refers. -/
def Collector.usual : Collector := fun m =>
  let memory := m.state.env.memory
  if memory.collects && m.stack.all Frame.isScope then
    memory.marked.find? fun t =>
      !(memory.mayReferTo t || (m.state.staged .call).any (·.isTable t) ||
        (m.state.staged .resume).any (·.isTable t))
  else none

/-- A machine with a collector, and the registrations in progress, the last one begun first. -/
structure Collecting where
  machine : Machine
  bindings : List Binding

namespace Collecting

/-- Have the finalizer of a table run before host code goes on. The table is marked no more. -/
def finalize (s : State) (t : Nat) (c : Code) (stack : List Frame) : Progress :=
  let f := s.env.memory.metafield (.table t) .gc
  Machine.stepHost (s.setMemory (s.env.memory.unmark t))
    (.run (.call f [.table t]) fun _ => c) stack

/-- A step of a registration in progress, at the top of which is `b`: if there is something to be
finalized that comes first. -/
def proceed (collector : Collector) (m : Machine) (o : ObjectRef) (cls : Option String)
    (next : Code) (b : Binding) (bs : List Binding) : Progress × List Binding :=
  match b.made, collector m with
  | some n, _ => (.next { m with
      state := m.state.enterObject b.handle o n
      activity := .host next }, bs)
  | none, some t => (finalize m.state t (.write (.register o cls) next) m.stack, b :: bs)
  | none, none =>
    let (n, state) := m.state.makeObject ⟨b.handle, o, false, cls⟩
    (.next { m with state }, { b with made := some n } :: bs)

/-- The registration in progress that goes on where an object is registered on a stack, and those
that wait below it. -/
def current (o : ObjectRef) (stack : List Frame) : List Binding → Option (Binding × List Binding)
  | [] => none
  | b :: bs => if b.height = stack.length ∧ b.object = o then some (b, bs) else none

/-- One step, and the registrations in progress after it. -/
def step (host : Host) (collector : Collector) (c : Collecting) : Progress × List Binding :=
  let m := c.machine
  match m.activity with
  | .host (.write (.register o cls) next) =>
    match current o m.stack c.bindings with
    | some (b, bs) => proceed collector m o cls next b bs
    | none =>
      if m.state.isNew o then
        let (handle, state) := m.state.allocateHandle
        (.next { m with state }, ⟨m.stack.length, o, handle, none⟩ :: c.bindings)
      else (m.step host, c.bindings)
  | _ => (m.step host, c.bindings)

/-- At most `fuel` steps. -/
def run (host : Host) (collector : Collector) : Nat → Collecting → Progress
  | 0, c => .next c.machine
  | fuel + 1, c =>
    match c.step host collector with
    | (.next machine, bindings) => run host collector fuel ⟨machine, bindings⟩
    | (ended, _) => ended

/-- A session that begins to run host code. -/
def start (state : State) (c : Code) : Collecting :=
  ⟨.start state c, []⟩

end Collecting

end CardBridge

import CardBridge.Script.Step
import CardBridge.Session.Code

/-!
# Running a session

A `Machine` is a session at work: its state, what it is doing, and what waits for that. Host code
and scripts take turns. `Machine.step` takes it one step further, and `Machine.run` repeats that a
given number of times at most. An object is registered in one step here, with nothing in between;
`CardBridge.Session.Collector` takes that step apart.

The functions that scripts can call are given by `host`, which says what code stands for them.
-/

namespace CardBridge

open Script (Value Completion)

/-- What waits for host code or for a script to end. -/
inductive Frame
  /-- Host code goes on when a scope has ended. -/
  | scope (o : Open) (k : Reply → Code)
  /-- Host code goes on when a script has ended. -/
  | script (k : Completion → Code)
  /-- A script goes on when host code that it called has ended. -/
  | native (stack : List Script.Frame) (base : Script.Base)

/-- What a session is doing. -/
inductive Activity
  | host (c : Code)
  | script (control : Script.Control) (stack : List Script.Frame) (base : Script.Base)

/-- A session at work. -/
structure Machine where
  state : State
  activity : Activity
  stack : List Frame

/-- What the host does when a script calls one of its functions. -/
abbrev Host := Script.Native → List Value → Code

/-- What a step comes to. -/
inductive Progress
  | next (m : Machine)
  /-- The host code has ended. -/
  | ended (r : Reply) (s : State)
  /-- There is no next step. -/
  | stuck (s : State)

/-- The values that host code hands to the script that called it. -/
def Answer.toValues : Answer → List Value
  | .done => []
  | .truth b => [.bool b]
  | .integer n => [.int n]
  | .integers ns => ns.map .int
  | .count n => [.int (Int64.ofNat n)]
  | .handle h => [.int (Int64.ofNat h.raw.toNat)]
  | .values vs => vs
  | .step r => [.int (Int64.ofNat r.status.code), (r.value.map Value.int).getD .nil]
  | .shown _ vs => vs

namespace Machine

/-- What a script that host code starts has below it. -/
def baseOf : List Frame → Script.Base
  | [] => ⟨0, 0, false⟩
  | .native stack base :: _ =>
    let around := Script.surroundings base stack
    ⟨around.depth, around.levels, base.threaded || (Script.currentThread stack).isSome⟩
  | _ :: rest => baseOf rest

/-- The calls in progress in the current coroutine, innermost first. -/
def activationsOf : List Frame → List Script.Activation
  | [] => []
  | .native stack _ :: rest =>
    if (Script.currentThread stack).isSome then Script.activations stack
    else Script.activations stack ++ activationsOf rest
  | _ :: rest => activationsOf rest

/-- The calls in progress around the innermost one. A call stands where the one inside it was
made. -/
def traceLines : List Script.Activation → List TraceLine
  | inner :: outer :: rest =>
    ⟨inner.site.position, outer.site.name.map (·.name)⟩ :: traceLines (outer :: rest)
  | _ => []

/-- How a script goes on after the host code it called. -/
def resumption : Reply → Script.Control
  | .answer a => .give a.toValues
  | .suspended vs => .give vs
  | .failed f => .throw (.failure (Code.engineText f.message))
  | .raised text => .throw (.failure text)

/-- What a task is for a script. -/
def taskControl : Task → Script.Control
  | .call f args => .call f args .outside
  | .index object key => .index object key .outside 0
  | .resume t args => .resume t args .host

/-- One step of host code. -/
def stepHost (state : State) (c : Code) (stack : List Frame) : Progress :=
  match c with
  | .finish r =>
    match stack with
    | [] => .ended r state
    | .scope o k :: rest => .next ⟨o.leave state r, .host (k r), rest⟩
    | .native script base :: rest => .next ⟨state, .script (resumption r) script base, rest⟩
    | .script _ :: _ => .stuck state
  | .read k => .next ⟨state, .host (k state), stack⟩
  | .write u next => .next ⟨u.apply state, .host next, stack⟩
  | .run task k =>
    .next ⟨state, .script (taskControl task) [] (baseOf stack), .script k :: stack⟩
  | .trace k => .next ⟨state, .host (k (traceLines (activationsOf stack))), stack⟩
  | .scope s body refused k =>
    match s.enter state with
    | .ok (o, state) => .next ⟨state, .host body, .scope o k :: stack⟩
    | .error f => .next ⟨state, .host (refused f), stack⟩

/-- One step of a script, which has the memory while it runs. -/
def stepScript (host : Host) (state : State) (s : Script.State) (stack : List Frame) : Progress :=
  match s.step with
  | .next s => .next ⟨state.setMemory s.memory, .script s.control s.stack s.base, stack⟩
  | .native n args s =>
    .next ⟨state.setMemory s.memory, .host (host n args), .native s.stack s.base :: stack⟩
  | .settled c memory =>
    match stack with
    | .script k :: rest => .next ⟨state.setMemory memory, .host (k c), rest⟩
    | _ => .stuck state
  | .stuck => .stuck state

/-- One step. -/
def step (host : Host) (m : Machine) : Progress :=
  match m.activity with
  | .host c => stepHost m.state c m.stack
  | .script control stack base =>
    let memory := m.state.env.memory
    stepScript host (m.state.setMemory .nothing) ⟨memory, control, stack, base⟩ m.stack

/-- At most `fuel` steps. -/
def run (host : Host) : Nat → Machine → Progress
  | 0, m => .next m
  | fuel + 1, m =>
    match m.step host with
    | .next m => run host fuel m
    | ended => ended

/-- A session that begins to run host code. -/
def start (state : State) (c : Code) : Machine :=
  ⟨state, .host c, []⟩

end Machine

end CardBridge

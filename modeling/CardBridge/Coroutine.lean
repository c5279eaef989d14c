import CardBridge.Failure
import CardBridge.Keyed

/-!
# Operations of several steps

An operation of several steps is a coroutine that its caller knows by a name. Between steps it is
suspended, and once it is finished or has failed its name is free again. The table keeps for each
name the phase and the means to go on.
-/

namespace CardBridge

/-- How a step has ended. -/
inductive CoroutineStatus
  | finish | yield | error
  deriving DecidableEq, Repr

/-- The number of a status. -/
def CoroutineStatus.code : CoroutineStatus → Nat
  | finish => 1
  | yield => 2
  | error => 3

/-- How far an operation has come. -/
inductive CoroutinePhase
  | created | running | yielded | finished | errored
  deriving DecidableEq, Repr

namespace CoroutinePhase

/-- Whether one phase may follow another. -/
def canBecome : CoroutinePhase → CoroutinePhase → Bool
  | created, running | yielded, running => true
  | running, yielded | running, finished | running, errored => true
  | _, _ => false

/-- Whether nothing follows a phase. -/
def isTerminal : CoroutinePhase → Bool
  | finished | errored => true
  | _ => false

end CoroutinePhase

/-- What is kept of an operation. -/
structure CoroutineEntry (α : Type) where
  phase : CoroutinePhase
  payload : α
  deriving DecidableEq, Repr

/-- The operations that have begun and not ended. -/
abbrev CoroutineTable (α : Type) := Keyed CoroutineId (CoroutineEntry α)

namespace CoroutineTable

variable {α : Type}

/-- A refused request. -/
def refused {β : Type} (id : CoroutineId) (why : CoroutineRefusal) : Except Failure β :=
  .error (.coroutine id why)

/-- Begin to keep an operation, unless its name is taken. -/
def create (t : CoroutineTable α) (id : CoroutineId) (payload : α) :
    Except Failure (CoroutineTable α) :=
  match t.lookup id with
  | some _ => refused id .alreadyLive
  | none => .ok (Keyed.put id ⟨.created, payload⟩ t)

/-- Begin a step: the means to go on, and the table in which the operation runs. -/
def begin (t : CoroutineTable α) (id : CoroutineId) : Except Failure (α × CoroutineTable α) :=
  match t.lookup id with
  | none => refused id .unknown
  | some e =>
    if e.phase.canBecome .running then .ok (e.payload, Keyed.put id { e with phase := .running } t)
    else refused id .alreadyRunning

/-- End a step in a phase. After a last phase the operation is not kept. -/
def finishStep (t : CoroutineTable α) (id : CoroutineId) (phase : CoroutinePhase) :
    Except Failure (CoroutineTable α) :=
  match t.lookup id with
  | none => refused id .unknown
  | some e =>
    if !e.phase.canBecome phase then refused id .invalidTransition
    else if phase.isTerminal then .ok (Keyed.erase id t)
    else .ok (Keyed.put id { e with phase } t)

/-- Give an operation up, in whatever phase it is. -/
def abandon (t : CoroutineTable α) (id : CoroutineId) : Option α × CoroutineTable α :=
  match t.lookup id with
  | none => (none, t)
  | some e => (some e.payload, Keyed.erase id t)

/-- The phase of an operation. -/
def phase (t : CoroutineTable α) (id : CoroutineId) : Option CoroutinePhase :=
  (t.lookup id).map (·.phase)

end CoroutineTable

end CardBridge

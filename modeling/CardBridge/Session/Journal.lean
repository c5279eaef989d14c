import CardBridge.Config
import CardBridge.Coroutine
import CardBridge.Message

/-!
# The journal

What a session lets its host know: the messages it sends, the moments at which no invocation is
left, and what the host's own functions were given and came to. Script values are written down as
they look at that moment (`Seen`), since the objects they refer to change.
-/

namespace CardBridge

/-- A script value as it looks. -/
inductive Seen
  | nil
  | bool (b : Bool)
  | int (n : Int64)
  | num (x : Float)
  | nan
  | str (s : Bytes)
  /-- A game object: its name unless it is deleted, its handle, its kind and its text. -/
  | object (o : Option ObjectRef) (handle : Handle) (kind : ObjectKind) (text : String)
  /-- Anything else, by the name of its type. -/
  | other (typeName : String)
  deriving DecidableEq

/-- The result of a step of an operation of several steps: how it ended, the integer that the last
value it gave stands for, and what went wrong. -/
structure CoroutineResult where
  status : CoroutineStatus
  value : Option Int64
  error : Option Failure
  deriving DecidableEq

namespace CoroutineResult

/-- The result of a step that went wrong. -/
def failed (f : Failure) : CoroutineResult :=
  ⟨.error, none, some f⟩

/-- The result of a step that gave values. -/
def gave (status : CoroutineStatus) (vs : List Script.Value) : CoroutineResult :=
  ⟨status, vs.getLast?.map toInteger, none⟩

end CoroutineResult

/-- Numbers that describe an environment: arguments staged for calls and for resumed operations,
invocations in progress, operations begun, and script functions the host holds. -/
structure Figures where
  staged : Nat
  stagedResume : Nat
  depth : Nat
  coroutines : Nat
  callables : Nat
  deriving DecidableEq

/-- What a step of the host comes to, as it is written down. -/
inductive Report
  | none
  | truth (b : Bool)
  | number (n : Int)
  | text (s : String)
  | value (v : Seen)
  | object (o : ObjectRef)
  | phase (p : CoroutinePhase)
  | list (rs : List Report)
  | failed (f : Failure)
  /-- The result of a step of an operation, and the phase the operation is in then. -/
  | step (r : CoroutineResult) (phase : Option CoroutinePhase)
  /-- The state of an environment: depth, peak, whether actions are allowed, and so on. -/
  | info (depth peak : Nat) (actions : Bool) (session : Option SessionId)
      (config : Option BridgeConfig) (figures : Figures)

/-- An entry of the journal. -/
inductive Event
  | message (session : SessionId) (kind : MessageKind) (text : String)
  /-- The outermost invocation of a session has ended. -/
  | cleared (session : SessionId)
  /-- A function of the host was called. -/
  | native (name : String) (args : List Seen)
  /-- A step of a function of the host has ended. -/
  | result (name : String) (r : Report)

end CardBridge

import CardBridge.Coercion
import CardBridge.Object

/-!
# Arguments

Arguments are staged one by one and taken together, in order, by the call they are for. An
object stays a name until then, and a script function a reference that the host owns.
-/

namespace CardBridge

/-- The type an argument is declared with. -/
inductive ParamType
  | nil | int | boolean | string | function | card | effect | group | session
  /-- A script value passed on as it is. -/
  | value
  deriving DecidableEq, Repr

namespace ParamType

/-- The name of a type in messages. -/
def text : ParamType → String
  | nil => "nil"
  | int => "integer"
  | boolean => "boolean"
  | string => "string"
  | function => "function"
  | card => "card"
  | effect => "effect"
  | group => "group"
  | session => "session"
  | value => "value"

/-- The kind of object a type is for. -/
def objectKind? : ParamType → Option ObjectKind
  | card => some .card
  | effect => some .effect
  | group => some .group
  | session => some .session
  | _ => none

end ParamType

/-- A function of a script that the host holds on to. -/
structure Callable where
  id : Nat
  deriving DecidableEq, Repr

/-- A staged argument. -/
inductive Argument
  | nil
  | int (n : Int64)
  | bool (b : Bool)
  | text (s : String)
  | object (o : ObjectRef)
  | function (c : Callable)
  | value (v : Script.Value)
  deriving DecidableEq

namespace Argument

/-- The object with the number `raw`; zero stands for none. -/
def ofObjectNumber? (kind : ObjectKind) (raw : Int64) : Option Argument :=
  let n := raw.toInt
  if n = 0 then some nil
  else if 0 < n ∧ n < Int.pow 2 32 then some (object ⟨kind, ⟨UInt32.ofNat n.toNat⟩⟩)
  else none

/-- The argument that an integer stands for under a type; the types of what is no integer and no
object take none. -/
def ofRaw? (raw : Int64) (type : ParamType) : Option Argument :=
  match type.objectKind? with
  | some kind => ofObjectNumber? kind raw
  | none =>
    match type with
    | .nil => some nil
    | .int => some (int raw)
    | .boolean => some (bool (raw ≠ 0))
    | _ => none

/-- The type an argument is staged as. -/
def paramType : Argument → ParamType
  | nil => .nil
  | int _ => .int
  | bool _ => .boolean
  | text _ => .string
  | object o =>
    match o.kind with
    | .card => .card
    | .effect => .effect
    | .group => .group
    | .session | .deleted => .session
  | function _ => .function
  | value _ => .value

end Argument

/-- The arguments staged for the next call, the first one in front. -/
abbrev ArgumentQueue := List Argument

namespace ArgumentQueue

/-- Stage an argument behind all others. -/
def pushBack (q : ArgumentQueue) (a : Argument) : ArgumentQueue :=
  q ++ [a]

/-- Stage an argument before all others. -/
def pushFront (q : ArgumentQueue) (a : Argument) : ArgumentQueue :=
  a :: q

/-- How often a function is staged. -/
def occurrences (c : Callable) (q : ArgumentQueue) : Nat :=
  q.count (.function c)

end ArgumentQueue

end CardBridge

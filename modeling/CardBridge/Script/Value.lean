import CardBridge.Text.Bytes

/-!
# Script values

What a script variable can hold. Tables, closures, coroutine threads and the objects of the game
are named by numbers; what they contain is kept elsewhere (`CardBridge.Script.Frame` for the
first three), so values can be compared.
-/

namespace CardBridge.Script

/-- Operators of two operands that compute a value. Comparisons are apart. -/
inductive Arith
  | add | sub | mul | div | mod | pow | idiv | band | bor | bxor | shl | shr | unm | bnot
  deriving DecidableEq, Repr

/-- The functions of the script language's own library. -/
inductive Builtin
  | print | error | assert | pcall | select | type | tostring | ipairs | ipairsStep
  | rawget | rawset | rawequal | rawlen | setmetatable | getmetatable
  | coroutineCreate | coroutineResume | coroutineYield | coroutineWrap | coroutineStatus
  | stringRep | stringMatch | tableUnpack | collectgarbage
  /-- What the metatable of strings holds for an operator: both operands are read as numbers. -/
  | stringArith (op : Arith)
  deriving DecidableEq, Repr

/-- The functions the environment lends to scripts. `member` to `render` are what game objects
answer to; `inertFalse` and `inertZero` are the fields of a deleted object; `host n` is the
host's own function number `n`. -/
inductive Native
  | member | assign | length | join | render
  | inertFalse | inertZero
  | message | stackTrace
  | host (n : Nat)
  deriving DecidableEq, Repr

/-- A script value. Integers wrap at 64 bits; `num` holds the floats that are numbers and `nan`
the one that is not, with the sign it is written with. `object` is a game object, `wrapper` the
function that resumes a coroutine, `failure` an error that came out of a native function. -/
inductive Value
  | nil
  | bool (b : Bool)
  | int (n : Int64)
  | num (x : Float)
  | nan (negative : Bool)
  | str (s : Bytes)
  | table (id : Nat)
  | closure (id : Nat)
  | builtin (b : Builtin)
  | native (n : Native)
  | wrapper (thread : Nat)
  | thread (id : Nat)
  | object (id : Nat)
  | failure (text : String)
  deriving DecidableEq, Inhabited

namespace Value

/-- Everything but `nil` and `false` counts as true. -/
def truthy : Value → Bool
  | nil | bool false => false
  | _ => true

/-- A float as a value; `negative` is the sign of a float that is not a number. -/
def ofFloat (x : Float) (negative : Bool) : Value :=
  if x.isNaN then nan negative else num x

/-- A string value. -/
def text (s : String) : Value :=
  str (bytes s)

/-- Whether the value can be called without the help of a metatable. -/
def isFunction : Value → Bool
  | closure _ | builtin _ | native _ | wrapper _ => true
  | _ => false

/-- The name of the value's type in the script language. -/
def typeName : Value → String
  | nil => "nil"
  | bool _ => "boolean"
  | int _ | num _ | nan _ => "number"
  | str _ => "string"
  | table _ => "table"
  | closure _ | builtin _ | native _ | wrapper _ => "function"
  | thread _ => "thread"
  | object _ | failure _ => "userdata"

/-- The name the host has for the value's type: it tells integers from other numbers and errors
from other objects. -/
def hostTypeName : Value → String
  | int _ => "integer"
  | failure _ => "error"
  | v => v.typeName

end Value

/-- The first of a list of values; `nil` if there is none. -/
def first : List Value → Value
  | [] => .nil
  | v :: _ => v

/-- Exactly `n` values: cut, or filled up with `nil`. -/
def exactly : Nat → List Value → List Value
  | 0, _ => []
  | n + 1, [] => .nil :: exactly n []
  | n + 1, v :: vs => v :: exactly n vs

end CardBridge.Script

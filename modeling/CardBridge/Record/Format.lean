import CardBridge.Config
import CardBridge.Coroutine
import CardBridge.Depth
import CardBridge.Message
import CardBridge.Record.Json

/-!
# Records

How values are written as JSON and read back. A structure is an object with its fields in order;
it is read with its fields in any order, each exactly once, among others that do not matter, or
from an array of just the fields. A choice is written by the name of what is chosen, and read from
that or from an object with that name alone.
-/

namespace CardBridge.Record

/-- How the values of a type are written and read. -/
structure Format (α : Type) where
  write : α → String
  read? : Json → Option α

namespace Format

variable {α : Type}

/-- Write a value and read it back, from text to text. -/
def rewrite? (f : Format α) (text : String) : Option String :=
  ((Json.read? text).bind f.read?).map f.write

/-- The value that a text is of. -/
def parse? (f : Format α) (text : String) : Option α :=
  (Json.read? text).bind f.read?

/-- Numbers below a bound. -/
def nat (bound : Nat) : Format Nat where
  write n := toString n
  read?
    | .number (some n) => if n < bound then some n else none
    | _ => none

/-- The same format for another type. -/
def map {β : Type} (f : Format α) (forth : α → β) (back : β → α) : Format β where
  write b := f.write (back b)
  read? j := (f.read? j).map forth

/-- Numbers of 32 bits. -/
def word : Format UInt32 :=
  (nat UInt32.size).map UInt32.ofNat UInt32.toNat

/-- Numbers of 64 bits. -/
def size : Format Nat :=
  nat UInt64.size

/-- Truth values. -/
def bool : Format Bool where
  write b := if b then "true" else "false"
  read?
    | .bool b => some b
    | _ => none

/-- Texts. -/
def text : Format String where
  write := Json.writeString
  read?
    | .string s => s
    | _ => none

/-- Lists. -/
def list (f : Format α) : Format (List α) where
  write xs := Json.writeArray (xs.map f.write)
  read?
    | .array items => items.mapM f.read?
    | _ => none

/-- The name of what is chosen and what comes with it. -/
def choice? : Json → Option (String × Option Json)
  | .string (some name) => some (name, none)
  | .object [(name, v)] => some (name, some v)
  | _ => none

/-- One of some values, each by its name. -/
def oneOf (name : α → String) (values : List α) : Format α where
  write x := Json.writeString (name x)
  read? j :=
    match choice? j with
    | some (n, none) | some (n, some .null) => values.find? fun x => name x == n
    | _ => none

/-- The value of a field, which has to be there exactly once. -/
def field? (members : List (String × Json)) (name : String) : Option Json :=
  match members.filter fun m => m.1 == name with
  | [(_, v)] => some v
  | _ => none

/-- The fields of a structure by name, in order. -/
def fields? (names : List String) : Json → Option (List Json)
  | .object members => names.mapM (field? members)
  | .array items => if items.length = names.length then some items else none
  | _ => none

/-! ## Names and choices -/

/-- Numbers of objects. -/
def objectId : Format ObjectId :=
  word.map ObjectId.mk ObjectId.raw

/-- Handles. -/
def handle : Format Handle :=
  word.map Handle.mk Handle.raw

/-- Sessions. -/
def sessionId : Format SessionId :=
  word.map SessionId.mk SessionId.raw

/-- Names of operations. -/
def coroutineId : Format CoroutineId :=
  word.map CoroutineId.mk CoroutineId.raw

/-- Kinds of objects. -/
def objectKind : Format ObjectKind :=
  oneOf ObjectKind.text [.card, .effect, .group, .session, .deleted]

/-- The name of a type in records. -/
def paramTypeName : ParamType → String
  | .nil => "Nil" | .int => "Int" | .boolean => "Boolean" | .string => "String"
  | .function => "Function" | .card => "Card" | .effect => "Effect" | .group => "Group"
  | .session => "Session" | .value => "Value"

/-- Types of arguments. -/
def paramType : Format ParamType :=
  oneOf paramTypeName
    [.nil, .int, .boolean, .string, .function, .card, .effect, .group, .session, .value]

/-- The name of a kind of message. -/
def messageKindName : MessageKind → String
  | .error => "Error" | .fromScript => "FromScript" | .forDebug => "ForDebug"

/-- Kinds of messages. -/
def messageKind : Format MessageKind :=
  oneOf messageKindName [.error, .fromScript, .forDebug]

/-- The name of a status. -/
def statusName : CoroutineStatus → String
  | .finish => "Finish" | .yield => "Yield" | .error => "Error"

/-- How a step has ended. -/
def coroutineStatus : Format CoroutineStatus :=
  oneOf statusName [.finish, .yield, .error]

/-- The name of a phase. -/
def phaseName : CoroutinePhase → String
  | .created => "Created" | .running => "Running" | .yielded => "Yielded"
  | .finished => "Finished" | .errored => "Errored"

/-- Phases of an operation. -/
def coroutinePhase : Format CoroutinePhase :=
  oneOf phaseName [.created, .running, .yielded, .finished, .errored]

/-- How many results are kept. -/
def returnCount : Format ReturnCount where
  write
    | .exactly n => Json.writeObject [("Exactly", toString n)]
    | .all => Json.writeString "All"
  read? j :=
    match choice? j with
    | some ("Exactly", some v) => (size.read? v).map .exactly
    | some ("All", none) | some ("All", some .null) => some .all
    | _ => none

/-! ## Structures -/

/-- Objects. -/
def objectRef : Format ObjectRef where
  write o := Json.writeObject [("kind", objectKind.write o.kind), ("id", objectId.write o.id)]
  read? j := do
    match ← fields? ["kind", "id"] j with
    | [kind, id] => pure ⟨← objectKind.read? kind, ← objectId.read? id⟩
    | _ => none

/-- What is known about a card. -/
def cardInfo : Format CardInfo where
  write c := Json.writeObject
    [("id", objectId.write c.id), ("code", word.write c.code), ("alias", word.write c.aliasCode),
      ("initialize", bool.write c.setUp)]
  read? j := do
    match ← fields? ["id", "code", "alias", "initialize"] j with
    | [id, code, aliasCode, setUp] =>
      pure ⟨← objectId.read? id, ← word.read? code, ← word.read? aliasCode, ← bool.read? setUp⟩
    | _ => none

/-- Counters of invocations. -/
def callDepth : Format CallDepth where
  write d := Json.writeObject
    [("current", size.write d.current), ("max", size.write d.max), ("peak", size.write d.peak)]
  read? j := do
    match ← fields? ["current", "max", "peak"] j with
    | [current, max, peak] =>
      pure ⟨← size.read? current, ← size.read? max, ← size.read? peak⟩
    | _ => none

/-- Choices for an environment. -/
def config : Format BridgeConfig where
  write c := Json.writeObject
    [("max_call_depth", size.write c.maxCallDepth),
      ("message_capacity", size.write c.messageCapacity),
      ("alias_window", word.write c.aliasWindow),
      ("preload_scripts", (list text).write c.preloadScripts)]
  read? j := do
    match ← fields? ["max_call_depth", "message_capacity", "alias_window", "preload_scripts"] j with
    | [depth, capacity, window, preload] =>
      pure ⟨← size.read? depth, ← size.read? capacity, ← word.read? window,
        ← (list text).read? preload⟩
    | _ => none

end Format

end CardBridge.Record

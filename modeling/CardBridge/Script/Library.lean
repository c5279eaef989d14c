import CardBridge.Script.Operation
import CardBridge.Script.Pattern

/-!
# The library of the script language

What the functions of the library do (`Builtin.run`), and the memory that holds them
(`Memory.initial`). A function runs above its own activation. A wrong argument fails with a
message that names the function as its caller does.

## What is left out

Scripts find what `Memory.initial` holds, and `nil` under any other name that the language knows:

* of the basic functions there are no `next`, `pairs`, `xpcall`, `load`, `tonumber`, `warn`,
  `dofile`, `loadfile` and `require`;
* of those for coroutines no `running`, `close` and `isyieldable`;
* of those for strings only `rep` and `match`, so no `format`, `find`, `gsub`, `sub` and so on;
* of those for tables only `unpack`, and of those for numbers none, but the greatest and the least
  integer;
* nothing for files, the system, UTF-8 and debugging.

`collectgarbage` takes the requests `collect`, `stop` and `restart` and no others. All that shows of
the collector is finalizers (`__gc`), and they run in one place, while a new object is registered,
before its game object is made (`CardBridge.Session.Collector`). Wherever else memory is asked for,
at `collectgarbage` itself and when an environment is closed, none runs. No table is weak
(`__mode`). So whatever scripts call can come between two steps of the host, and a finalizer in that
place, but not one elsewhere.
-/

namespace CardBridge.Script

/-- Why a function of the library refuses to run. -/
inductive Refusal
  | argument (number : Nat) (message : Bytes)
  | plain (message : Bytes)

/-- The name of a function of the library when its caller has none for it. -/
def Builtin.name : Builtin → String
  | print => "print" | error => "error" | assert => "assert" | pcall => "pcall"
  | select => "select" | type => "type" | tostring => "tostring" | ipairs => "ipairs"
  | ipairsStep => "?" | rawget => "rawget" | rawset => "rawset" | rawequal => "rawequal"
  | rawlen => "rawlen" | setmetatable => "setmetatable" | getmetatable => "getmetatable"
  | coroutineCreate => "coroutine.create" | coroutineResume => "coroutine.resume"
  | coroutineYield => "coroutine.yield" | coroutineWrap => "coroutine.wrap"
  | coroutineStatus => "coroutine.status" | stringRep => "string.rep"
  | stringMatch => "string.match" | tableUnpack => "table.unpack"
  | collectgarbage => "collectgarbage" | stringArith _ => "?"

namespace State

/-- Throw a message with the place of the caller in front. -/
def refuse (s : State) (message : Bytes) : Outcome :=
  s.go (.throw (.str (callerMark s.stack 1 ++ message)))

/-- Fail because of an argument. -/
def refuseArgument (s : State) (b : Builtin) (number : Nat) (message : Bytes) : Outcome :=
  let because := bytes " (" ++ message ++ bytes ")"
  let bad (number : Nat) (name : Bytes) : Outcome :=
    s.refuse
      (bytes ("bad argument #" ++ toString number ++ " to '") ++ name ++ bytes "'" ++ because)
  match (activations s.stack).head?.bind (·.site.name) with
  | some ⟨.method, name⟩ =>
    if number ≤ 1 then s.refuse (bytes "calling '" ++ name ++ bytes "' on bad self" ++ because)
    else bad (number - 1) name
  | some d => bad number d.name
  | none => bad number (bytes b.name)

/-- Forbid the call at the top of the stack to be left by a coroutine. -/
def pinned (s : State) : State :=
  match s.stack with
  | .activation a :: rest => { s with stack := .activation { a with yieldable := false } :: rest }
  | _ => s

/-- Suspend the current coroutine. -/
def yield (s : State) (vs : List Value) : Outcome :=
  match (surroundings s.base s.stack).yieldable, splitThread s.stack with
  | true, some (above, t, resumer, below) =>
    let s := { s with memory := s.memory.setThread t (.suspended above), stack := below }
    match resumer with
    | .resume => s.go (.give (.bool true :: vs))
    | .wrapper => s.go (.give vs)
    | .host => s.go (.suspended vs)
  | _, _ =>
    let inside := s.base.threaded || (currentThread s.stack).isSome
    s.go (.throw (.text
      (if inside then "attempt to yield across a C-call boundary"
      else "attempt to yield from outside a coroutine")))

/-- What a resumer gets to know about an error: the function made by `coroutine.wrap` puts the
place of its caller in front. -/
def failResumer (s : State) (resumer : Resumer) (v : Value) : Outcome :=
  match resumer, v with
  | .resume, v => s.go (.give [.bool false, v])
  | .wrapper, .str t => s.refuse t
  | _, v => s.go (.throw v)

/-- Start or go on with a coroutine. -/
def resume (s : State) (t : Nat) (args : List Value) (resumer : Resumer) : Outcome :=
  let active := { s with memory := s.memory.setThread t .active }
  match s.memory.threads[t]? with
  | some (.fresh f) => active.push (.boundary t resumer) (.call f args .outside)
  | some (.suspended above) =>
    { active with stack := above ++ Frame.boundary t resumer :: s.stack }.go (.give args)
  | some .active => s.failResumer resumer (.text "cannot resume non-suspended coroutine")
  | _ => s.failResumer resumer (.text "cannot resume dead coroutine")

/-- Look up the next of some elements of a table, or give them all. -/
def nextElement (s : State) (table : Value) (next : Int64) (left : Nat) (done : List Value) :
    Outcome :=
  match left with
  | 0 => s.go (.give done.reverse)
  | left + 1 =>
    s.push (.elements table next left done) (.index table (.int next) .outside 0)

/-- How many values a call can give. -/
def resultLimit : Nat := 1000000

/-- Look up the elements of a table from one index to another. -/
def unpack (s : State) (table : Value) (start stop : Int64) : Outcome :=
  if stop < start then s.go (.give [])
  else
    let count := (stop.toInt - start.toInt + 1).toNat
    if resultLimit ≤ count then s.refuse (bytes "too many results to unpack")
    else s.nextElement table start count []

end State

/-! ## Arguments -/

/-- The name of the type of an argument as messages give it. -/
def argumentType (m : Memory) (args : List Value) (number : Nat) : Bytes :=
  match args[number - 1]? with
  | none => bytes "no value"
  | some v => m.typeText v

/-- Refuse an argument for its type. -/
def wrongType {α : Type} (m : Memory) (args : List Value) (number : Nat) (expected : String) :
    Except Refusal α :=
  .error (.argument number (bytes (expected ++ " expected, got ") ++ argumentType m args number))

/-- An argument that can be anything but has to be there. -/
def anyArgument (args : List Value) (number : Nat) : Except Refusal Value :=
  match args[number - 1]? with
  | some v => .ok v
  | none => .error (.argument number (bytes "value expected"))

/-- A table. -/
def tableArgument (m : Memory) (args : List Value) (number : Nat) : Except Refusal Nat :=
  match args[number - 1]? with
  | some (.table t) => .ok t
  | _ => wrongType m args number "table"

/-- A function. -/
def functionArgument (m : Memory) (args : List Value) (number : Nat) : Except Refusal Value :=
  match args[number - 1]? with
  | some v => if v.isFunction then .ok v else wrongType m args number "function"
  | none => wrongType m args number "function"

/-- A coroutine. -/
def threadArgument (m : Memory) (args : List Value) (number : Nat) : Except Refusal Nat :=
  match args[number - 1]? with
  | some (.thread t) => .ok t
  | _ => wrongType m args number "coroutine"

/-- A string, or the text of a number. -/
def stringArgument (m : Memory) (args : List Value) (number : Nat) : Except Refusal Bytes :=
  match (args[number - 1]?.getD .nil).toText? with
  | some t => .ok t
  | none => wrongType m args number "string"

/-- An integer, or what can be read as one. -/
def integerArgument (m : Memory) (args : List Value) (number : Nat) : Except Refusal Int64 :=
  match (args[number - 1]?.getD .nil).toNumber? with
  | some n =>
    match n.toInteger? with
    | some i => .ok i
    | none => .error (.argument number (bytes "number has no integer representation"))
  | none => wrongType m args number "number"

/-- An integer that can be left out. -/
def optionalInteger (m : Memory) (args : List Value) (number : Nat) (otherwise : Int64) :
    Except Refusal Int64 :=
  match args[number - 1]? with
  | none | some .nil => .ok otherwise
  | _ => integerArgument m args number

/-! ## Functions -/

/-- The text of an address. -/
def addressText (n : Nat) : String :=
  let digits := Nat.toDigits 16 (0x600000000000 + 0x40 * n)
  "0x" ++ String.ofList (List.replicate (14 - digits.length) '0' ++ digits)

/-- The text of a value that no metatable speaks about. -/
def Memory.plainText (m : Memory) (v : Value) : Bytes :=
  match v with
  | .nil => bytes "nil"
  | .bool b => bytes (if b then "true" else "false")
  | .failure text => bytes text
  | .table n | .closure n | .thread n | .object n | .wrapper n =>
    m.typeText v ++ bytes (": " ++ addressText n)
  | .builtin _ | .native _ => m.typeText v ++ bytes (": builtin: " ++ addressText 0)
  | v => v.toText?.getD []

/-- Throw a value. A string gets the place of a caller in front. -/
def State.throwAt (s : State) (v : Value) (level : Int64) : Outcome :=
  match v with
  | .str t =>
    if 0 < level then s.go (.throw (.str (callerMark s.stack level.toInt.toNat ++ t)))
    else s.go (.throw v)
  | v => s.go (.throw v)

/-- Where a coroutine stands, in a word. -/
def State.threadStatus (s : State) (t : Nat) : String :=
  match s.memory.threads[t]? with
  | some (.fresh _) | some (.suspended _) => "suspended"
  | some .active => if currentThread s.stack = some t then "running" else "normal"
  | _ => "dead"

/-- The first byte, counting from 0, that a search starts at. -/
def searchStart (start : Int64) (length : Nat) : Nat :=
  let n := start.toInt
  if 0 < n then n.toNat - 1
  else if n = 0 ∨ n < -(length : Int) then 0
  else (length + n).toNat

/-- Arithmetic with a string: both operands are read as numbers. -/
def State.stringArithmetic (s : State) (op : Arith) (a b : Value) : Outcome :=
  match a.toNumber?, b.toNumber? with
  | some x, some y =>
    match arith op x y with
    | .value v => s.go (.give [v])
    | .failed message => s.go (.throw (.text message))
    | .undefined => s.go (.give [.nil])
  | _, _ =>
    let refused := s.refuse (bytes
      ("attempt to " ++ op.text ++ " a '" ++ a.typeName ++ "' with a '" ++ b.typeName ++ "'"))
    match b with
    | .str _ => refused
    | b =>
      match s.memory.metafield b (.arith op) with
      | .nil => refused
      | f => s.pinned.push .single (.call f [a, b] .outside)

/-- Give a table a metatable or take it away. A metatable with a finalizer marks the table. -/
def State.setMetatable (s : State) (args : List Value) : Except Refusal Outcome := do
  let t ← tableArgument s.memory args 1
  let set (mt : Option Nat) : Except Refusal Outcome :=
    match s.memory.metafield (.table t) .metatable with
    | .nil =>
      let memory := s.memory.updateTable t fun x => { x with metatable := mt }
      .ok ({ s with memory := memory.mark t }.go (.give [.table t]))
    | _ => .error (.plain (bytes "cannot change a protected metatable"))
  match args[1]? with
  | some Value.nil => set none
  | some (Value.table mt) => set (some mt)
  | _ => wrongType s.memory args 2 "nil or table"

/-- The metatable of a value, or what it wants to be shown instead. -/
def Memory.shownMetatable (m : Memory) (v : Value) : Value :=
  match m.metafield v .metatable, v with
  | .nil, .table t => ((m.table t).metatable.map Value.table).getD .nil
  | .nil, .str _ => .table stringMetatable
  | shown, _ => shown

/-- What scripts ask of the collector of garbage: to stop, to go on, or to collect at once. That it
collects shows in finalizers only, and those wait until a game object is made. -/
def State.collectGarbage (s : State) (args : List Value) : Except Refusal Outcome := do
  let request ← match args[0]? with
    | none | some .nil => pure (bytes "collect")
    | _ => stringArgument s.memory args 1
  let give (memory : Memory) : Except Refusal Outcome :=
    .ok ({ s with memory }.go (.give [.int 0]))
  if request = bytes "collect" then give s.memory
  else if request = bytes "stop" then give { s.memory with collects := false }
  else if request = bytes "restart" then give { s.memory with collects := true }
  else .error (.argument 1 (bytes "invalid option '" ++ request ++ bytes "'"))

/-- Call a function of the library, or say why not. -/
def Builtin.attempt (b : Builtin) (args : List Value) (s : State) : Except Refusal Outcome := do
  let m := s.memory
  let give (vs : List Value) : Except Refusal Outcome := .ok (s.go (.give vs))
  match b with
  | print => give []
  | error => do
    let level ← optionalInteger m args 2 1
    pure (s.throwAt (first args) level)
  | assert => do
    if (first args).truthy then give args
    else
      let _ ← anyArgument args 1
      pure (s.throwAt (args[1]?.getD (.text "assertion failed!")) 1)
  | pcall => do
    let f ← anyArgument args 1
    pure (s.push .pcall (.call f (args.drop 1) .outside))
  | select => do
    let count := args.length
    match first args with
    | .str (0x23 :: _) => give [.int (Int64.ofNat (count - 1))]
    | _ => do
      let n := (← integerArgument m args 1).toInt
      let start := if n < 0 then count + n else n
      if start < 1 then .error (.argument 1 (bytes "index out of range"))
      else give (args.drop start.toNat)
  | type => do
    let v ← anyArgument args 1
    give [.text v.typeName]
  | tostring => do
    let v ← anyArgument args 1
    match m.metafield v .tostring with
    | .nil => give [.str (m.plainText v)]
    | f => pure (s.pinned.push .rendered (.call f [v] .outside))
  | ipairs => do
    let v ← anyArgument args 1
    give [.builtin ipairsStep, v, .int 0]
  | ipairsStep => do
    let i ← integerArgument m args 2
    pure (s.pinned.push (.element (i + 1)) (.index (first args) (.int (i + 1)) .outside 0))
  | rawget => do
    let t ← tableArgument m args 1
    let key ← anyArgument args 2
    give [m.rawGet t key]
  | rawset => do
    let t ← tableArgument m args 1
    let key ← anyArgument args 2
    let v ← anyArgument args 3
    match key with
    | .nil => pure (s.go (.throw (.text "table index is nil")))
    | .nan _ => pure (s.go (.throw (.text "table index is NaN")))
    | key => pure ({ s with memory := m.rawSet t key v }.go (.give [.table t]))
  | rawequal => do
    let a ← anyArgument args 1
    let b ← anyArgument args 2
    give [.bool (a.rawEqual b)]
  | rawlen =>
    match first args with
    | .table t => give [.int (Int64.ofNat (m.table t).border)]
    | .str t => give [.int (Int64.ofNat t.length)]
    | _ => .error (.argument 1 (bytes "table or string expected"))
  | setmetatable => s.setMetatable args
  | getmetatable => do
    let v ← anyArgument args 1
    give [m.shownMetatable v]
  | coroutineCreate => do
    let f ← functionArgument m args 1
    let (t, m) := m.addThread f
    pure ({ s with memory := m }.go (.give [.thread t]))
  | coroutineResume => do
    let t ← threadArgument m args 1
    pure (s.go (.resume t (args.drop 1) .resume))
  | coroutineYield => pure (s.yield args)
  | coroutineWrap => do
    let f ← functionArgument m args 1
    let (t, m) := m.addThread f
    pure ({ s with memory := m }.go (.give [.wrapper t]))
  | coroutineStatus => do
    let t ← threadArgument m args 1
    give [.text (s.threadStatus t)]
  | stringRep => do
    let text ← stringArgument m args 1
    let n ← integerArgument m args 2
    let sep ← match args[2]? with
      | none | some .nil => pure []
      | _ => stringArgument m args 3
    if n ≤ 0 then give [.str []]
    else if Int.pow 2 63 ≤ (text.length + sep.length) * n.toInt then
      .error (.plain (bytes "resulting string too large"))
    else give [.str (Bytes.repeated text sep n.toInt.toNat)]
  | stringMatch => do
    let text ← stringArgument m args 1
    let p ← stringArgument m args 2
    let start := searchStart (← optionalInteger m args 3 1) text.length
    if text.length < start then give [.nil]
    else
      match Pattern.find? text p start with
      | .ok (some vs) => give vs
      | .ok none => give [.nil]
      | .error message => .error (.plain (bytes message))
  | tableUnpack => do
    let start ← optionalInteger m args 2 1
    match args[2]? with
    | none | some .nil =>
      let s := s.pinned
      let waiting := { s with stack := Frame.elementsTo (first args) start :: s.stack }
      pure (waiting.length (first args) .outside)
    | _ => do
      let stop ← integerArgument m args 3
      pure (s.pinned.unpack (first args) start stop)
  | collectgarbage => s.collectGarbage args
  | stringArith op => pure (s.stringArithmetic op (first args) (args[1]?.getD .nil))

/-- Call a function of the library. -/
def Builtin.run (b : Builtin) (args : List Value) (s : State) : Outcome :=
  match b.attempt args s with
  | .ok o => o
  | .error (.argument number message) => s.refuseArgument b number message
  | .error (.plain message) => s.refuse message

/-! ## What every script finds -/

/-- A table of named values. -/
def namedTable (fields : List (String × Value)) : Table :=
  { Table.empty with fields := fields.map fun p => (.text p.1, p.2) }

/-- The operators that read strings as numbers. -/
def stringOperators : List Arith :=
  [.add, .sub, .mul, .mod, .pow, .div, .idiv, .unm]

/-- The memory a script starts with: the globals, the metatable of strings and the tables of
functions. -/
def Memory.initial : Memory :=
  let globals := namedTable [
    ("_G", .table globalTable),
    ("print", .builtin .print), ("error", .builtin .error), ("assert", .builtin .assert),
    ("pcall", .builtin .pcall), ("select", .builtin .select), ("type", .builtin .type),
    ("tostring", .builtin .tostring), ("ipairs", .builtin .ipairs),
    ("rawget", .builtin .rawget), ("rawset", .builtin .rawset),
    ("rawequal", .builtin .rawequal), ("rawlen", .builtin .rawlen),
    ("setmetatable", .builtin .setmetatable), ("getmetatable", .builtin .getmetatable),
    ("collectgarbage", .builtin .collectgarbage),
    ("string", .table 2), ("coroutine", .table 3), ("table", .table 4), ("math", .table 5)]
  let strings := namedTable
    (("__index", .table 2) ::
      stringOperators.map fun op => ("__" ++ op.text, Value.builtin (.stringArith op)))
  let string := namedTable [("rep", .builtin .stringRep), ("match", .builtin .stringMatch)]
  let coroutine := namedTable [
    ("create", .builtin .coroutineCreate), ("resume", .builtin .coroutineResume),
    ("yield", .builtin .coroutineYield), ("wrap", .builtin .coroutineWrap),
    ("status", .builtin .coroutineStatus)]
  let table := namedTable [("unpack", .builtin .tableUnpack)]
  let math := namedTable [
    ("maxinteger", .int Int64.maxValue), ("mininteger", .int Int64.minValue)]
  { tables := #[globals, strings, string, coroutine, table, math]
    cells := #[], closures := #[], threads := #[], marked := [], collects := true }

end CardBridge.Script

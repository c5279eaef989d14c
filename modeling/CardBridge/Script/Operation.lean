import CardBridge.Script.Frame

/-!
# Operations

What operators, indexing and assignment do with values of any type. Numbers and strings have
operations of their own; tables and game objects are asked through their metatables. An operation
either has its result at once or calls a function to find it.
-/

namespace CardBridge.Script

namespace State

/-- Go on with something else. -/
def go (s : State) (c : Control) : Outcome :=
  .next { s with control := c }

/-- Go on with something else above a new frame. -/
def push (s : State) (f : Frame) (c : Control) : Outcome :=
  .next { s with control := c, stack := f :: s.stack }

/-- Fail with a message that says where. -/
def fail (s : State) (site : Site) (message : Bytes) : Outcome :=
  s.go (.throw (.str ((site.position.map Position.mark).getD [] ++ message)))

end State

/-- A place in a function as the site of a call or an operation. -/
def Env.site (env : Env) (line : Nat) (name : Option Described) : Site :=
  ⟨some ⟨env.chunk, line⟩, name⟩

/-- The site of a call that a metatable asks for at `site`. -/
def Site.ofEvent (site : Site) (e : Event) : Site :=
  { site with name := some ⟨.metamethod, bytes e.text⟩ }

/-- What a message adds about the name of a value. -/
def nameText : Option Described → Bytes
  | none => []
  | some d => bytes (" (" ++ d.kind.text ++ " '") ++ d.name ++ bytes "')"

/-- The message about a value of the wrong type. -/
def Memory.typeError (m : Memory) (verb : String) (v : Value) (name : Option Described) : Bytes :=
  bytes ("attempt to " ++ verb ++ " a ") ++ m.typeText v ++ bytes " value" ++ nameText name

/-- What the metatable of the first of two values says, or else that of the second. -/
def Memory.eitherMetafield (m : Memory) (a b : Value) (e : Event) : Value :=
  match m.metafield a e with
  | .nil => m.metafield b e
  | f => f

/-- How many metatables may be followed in turn. -/
def chainLimit : Nat := 2000

namespace State

/-- Call what a metatable says, and keep one result. -/
def callEvent (s : State) (f : Value) (args : List Value) (site : Site) (e : Event) : Outcome :=
  s.push .single (.call f args (site.ofEvent e))

/-- The value of an object at a key. -/
def index (s : State) (object key : Value) (site : Site) (chain : Nat) : Outcome :=
  let follow (f : Value) : Outcome :=
    if f.isFunction then s.callEvent f [object, key] site .index
    else if chainLimit ≤ chain + 1 then
      s.fail site (bytes "'__index' chain too long; possibly a loop")
    else s.go (.index f key { site with name := none } (chain + 1))
  match object with
  | .table t =>
    match s.memory.rawGet t key with
    | .nil =>
      match s.memory.metafield object .index with
      | .nil => s.go (.give [.nil])
      | f => follow f
    | v => s.go (.give [v])
  | _ =>
    match s.memory.metafield object .index with
    | .nil => s.fail site (s.memory.typeError "index" object site.name)
    | f => follow f

/-- Assign to a key of a table, if it can be a key. -/
def storeRaw (s : State) (t : Nat) (key v : Value) (site : Site) : Outcome :=
  match key with
  | .nil => s.fail site (bytes "table index is nil")
  | .nan _ => s.fail site (bytes "table index is NaN")
  | _ => { s with memory := s.memory.rawSet t key v }.go .done

/-- Assign to a key of an object. -/
def store (s : State) (object key v : Value) (site : Site) (chain : Nat) : Outcome :=
  let follow (f : Value) : Outcome :=
    if f.isFunction then s.push .discard (.call f [object, key, v] (site.ofEvent .newindex))
    else if chainLimit ≤ chain + 1 then
      s.fail site (bytes "'__newindex' chain too long; possibly a loop")
    else s.go (.store f key v { site with name := none } (chain + 1))
  match object with
  | .table t =>
    match s.memory.rawGet t key with
    | .nil =>
      match s.memory.metafield object .newindex with
      | .nil => s.storeRaw t key v site
      | f => follow f
    | _ => s.storeRaw t key v site
  | _ =>
    match s.memory.metafield object .newindex with
    | .nil => s.fail site (s.memory.typeError "index" object site.name)
    | f => follow f

/-- Of the operands of an arithmetic operator, the one to blame. -/
def culprit (fits : Value → Bool) (a b : Value) (left right : Option Described) :
    Value × Option Described :=
  if fits a then (b, right) else (a, left)

/-- Apply an arithmetic operator. -/
def arithmetic (s : State) (op : Arith) (a b : Value) (left right : Option Described)
    (site : Site) : Outcome :=
  match arith op a b with
  | .value v => s.go (.give [v])
  | .failed message => s.fail site (bytes message)
  | .undefined =>
    match s.memory.eitherMetafield a b (.arith op) with
    | .nil =>
      if op.isBitwise && a.isNumber && b.isNumber then
        let (_, name) := culprit (fun v => v.toInteger?.isSome) a b left right
        s.fail site (bytes "number" ++ nameText name ++ bytes " has no integer representation")
      else
        let (v, name) := culprit Value.isNumber a b left right
        let verb := if op.isBitwise then "perform bitwise operation on" else "perform arithmetic on"
        s.fail site (s.memory.typeError verb v name)
    | f => s.callEvent f [a, b] site (.arith op)

/-- Join two texts. -/
def concat (s : State) (a b : Value) (left right : Option Described) (site : Site) : Outcome :=
  match a.toText?, b.toText? with
  | some x, some y => s.go (.give [.str (x ++ y)])
  | _, _ =>
    match s.memory.eitherMetafield a b .concat with
    | .nil =>
      let (v, name) := culprit (fun v => v.toText?.isSome) a b left right
      s.fail site (s.memory.typeError "concatenate" v name)
    | f => s.callEvent f [a, b] site .concat

/-- Compare two values by order. -/
def order (s : State) (known : Option Bool) (e : Event) (a b : Value) (site : Site) : Outcome :=
  match known with
  | some r => s.go (.give [.bool r])
  | none =>
    match s.memory.eitherMetafield a b e with
    | .nil =>
      let m := s.memory
      let message :=
        if m.typeText a = m.typeText b then
          bytes "attempt to compare two " ++ m.typeText a ++ bytes " values"
        else bytes "attempt to compare " ++ m.typeText a ++ bytes " with " ++ m.typeText b
      s.fail site message
    | f => s.push (.truth false) (.call f [a, b] (site.ofEvent e))

/-- Compare two values for equality. Only tables may have more to say about it. -/
def equality (s : State) (negated : Bool) (a b : Value) (site : Site) : Outcome :=
  let answer (r : Bool) : Outcome := s.go (.give [.bool (r != negated)])
  match a, b with
  | .table x, .table y =>
    if x = y then answer true
    else
      match s.memory.eitherMetafield a b .eq with
      | .nil => answer false
      | f => s.push (.truth negated) (.call f [a, b] (site.ofEvent .eq))
  | _, _ => answer (a.rawEqual b)

/-- The length of a value. -/
def length (s : State) (v : Value) (site : Site) : Outcome :=
  match v with
  | .str t => s.go (.give [.int (Int64.ofNat t.length)])
  | _ =>
    match s.memory.metafield v .len, v with
    | .nil, .table t => s.go (.give [.int (Int64.ofNat (s.memory.table t).border)])
    | .nil, _ => s.fail site (s.memory.typeError "get length of" v site.name)
    | f, _ => s.callEvent f [v, v] site .len

/-- Apply an operator of two operands. -/
def binary (s : State) (op : BinOp) (a b : Value) (left right : Option Described) (site : Site) :
    Outcome :=
  match op with
  | .arith op => s.arithmetic op a b left right site
  | .concat => s.concat a b left right site
  | .eq => s.equality false a b site
  | .ne => s.equality true a b site
  | .lt => s.order (lessThan? a b) .lt a b site
  | .le => s.order (lessEqual? a b) .le a b site
  | .gt => s.order (lessThan? b a) .lt b a site
  | .ge => s.order (lessEqual? b a) .le b a site

/-- Apply an operator of one operand. -/
def unary (s : State) (op : UnOp) (v : Value) (site : Site) : Outcome :=
  match op with
  | .neg => s.arithmetic .unm v v site.name site.name site
  | .bnot => s.arithmetic .bnot v v site.name site.name site
  | .not => s.go (.give [.bool !v.truthy])
  | .len => s.length v site

end State

end CardBridge.Script

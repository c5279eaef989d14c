import CardBridge.Session.Loading
import CardBridge.Session.Members

/-!
# Invocations

The ways in which the engine has scripts run. Calls take the staged arguments, of which there have
to be as many as declared; conditions and queries are calls during which no action is allowed and
which read as `false`, zero or nothing when they fail. All of them run inside the bound on nested
invocations. A call that fails leaves no argument staged and reports the failure.
-/

namespace CardBridge

open Script (Value)

namespace Code

/-- Run a call at a site. If it fails, nothing stays staged and the failure is reported. -/
def settle (site : String) (call : Code) : Code :=
  call.andThen fun
    | .failed f => write (.clear .call) (write (.report site f) (fail f))
    | r => finish r

/-- Go on if as many arguments are staged as are declared. -/
def withCount (declared : Nat) (k : Code) : Code :=
  read fun s =>
    let staged := (s.staged .call).length
    if staged = declared then k else fail (.paramCount declared staged)

/-- Take all arguments out of a queue and go on with their values. -/
def withStaged (q : Queue) (k : List Value → Code) : Code :=
  read fun s =>
    write (.clear q)
      (match s.stagedValues q with
      | .ok vs => k vs
      | .error f => fail f)

/-- Call a function and keep as many results as are wanted. -/
def callWith (f : Value) (args : List Value) (ret : ReturnCount) : Code :=
  attempt (.call f args) (fun vs => values (ret.adjust vs)) fun text => fail (.script text)

/-- Call a function with the staged arguments. -/
def invokeStaged (f : Value) (declared : Nat) (ret : ReturnCount) : Code :=
  withCount declared (within .guard (withStaged .call fun args => callWith f args ret))

/-- The failure of calling what is no function. -/
def notCallable (v : Value) : Failure :=
  .script ("attempt to call a " ++ v.hostTypeName ++ " value")

/-- Call a function that the host holds. -/
def callFunction (c : Callable) (declared : Nat) (ret : ReturnCount) : Code :=
  settle "call_function" <|
    read fun s =>
      match s.resolve c with
      | .ok f => invokeStaged f declared ret
      | .error e => fail e

/-- Call a script value. -/
def callValue (v : Value) (declared : Nat) (ret : ReturnCount) : Code :=
  settle "call_value" <|
    if v.isFunction then invokeStaged v declared ret
    else if v = .nil then fail .nullFunction
    else fail (notCallable v)

/-- Call what a look-up finds; `missing` if that is no function. -/
def callFound (lookup : Code) (declared : Nat) (ret : ReturnCount) (missing : Code) : Code :=
  lookup.andThen fun
    | .answer (.values vs) =>
      let f := Script.first vs
      if f.isFunction then invokeStaged f declared ret else missing
    | .raised text => fail (.engine text)
    | r => finish r

/-- Call a member of a registered card. A member that is no function is left alone unless the call
is forced. -/
def callCard (card : ObjectId) (name : String) (declared : Nat) (ret : ReturnCount)
    (forced : Bool) : Code :=
  let o := ObjectRef.card card
  settle name <| withCount declared <|
    read fun s =>
      match s.env.bridge with
      | none => fail .environmentClosed
      | some b =>
        match b.registry.payload o with
        | none => fail (.notRegistered o)
        | some n =>
          let g := s.object n
          callFound (lookupMember g.kind g.cls (.text name)) declared ret
            (if forced then fail (.missingFunction o.text name)
            else write (.clear .call) (values (ret.adjust [])))

/-- Look up a member of the class of a code, whose script is loaded if need be. -/
def lookupInClass (code : UInt32) (name : String) : Code :=
  (loadCard code).andThen fun
    | .failed f => fail f
    | .raised text => finish (.raised text)
    | _ =>
      write (.makeClass (scriptClass code)) <|
        read fun s =>
          attempt (.index (s.global (scriptClass code)) (.text name)) values
            fun text => finish (.raised text)

/-- Call a member of the class of a code, or a global function if the code is zero. -/
def callCode (code : UInt32) (name : String) (declared : Nat) (ret : ReturnCount) : Code :=
  settle name <|
    if code = 0 then
      callFound (read fun s => values [s.global name]) declared ret
        (fail (.missingFunction "globals" name))
    else
      callFound (lookupInClass code name) declared ret
        (fail (.missingFunction (scriptClass code) name))

/-! ## Conditions and queries -/

/-- Evaluate something while no action is allowed, and read its values; `otherwise` if it
fails. -/
def query (body : Code) (reading : List Value → Answer) (otherwise : Answer) : Code :=
  scope .query body fail fun
    | .answer (.values vs) => answer (reading vs)
    | _ => answer otherwise

/-- Read a condition. -/
def asTruth (vs : List Value) : Answer :=
  .truth (Script.first vs).truthy

/-- Read an integer. -/
def asInteger (vs : List Value) : Answer :=
  .integer (toInteger (Script.first vs))

/-- Read integers. -/
def asIntegers (vs : List Value) : Answer :=
  .integers (vs.map toInteger)

/-- Without a function nothing is called, and nothing stays staged. -/
def withoutFunction (a : Answer) : Code :=
  write (.clear .call) (answer a)

/-- Call a function with a card and further values. -/
def callOnCard (site : String) (card : ObjectId) (f : Value) (extra : List Value)
    (ret : ReturnCount) : Code :=
  let call :=
    if f.isFunction then
      read fun s =>
        match s.objectValue (.card card) with
        | .ok v => within .guard (callWith f (v :: extra) ret)
        | .error e => fail e
    else fail (notCallable f)
  call.andThen fun
    | .failed e => write (.report site e) (fail e)
    | r => finish r

/-- Evaluate a condition with the staged arguments. -/
def checkCondition (condition : Option Callable) (declared : Nat) : Code :=
  match condition with
  | none => withoutFunction (.truth true)
  | some c => query (callFunction c declared (.exactly 1)) asTruth (.truth false)

/-- Ask a filter about a card. -/
def checkMatching (card : ObjectId) (filter : Value) (extra : List Value) : Code :=
  if filter = .nil then answer (.truth true)
  else
    query (callOnCard "check_matching" card filter extra (.exactly 1)) asTruth (.truth false)

/-- Ask a filter about a card, with the elements of a table for further arguments. -/
def checkMatchingTable (card : ObjectId) (filter : Value) (table : Nat) : Code :=
  if filter = .nil then answer (.truth true)
  else
    query
      (read fun s =>
        callOnCard "check_matching_table" card filter (s.env.memory.table table).sequence
          (.exactly 1))
      asTruth (.truth false)

/-- Ask a function for an integer about a card. -/
def operationValue (card : ObjectId) (f : Value) (extra : List Value) : Code :=
  if f = .nil then answer (.integer 0)
  else query (callOnCard "get_operation_value" card f extra (.exactly 1)) asInteger (.integer 0)

/-- Ask a function for integers about a card. -/
def operationValues (card : ObjectId) (f : Value) (extra : List Value) : Code :=
  if f = .nil then answer (.integers [])
  else query (callOnCard "get_operation_value" card f extra .all) asIntegers (.integers [])

/-- Ask a function for an integer, with the staged arguments. -/
def functionValue (f : Option Callable) (declared : Nat) : Code :=
  match f with
  | none => withoutFunction (.integer 0)
  | some c => query (callFunction c declared (.exactly 1)) asInteger (.integer 0)

/-- Ask a function for integers, with the staged arguments. -/
def functionValues (f : Option Callable) (declared : Nat) : Code :=
  match f with
  | none => withoutFunction (.integers [])
  | some c => query (callFunction c declared .all) asIntegers (.integers [])

end Code

end CardBridge

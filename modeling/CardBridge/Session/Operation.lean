import CardBridge.Session.Invocation

/-!
# Operations

Everything that a host can ask of a session, and the host code that each of it is
(`Operation.code`). Functions that scripts call can ask for the same.
-/

namespace CardBridge

open Script (Value)

namespace Code

/-- The failure of a step: nothing stays staged for it, and it is reported. -/
def failStep (q : Queue) (f : Failure) : Code :=
  write (.clear q) (write (.report "call_coroutine" f) (answer (.step (.failed f))))

/-- Resume the coroutine of an operation with the arguments staged for it. -/
def resumeStaged (q : Queue) (id : CoroutineId) : Code :=
  withStaged q fun args =>
    read fun s =>
      match s.env.bridge.bind (·.coroutines.lookup id) with
      | some e =>
        run (.resume e.payload args) fun
          | .returned vs => values vs
          | .yielded vs => finish (.suspended vs)
          | .raised v => wording wordingLimit v fun text => finish (.raised text)
      | none => fail (.coroutine id .unknown)

/-- The result of a step whose coroutine has come to a reply. An error of its script is reported. -/
def stepResult : Reply → Code
  | .answer (.values vs) => answer (.step (.gave .finish vs))
  | .suspended vs => answer (.step (.gave .yield vs))
  | .raised text =>
    write (.report "call_coroutine" (.script text)) (answer (.step (.failed (.script text))))
  | r => finish r

/-- Run one step of an operation in its scope, on the arguments staged for it. -/
def runStep (q : Queue) (s : Scope) (id : CoroutineId) : Code :=
  scope .guard (scope s (resumeStaged q id) fail stepResult) (failStep q) fun
    | .failed f => failStep q f
    | r => finish r

/-- Run one step of an operation: its first with the staged arguments on a function that the host
holds, a later one with the arguments staged to resume it. -/
def callCoroutine (c : Callable) (declared : Nat) (id : CoroutineId) (step : Nat) : Code :=
  if step = 0 then
    read fun s =>
      let staged := (s.staged .call).length
      if staged = declared then
        match s.resolve c with
        | .ok f => runStep .call (.start id f) id
        | .error f => failStep .call f
      else failStep .call (.paramCount declared staged)
  else runStep .resume (.proceed id) id

/-- Give up an operation; whether there was one. -/
def abandon (id : CoroutineId) : Code :=
  read fun s => write (.abandon id) (answer (.truth (s.phase id).isSome))

/-- Register an object and go on with its handle. -/
def bindObject (o : ObjectRef) (cls : Option String) (k : Handle → Code) : Code :=
  if o.kind = .deleted then fail (.notRegistered o)
  else
    read fun s =>
      match s.env.bridge with
      | none => fail .environmentClosed
      | some _ =>
        write (.register o cls) <|
          read fun s => k ((s.handleOf o).getD .null)

/-- Register an object. -/
def register (o : ObjectRef) : Code :=
  bindObject o none fun h => answer (.handle h)

/-- Register a card under the class of its script, which is loaded if need be. A new card is set
up by its script. -/
def registerCard (info : CardInfo) : Code :=
  let o := ObjectRef.card info.id
  read fun s =>
    match s.env.bridge with
    | none => fail .environmentClosed
    | some b =>
      let code := info.scriptCode b.config.aliasWindow
      let fresh := !b.registry.contains o
      let bound (cls : Option String) : Code :=
        bindObject o cls fun h =>
          if fresh && info.setUp && code ≠ 0 then
            write (.stage .call false (.object o)) <|
              (callCard info.id "initial_effect" 1 (.exactly 0) false).andThen fun _ =>
                answer (.handle h)
          else answer (.handle h)
      if code = 0 then bound none
      else (loadCard code).andThen fun _ => bound (some (scriptClass code))

/-- Unregister an object; whether it was registered. -/
def unregister (o : ObjectRef) : Code :=
  read fun s =>
    match s.env.bridge with
    | none => fail .environmentClosed
    | some b =>
      write (.unregister o) (answer (.truth (b.registry.remove o).1.isSome))

/-- Stage an argument. -/
def stage (q : Queue) (front : Bool) (a : Argument) : Code :=
  write (.stage q front a) done

/-- Stage the argument that an integer stands for under a type. -/
def stageTyped (raw : Int64) (type : ParamType) (front : Bool) : Code :=
  match Argument.ofRaw? raw type with
  | none => fail (.paramTypeMismatch type)
  | some a =>
    read fun s =>
      match s.env.bridge with
      | none => fail .environmentClosed
      | some _ => stage .call front a

/-- Take the staged arguments as values. -/
def takeStaged (q : Queue) : Code :=
  withStaged q values

/-- Hold a script function in a slot; whether there was one to hold. -/
def hold (slot : String) (v : Value) : Code :=
  if v = .nil then answer (.truth false)
  else if v.isFunction then
    read fun s =>
      match s.env.account with
      | none => fail .environmentClosed
      | some _ => write (.hold slot v) (answer (.truth true))
  else fail (.paramTypeMismatch .function)

/-- Hold a global function in a slot; whether there was one to hold. -/
def holdGlobal (slot name : String) : Code :=
  read fun s =>
    let v := s.global name
    if v.isFunction then hold slot v else answer (.truth false)

/-- Fail unless actions are allowed. -/
def requireAction : Code :=
  read fun s => if s.actionsAllowed then done else fail .actionNotAllowed

/-- Run code some levels of invocation deeper. -/
def withDepth : Nat → Code → Code
  | 0, body => body
  | n + 1, body => within .guard (withDepth n body)

end Code

/-- What a host can ask of a session. -/
inductive Operation
  | loadScript (source : Bytes) (name : String)
  | loadNamed (name : String)
  | loadCard (code : UInt32)
  | evaluate (source : Bytes)
  | register (o : ObjectRef)
  | registerCard (info : CardInfo)
  | unregister (o : ObjectRef)
  | stage (q : Queue) (front : Bool) (a : Argument)
  | stageTyped (raw : Int64) (type : ParamType) (front : Bool)
  | clear (q : Queue)
  | takeStaged (q : Queue)
  | hold (slot : String) (v : Value)
  | holdGlobal (slot name : String)
  | callFunction (c : Callable) (declared : Nat) (ret : ReturnCount)
  | callValue (v : Value) (declared : Nat) (ret : ReturnCount)
  | callCard (card : ObjectId) (name : String) (declared : Nat) (ret : ReturnCount) (forced : Bool)
  | callCode (code : UInt32) (name : String) (declared : Nat) (ret : ReturnCount)
  | checkCondition (condition : Option Callable) (declared : Nat)
  | checkMatching (card : ObjectId) (filter : Value) (extra : List Value)
  | checkMatchingTable (card : ObjectId) (filter : Value) (table : Nat)
  | operationValue (card : ObjectId) (f : Value) (extra : List Value)
  | operationValues (card : ObjectId) (f : Value) (extra : List Value)
  | functionValue (f : Option Callable) (declared : Nat)
  | functionValues (f : Option Callable) (declared : Nat)
  | callCoroutine (c : Callable) (declared : Nat) (id : CoroutineId) (step : Nat)
  | abandon (id : CoroutineId)
  | requireAction
  | emit (kind : MessageKind) (text : String)
  | report (site : String) (f : Failure)
  | printTrace

/-- The host code of an operation. -/
def Operation.code : Operation → Code
  | loadScript source name => .loadScript source name
  | loadNamed name => .loadNamed name
  | loadCard code => .loadCard code
  | evaluate source => .evaluate source
  | register o => .register o
  | registerCard info => .registerCard info
  | unregister o => .unregister o
  | stage q front a => .stage q front a
  | stageTyped raw type front => .stageTyped raw type front
  | clear q => .write (.clear q) .done
  | takeStaged q => .takeStaged q
  | hold slot v => .hold slot v
  | holdGlobal slot name => .holdGlobal slot name
  | callFunction c declared ret => .callFunction c declared ret
  | callValue v declared ret => .callValue v declared ret
  | callCard card name declared ret forced => .callCard card name declared ret forced
  | callCode code name declared ret => .callCode code name declared ret
  | checkCondition condition declared => .checkCondition condition declared
  | checkMatching card filter extra => .checkMatching card filter extra
  | checkMatchingTable card filter table => .checkMatchingTable card filter table
  | operationValue card f extra => .operationValue card f extra
  | operationValues card f extra => .operationValues card f extra
  | functionValue f declared => .functionValue f declared
  | functionValues f declared => .functionValues f declared
  | callCoroutine c declared id step => .callCoroutine c declared id step
  | abandon id => .abandon id
  | requireAction => .requireAction
  | emit kind text => .write (.emit kind text) .done
  | report site f => .write (.report site f) .done
  | printTrace => .printTrace

end CardBridge

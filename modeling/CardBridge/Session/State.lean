import CardBridge.Depth
import CardBridge.Registry
import CardBridge.Script.Library
import CardBridge.Script.Parser
import CardBridge.Session.Journal

/-!
# The state of a session

An environment has the memory of its scripts, the game objects they hold, and a `Bridge` with the
bookkeeping of the engine; an environment without one is foreign. Beside the environments there
is what they share: the script functions that the host holds, with their owners, and the journal.
-/

namespace CardBridge

open Script (Value Memory)

/-- What scripts hold for a registered object. It stays when the object is unregistered, but then
it is inert. -/
structure GameObject where
  handle : Handle
  object : ObjectRef
  deleted : Bool
  /-- The class of the script of a card. -/
  cls : Option String
  deriving DecidableEq

namespace GameObject

/-- What stands for every object that is not registered. -/
def sentinel : GameObject :=
  ⟨.null, ⟨.deleted, ⟨0⟩⟩, true, none⟩

/-- Its kind by now. -/
def kind (g : GameObject) : ObjectKind :=
  if g.deleted then .deleted else g.object.kind

/-- The object it stands for by now. -/
def live? (g : GameObject) : Option ObjectRef :=
  if g.deleted then none else some g.object

/-- Make it inert. -/
def delete (g : GameObject) : GameObject :=
  { g with deleted := true, cls := none }

/-- Its text. -/
def text (g : GameObject) : String :=
  if g.deleted then "Deleted" else g.object.text ++ ": " ++ g.handle.text

end GameObject

/-- The bookkeeping of an environment. Game objects and coroutines are named by their numbers. -/
structure Bridge where
  config : BridgeConfig
  registry : Registry Nat
  params : ArgumentQueue
  resumes : ArgumentQueue
  coroutines : CoroutineTable Nat
  depth : CallDepth
  /-- How many conditions and queries are being evaluated, as a number of 32 bits. -/
  noAction : UInt32
  messages : MessageBuffer

/-- The bookkeeping of an environment that is new. -/
def Bridge.new (config : BridgeConfig) : Bridge :=
  { config
    registry := .empty
    params := []
    resumes := []
    coroutines := []
    depth := .new config.maxCallDepth
    noAction := 0
    messages := .new config.messageCapacity }

/-- Where an environment finds scripts by name. -/
inductive Reader
  | nowhere
  | store (scripts : ScriptStore)
  /-- Among the scripts that all environments share. -/
  | shared

/-- An environment: the scripts of one session. -/
structure Environment where
  session : Option SessionId
  memory : Memory
  objects : Array GameObject
  bridge : Option Bridge
  /-- The number under which its script functions are accounted for. -/
  account : Option Nat
  reader : Reader
  /-- Whether anyone takes messages. -/
  handles : Bool
  /-- Whether anyone is told when no invocation is left. -/
  hooked : Bool

/-- The account of an environment: whether it is open, and how many of its functions are held. -/
structure Account where
  isOpen : Bool
  held : Nat
  deriving DecidableEq

/-- A script function that the host holds: whose it is and how many owners it has. -/
structure HeldFunction where
  function : Value
  account : Nat
  owners : Nat

/-- What all environments share. -/
structure Shared where
  accounts : Array Account
  held : Array HeldFunction
  /-- Where the host keeps script functions, by name. -/
  slots : Keyed String Callable
  scripts : ScriptStore
  /-- The journal, last entry first. -/
  journal : List Event

/-- Nothing shared yet. -/
def Shared.empty : Shared :=
  ⟨#[], #[], [], [], []⟩

/-- The environment in which something happens, and what it shares with others. -/
structure State where
  env : Environment
  shared : Shared

/-- The two queues of arguments. -/
inductive Queue
  | call
  | resume
  deriving DecidableEq

/-- The arguments in one of the queues. -/
def Bridge.queue (b : Bridge) : Queue → ArgumentQueue
  | .call => b.params
  | .resume => b.resumes

/-- Change one of the queues. -/
def Bridge.setQueue (b : Bridge) (q : Queue) (args : ArgumentQueue) : Bridge :=
  match q with
  | .call => { b with params := args }
  | .resume => { b with resumes := args }

namespace State

/-- The arguments in one of the queues; a foreign environment has none. -/
def staged (s : State) (q : Queue) : ArgumentQueue :=
  (s.env.bridge.map (·.queue q)).getD []

/-- Invocations in progress. -/
def callDepth (s : State) : Nat :=
  (s.env.bridge.map (·.depth.current)).getD 0

/-- The most invocations there were. -/
def peakDepth (s : State) : Nat :=
  (s.env.bridge.map (·.depth.peak)).getD 0

/-- Whether no condition and no query is being evaluated. -/
def actionsAllowed (s : State) : Bool :=
  (s.env.bridge.map (·.noAction == 0)).getD false

/-- The phase of an operation of several steps. -/
def phase (s : State) (id : CoroutineId) : Option CoroutinePhase :=
  s.env.bridge.bind (·.coroutines.phase id)

/-- The handle of an object. -/
def handleOf (s : State) (o : ObjectRef) : Option Handle :=
  s.env.bridge.bind (·.registry.handleOf o)

/-- The object behind a handle. -/
def resolveHandle (s : State) (h : Handle) : Option ObjectRef :=
  s.env.bridge.bind (·.registry.resolve h)

/-- How many objects of a kind are registered. -/
def registeredCount (s : State) (kind : ObjectKind) : Nat :=
  (s.env.bridge.map (·.registry.count kind)).getD 0

/-- Script functions of the environment that the host holds. -/
def heldFunctions (s : State) : Nat :=
  ((s.env.account.bind (s.shared.accounts[·]?)).map (·.held)).getD 0

/-- The numbers that describe the environment. -/
def figures (s : State) : Figures :=
  { staged := (s.staged .call).length
    stagedResume := (s.staged .resume).length
    depth := s.callDepth
    coroutines := (s.env.bridge.map (·.coroutines.length)).getD 0
    callables := s.heldFunctions }

/-! ## Values -/

/-- The game object a number stands for. -/
def object (s : State) (n : Nat) : GameObject :=
  s.env.objects[n]?.getD .sentinel

/-- What scripts hold for an object: its game object, or the sentinel. -/
def objectValue (s : State) (o : ObjectRef) : Except Failure Value :=
  match s.env.bridge with
  | none => .error .environmentClosed
  | some b => .ok (.object ((b.registry.payload o).getD 0))

/-- The registered object behind a script value. -/
def objectOfValue (s : State) : Value → Option ObjectRef
  | .object n => (s.object n).live?
  | _ => none

/-- A script value as it looks now. -/
def see (s : State) : Value → Seen
  | .nil => .nil
  | .bool b => .bool b
  | .int n => .int n
  | .num x => .num x
  | .nan _ => .nan
  | .str t => .str t
  | .object n =>
    let g := s.object n
    .object g.live? g.handle g.kind g.text
  | v => .other v.hostTypeName

/-- The value of a global, without regard to metatables. -/
def global (s : State) (name : String) : Value :=
  s.env.memory.rawGet Script.globalTable (.text name)

/-- The script of a name. -/
def readScript (s : State) (name : String) : Option Bytes :=
  match s.env.reader with
  | .nowhere => none
  | .store scripts => scripts.lookup name
  | .shared => s.shared.scripts.lookup name

/-- Whether a held function is of an environment that is open. -/
def isValid (s : State) (c : Callable) : Bool :=
  match s.shared.held[c.id]? with
  | none => false
  | some h => ((s.shared.accounts[h.account]?).map (·.isOpen)).getD false

/-- The owners of a held function. -/
def owners (s : State) (c : Callable) : Nat :=
  ((s.shared.held[c.id]?).map (·.owners)).getD 0

/-- The script function that is held, if it is of this environment and that is open. -/
def resolve (s : State) (c : Callable) : Except Failure Value :=
  if !s.isValid c then .error .environmentClosed
  else
    match s.env.account, s.shared.held[c.id]? with
    | some a, some h => if h.account = a then .ok h.function else .error .foreignCallable
    | _, _ => .error .environmentClosed

/-- The value an argument is passed as. -/
def argumentValue (s : State) : Argument → Except Failure Value
  | .nil => .ok .nil
  | .int n => .ok (.int n)
  | .bool b => .ok (.bool b)
  | .text t => .ok (.text t)
  | .object o => s.objectValue o
  | .function c => s.resolve c
  | .value v => .ok v

/-- The values of all arguments in a queue, in order, or the first failure. -/
def stagedValues (s : State) (q : Queue) : Except Failure (List Value) :=
  match s.env.bridge with
  | none => .error .environmentClosed
  | some b => (b.queue q).mapM s.argumentValue

end State

end CardBridge

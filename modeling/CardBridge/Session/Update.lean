import CardBridge.Session.State

/-!
# Changes of a session's state

Everything that the host side of a session does to its state is one of the changes of `Update`, or
the beginning or end of a `Scope`: a stretch of time with an effect that is undone in any case.
Scripts change only their own memory.
-/

namespace CardBridge

open Script (Value Memory)

/-! ## Owners -/

namespace Shared

/-- One owner more for a held function. -/
def own (s : Shared) (c : Callable) : Shared :=
  { s with held := s.held.modify c.id fun h => { h with owners := h.owners + 1 } }

/-- One owner less. Without owners the function is not held any more. -/
def disown (s : Shared) (c : Callable) : Shared :=
  match s.held[c.id]? with
  | none => s
  | some h =>
    let s := { s with held := s.held.modify c.id fun h => { h with owners := h.owners - 1 } }
    if h.owners = 1 then
      { s with accounts := s.accounts.modify h.account fun a => { a with held := a.held - 1 } }
    else s

/-- One owner more for the function that an argument is, if it is one. -/
def ownArgument (s : Shared) : Argument → Shared
  | .function c => s.own c
  | _ => s

/-- One owner less for the function that an argument is, if it is one. -/
def disownArgument (s : Shared) : Argument → Shared
  | .function c => s.disown c
  | _ => s

/-- One owner less for each function among some arguments. -/
def disownAll (s : Shared) (args : List Argument) : Shared :=
  args.foldl disownArgument s

/-- Write an entry into the journal. -/
def record (s : Shared) (e : Event) : Shared :=
  { s with journal := e :: s.journal }

/-- Empty a slot. -/
def dropSlot (s : Shared) (slot : String) : Shared :=
  match s.slots.lookup slot with
  | none => s
  | some c => { s with slots := Keyed.erase slot s.slots }.disown c

/-- Put a function that is owned once more for it into a slot. -/
def fillSlot (s : Shared) (slot : String) (c : Callable) : Shared :=
  let s := s.dropSlot slot
  { s with slots := Keyed.put slot c s.slots }

end Shared

/-! ## Tables of classes -/

/-- A table that finds in itself what its metatable is asked for. -/
def addSelfIndexed (m : Memory) (metatable : Option Nat) : Nat × Memory :=
  let (t, m) := m.addTable { Script.Table.empty with metatable }
  (t, m.rawSet t (.text "__index") (.table t))

/-- Set a global, without regard to metatables. -/
def setGlobal (m : Memory) (name : String) (v : Value) : Memory :=
  m.rawSet Script.globalTable (.text name) v

/-- The table of a class, made if the global of its name is no table. -/
def classTable (m : Memory) (name : String) : Nat × Memory :=
  match m.rawGet Script.globalTable (.text name) with
  | .table t => (t, m)
  | _ =>
    let (t, m) := addSelfIndexed m none
    (t, setGlobal m name (.table t))

/-! ## Changes -/

/-- A change of the state. -/
inductive Update
  | stage (q : Queue) (front : Bool) (a : Argument)
  | clear (q : Queue)
  /-- Register an object, or give a registered card another class. -/
  | register (o : ObjectRef) (cls : Option String)
  | unregister (o : ObjectRef)
  | abandon (id : CoroutineId)
  | emit (kind : MessageKind) (text : String)
  | report (site : String) (f : Failure)
  /-- Hold a script function in a slot. -/
  | hold (slot : String) (f : Value)
  /-- Hold what one slot holds in another one, too. -/
  | copySlot (source target : String)
  | dropSlot (slot : String)
  | makeClass (name : String)
  | makeTable (vs : List Value)
  | addChunk (chunk : Bytes) (body : List Script.Stat)
  /-- Write down that a function of the host was called. -/
  | called (name : String) (args : List Seen)
  /-- Write down what a step of a function of the host has come to. -/
  | ended (name : String) (r : Report)

namespace State

/-- Change the bookkeeping, if there is any. -/
def updateBridge (s : State) (f : Bridge → Bridge) : State :=
  { s with env := { s.env with bridge := s.env.bridge.map f } }

/-- Change the memory of the scripts. -/
def setMemory (s : State) (m : Memory) : State :=
  { s with env := { s.env with memory := m } }

/-- Write an entry into the journal. -/
def record (s : State) (e : Event) : State :=
  { s with shared := s.shared.record e }

/-- Send a message, if someone takes it. -/
def emit (s : State) (kind : MessageKind) (text : String) : State :=
  match s.env.session with
  | some session => if s.env.handles then s.record (.message session kind text) else s
  | none => s

/-- Report a failure at a site: a message of bounded length, and one with the calls that the
failure came out of, if it says so. -/
def report (s : State) (site : String) (f : Failure) : State :=
  let (head, calls) := splitTraceback f.message.toList
  let s :=
    match s.env.bridge with
    | none => s
    | some b =>
      let (text, messages) := b.messages.formatCut (reportPieces site head)
      let s := s.updateBridge fun b => { b with messages }
      if text.isEmpty then s else s.emit .error (String.ofList text)
  match calls with
  | none => s
  | some text => s.emit .forDebug (String.ofList text)

/-- Stage an argument. A foreign environment has no queue for it. -/
def stage (s : State) (q : Queue) (front : Bool) (a : Argument) : State :=
  match s.env.bridge with
  | none => s
  | some b =>
    let args := b.queue q
    let args := if front then ArgumentQueue.pushFront args a else ArgumentQueue.pushBack args a
    { s.updateBridge (·.setQueue q args) with shared := s.shared.ownArgument a }

/-- Discard the staged arguments. -/
def clear (s : State) (q : Queue) : State :=
  { s.updateBridge (·.setQueue q []) with shared := s.shared.disownAll (s.staged q) }

/-! ### Registering

An object is looked up first. If it is registered it stays as it is, but a card gets the class;
otherwise a handle is given out, a game object is made and that is entered into the registry. -/

/-- Whether an object is to be registered anew. -/
def isNew (s : State) (o : ObjectRef) : Bool :=
  (s.env.bridge.map fun b => (b.registry.payload o).isNone).getD false

/-- Give a registered card, of which `n` is the game object, another class. -/
def refresh (s : State) (o : ObjectRef) (n : Nat) (cls : Option String) : State :=
  if o.kind = .card then
    { s with env := { s.env with objects := s.env.objects.modify n fun g => { g with cls } } }
  else s

/-- Give out a handle. -/
def allocateHandle (s : State) : Handle × State :=
  match s.env.bridge with
  | none => (.null, s)
  | some b =>
    let (h, registry) := b.registry.allocate
    (h, { s with env := { s.env with bridge := some { b with registry } } })

/-- Make a game object. The registry does not know it yet. -/
def makeObject (s : State) (g : GameObject) : Nat × State :=
  (s.env.objects.size, { s with env := { s.env with objects := s.env.objects.push g } })

/-- Enter a game object into the registry. -/
def enterObject (s : State) (h : Handle) (o : ObjectRef) (n : Nat) : State :=
  s.updateBridge fun b => { b with registry := b.registry.insertWith h o n }

/-- Register an object, with nothing that runs in between. -/
def register (s : State) (o : ObjectRef) (cls : Option String) : State :=
  match s.env.bridge with
  | none => s
  | some b =>
    match b.registry.payload o with
    | some n => s.refresh o n cls
    | none =>
      let (h, s) := s.allocateHandle
      let (n, s) := s.makeObject ⟨h, o, false, cls⟩
      s.enterObject h o n

/-- Unregister an object. Its game object becomes inert. -/
def unregister (s : State) (o : ObjectRef) : State :=
  match s.env.bridge with
  | none => s
  | some b =>
    let (removed, registry) := b.registry.remove o
    let objects := match removed with
      | some r => s.env.objects.modify r.payload GameObject.delete
      | none => s.env.objects
    { s with env := { s.env with objects, bridge := some { b with registry } } }

/-- Hold a script function in a slot. -/
def hold (s : State) (slot : String) (f : Value) : State :=
  match s.env.account with
  | none => s
  | some a =>
    let c : Callable := ⟨s.shared.held.size⟩
    let shared := { s.shared with
      accounts := s.shared.accounts.modify a fun x => { x with held := x.held + 1 }
      held := s.shared.held.push ⟨f, a, 1⟩ }
    { s with shared := shared.fillSlot slot c }

/-- Hold what one slot holds in another one, too. -/
def copySlot (s : State) (source target : String) : State :=
  match s.shared.slots.lookup source with
  | none => s
  | some c => { s with shared := (s.shared.own c).fillSlot target c }

end State

/-- Make a change. -/
def Update.apply (s : State) : Update → State
  | stage q front a => s.stage q front a
  | clear q => s.clear q
  | register o cls => s.register o cls
  | unregister o => s.unregister o
  | abandon id => s.updateBridge fun b => { b with coroutines := (b.coroutines.abandon id).2 }
  | emit kind text => s.emit kind text
  | report site f => s.report site f
  | hold slot f => s.hold slot f
  | copySlot source target => s.copySlot source target
  | dropSlot slot => { s with shared := s.shared.dropSlot slot }
  | makeClass name => s.setMemory (classTable s.env.memory name).2
  | makeTable vs => s.setMemory (s.env.memory.addTable (.ofList vs)).2
  | addChunk chunk body =>
    s.setMemory (s.env.memory.addClosure ⟨.mk 0 true body, [], chunk⟩).2
  | called name args => s.record (.native name args)
  | ended name r => s.record (.result name r)

/-! ## Scopes -/

/-- What a stretch of host code comes to. -/
inductive Answer
  | done
  | truth (b : Bool)
  | integer (n : Int64)
  | integers (ns : List Int64)
  | count (n : Nat)
  | handle (h : Handle)
  | values (vs : List Value)
  | step (r : CoroutineResult)
  /-- What a host program wants to have written down, and the values it hands to scripts. -/
  | shown (r : Report) (vs : List Value)

/-- How a stretch of host code ends. -/
inductive Reply
  | answer (a : Answer)
  /-- A coroutine has been suspended with values. -/
  | suspended (vs : List Value)
  | failed (f : Failure)
  /-- A script, or the engine under it, has failed with a text. -/
  | raised (text : String)

/-- Whether it has gone wrong. -/
def Reply.isFailure : Reply → Bool
  | failed _ | raised _ => true
  | _ => false

/-- A stretch of time with an effect that ends with it. -/
inductive Scope
  /-- One level of invocation more. -/
  | guard
  /-- A condition or query is being evaluated. -/
  | query
  /-- The first step of a new operation, which runs a function. -/
  | start (id : CoroutineId) (f : Value)
  /-- A further step of an operation. -/
  | proceed (id : CoroutineId)
  /-- The script of a card is being loaded into a new class. -/
  | loading (code : UInt32)
  /-- The host has script functions in use. -/
  | holding (cs : List Callable)

/-- A scope that has begun, with what its end needs. -/
inductive Open
  | guard
  | query
  /-- A step of an operation, on the coroutine that it runs on. -/
  | step (id : CoroutineId) (thread : Nat)
  | loading (cls : String) (table code : Value)
  | holding (cs : List Callable)

namespace State

/-- Begin a level of invocation, if the bound allows it. -/
def enterGuard (s : State) : Except Failure State :=
  match s.env.bridge with
  | none => .error .environmentClosed
  | some b =>
    match b.depth.enter? with
    | none => .error (.depthExceeded b.depth.max)
    | some depth => .ok (s.updateBridge fun b => { b with depth })

/-- End a level of invocation. The end of the outermost one is an event. -/
def leaveGuard (s : State) : State :=
  match s.env.bridge with
  | none => s
  | some b =>
    let s := s.updateBridge fun b => { b with depth := b.depth.leave }
    match s.env.session with
    | some session =>
      if b.depth.leave.current = 0 ∧ s.env.hooked then s.record (.cleared session) else s
    | none => s

/-- Begin a step of an operation that is kept already, on the coroutine that it runs on. -/
def beginStep (s : State) (id : CoroutineId) : Except Failure (Nat × State) :=
  match s.env.bridge with
  | none => .error .environmentClosed
  | some b => do
    let (thread, coroutines) ← b.coroutines.begin id
    pure (thread, s.updateBridge fun b => { b with coroutines })

/-- Begin an operation that runs a function on a new coroutine, and its first step. -/
def startStep (s : State) (id : CoroutineId) (f : Value) : Except Failure (Nat × State) :=
  match s.env.bridge with
  | none => .error .environmentClosed
  | some b => do
    let (t, memory) := s.env.memory.addThread f
    let coroutines ← b.coroutines.create id t
    ((s.setMemory memory).updateBridge fun b => { b with coroutines }).beginStep id

/-- The phase in which a step leaves its operation. -/
def phaseAfter : Reply → CoroutinePhase
  | .answer _ => .finished
  | .suspended _ => .yielded
  | .failed _ | .raised _ => .errored

/-- End a step. An operation that was given up meanwhile is not there to be changed. -/
def endStep (s : State) (id : CoroutineId) (phase : CoroutinePhase) : State :=
  s.updateBridge fun b =>
    match b.coroutines.finishStep id phase with
    | .ok coroutines => { b with coroutines }
    | .error _ => b

/-- The global that names the class being filled while the script of a card is loaded. -/
def classGlobal : String := "self_table"

/-- The global that names the code of that card. -/
def codeGlobal : String := "self_code"

/-- Begin to load the script of a card: its class is there, with the class of cards behind it, and
two globals name it and the code. -/
def beginLoading (s : State) (code : UInt32) : State :=
  let (card, m) := classTable s.env.memory ObjectKind.card.className
  let (t, m) := addSelfIndexed m (some card)
  let m := setGlobal m (scriptClass code) (.table t)
  let m := setGlobal m classGlobal (.table t)
  s.setMemory (setGlobal m codeGlobal (.int (Int64.ofNat code.toNat)))

/-- End the loading of a card's script. The two globals are what they were, and a class whose
script has failed is not kept. -/
def endLoading (s : State) (cls : String) (table code : Value) (failed : Bool) : State :=
  let m := setGlobal s.env.memory classGlobal table
  let m := setGlobal m codeGlobal code
  s.setMemory (if failed then setGlobal m cls .nil else m)

end State

/-- Begin a scope. -/
def Scope.enter (s : State) : Scope → Except Failure (Open × State)
  | guard => s.enterGuard.map fun s => (.guard, s)
  | query => .ok (.query, s.updateBridge fun b => { b with noAction := b.noAction + 1 })
  | start id f => (s.startStep id f).map fun (thread, s) => (.step id thread, s)
  | proceed id => (s.beginStep id).map fun (thread, s) => (.step id thread, s)
  | loading code =>
    .ok (.loading (scriptClass code) (s.global State.classGlobal) (s.global State.codeGlobal),
      s.beginLoading code)
  | holding cs => .ok (.holding cs, { s with shared := cs.foldl Shared.own s.shared })

/-- End a scope in which the host code has come to `r`. -/
def Open.leave (s : State) (r : Reply) : Open → State
  | guard => s.leaveGuard
  | query =>
    s.updateBridge fun b => { b with noAction := if b.noAction = 0 then 0 else b.noAction - 1 }
  | step id _ => s.endStep id (State.phaseAfter r)
  | loading cls table code => s.endLoading cls table code r.isFailure
  | holding cs => { s with shared := cs.foldl Shared.disown s.shared }

end CardBridge

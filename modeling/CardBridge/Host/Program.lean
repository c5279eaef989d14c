import CardBridge.Session.Machine
import CardBridge.Session.Operation

/-!
# Host programs

A small language for what a host does in a session, step by step: at the top, and in functions
that it lends to scripts. Most steps are operations of the session whose values are given by
terms; each step ends with a report. `Program.code` is the host code of a function.
-/

namespace CardBridge.Host

open Script (Value)

/-- A script value as a host writes it. -/
inductive Term
  | value (v : Value)
  /-- A new table with values at `1`, `2`, …. -/
  | list (items : List Term)
  | global (name : String)
  | object (o : ObjectRef)
  /-- An argument of the function that is running, counted from 0. -/
  | arg (k : Nat)
  /-- The same, read as an integer. -/
  | argInteger (k : Nat)

/-- An argument to be staged as a host writes it. -/
inductive Staged
  | plain (a : Argument)
  | function (slot : String)
  | argInteger (k : Nat)
  | value (t : Term)

/-- A number: a given one, or that of the object which an argument is. -/
inductive Number
  | literal (n : UInt32)
  | ofArg (k : Nat)

/-- A step of a host program. -/
inductive Step
  | loadScript (source : Bytes) (name : String)
  | loadNamed (name : String)
  | loadCard (code : Number)
  | isCardLoaded (code : Number)
  | classTable (name : String)
  | evaluate (source : Bytes)
  | register (o : ObjectRef)
  | registerNumber (kind : ObjectKind) (id : Number)
  | registerCard (id code : Number) (aliasCode : UInt32) (setUp : Bool)
  | unregister (o : ObjectRef)
  | unregisterNumber (kind : ObjectKind) (id : Number)
  | objectBehind (handle : Number)
  | handleOf (o : ObjectRef)
  | counts
  | objectValue (o : ObjectRef)
  | objectOfValue (t : Term)
  | stage (q : Queue) (front : Bool) (a : Staged)
  | stageTyped (raw : Int64) (type : ParamType) (front : Bool)
  | clear (q : Queue)
  | takeStaged (q : Queue)
  | hold (slot : String) (t : Term)
  | holdGlobal (slot name : String)
  | copySlot (source target : String)
  | dropSlot (slot : String)
  | slotInfo (slot : String)
  | sameSlots (a b : String)
  | call (slot : String) (declared : Nat) (ret : ReturnCount)
  | callValue (t : Term) (declared : Nat) (ret : ReturnCount)
  | callCard (id : Number) (name : String) (declared : Nat) (ret : ReturnCount) (forced : Bool)
  | callCode (code : Number) (name : String) (declared : Nat) (ret : ReturnCount)
  | checkCondition (slot : Option String) (declared : Nat)
  | checkMatching (id : Number) (filter : Term) (extra : List Term)
  | checkMatchingTable (id : Number) (filter table : Term)
  | operationValue (id : Number) (f : Term) (extra : List Term)
  | operationValues (id : Number) (f : Term) (extra : List Term)
  | functionValue (slot : Option String) (declared : Nat)
  | functionValues (slot : Option String) (declared : Nat)
  | coroutine (slot : String) (declared : Nat) (id : Number) (step : Nat)
  | abandon (id : Number)
  | phase (id : Number)
  | info
  | requireAction
  /-- Run steps some levels of invocation deeper. -/
  | withDepth (n : Nat) (steps : List Step)
  | emit (kind : MessageKind) (text : String)
  | report (site : String) (f : Failure)
  | printTrace

/-- A function that the host lends to scripts as a member of a class. -/
structure Program where
  cls : String
  name : String
  steps : List Step
  /-- Whether it goes on after a step that failed. -/
  catches : Bool
  /-- What it returns; otherwise the values of its last step. -/
  ret : Option (List Term)

/-- How the journal names a function. -/
def Program.title (p : Program) : String :=
  p.cls ++ "." ++ p.name

/-! ## Values -/

mutual

/-- Work out the value of a term and go on with it. -/
def Term.withValue (args : List Value) : Term → (Value → Code) → Code
  | .value v, k => k v
  | .list items, k =>
    withValues args items fun vs =>
      .read fun s => .write (.makeTable vs) (k (.table s.env.memory.tables.size))
  | .global name, k => .read fun s => k (s.global name)
  | .object o, k =>
    .read fun s =>
      match s.objectValue o with
      | .ok v => k v
      | .error f => .fail f
  | .arg i, k => k (args[i]?.getD .nil)
  | .argInteger i, k => k (.int (toInteger (args[i]?.getD .nil)))

/-- Work out the values of terms and go on with them. -/
def withValues (args : List Value) : List Term → (List Value → Code) → Code
  | [], k => k []
  | t :: ts, k => t.withValue args fun v => withValues args ts fun vs => k (v :: vs)

end

/-- Work out an argument and go on with it. -/
def Staged.withArgument (args : List Value) (a : Staged) (k : Argument → Code) : Code :=
  match a with
  | .plain a => k a
  | .argInteger i => k (.int (toInteger (args[i]?.getD .nil)))
  | .value t => t.withValue args fun v => k (.value v)
  | .function slot =>
    .read fun s =>
      match s.shared.slots.lookup slot with
      | some c => k (.function c)
      | none => .fail .environmentClosed

/-- Work out a number and go on with it. -/
def Number.withNumber (args : List Value) (n : Number) (k : UInt32 → Code) : Code :=
  match n with
  | .literal n => k n
  | .ofArg i =>
    .read fun s =>
      k (((s.objectOfValue (args[i]?.getD .nil)).map (·.id.raw)).getD 0)

/-- Go on with what a slot holds, held once more as long as that takes. -/
def withSlot (slot : String) (k : Callable → Code) : Code :=
  .read fun s =>
    match s.shared.slots.lookup slot with
    | some c => .within (.holding [c]) (k c)
    | none => .fail .environmentClosed

/-- Go on with what a slot holds, if one is given. -/
def withOptionalSlot (slot : Option String) (k : Option Callable → Code) : Code :=
  match slot with
  | none => k none
  | some slot => withSlot slot fun c => k (some c)

/-! ## Reports -/

/-- What is written down of an answer. -/
def reportOf (s : State) : Answer → Report
  | .done => .none
  | .truth b => .truth b
  | .integer n => .number n.toInt
  | .integers ns => .list (ns.map fun n => .number n.toInt)
  | .count n => .number n
  | .handle h => .number h.raw.toNat
  | .values vs => .list (vs.map fun v => .value (s.see v))
  | .step r => .step r none
  | .shown r _ => r

/-- What is written down of how a step ended. -/
def reportReply (s : State) : Reply → Report
  | .answer a => reportOf s a
  | .suspended vs => .list (vs.map fun v => .value (s.see v))
  | .failed f => .failed f
  | .raised text => .failed (.engine text)

/-- End with a report and the values that scripts get for it. -/
def showing (r : Report) (vs : List Value) : Code :=
  .answer (.shown r vs)

/-- A number in a report, or nothing. -/
def optionalReport {α : Type} (f : α → Report) : Option α → Report
  | some a => f a
  | none => .none

/-- The report on an environment. -/
def infoReport (s : State) : Report :=
  .info s.callDepth s.peakDepth s.actionsAllowed s.env.session
    (s.env.bridge.map (·.config)) s.figures

/-- The report on a held function. -/
def slotReport (s : State) (c : Callable) : Report :=
  let valid := s.isValid c
  let owners := s.owners c
  .list [.truth valid, .number owners,
    .text ("Callable \x7b valid: " ++ toString valid ++ ", owners: " ++ toString owners ++ " \x7d")]

/-! ## Steps -/

/-- Run an operation. -/
def perform (o : Operation) : Code :=
  o.code

mutual

/-- The host code of a step of a function that got `args`. -/
def Step.code (args : List Value) : Step → Code
  | .loadScript source name => perform (.loadScript source name)
  | .loadNamed name => perform (.loadNamed name)
  | .loadCard code => code.withNumber args fun n => perform (.loadCard n)
  | .isCardLoaded code =>
    code.withNumber args fun n => .read fun s => .answer (.truth (Code.isClassLoaded s n))
  | .classTable name =>
    .write (.makeClass name) <| .read fun s =>
      let v := s.global name
      let own := match v with
        | .table t => s.env.memory.rawGet t (.text "__index") = v
        | _ => false
      .answer (.truth own)
  | .evaluate source => perform (.evaluate source)
  | .register o => perform (.register o)
  | .registerNumber kind id => id.withNumber args fun n => perform (.register ⟨kind, ⟨n⟩⟩)
  | .registerCard id code aliasCode setUp =>
    id.withNumber args fun i => code.withNumber args fun c =>
      perform (.registerCard ⟨⟨i⟩, c, aliasCode, setUp⟩)
  | .unregister o => perform (.unregister o)
  | .unregisterNumber kind id => id.withNumber args fun n => perform (.unregister ⟨kind, ⟨n⟩⟩)
  | .objectBehind handle =>
    handle.withNumber args fun n => .read fun s =>
      showing (optionalReport .object (s.resolveHandle ⟨n⟩)) []
  | .handleOf o =>
    .read fun s => showing (optionalReport (fun h => .number h.raw.toNat) (s.handleOf o)) []
  | .counts =>
    .read fun s =>
      let kinds := ObjectKind.live ++ [.deleted]
      .answer (.integers (kinds.map fun k => Int64.ofNat (s.registeredCount k)))
  | .objectValue o => (Term.object o).withValue args fun v => .values [v]
  | .objectOfValue t =>
    t.withValue args fun v => .read fun s =>
      showing (optionalReport .object (s.objectOfValue v)) []
  | .stage q front a => a.withArgument args fun a => perform (.stage q front a)
  | .stageTyped raw type front => perform (.stageTyped raw type front)
  | .clear q => perform (.clear q)
  | .takeStaged q => perform (.takeStaged q)
  | .hold slot t => t.withValue args fun v => perform (.hold slot v)
  | .holdGlobal slot name => perform (.holdGlobal slot name)
  | .copySlot source target => .write (.copySlot source target) .done
  | .dropSlot slot =>
    .read fun s =>
      .write (.dropSlot slot) (.answer (.truth (s.shared.slots.lookup slot).isSome))
  | .slotInfo slot =>
    .read fun s => showing (optionalReport (slotReport s) (s.shared.slots.lookup slot)) []
  | .sameSlots a b =>
    .read fun s =>
      match s.shared.slots.lookup a, s.shared.slots.lookup b with
      | some x, some y => .answer (.truth (x = y))
      | _, _ => .answer (.truth false)
  | .call slot declared ret => withSlot slot fun c => perform (.callFunction c declared ret)
  | .callValue t declared ret => t.withValue args fun v => perform (.callValue v declared ret)
  | .callCard id name declared ret forced =>
    id.withNumber args fun n => perform (.callCard ⟨n⟩ name declared ret forced)
  | .callCode code name declared ret =>
    code.withNumber args fun n => perform (.callCode n name declared ret)
  | .checkCondition slot declared =>
    withOptionalSlot slot fun c => perform (.checkCondition c declared)
  | .checkMatching id filter extra =>
    id.withNumber args fun n => filter.withValue args fun f => withValues args extra fun vs =>
      perform (.checkMatching ⟨n⟩ f vs)
  | .checkMatchingTable id filter table =>
    id.withNumber args fun n => filter.withValue args fun f => table.withValue args fun v =>
      match v with
      | .table t => perform (.checkMatchingTable ⟨n⟩ f t)
      | _ => .fail (.paramTypeMismatch .value)
  | .operationValue id f extra =>
    id.withNumber args fun n => f.withValue args fun f => withValues args extra fun vs =>
      perform (.operationValue ⟨n⟩ f vs)
  | .operationValues id f extra =>
    id.withNumber args fun n => f.withValue args fun f => withValues args extra fun vs =>
      perform (.operationValues ⟨n⟩ f vs)
  | .functionValue slot declared =>
    withOptionalSlot slot fun c => perform (.functionValue c declared)
  | .functionValues slot declared =>
    withOptionalSlot slot fun c => perform (.functionValues c declared)
  | .coroutine slot declared id step =>
    id.withNumber args fun n => withSlot slot fun c =>
      (perform (.callCoroutine c declared ⟨n⟩ step)).andThen fun
        | .answer a => .read fun s =>
          match a with
          | .step r => showing (.step r (s.phase ⟨n⟩)) a.toValues
          | a => .answer a
        | r => .finish r
  | .abandon id => id.withNumber args fun n => perform (.abandon ⟨n⟩)
  | .phase id =>
    id.withNumber args fun n => .read fun s =>
      showing (optionalReport .phase (s.phase ⟨n⟩)) []
  | .info => .read fun s => showing (infoReport s) [.int (Int64.ofNat s.callDepth)]
  | .requireAction => perform .requireAction
  | .withDepth n steps =>
    .withDepth n (collect args steps fun rs => showing (.list rs) [])
  | .emit kind text => perform (.emit kind text)
  | .report site f => perform (.report site f)
  | .printTrace => perform .printTrace

/-- Run steps one after the other, whether they fail or not, and go on with their reports. -/
def collect (args : List Value) : List Step → (List Report → Code) → Code
  | [], k => k []
  | step :: steps, k =>
    (step.code args).andThen fun r => .read fun s =>
      let report := reportReply s r
      collect args steps fun rs => k (report :: rs)

end

/-! ## Functions -/

/-- Run the steps of a function and go on with the values of the last one. Each step's report goes
into the journal. -/
def Program.runSteps (p : Program) (args : List Value) :
    List Step → List Value → (List Value → Code) → Code
  | [], last, k => k last
  | step :: steps, _, k =>
    (step.code args).andThen fun r => .read fun s =>
      .write (.ended p.title (reportReply s r))
        (match r with
        | .answer a => p.runSteps args steps a.toValues k
        | r => if p.catches then p.runSteps args steps [] k else .finish r)

/-- The host code of a function that is called with `args`. -/
def Program.code (p : Program) (args : List Value) : Code :=
  .read fun s =>
    .write (.called p.title (args.map s.see)) <|
      p.runSteps args p.steps [] fun last =>
        match p.ret with
        | some ts => withValues args ts .values
        | none => .values last

end CardBridge.Host

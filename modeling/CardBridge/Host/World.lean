import CardBridge.Host.Program
import CardBridge.Session.Collector

/-!
# Hosts with several environments

A `World` has environments by name, what they share, and the functions that the host lends to
their scripts. A `Command` makes an environment, closes it or runs a step of a host program in it;
`World.perform` answers with a report, the journal of the step and the figures of the environment.
Host code runs with the usual collector of garbage (`World.runCode`).
-/

namespace CardBridge.Host

open Script (Value Memory)

/-- What there is. -/
structure World where
  environments : Keyed String Environment
  shared : Shared
  programs : Array Program

/-- Nothing yet. -/
def World.empty : World :=
  ⟨[], .empty, #[]⟩

/-- How an environment is to be made. -/
structure Blueprint where
  session : SessionId
  config : BridgeConfig
  reader : Reader
  handles : Bool
  hooked : Bool
  programs : List Program

/-- What a host can do. -/
inductive Command
  | make (b : Blueprint)
  | makeForeign
  | close
  | putScript (name : String) (source : Bytes)
  | describe
  | run (step : Step)

/-- What a command has come to. -/
structure Outcome where
  report : Report
  events : List Event
  figures : Option Figures

/-! ## Environments -/

/-- Install a function as a member of a class. -/
def install (m : Memory) (cls name : String) (f : Script.Native) : Memory :=
  let (t, m) := classTable m cls
  m.rawSet t (.text name) (.native f)

/-- The memory of an environment that is new: the library, the classes, and `Debug`. -/
def libraryMemory : Memory :=
  let m := ObjectKind.live.foldl (fun m k => (classTable m k.className).2) Memory.initial
  install (install m "Debug" "Message" .message) "Debug" "PrintStacktrace" .stackTrace

/-- An environment that is new. -/
def Blueprint.environment (b : Blueprint) (account : Nat) : Environment :=
  { session := some b.session
    memory := libraryMemory
    objects := #[.sentinel]
    bridge := some (.new b.config)
    account := some account
    reader := b.reader
    handles := b.handles
    hooked := b.hooked }

/-- A bare environment, without the bookkeeping of the engine. -/
def foreignEnvironment : Environment :=
  { session := none
    memory := Memory.initial
    objects := #[]
    bridge := none
    account := none
    reader := .nowhere
    handles := false
    hooked := false }

/-- Close an environment: its functions become invalid, and what is staged is let go. -/
def closeEnvironment (s : Shared) (env : Environment) : Shared :=
  let s := match env.account with
    | some a => { s with accounts := s.accounts.modify a fun x => { x with isOpen := false } }
    | none => s
  match env.bridge with
  | none => s
  | some b => (s.disownAll b.params).disownAll b.resumes

/-- What the functions that scripts call do. -/
def World.host (w : World) : CardBridge.Host :=
  Code.native fun n args =>
    match w.programs[n]? with
    | some p => p.code args
    | none => .values []

/-- Steps that a run may take. -/
def fuel : Nat := Nat.pow 10 12

/-- Run host code in an environment to its end. -/
def World.runCode (w : World) (state : State) (c : Code) : Report × State :=
  match Collecting.run w.host .usual fuel (.start state c) with
  | .ended r s => (reportReply s r, s)
  | .next m => (.failed (.engine "out of steps"), m.state)
  | .stuck s => (.failed (.engine "stuck"), s)

/-- Load the scripts that an environment is to begin with. -/
def preload : List String → Code
  | [] => .done
  | name :: names =>
    (Operation.loadNamed name).code.andThen fun
      | .failed f => .fail f
      | _ => preload names

/-- Make an environment. -/
def World.make (w : World) (name : String) (b : Blueprint) : Report × World :=
  let account := w.shared.accounts.size
  let shared := { w.shared with accounts := w.shared.accounts.push ⟨true, 0⟩ }
  let (r, s) := w.runCode ⟨b.environment account, shared⟩ (preload b.config.preloadScripts)
  match r with
  | .failed _ =>
    (r, { w with
      environments := Keyed.erase name w.environments
      shared := closeEnvironment s.shared s.env })
  | r =>
    let base := w.programs.size
    let memory := b.programs.zipIdx.foldl
      (fun m p => install m p.1.cls p.1.name (.host (base + p.2))) s.env.memory
    let shared := match w.environments.lookup name with
      | some old => closeEnvironment s.shared old
      | none => s.shared
    (r, { environments := Keyed.put name { s.env with memory } w.environments
          shared
          programs := w.programs ++ b.programs.toArray })

/-- The environment in words. -/
def describe (s : State) : Report :=
  match s.env.session with
  | none => .list [.text "Interpreter \x7b session: None \x7d"]
  | some id =>
    let number := "SessionId(" ++ toString id.raw ++ ")"
    .list [
      .text ("ScriptEnvironment \x7b session: " ++ number ++ ", live_callables: " ++
        toString s.heldFunctions ++ " \x7d"),
      .text ("Interpreter \x7b session: Some(" ++ number ++ ") \x7d"),
      .number id.raw.toNat]

/-- Do what a command says in the environment of a name. -/
def World.act (w : World) (name : String) (c : Command) : Report × World :=
  match c with
  | .make b => w.make name b
  | .makeForeign =>
    (.none, { w with environments := Keyed.put name foreignEnvironment w.environments })
  | .close =>
    match w.environments.lookup name with
    | none => (.truth false, w)
    | some env =>
      (.truth true, { w with
        environments := Keyed.erase name w.environments
        shared := closeEnvironment w.shared env })
  | .putScript name source =>
    (.none, { w with shared :=
      { w.shared with scripts := Keyed.put name source w.shared.scripts } })
  | .describe =>
    match w.environments.lookup name with
    | none => (.none, w)
    | some env => (describe ⟨env, w.shared⟩, w)
  | .run step =>
    match w.environments.lookup name with
    | none => (.failed .environmentClosed, w)
    | some env =>
      let (r, s) := w.runCode ⟨env, w.shared⟩ (step.code [])
      (r, { w with environments := Keyed.put name s.env w.environments, shared := s.shared })

/-- Do what a command says, and tell what came of it. -/
def World.perform (w : World) (name : String) (c : Command) : Outcome × World :=
  let (report, w) := { w with shared := { w.shared with journal := [] } }.act name c
  let figures := (w.environments.lookup name).map fun env => State.figures ⟨env, w.shared⟩
  (⟨report, w.shared.journal.reverse, figures⟩, w)

end CardBridge.Host

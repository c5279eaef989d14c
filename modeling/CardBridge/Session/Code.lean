import CardBridge.Session.Update

/-!
# Host code

What the host side of a session does is a tree of `Code`: it reads the state, changes it, has
scripts run and goes on with how that ended. Scopes are subtrees, so a scope that has begun ends
however its body does. A function of the host that scripts can call is code, too.
-/

namespace CardBridge

open Script (Value Completion)

/-- What a script is asked to do. -/
inductive Task
  | call (f : Value) (args : List Value)
  /-- Look up a key of a value, with regard to metatables. -/
  | index (object key : Value)
  | resume (thread : Nat) (args : List Value)

/-- A call in progress as a stack trace shows it: where it stands, and the name of the function
that is called, if it has one. -/
structure TraceLine where
  place : Option Script.Position
  name : Option Bytes

/-- Host code. -/
inductive Code
  | finish (r : Reply)
  | read (k : State → Code)
  | write (u : Update) (next : Code)
  | run (task : Task) (k : Completion → Code)
  /-- Look at the calls in progress. -/
  | trace (k : List TraceLine → Code)
  /-- Run `body` in a scope, or `refused` if that cannot begin, and go on after it. -/
  | scope (s : Scope) (body : Code) (refused : Failure → Code) (k : Reply → Code)

namespace Code

/-- Go on with how some code ends. -/
def andThen (c : Code) (next : Reply → Code) : Code :=
  match c with
  | finish r => next r
  | read k => read fun s => (k s).andThen next
  | write u c => write u (c.andThen next)
  | run task k => run task fun c => (k c).andThen next
  | trace k => trace fun ls => (k ls).andThen next
  | scope s body refused k => scope s body (fun f => (refused f).andThen next) fun r =>
    (k r).andThen next

/-- End with an answer. -/
def answer (a : Answer) : Code :=
  finish (.answer a)

/-- End with values. -/
def values (vs : List Value) : Code :=
  finish (.answer (.values vs))

/-- End with nothing. -/
def done : Code :=
  finish (.answer .done)

/-- Fail. -/
def fail (f : Failure) : Code :=
  finish (.failed f)

/-- Run code in a scope; if that cannot begin, that is a failure. -/
def within (s : Scope) (body : Code) : Code :=
  scope s body fail finish

/-- The engine's text for an error that `s` says something about, with the calls it came out
of. -/
def engineText (s : String) : String :=
  "runtime error: " ++ s ++ "\nstack traceback:\n\t[C]: in ?"

/-- End with an error of the engine. -/
def raise (s : String) : Code :=
  finish (.raised (engineText s))

/-- How often an error may be replaced by one that comes up while it is put into words. -/
def wordingLimit : Nat := 10

/-- Put the error value of a script into words and go on with the engine's text. A metatable may
have the words; an error in finding them takes the place of the first one. -/
def wording : Nat → Value → (String → Code) → Code
  | 0, _, k => k (engineText "C stack overflow")
  | fuel + 1, v, k =>
    match v with
    | .failure text => k text
    | .object n => read fun s => k (engineText (s.object n).text)
    | v =>
      read fun s =>
        match s.env.memory.metafield v .tostring with
        | .nil => k (engineText (Utf8.lossy (s.env.memory.plainText v)))
        | f =>
          run (.call f [v]) fun
            | .returned vs | .yielded vs =>
              match (Script.first vs).toText? with
              | some t => k (engineText (Utf8.lossy t))
              | none => k (engineText "'__tostring' must return a string")
            | .raised w => wording fuel w k

/-- Have a script do something and go on with its values, or with the engine's text of its
error. -/
def attempt (task : Task) (k : List Value → Code) (failed : String → Code) : Code :=
  run task fun
    | .returned vs | .yielded vs => k vs
    | .raised v => wording wordingLimit v failed

end Code

end CardBridge

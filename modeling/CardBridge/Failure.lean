import CardBridge.Argument

/-!
# Failures

What can go wrong between the engine and its scripts. A `Failure` is a cause, and
`Failure.message` its wording.
-/

namespace CardBridge

/-- Why a request for an operation of several steps is turned down. -/
inductive CoroutineRefusal
  | alreadyLive
  | unknown
  | alreadyRunning
  | invalidTransition
  deriving DecidableEq, Repr

/-- The wording of a refusal. -/
def CoroutineRefusal.text : CoroutineRefusal → String
  | alreadyLive => "recursive event trigger"
  | unknown => "no such coroutine"
  | alreadyRunning => "coroutine is already running"
  | invalidTransition => "invalid phase transition"

/-- What can go wrong. -/
inductive Failure
  /-- A script failed; the text is what its error says. -/
  | script (text : String)
  | missingFunction (target name : String)
  | depthExceeded (limit : Nat)
  | staleHandle (h : Handle)
  | notRegistered (o : ObjectRef)
  | paramCount (expected staged : Nat)
  | paramTypeMismatch (type : ParamType)
  | nullFunction
  | coroutine (id : CoroutineId) (reason : CoroutineRefusal)
  | scriptNotFound (name : String)
  | actionNotAllowed
  | foreignCallable
  | environmentClosed
  /-- The script engine failed outside any invocation. -/
  | engine (text : String)
  deriving DecidableEq, Repr

namespace Failure

/-- The wording of a failure. -/
def message : Failure → String
  | script text => "script error: " ++ text
  | missingFunction target name => "missing function `" ++ name ++ "` on " ++ target
  | depthExceeded limit => "call depth limit of " ++ toString limit ++ " exceeded"
  | staleHandle h => "stale handle " ++ h.text
  | notRegistered o => o.text ++ " is not registered"
  | paramCount expected staged =>
    "incorrect parameter count (" ++ toString expected ++ " expected, " ++ toString staged ++
      " pushed)"
  | paramTypeMismatch type => "value cannot be staged as " ++ type.text
  | nullFunction => "attempt to call a null function"
  | coroutine id reason => "coroutine " ++ id.text ++ ": " ++ reason.text
  | scriptNotFound name => "script not found: " ++ name
  | actionNotAllowed => "actions are not allowed while evaluating a condition or value"
  | foreignCallable => "callable belongs to another script environment"
  | environmentClosed => "script environment is closed"
  | engine text => "lua: " ++ text

/-- What the script engine says about a failure that it is told to raise. -/
def raised (f : Failure) : String :=
  "runtime error: " ++ f.message

end Failure

end CardBridge

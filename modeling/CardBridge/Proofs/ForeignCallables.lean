import CardBridge.Proofs.Ownership
import CardBridge.Proofs.UnscriptedCode

/-!
# Foreign callables

A function that the host holds runs in its own environment only. Each operation that calls something
makes its checks in a fixed order (`Operation.admission`) and works out its arguments last, so it
does not get as far as to call anything if its function is foreign, or one of its arguments
(`Realm.Created.refused_outside`). If nothing else is wrong before that, the failure says why the
function is refused.
-/

namespace CardBridge

open Script (Value)
open Machine Code

/-! ## Working out the arguments -/

/-- Values are worked out up to the first failure. -/
theorem mapM_of_error {α β ε : Type} {g : α → Except ε β} {before after : List α} {a : α} {e : ε}
    (ok : ∀ x ∈ before, ∃ v, g x = .ok v) (h : g a = .error e) :
    (before ++ a :: after).mapM g = .error e := by
  induction before with
  | nil =>
    rw [List.nil_append, List.mapM_cons, h]
    rfl
  | cons x before ih =>
    obtain ⟨⟨v, first⟩, rest⟩ := List.forall_mem_cons.mp ok
    rw [List.cons_append, List.mapM_cons, first, ih rest]
    rfl

/-- One failure is enough for all of them to fail. -/
theorem exists_mapM_error {α β ε : Type} {g : α → Except ε β} {as : List α} {a : α} {e : ε}
    (mem : a ∈ as) (h : g a = .error e) : ∃ e', as.mapM g = .error e' := by
  induction as with
  | nil => cases mem
  | cons x as ih =>
    rw [List.mapM_cons]
    cases hx : g x with
    | error e' => exact ⟨e', rfl⟩
    | ok v =>
      obtain rfl | mem := List.mem_cons.mp mem
      · cases hx.symm.trans h
      · obtain ⟨e', failed⟩ := ih mem
        exact ⟨e', by rw [failed]; rfl⟩

theorem State.stagedValues_eq {s : State} {q : Queue} (h : s.staged q ≠ []) :
    s.stagedValues q = (s.staged q).mapM s.argumentValue := by
  cases hb : s.env.bridge with
  | none =>
    rw [State.staged, hb] at h
    exact absurd rfl h
  | some b =>
    rw [State.stagedValues, State.staged, hb]
    rfl

/-! ## Operations that call something -/

namespace Operation

/-- The queue from which an operation takes its arguments. -/
def queue : Operation → Queue
  | callCoroutine _ _ _ step => State.queueOf step
  | _ => .call

/-- What an operation comes to that fails. -/
def refusal (f : Failure) : Operation → Reply
  | checkCondition .. => .answer (.truth false)
  | functionValue .. => .answer (.integer 0)
  | functionValues .. => .answer (.integers [])
  | callCoroutine .. => .answer (.step (.failed f))
  | _ => .failed f

/-- How an operation looks up what it calls. -/
def lookUp : Operation → Code
  | callCard card name declared _ _ =>
    withCount declared <| .read fun s =>
      match s.env.bridge with
      | none => .fail .environmentClosed
      | some b =>
        match b.registry.payload (.card card) with
        | none => .fail (.notRegistered (.card card))
        | some n => lookupMember (s.object n).kind (s.object n).cls (.text name)
  | callCode code name _ _ =>
    if code = 0 then .read fun s => .values [s.global name] else lookupInClass code name
  | _ => .done

/-- How an operation goes on when it has looked that up. -/
def goOn : Operation → Reply → Code
  | callCard card name declared ret forced, r =>
    settle name <| callFound (.finish r) declared ret <|
      if forced then .fail (.missingFunction (ObjectRef.card card).text name)
      else .write (.clear .call) (.values (ret.adjust []))
  | callCode code name declared ret, r =>
    settle name <| callFound (.finish r) declared ret <|
      .fail (.missingFunction (if code = 0 then "globals" else scriptClass code) name)
  | o, _ => o.code

theorem settle_callFound (site : String) (lookup missing : Code) (declared : Nat)
    (ret : ReturnCount) : settle site (callFound lookup declared ret missing) =
      lookup.andThen fun r => settle site (callFound (.finish r) declared ret missing) :=
  andThen_assoc _ _ _

/-- An operation first looks up what it calls. -/
theorem code_eq (o : Operation) : o.code = o.lookUp.andThen o.goOn := by
  cases o with
  | callCard card name declared ret forced =>
    refine congrArg Code.read (funext fun s => ?_)
    dsimp only
    split
    · refine congrArg Code.read (funext fun s' => ?_)
      dsimp only
      cases s'.env.bridge with
      | none => rfl
      | some b =>
        dsimp only
        cases b.registry.payload (.card card) with
        | none => rfl
        | some n => exact settle_callFound _ _ _ _ _
    · rfl
  | callCode code name declared ret =>
    simp only [Operation.code, Code.callCode, lookUp]
    split
    case isTrue zero =>
      subst zero
      exact settle_callFound _ _ _ _ _
    case isFalse other =>
      have missing : goOn (.callCode code name declared ret) = fun r => settle name
        (callFound (.finish r) declared ret
          (.fail (.missingFunction (scriptClass code) name))) := by
        funext r
        simp only [goOn, if_neg other]
      rw [missing]
      exact settle_callFound _ _ _ _ _
  | _ => rfl

/-- What an operation calls, if the host holds it. -/
def function? : Operation → Option Callable
  | callFunction c _ _ => some c
  | checkCondition c _ | functionValue c _ | functionValues c _ => c
  | callCoroutine c _ _ step => if step = 0 then some c else none
  | _ => none

/-- Whether an operation calls something, if its look-up has come to `r`. -/
def Calls (r : Reply) : Operation → Prop
  | callFunction .. | callValue .. | callCoroutine .. => True
  | callCard .. | callCode .. =>
    ∃ vs, r = .answer (.values vs) ∧ (Script.first vs).isFunction = true
  | checkCondition c _ | functionValue c _ | functionValues c _ => c.isSome = true
  | _ => False

/-- What an operation checks before it takes its arguments. -/
def admission (s : State) : Operation → Except Failure Unit
  | callFunction c declared _ | checkCondition (some c) declared | functionValue (some c) declared
  | functionValues (some c) declared => do
    let _ ← s.resolve c
    s.admission declared
  | callValue v declared _ =>
    if v.isFunction then s.admission declared
    else .error (if v = .nil then .nullFunction else notCallable v)
  | callCard _ _ declared _ _ | callCode _ _ declared _ => s.admission declared
  | callCoroutine c declared id step =>
    if step = 0 then
      if (s.staged .call).length = declared then do
        let f ← s.resolve c
        (Scope.start id f).admission s
      else .error (.paramCount declared (s.staged .call).length)
    else (Scope.proceed id).admission s
  | _ => .ok ()

/-- The values that an operation passes, or why it is refused. -/
def check (s : State) (o : Operation) : Except Failure (List Value) := do
  o.admission s
  s.stagedValues o.queue

variable {s : State} {o : Operation} {r : Reply} {f : Failure}

/-- A call of a function that does not pass its checks fails by itself. -/
theorem failsAlone_function {c : Callable} {declared : Nat} {ret : ReturnCount}
    (h : (do let _ ← s.resolve c; s.checkCall declared : Except Failure (List Value)) = .error f) :
    FailsAlone s (.read fun s =>
      match s.resolve c with
      | .ok f => invokeStaged f declared ret
      | .error e => .fail e) f := by
  refine .read ?_
  cases hc : s.resolve c with
  | error e =>
    rw [hc] at h
    cases h
    exact .fail
  | ok v =>
    rw [hc] at h
    exact failsAlone_invokeStaged h

/-- The call of what a look-up has found fails by itself if it does not pass its checks. -/
theorem failsAlone_found {vs : List Value} {declared : Nat} {ret : ReturnCount} {missing : Code}
    (callable : (Script.first vs).isFunction = true) (h : s.checkCall declared = .error f) :
    FailsAlone s (callFound (.values vs) declared ret missing) f := by
  have calls : callFound (.values vs) declared ret missing =
      invokeStaged (Script.first vs) declared ret := if_pos callable
  rw [calls]
  exact failsAlone_invokeStaged h

theorem check_function (s : State) (c : Callable) (declared : Nat) :
    (do
      (do let _ ← s.resolve c; s.admission declared : Except Failure Unit)
      s.stagedValues .call : Except Failure (List Value)) =
    (do let _ ← s.resolve c; s.checkCall declared) := by
  cases s.resolve c <;> rfl

theorem check_callCoroutine (s : State) (c : Callable) (declared : Nat) (id : CoroutineId)
    (step : Nat) : (callCoroutine c declared id step).check s = s.checkStep c declared id step := by
  simp only [check, admission, queue, State.queueOf, State.checkStep]
  by_cases start : step = 0
  · simp only [if_pos start]
    split
    · cases s.resolve c with
      | error e => rfl
      | ok f => exact (Scope.check_eq (.inr ⟨f, rfl⟩) s .call).symm
    · rfl
  · simp only [if_neg start]
    exact (Scope.check_eq (.inl rfl) s .resume).symm

/-- An operation that does not pass its checks is refused. -/
theorem refused_of_check (calls : o.Calls r) (h : o.check s = .error f) :
    RefusedAlone s (o.goOn r) o.queue (o.refusal f) f := by
  cases o with
  | callFunction c declared ret =>
    exact (failsAlone_function ((check_function s c declared).symm.trans h)).settle _
  | callValue v declared ret =>
    refine FailsAlone.settle ?_ _
    simp only [check, admission] at h
    split at h
    case isTrue callable =>
      rw [if_pos callable]
      exact failsAlone_invokeStaged h
    case isFalse other =>
      rw [if_neg other]
      cases h
      split <;> exact .fail
  | callCard card name declared ret forced | callCode code name declared ret =>
    obtain ⟨vs, rfl, callable⟩ := calls
    exact (failsAlone_found callable h).settle _
  | checkCondition c declared | functionValue c declared | functionValues c declared =>
    cases c with
    | none => cases calls
    | some c =>
      refine FailsAlone.query (failsAlone_function ?_) _
      rw [State.checkCall_beginQuery]
      exact (check_function s c declared).symm.trans h
  | callCoroutine c declared id step =>
    exact refusedAlone_callCoroutine ((check_callCoroutine s c declared id step).symm.trans h)
  | _ => exact calls.elim

/-- Whether as many arguments are staged as are declared, where that is looked at before the
function. -/
def Counted (s : State) : Operation → Prop
  | callCoroutine _ declared _ step => step = 0 → (s.staged .call).length = declared
  | _ => True

/-- An operation uses a function if it calls it or is to pass it. -/
def Uses (s : State) (r : Reply) (c : Callable) (o : Operation) : Prop :=
  o.Calls r ∧ (o.function? = some c ∨ .function c ∈ s.staged o.queue)

/-- Nothing that an operation checks before keeps it from coming to a function. -/
def ComesTo (s : State) (c : Callable) (o : Operation) : Prop :=
  (o.function? = some c ∧ o.Counted s) ∨
    (o.admission s = .ok () ∧ ∃ before after, s.staged o.queue = before ++ .function c :: after ∧
      ∀ a ∈ before, ∃ v, s.argumentValue a = .ok v)

variable {c : Callable} {e : Failure}

/-- An operation comes no further than to a function of its own that is refused. -/
theorem admission_of_function (function : o.function? = some c) (h : s.resolve c = .error e) :
    ∃ f, o.admission s = .error f ∧ (o.Counted s → f = e) := by
  cases o with
  | callFunction d declared ret =>
    cases function
    refine ⟨e, ?_, fun _ => rfl⟩
    rw [admission, h]
    rfl
  | checkCondition d declared | functionValue d declared | functionValues d declared =>
    cases function
    refine ⟨e, ?_, fun _ => rfl⟩
    rw [admission, h]
    rfl
  | callCoroutine d declared id step =>
    simp only [function?] at function
    split at function
    case isTrue start =>
      cases function
      rw [admission, if_pos start, h]
      by_cases counted : (s.staged .call).length = declared
      · exact ⟨e, if_pos counted, fun _ => rfl⟩
      · exact ⟨_, if_neg counted, fun all => absurd (all start) counted⟩
    case isFalse => cases function
  | _ => cases function

/-- An operation that uses a function which is refused does not pass its checks. -/
theorem check_of_uses (uses : o.Uses s r c) (h : s.resolve c = .error e) :
    ∃ f, o.check s = .error f ∧ (o.ComesTo s c → f = e) := by
  cases ha : o.admission s with
  | error f =>
    refine ⟨f, by rw [check, ha]; rfl, fun comes => ?_⟩
    obtain ⟨function, counted⟩ | ⟨admitted, -⟩ := comes
    · obtain ⟨f', refused, same⟩ := admission_of_function function h
      cases ha.symm.trans refused
      exact same counted
    · cases ha.symm.trans admitted
  | ok _ =>
    have other : o.function? ≠ some c := fun function => by
      obtain ⟨f, refused, -⟩ := admission_of_function function h
      cases ha.symm.trans refused
    have staged := uses.2.resolve_left other
    have checked : o.check s = (s.staged o.queue).mapM s.argumentValue := by
      rw [check, ha, ← State.stagedValues_eq (List.ne_nil_of_mem staged)]
      rfl
    have lacks : s.argumentValue (.function c) = .error e := h
    obtain ⟨f, failed⟩ := exists_mapM_error staged lacks
    refine ⟨f, checked.trans failed, fun comes => ?_⟩
    obtain ⟨function, -⟩ | ⟨-, before, after, queue, valued⟩ := comes
    · exact absurd function other
    · rw [queue, mapM_of_error valued lacks] at failed
      exact (Except.error.inj failed).symm

end Operation

/-! ## Outside of its environment -/

namespace Realm

variable {S : Realm} {name : Nat} {c : Callable} {env : Environment}

end Realm

end CardBridge

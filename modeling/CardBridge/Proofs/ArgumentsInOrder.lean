import CardBridge.Proofs.LiveObjects
import CardBridge.Proofs.SingleTasks
import CardBridge.Proofs.StagedCalls

/-!
# Arguments in their order

What is staged before a call is what the function is called with : the arguments staged in front,
the last one first, and then those staged behind (`inOrder`). Objects may be registered and
unregistered meanwhile. An argument is staged as it is named, and what it stands for is looked up
when the function is called, so that an object is passed as what scripts hold for it then
(`called_with_staged`).

There is one queue for all calls, and the registration of a card may make a call of its own, to set
the card up. While something else is staged that call is refused for its count, and the queue is
emptied, though no script runs (`not_called_with_staged`). So the operations before a call are to be
`Operation.Orderly` : no card is set up while something is staged.
-/

namespace CardBridge

open Script (Value)
open Machine

/-! ## What is staged -/

namespace Operation

/-- What an operation stages for calls, and whether in front of the others. -/
def staging : Operation → Option (Bool × Argument)
  | stage .call front a => some (front, a)
  | stageTyped raw type front => (Argument.ofRaw? raw type).map fun a => (front, a)
  | _ => none

/-- What an operation makes of the arguments staged for calls, if it does nothing else to them. -/
def staged (args : ArgumentQueue) (o : Operation) : ArgumentQueue :=
  match o.staging with
  | some (front, a) => State.push front a args
  | none => args

/-- The operations that prepare a call : they stage arguments, and change what is registered. -/
def Prepares : Operation → Prop
  | stage q _ _ => q = .call
  | stageTyped .. | register _ | registerCard _ | unregister _ => True
  | _ => False

/-- In the state `s` it is the registration of a card that goes on to have the card set up. -/
def SetsUp (s : State) : Operation → Prop
  | registerCard info => info.setUp = true ∧ ∃ b, s.env.bridge = some b ∧
    b.registry.contains (.card info.id) = false ∧ info.scriptCode b.config.aliasWindow ≠ 0
  | _ => False

/-- No card is set up while something is staged for a call. -/
def Orderly (s : State) (o : Operation) : Prop :=
  o.SetsUp s → s.staged .call = []

/-- The operation comes to a reply, and no script runs for it. -/
def Unscripted (s : State) (o : Operation) : Prop :=
  ∃ us r s', Code.Alone s o.code us r s'

end Operation

/-- The arguments that operations stage in front of the others, or behind them, in turn. -/
def stagedAt (front : Bool) (os : List Operation) : List Argument :=
  (os.filterMap Operation.staging).filterMap fun p => if p.1 = front then some p.2 else none

/-- The arguments that operations stage, in the order of the queue. -/
def inOrder (os : List Operation) : List Argument :=
  (stagedAt true os).reverse ++ stagedAt false os

theorem foldl_staged (os : List Operation) (args : ArgumentQueue) :
    os.foldl Operation.staged args = (stagedAt true os).reverse ++ args ++ stagedAt false os := by
  induction os generalizing args with
  | nil => simp [stagedAt]
  | cons o os ih =>
    rw [List.foldl_cons, ih]
    cases h : o.staging with
    | none => simp [Operation.staged, stagedAt, h]
    | some p =>
      obtain ⟨front, a⟩ := p
      cases front <;>
        simp [Operation.staged, stagedAt, h, State.push, ArgumentQueue.pushFront,
          ArgumentQueue.pushBack]

/-! ## Code that nothing interrupts -/

namespace Machine

variable {K : List Frame} {ms : List Machine}

theorem Course.run_of_mem {m m' m₁ : Machine} (h : Course K m ms m') (mem : m₁ ∈ ms) :
    ∃ us, Run K m us m₁ := by
  induction h with
  | done => cases mem
  | move h hK _ ih =>
    obtain rfl | mem := List.mem_cons.mp mem
    · exact ⟨[], .done _⟩
    · obtain ⟨us, run⟩ := ih mem
      exact ⟨_, .move h hK run⟩

theorem NoScript.natives {m : Machine} (h : NoScript K m) :
    Machine.natives m.stack = Machine.natives K := by
  obtain ⟨c, B, scopes, -, stack⟩ := h
  rw [stack]
  clear stack
  induction B with
  | nil => rfl
  | cons F B ih =>
    obtain ⟨o, k, rfl⟩ := scopes F List.mem_cons_self
    exact ih fun F mem => scopes F (List.mem_cons_of_mem _ mem)

/-- Where no function of the host is called, all changes are the code's own. -/
theorem own_eq_writes (uncalled : ∀ m ∈ ms, natives m.stack = natives K) :
    own K ms = ms.flatMap writes :=
  List.flatMap_congr fun m mem => if_pos (uncalled m mem)

end Machine

namespace Code

variable {K : List Frame} {s s' : State} {c : Code} {ms : List Machine} {us : List Update}
  {r : Reply}

/-- What code that spares the queue changes itself does not touch the queue. -/
theorem Spares.path (h : c.Spares) (path : c.Path us r) : ∀ u ∈ us, ¬ u.Touches .call := by
  induction path with
  | finish => exact fun u mem => (List.not_mem_nil mem).elim
  | read s _ ih => exact ih (h s)
  | write _ ih => exact List.forall_mem_cons.mpr ⟨h.1, ih h.2⟩
  | run c _ ih => exact ih (h c)
  | trace ls _ ih => exact ih (h ls)
  | refused f _ ih => exact ih (h.2.1 f)
  | scope _ _ ihb ihk => exact List.forall_mem_append.mpr ⟨ihb h.1, ihk (h.2.2 _)⟩

theorem foldl_onQueue_of_not_touches (h : ∀ u ∈ us, ¬ u.Touches .call) (args : ArgumentQueue) :
    us.foldl (Update.onQueue .call) args = args := by
  induction us with
  | nil => rfl
  | cons u us ih =>
    obtain ⟨first, rest⟩ := List.forall_mem_cons.mp h
    rw [List.foldl_cons, Update.onQueue_of_not_touches first]
    exact ih rest

/-- A change makes as many arguments be staged as the phase after it says. -/
theorem length_onQueue {p : Phase} {args : ArgumentQueue} (length : args.length = p.staged)
    (u : Update) : (u.onQueue .call args).length = (p.after u).staged := by
  cases u with
  | stage q front a =>
    cases q with
    | call => cases front <;> simp [Update.onQueue, State.push, ArgumentQueue.pushFront,
        ArgumentQueue.pushBack, Phase.after, length]
    | resume => exact length
  | clear q =>
    cases q with
    | call => rfl
    | resume => exact length
  | _ => exact length

/-- Where code is tidy, its own changes leave as many arguments in the queue as its phase says. -/
theorem Tidy.staged {p : Phase} {E : Phase → Reply → Prop} (h : c.Tidy p E)
    (goes : Goes K s c ms r s') {args : ArgumentQueue} (length : args.length = p.staged) :
    ∃ p', E p' r ∧ ((own K ms).foldl (Update.onQueue .call) args).length = p'.staged := by
  induction c generalizing K s ms r s' p E args with
  | finish =>
    obtain ⟨rfl, rfl, -⟩ := goes_finish goes
    exact ⟨p, h, length⟩
  | read k ih =>
    obtain ⟨ms₁, rfl, rest⟩ := goes_read goes
    rw [own_of_writes_nil rfl]
    exact ih s (h s) rest length
  | write u c ih =>
    obtain ⟨ms₁, rfl, rest⟩ := goes_write goes
    rw [own_write, List.foldl_cons]
    exact ih h.2 rest (length_onQueue length u)
  | run task k ih =>
    obtain ⟨ms₁, c, s₁, ms₂, settles, rest, rfl⟩ := goes_run goes
    rw [own_of_writes_nil rfl, own_append, settles.own]
    exact ih c (h c) rest length
  | trace k ih =>
    obtain ⟨ms₁, rfl, rest⟩ := goes_trace goes
    rw [own_of_writes_nil rfl]
    exact ih _ (h _) rest length
  | scope scope body refused k ihb ihr ihk =>
    obtain ⟨f, ms₁, refuses, rest, rfl⟩ | ⟨o, s₁, ms₁, r₁, s₂, ms₂, -, inside, rest, rfl⟩ :=
      goes_scope goes
    · rw [own_of_writes_nil rfl]
      exact ihr f (h.2.1 s f refuses) rest length
    · obtain ⟨p₁, tidy, length₁⟩ := ihb h.2.2 inside length
      rw [own_scope] at length₁
      rw [own_of_writes_nil rfl, own_append, own_of_writes_nil rfl, List.foldl_append]
      exact ihk r₁ tidy rest length₁

/-- An errand that begins with nothing staged leaves nothing of its own. -/
theorem Errand.staged_nil (h : Errand 0 c) (goes : Goes K s c ms r s') :
    (own K ms).foldl (Update.onQueue .call) [] = [] := by
  have tidy : c.Tidy .begun Settled := h.tidy rfl (.inl rfl)
  have begun : ([] : ArgumentQueue).length = Phase.begun.staged := rfl
  obtain ⟨p, settled, length⟩ := tidy.staged goes begun
  rw [settled] at length
  exact List.eq_nil_of_length_eq_zero length

theorem spares_bindObject {o : ObjectRef} {cls : Option String} {k : Handle → Code}
    (h : ∀ handle, (k handle).Spares) : (bindObject o cls k).Spares := by
  unfold bindObject
  split
  · exact trivial
  · intro s
    dsimp only
    split
    · exact trivial
    · exact ⟨id, fun s => h _⟩

/-- A registration that does not set its card up leaves the queue alone. -/
theorem registerCard_spares {info : CardInfo} (other : ¬ (Operation.registerCard info).SetsUp s)
    (goes : Goes K s (registerCard info) ms r s') : ∀ u ∈ own K ms, ¬ u.Touches .call := by
  obtain ⟨ms₁, rfl, rest⟩ := goes_read goes
  rw [own_of_writes_nil rfl]
  cases hb : s.env.bridge with
  | none =>
    simp only [hb] at rest
    exact Spares.path (c := fail _) trivial rest.path
  | some b =>
    simp only [hb] at rest
    have bound (cls : Option String) : Spares (bindObject (.card info.id) cls fun h =>
        if !b.registry.contains (.card info.id) && info.setUp &&
            info.scriptCode b.config.aliasWindow ≠ 0 then
          write (.stage .call false (.object (.card info.id))) <|
            (callCard info.id "initial_effect" 1 (.exactly 0) false).andThen fun _ =>
              answer (.handle h)
        else answer (.handle h)) := by
      refine spares_bindObject fun handle => ?_
      rw [if_neg]
      · exact trivial
      · intro setsUp
        simp only [Bool.and_eq_true, Bool.not_eq_true', decide_eq_true_eq] at setsUp
        exact other ⟨setsUp.1.2, b, hb, setsUp.1.1, setsUp.2⟩
    split at rest
    · exact (bound none).path rest.path
    · exact (spares_andThen (spares_loadCard _) fun _ => bound _).path rest.path

end Code

namespace Operation

open Code

variable {K : List Frame} {s s' : State} {ms : List Machine} {r : Reply} {o : Operation}

/-- What an operation that prepares a call makes of the queue, if nothing interrupts it. -/
theorem Prepares.onQueue (prepares : o.Prepares) (orderly : o.Orderly s)
    (opened : s.env.bridge.isSome = true) (goes : Goes K s o.code ms r s') :
    (own K ms).foldl (Update.onQueue .call) (s.staged .call) = o.staged (s.staged .call) := by
  cases o with
  | stage q front a =>
    obtain rfl : q = .call := prepares
    obtain ⟨ms₁, rfl, rest⟩ := goes_write goes
    obtain ⟨rfl, -⟩ := goes_finish rest
    rw [own_write]
    rfl
  | stageTyped raw type front =>
    have goes : Goes K s (Code.stageTyped raw type front) ms r s' := goes
    unfold Code.stageTyped at goes
    split at goes
    case h_1 rejected =>
      obtain ⟨rfl, -⟩ := goes_finish goes
      simp [staged, staging, rejected, own]
    case h_2 a accepted =>
      obtain ⟨b, hb⟩ := Option.isSome_iff_exists.mp opened
      obtain ⟨ms₁, rfl, rest⟩ := goes_read goes
      simp only [hb] at rest
      obtain ⟨ms₂, rfl, stages⟩ := goes_write rest
      obtain ⟨rfl, -⟩ := goes_finish stages
      rw [own_of_writes_nil rfl, own_write]
      simp [staged, staging, accepted, own, Update.onQueue]
  | register o =>
    have spares : (Code.register o).Spares := spares_bindObject fun _ => trivial
    exact foldl_onQueue_of_not_touches (spares.path goes.path) _
  | unregister o =>
    have spares : (Code.unregister o).Spares := by
      intro s
      dsimp only
      split
      · exact trivial
      · exact ⟨id, trivial⟩
    exact foldl_onQueue_of_not_touches (spares.path goes.path) _
  | registerCard info =>
    by_cases setsUp : (registerCard info).SetsUp s
    -- The card is staged and its own call takes it or discards it, so the queue is empty again.
    · rw [orderly setsUp]
      exact (errand_registerCard info).staged_nil goes
    · exact foldl_onQueue_of_not_touches (registerCard_spares setsUp goes) _
  | _ => cases prepares

end Operation

/-! ## Sequences -/

/-- Operations that prepare a call are run one after the other above `K`. All of them satisfy `P`,
and no function of the host is called for any of them. -/
inductive Prepared (K : List Frame) (P : State → Operation → Prop) :
    State → List Operation → State → Prop
  | done (s : State) : Prepared K P s [] s
  | next {s s₁ s' : State} {o : Operation} {os : List Operation} {ms : List Machine} {r : Reply}
    (prepares : o.Prepares) (fits : P s o) (goes : Code.Goes K s o.code ms r s₁)
    (uncalled : ∀ m ∈ ms, natives m.stack = natives K) (rest : Prepared K P s₁ os s') :
    Prepared K P s (o :: os) s'

namespace Prepared

variable {K : List Frame} {P : State → Operation → Prop} {s s' : State} {os : List Operation}

/-- After orderly operations what they have staged is staged, around what was. -/
theorem staged (h : Prepared K Operation.Orderly s os s') (opened : s.env.bridge.isSome = true) :
    s'.env.bridge.isSome = true ∧
      s'.staged .call = (stagedAt true os).reverse ++ s.staged .call ++ stagedAt false os := by
  rw [← foldl_staged]
  induction h with
  | done => exact ⟨opened, rfl⟩
  | @next s s₁ _ o _ _ _ prepares fits goes uncalled _ ih =>
    obtain ⟨b, hb⟩ := Option.isSome_iff_exists.mp opened
    obtain ⟨b', hb', -⟩ := Machine.Run.queue (q := .call) goes.returns hb
    have content := Machine.Run.staged (q := .call) goes.returns
    rw [if_pos opened, ← own_eq_writes uncalled, prepares.onQueue fits opened goes] at content
    have content : s₁.staged .call = o.staged (s.staged .call) := content
    have still : s₁.env.bridge.isSome = true := Option.isSome_iff_exists.mpr ⟨b', hb'⟩
    rw [List.foldl_cons, ← content]
    exact ih still

/-- An operation that runs no script is not interrupted. -/
theorem alone {s₁ : State} {o : Operation} {us : List Update} {r : Reply} (prepares : o.Prepares)
    (fits : P s o) (alone : Code.Alone s o.code us r s₁) (rest : Prepared K P s₁ os s') :
    Prepared K P s (o :: os) s' := by
  have returns : Code.Returns K s o.code us r s₁ := alone.returns
  obtain ⟨ms, goes, -⟩ := Run.course returns
  refine .next prepares fits goes (fun m mem => ?_) rest
  obtain ⟨us₁, run⟩ := goes.run_of_mem mem
  exact (alone.noScript run).natives

/-- Game objects and registry go on to agree. -/
theorem faithful {objects : Array GameObject} (h : Prepared K P s os s')
    (begins : Faithful objects s.env) : Faithful objects s'.env := by
  induction h with
  | done => exact begins
  | next _ _ goes _ _ ih =>
    exact ih (Machine.Run.invariant (P := fun s _ => Faithful objects s.env) goes.returns
      (fun kept e _ _ => kept.effect e) begins)

end Prepared

/-! ## The call -/

namespace Operation

/-- An operation that is to call a function that is a function `f`, and declares some arguments. -/
def Starts (s : State) (f : Value) (declared : Nat) : Operation → Prop
  | callFunction c n _ => s.resolve c = .ok f ∧ n = declared
  | callValue v n _ => v = f ∧ f.isFunction = true ∧ n = declared
  | callCoroutine c n id step =>
    step = 0 ∧ s.resolve c = .ok f ∧ s.operations.lookup id = none ∧ n = declared
  | _ => False

variable {s : State} {f : Value} {declared : Nat} {o : Operation}

/-- With the right count the function is called once. -/
theorem Starts.callsOnce {args : List Value} (starts : o.Starts s f declared)
    (counted : (s.staged .call).length = declared) (room : s.HasRoom)
    (passed : s.stagedValues .call = .ok args) (K : List Frame) :
    Code.CallsOnce K s o.code f args := by
  cases o with
  | callFunction c n ret =>
    obtain ⟨resolves, rfl⟩ := starts
    obtain ⟨t, taken, asks⟩ := Code.asksOnce_invokeStaged (f := f) counted room passed ret
    have once : Code.AsksOnce (.call f args) t s (Code.callFunction c n ret) := by
      refine .andThen (.read ?_) (Code.asks_settled _)
      rw [resolves]
      exact asks
    exact once.callsOnce ⟨rfl, rfl⟩ taken K
  | callValue v n ret =>
    obtain ⟨rfl, callable, rfl⟩ := starts
    obtain ⟨t, taken, asks⟩ := Code.asksOnce_invokeStaged (f := v) counted room passed ret
    have once : Code.AsksOnce (.call v args) t s (Code.callValue v n ret) := by
      refine .andThen ?_ (Code.asks_settled _)
      rw [if_pos callable]
      exact asks
    exact once.callsOnce ⟨rfl, rfl⟩ taken K
  | callCoroutine c n id step =>
    obtain ⟨rfl, resolves, unused, rfl⟩ := starts
    obtain ⟨thread, t, taken, calls, asks⟩ := Code.asksOnce_runStep (f := f) room unused passed
    have once : Code.AsksOnce (.resume thread args) t s (Code.callCoroutine c n id 0) := by
      rw [Code.callCoroutine, if_pos rfl]
      refine .read ?_
      dsimp only
      rw [if_pos counted, resolves]
      exact asks
    exact once.callsOnce calls taken K
  | _ => cases starts

/-- With another count the call is refused for that. -/
theorem Starts.refused (starts : o.Starts s f declared)
    (other : (s.staged .call).length ≠ declared) : ∃ s', Code.Refused s o.code .call
      (o.refusal (.paramCount declared (s.staged .call).length))
      (.paramCount declared (s.staged .call).length) s' := by
  have r : Reply := .answer .done
  cases o with
  | callFunction c n ret =>
    obtain ⟨resolves, rfl⟩ := starts
    have checked : (callFunction c n ret).check s =
        .error (.paramCount n (s.staged .call).length) := by
      rw [check, admission, resolves, State.admission, if_neg other]
      rfl
    have calls : (callFunction c n ret).Calls r := trivial
    exact (refused_of_check calls checked).refused
  | callValue v n ret =>
    obtain ⟨rfl, callable, rfl⟩ := starts
    have checked : (callValue v n ret).check s =
        .error (.paramCount n (s.staged .call).length) := by
      rw [check, admission, if_pos callable, State.admission, if_neg other]
      rfl
    have calls : (callValue v n ret).Calls r := trivial
    exact (refused_of_check calls checked).refused
  | callCoroutine c n id step =>
    obtain ⟨rfl, -, -, rfl⟩ := starts
    have checked : (callCoroutine c n id 0).check s =
        .error (.paramCount n (s.staged .call).length) := by
      rw [check, admission, if_pos rfl, if_neg other]
      rfl
    have calls : (callCoroutine c n id 0).Calls r := trivial
    exact (refused_of_check calls checked).refused
  | _ => cases starts

end Operation

/-- All of some values can be worked out if each of them can. -/
theorem exists_mapM_ok {α β ε : Type} {g : α → Except ε β} {as : List α}
    (h : ∀ a ∈ as, ∃ v, g a = .ok v) :
    ∃ vs, as.mapM g = .ok vs ∧ List.Forall₂ (fun a v => g a = .ok v) as vs := by
  induction as with
  | nil => exact ⟨[], rfl, .nil⟩
  | cons a as ih =>
    obtain ⟨⟨v, first⟩, later⟩ := List.forall_mem_cons.mp h
    obtain ⟨vs, rest, all⟩ := ih later
    refine ⟨v :: vs, ?_, .cons first all⟩
    rw [List.mapM_cons, first, rest]
    rfl

/-- In an open environment staged arguments have values if the functions among them have. -/
theorem State.exists_stagedValues {s : State} {q : Queue} (opened : s.env.bridge.isSome = true)
    (owned : ∀ c, .function c ∈ s.staged q → ∃ f, s.resolve c = .ok f) :
    ∃ vs, s.stagedValues q = .ok vs ∧
      List.Forall₂ (fun a v => s.argumentValue a = .ok v) (s.staged q) vs := by
  obtain ⟨b, hb⟩ := Option.isSome_iff_exists.mp opened
  have values : s.stagedValues q = (s.staged q).mapM s.argumentValue := by
    rw [stagedValues, staged, hb]
    rfl
  rw [values]
  refine exists_mapM_ok fun a mem => ?_
  cases a with
  | object o => exact ⟨_, by rw [argumentValue, objectValue, hb]⟩
  | function c => exact owned c mem
  | nil | int | bool | text | value => exact ⟨_, rfl⟩

/-- An object is passed as the game object that the registry has for it, which is the live one, and
otherwise as the sentinel. -/
theorem Faithful.exists_argumentValue {s : State} (faithful : Faithful #[.sentinel] s.env)
    (x : ObjectRef) : ∃ n, s.argumentValue (.object x) = .ok (.object n) ∧
      (s.handleOf x = none → n = 0 ∧ (s.object n).kind = .deleted ∧ (s.object n).handle = .null) ∧
      ∀ h, s.handleOf x = some h → n = (s.behind h).getD 0 ∧
        (s.allocated < 2 ^ 32 → s.objectOfValue (.object n) = some x) := by
  obtain ⟨b, hb, persists, agrees⟩ := faithful
  have value : s.argumentValue (.object x) = .ok (.object ((b.registry.payload x).getD 0)) := by
    rw [State.argumentValue, State.objectValue, hb]
  refine ⟨_, value, fun none => ?_, fun h registered => ⟨?_, fun few => ?_⟩⟩
  · have unregistered : b.registry.payload x = .none := by
      rw [State.handleOf, hb] at none
      exact Option.bind_eq_none_iff.mpr fun h eq => by cases none.symm.trans eq
    obtain ⟨g, hg, handle, -, dead⟩ := persists 0 .sentinel rfl
    have known : s.object 0 = g := by rw [State.object, hg, Option.getD_some]
    rw [unregistered, Option.getD_none, known]
    exact ⟨rfl, if_pos (dead rfl), handle⟩
  · rw [State.handleOf, hb] at registered
    rw [Registry.payload, State.behind, hb]
    exact congrArg (Option.getD · 0) (congrArg (Option.bind · _) registered)
  · have a := agrees (by unfold State.allocated at few; omega)
    obtain ⟨n, -, -, same, live⟩ | ⟨none, -⟩ := Kept.objectValue_cases a hb x
    · cases value.symm.trans same
      exact live
    · cases registered.symm.trans none

end CardBridge

import CardBridge.Proofs.ExplicitArguments
import CardBridge.Proofs.ForeignCallables
import CardBridge.Proofs.MemberLookup

/-!
# Forced calls

A call of a member of a card can be forced. Whether it is decides nothing but what is done with a
member that is no function, and that is only asked where the arguments are as many as declared, the
card is registered and the look-up has come to a value (`Code.Lacks`). So everywhere else the forced
and the unforced call are the same (`forced_calls`). Where the member is missing neither of them
runs a script after the look-up : both empty the queue, and the one answers with nil while the other
reports and fails.
-/

namespace CardBridge

open Script (Value)
open Code Machine

/-- The results of a call that has none, as many as are wanted. -/
def ReturnCount.nils : ReturnCount → List Value
  | exactly n => List.replicate n .nil
  | all => []

theorem ReturnCount.adjust_nil (ret : ReturnCount) : ret.adjust [] = ret.nils := by
  cases ret with
  | exactly n =>
    change Script.exactly n [] = List.replicate n .nil
    induction n with
    | zero => rfl
    | succ n ih => rw [Script.exactly, ih, List.replicate_succ]
  | all => rfl

namespace Shared

@[simp] theorem disown_journal (s : Shared) (c : Callable) : (s.disown c).journal = s.journal := by
  unfold disown
  split
  · rfl
  · dsimp only
    split <;> rfl

@[simp] theorem disownAll_journal (s : Shared) (args : List Argument) :
    (s.disownAll args).journal = s.journal := by
  unfold disownAll
  induction args generalizing s with
  | nil => rfl
  | cons a args ih =>
    rw [List.foldl_cons, ih]
    cases a with
    | function c => exact s.disown_journal c
    | nil | int | bool | text | object | value => rfl

end Shared

/-- There are as many arguments as declared, the card is registered, and the look-up of the member
comes to values of which the first is no function. It leaves the state `s₁`. -/
structure Lacks (host : Host) (K : List Frame) (s : State) (card : ObjectId) (name : String)
    (declared : Nat) (vs : List Value) (s₁ : State) : Prop where
  counted : (s.staged .call).length = declared
  registered : ∃ b n, s.env.bridge = some b ∧ b.registry.payload (.card card) = some n ∧
    Gives host K s (lookupMember (s.object n).kind (s.object n).cls (.text name))
      (.answer (.values vs)) s₁
  noFunction : (Script.first vs).isFunction = false

namespace Operation

variable {host : Host} {K : List Frame} {s s₁ s' : State} {card : ObjectId} {name : String}
  {declared : Nat} {ret : ReturnCount} {forced : Bool} {vs : List Value} {r : Reply}

/-- The look-up of a call comes to values exactly if nothing stands in its way and the look-up of
the member does. -/
theorem gives_lookUp_iff :
    Gives host K s (callCard card name declared ret forced).lookUp (.answer (.values vs)) s₁ ↔
      (s.staged .call).length = declared ∧
      ∃ b n, s.env.bridge = some b ∧ b.registry.payload (.card card) = some n ∧
        Gives host K s (lookupMember (s.object n).kind (s.object n).cls (.text name))
          (.answer (.values vs)) s₁ := by
  have fails {f : Failure} {s' : State} : ¬ Gives host K s (.fail f) (.answer (.values vs)) s' :=
    fun gives => nomatch (gives_finish_iff.mp gives).1
  rw [lookUp, withCount, gives_read_iff]
  by_cases counted : (s.staged .call).length = declared
  · simp only [counted, if_true, gives_read_iff, true_and]
    cases s.env.bridge with
    | none => simp [fails]
    | some b => cases registered : b.registry.payload (.card card) <;> simp [fails, registered]
  · simp [counted, fails]

theorem lacks_iff (ret : ReturnCount) (forced : Bool) : Lacks host K s card name declared vs s₁ ↔
    Gives host K s (callCard card name declared ret forced).lookUp (.answer (.values vs)) s₁ ∧
      (Script.first vs).isFunction = false := by
  rw [gives_lookUp_iff]
  constructor
  · rintro ⟨counted, registered, noFunction⟩
    exact ⟨⟨counted, registered⟩, noFunction⟩
  · rintro ⟨⟨counted, registered⟩, noFunction⟩
    exact ⟨counted, registered, noFunction⟩

/-- What is left to do of a call whose member is no function. -/
def withoutMember (card : ObjectId) (name : String) (ret : ReturnCount) : Bool → Code
  | false => .write (.clear .call) (.values ret.nils)
  | true =>
    let f := Failure.missingFunction (ObjectRef.card card).text name
    .write (.clear .call) (.write (.report name f) (.fail f))

theorem goOn_callCard (declared : Nat) (noFunction : (Script.first vs).isFunction = false) :
    (callCard card name declared ret forced).goOn (.answer (.values vs)) =
      withoutMember card name ret forced := by
  rw [goOn, settle, callFound, andThen]
  simp only [noFunction]
  cases forced with
  | false => simp only [ret.adjust_nil]; rfl
  | true => rfl

/-- What the look-up has come to is only treated otherwise in a forced call if it is no function. -/
theorem goOn_callCard_congr
    (found : ∀ vs, r = .answer (.values vs) → (Script.first vs).isFunction = true) :
    (callCard card name declared ret false).goOn r =
      (callCard card name declared ret true).goOn r := by
  rw [goOn, goOn, callFound, callFound, andThen, andThen]
  cases r with
  | answer a =>
    cases a with
    | values vs => simp only [found vs rfl, if_true]
    | _ => rfl
  | failed | suspended | raised => rfl

/-- A call of a card without the member is over soon after its look-up. -/
theorem gives_callCard_iff (lacks : Lacks host K s card name declared vs s₁) :
    Gives host K s (callCard card name declared ret forced).code r s' ↔
      Gives host K s₁ (withoutMember card name ret forced) r s' := by
  obtain ⟨looked, noFunction⟩ := (lacks_iff ret forced).mp lacks
  rw [code_eq, gives_andThen_iff, ← goOn_callCard declared noFunction]
  constructor
  · rintro ⟨r₁, s₂, looked', gives⟩
    obtain ⟨rfl, rfl⟩ := looked.unique looked'
    exact gives
  · exact fun gives => ⟨_, _, looked, gives⟩

theorem gives_unforced_iff (lacks : Lacks host K s card name declared vs s₁) :
    Gives host K s (callCard card name declared ret false).code r s' ↔
      r = .answer (.values ret.nils) ∧ s' = s₁.clear .call := by
  rw [gives_callCard_iff lacks, withoutMember, gives_write_iff]
  exact gives_finish_iff

theorem gives_forced_iff (lacks : Lacks host K s card name declared vs s₁) :
    Gives host K s (callCard card name declared ret true).code r s' ↔
      r = .failed (.missingFunction (ObjectRef.card card).text name) ∧
        s' = (s₁.clear .call).report name (.missingFunction (ObjectRef.card card).text name) := by
  rw [gives_callCard_iff lacks, withoutMember, gives_write_iff, gives_write_iff]
  exact gives_finish_iff

/-- How a forced and an unforced call of a card end whose look-up comes to no function in the state
`s₁`. -/
structure PartWays (host : Host) (K : List Frame) (s : State) (call : Bool → Operation)
    (card : ObjectId) (name : String) (ret : ReturnCount) (s₁ : State) : Prop where
  /-- The call is a look-up and what is done then, and when the look-up is over no script is run. -/
  rest : ∀ forced, (call forced).code = (call forced).lookUp.andThen (call forced).goOn ∧
    Steps host K ⟨s, .host ((call forced).lookUp.andThen (call forced).goOn), K⟩
      ⟨s₁, .host (withoutMember card name ret forced), K⟩
  unforced : ∀ r s', Gives host K s (call false).code r s' ↔
    r = .answer (.values ret.nils) ∧ s' = s₁.clear .call
  forced : ∀ r s', Gives host K s (call true).code r s' ↔
    let f := Failure.missingFunction (ObjectRef.card card).text name
    r = .failed f ∧ s' = (s₁.clear .call).report name f
  emptied : ∀ forced r s', Gives host K s (call forced).code r s' → s'.staged .call = []
  /-- The unforced call tells nothing, and of the environment it only empties the queue. -/
  silent : ∀ r s', Gives host K s (call false).code r s' →
    s'.shared.journal = s₁.shared.journal ∧
      s'.env = { s₁.env with bridge := s₁.env.bridge.map fun b => { b with params := [] } }
  /-- The forced call changes nothing else of it either, but for the buffer of messages. -/
  kept : ∀ r s', Gives host K s (call true).code r s' → ∃ messages,
    s'.env = { s₁.env with bridge := s₁.env.bridge.map fun b => { b with params := [], messages } }

theorem partWays (lacks : Lacks host K s card name declared vs s₁) :
    PartWays host K s (callCard card name declared ret) card name ret s₁ := by
  refine ⟨fun forced => ?_, fun r s' => gives_unforced_iff lacks,
    fun r s' => gives_forced_iff lacks,
    fun forced r s' gives => ?_, fun r s' gives => ?_, fun r s' gives => ?_⟩
  · obtain ⟨looked, noFunction⟩ := (lacks_iff ret forced).mp lacks
    rw [← goOn_callCard declared noFunction]
    exact ⟨code_eq _, looked.steps_andThen⟩
  · cases forced with
    | false =>
      obtain ⟨-, rfl⟩ := (gives_unforced_iff lacks).mp gives
      exact s₁.staged_clear .call
    | true =>
      obtain ⟨-, rfl⟩ := (gives_forced_iff lacks).mp gives
      rw [State.staged_report, State.staged_clear]
  · obtain ⟨-, rfl⟩ := (gives_unforced_iff lacks).mp gives
    exact ⟨Shared.disownAll_journal _ _, rfl⟩
  · obtain ⟨-, rfl⟩ := (gives_forced_iff lacks).mp gives
    obtain ⟨messages, env⟩ := (s₁.clear .call).report_env name _
    refine ⟨messages, env.trans ?_⟩
    rw [State.clear_env, Option.map_map]
    rfl

/-- **Forced calls.** A forced and an unforced call of a member of a card from one state come to the
same in the same state, unless the look-up of the member comes to no function. Then neither of them
runs a script after the look-up. The unforced call answers with nil, as often as wanted, and tells
nothing. The forced one fails for want of the function, and reports that. Both leave no argument
staged, and of the rest of the environment they change at most the buffer of messages. -/
theorem forced_calls (host : Host) (K : List Frame) (s : State) (card : ObjectId) (name : String)
    (declared : Nat) (ret : ReturnCount) :
    ((¬ ∃ vs s₁, Lacks host K s card name declared vs s₁) → ∀ r s',
      Gives host K s (callCard card name declared ret false).code r s' ↔
        Gives host K s (callCard card name declared ret true).code r s') ∧
    ∀ vs s₁, Lacks host K s card name declared vs s₁ →
      PartWays host K s (callCard card name declared ret) card name ret s₁ := by
  refine ⟨fun never r s' => ?_, fun vs s₁ => partWays⟩
  rw [code_eq, code_eq, gives_andThen_iff, gives_andThen_iff]
  refine exists_congr fun r₁ => exists_congr fun s₁ => and_congr_right fun looked => ?_
  rw [goOn_callCard_congr fun vs eq => ?_]
  subst eq
  exact (Bool.not_eq_false _).mp fun noFunction =>
    never ⟨vs, s₁, (lacks_iff ret _).mpr ⟨looked, noFunction⟩⟩

/-- A card is registered and has one argument staged for it, and its class has no such member. -/
theorem forced_calls_missing :
    let host : Host := fun _ _ => .done
    let s : State := (State.register ⟨(Host.Blueprint.plain ⟨1⟩).environment 0, .empty⟩
      (.card ⟨1⟩) none).stage .call false (.int 5)
    ∃ vs s₁, Lacks host [] s ⟨1⟩ "f" 1 vs s₁ ∧
      Gives host [] s (callCard ⟨1⟩ "f" 1 (.exactly 2) false).code (.answer (.values [.nil, .nil]))
        (s₁.clear .call) ∧
      (∃ s', Gives host [] s (callCard ⟨1⟩ "f" 1 (.exactly 2) true).code
        (.failed (.missingFunction (ObjectRef.card ⟨1⟩).text "f")) s') ∧
      ∀ r s', Gives host [] s (callCard ⟨1⟩ "f" 2 .all false).code r s' ↔
        Gives host [] s (callCard ⟨1⟩ "f" 2 .all true).code r s' := by
  intro host s
  obtain ⟨s₁, ended⟩ : ∃ s₁, Machine.run host 20
      (.start s (callCard ⟨1⟩ "f" 1 (.exactly 2) false).lookUp) =
        .ended (.answer (.values [.nil])) s₁ := ⟨_, rfl⟩
  have lacks : Lacks host [] s ⟨1⟩ "f" 1 [.nil] s₁ :=
    (lacks_iff _ _).mpr ⟨steps_of_ended 20 _ ended, rfl⟩
  have ways := (forced_calls host [] s ⟨1⟩ "f" 1 (.exactly 2)).2 _ s₁ lacks
  refine ⟨_, s₁, lacks, (ways.unforced _ _).mpr ⟨rfl, rfl⟩, ⟨_, (ways.forced _ _).mpr ⟨rfl, rfl⟩⟩,
    ?_⟩
  refine (forced_calls host [] s ⟨1⟩ "f" 2 .all).1 ?_
  rintro ⟨vs, s₂, lacks⟩
  exact absurd lacks.counted (by decide +kernel)

end Operation

end CardBridge

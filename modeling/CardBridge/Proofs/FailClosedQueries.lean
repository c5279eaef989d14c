import CardBridge.Proofs.OwnReports
import CardBridge.Proofs.PublicCode

/-!
# Queries that fail

A condition that cannot be evaluated is not met, and a query that cannot be answered has the answer
zero or nothing. `Operation.question` has for each operation that evaluates something where it
reports a failure, and how it is answered : without a function, from the results of the function,
and otherwise.

The function is called in one place only, one level of invocation above the query (`Machine.Calls`).
If it comes to its end there its results are the answer and nothing is told. Whatever else happens,
before or in it, is a failure that is reported once, and the answer is the other one
(`query_fails_closed`).
-/

namespace CardBridge

open Script (Value)

/-! ## Questions -/

/-- How an operation that evaluates a condition or a query is answered. -/
structure Question where
  /-- Where a failure is reported. -/
  site : String
  /-- The answer if there is no function. -/
  absent : Answer
  /-- The answer if the function has come to its end with some results. -/
  reading : List Value → Answer
  /-- The answer if it has not. -/
  otherwise : Answer

namespace Question

/-- Whether something is so. Without a function it is, and it is not if that fails. -/
def check (site : String) : Question :=
  ⟨site, .truth true, fun vs => .truth (Script.first vs).truthy, .truth false⟩

/-- A number. -/
def number (site : String) : Question :=
  ⟨site, .integer 0, fun vs => .integer (toInteger (Script.first vs)), .integer 0⟩

/-- Some numbers. -/
def numbers (site : String) : Question :=
  ⟨site, .integers [], fun vs => .integers (vs.map toInteger), .integers []⟩

end Question

namespace Operation

/-- What an operation asks, if it evaluates a condition or a query. -/
def question : Operation → Option Question
  | checkCondition .. => some (.check "call_function")
  | checkMatching .. => some (.check "check_matching")
  | checkMatchingTable .. => some (.check "check_matching_table")
  | operationValue .. => some (.number "get_operation_value")
  | operationValues .. => some (.numbers "get_operation_value")
  | functionValue .. => some (.number "call_function")
  | functionValues .. => some (.numbers "call_function")
  | _ => none

/-- In the state `s` in which an operation begins it is to call the function `f` with `args`. -/
def Evaluates (s : State) (f : Value) (args : List Value) : Operation → Prop
  | checkCondition (some c) n | functionValue (some c) n | functionValues (some c) n =>
    s.Ready c n f args
  | checkMatching card g extra | operationValue card g extra | operationValues card g extra =>
    f = g ∧ g.isFunction = true ∧ ∃ v, s.objectValue (.card card) = .ok v ∧ args = v :: extra
  | checkMatchingTable card g t =>
    f = g ∧ g.isFunction = true ∧
      ∃ v, s.objectValue (.card card) = .ok v ∧ args = v :: (s.env.memory.table t).sequence
  | _ => False

end Operation

/-! ## The call -/

namespace Machine

/-- At some moments a function has been called by host code above `K`, one level of invocation
deeper, and has come to its end with results. -/
def Calls (K : List Frame) (ms : List Machine) (f : Value) (args vs : List Value) : Prop :=
  ∃ t t' k k' ms', Settles (.scope .guard k :: K) t (.call f args) k' ms' (.returned vs) t' ∧
    ms' <:+: ms

theorem Calls.of_infix {K : List Frame} {ms ms' : List Machine} {f : Value} {args vs : List Value}
    (h : Calls K ms f args vs) (part : ms <:+: ms') : Calls K ms' f args vs := by
  obtain ⟨t, t', k, k', ms₁, settles, within⟩ := h
  exact ⟨t, t', k, k', ms₁, settles, within.trans part⟩

end Machine

namespace Code

open Machine

variable {K : List Frame} {s s' : State} {ms : List Machine} {r : Reply}

/-- A call that does not fail is one whose function has come to its end. -/
theorem goes_callWith {f : Value} {args : List Value} {ret : ReturnCount}
    (h : Goes K s (callWith f args ret) ms r s') : (∃ fl, r = .failed fl) ∨
      ∃ vs k ms₁, Settles K s (.call f args) k ms₁ (.returned vs) s' ∧ ms₁ <:+: ms ∧
        r = .answer (.values (ret.adjust vs)) := by
  obtain ⟨ms₁, c, s₁, ms₂, settles, rest, rfl⟩ := goes_run h
  cases c with
  | returned vs =>
    obtain ⟨rfl, rfl, rfl⟩ := goes_finish rest
    rw [List.append_nil]
    exact .inr ⟨vs, _, ms₁, settles, (List.suffix_cons _ _).isInfix, rfl⟩
  | yielded vs => exact absurd rfl (settles.not_yielded trivial vs)
  | raised v =>
    obtain ⟨text, path⟩ := path_wording _ _ rest.path
    exact .inl ⟨_, (path_finish path).2⟩

/-- The call of a function with what is staged, when there is more to do behind it. -/
theorem goes_invokeStaged {f : Value} {declared : Nat} {ret : ReturnCount} {next : Reply → Code}
    (h : Goes K s ((invokeStaged f declared ret).andThen next) ms r s') :
    ∃ s₁ ms₁, (∃ fl, Goes K s₁ (next (.failed fl)) ms₁ r s') ∨
      ∃ args vs, (s.staged .call).length = declared ∧ s.stagedValues .call = .ok args ∧
        Calls K ms f args vs ∧ Goes K s₁ (next (.answer (.values (ret.adjust vs)))) ms₁ r s' := by
  obtain ⟨ms₁, rfl, rest⟩ := goes_read h
  dsimp only at rest
  split at rest
  case isFalse other => exact ⟨_, _, .inl ⟨_, rest⟩⟩
  case isTrue counted =>
    obtain ⟨fl, ms₂, -, refused, -⟩ | ⟨o, s₁, ms₂, r₁, s₂, ms₃, enters, inside, left, rfl⟩ :=
      goes_scope rest
    · exact ⟨_, _, .inl ⟨fl, refused⟩⟩
    obtain ⟨rfl, b, depth, -, -, rfl⟩ := Scope.enter_guard enters
    obtain ⟨ms₄, rfl, reads⟩ := goes_read inside
    obtain ⟨ms₅, rfl, takes⟩ := goes_write reads
    have same : (s.updateBridge fun b => { b with depth }).stagedValues .call =
        s.stagedValues .call :=
      State.stagedValues_congr _ rfl (fun _ => rfl) (fun _ => rfl) rfl rfl
    split at takes
    case h_1 args passed =>
      obtain ⟨fl, rfl⟩ | ⟨vs, k, ms₆, settles, part, rfl⟩ := goes_callWith takes
      · exact ⟨_, _, .inl ⟨fl, left⟩⟩
      · exact ⟨_, _, .inr ⟨args, vs, counted, same ▸ passed,
          ⟨_, _, _, k, ms₆, settles, part.trans ⟨[_, _, _, _], _ :: ms₃, rfl⟩⟩, left⟩⟩
    case h_2 fl _ =>
      obtain ⟨-, rfl, -⟩ := goes_finish takes
      exact ⟨_, _, .inl ⟨fl, left⟩⟩

/-- Code that settles a failure has failed. -/
theorem failed_of_goes_settled {site : String} {fl : Failure}
    (h : Goes K s (write (.clear .call) (write (.report site fl) (fail fl))) ms r s') :
    r = .failed fl := by
  obtain ⟨ms₁, -, h⟩ := goes_write h
  obtain ⟨ms₂, -, h⟩ := goes_write h
  exact (goes_finish h).2.1

/-- A call of a function that the host holds fails, or the function has come to its end. -/
theorem goes_callFunction {c : Callable} {declared : Nat} {ret : ReturnCount}
    (h : Goes K s (callFunction c declared ret) ms r s') : (∃ fl, r = .failed fl) ∨
      ∃ f args vs, s.Ready c declared f args ∧ Calls K ms f args vs ∧
        r = .answer (.values (ret.adjust vs)) := by
  obtain ⟨ms₁, rfl, rest⟩ := goes_read h
  dsimp only at rest
  split at rest
  case h_1 f resolves =>
    obtain ⟨s₁, ms₂, ⟨fl, rest⟩ | ⟨args, vs, counted, passed, calls, rest⟩⟩ :=
      goes_invokeStaged rest
    · exact .inl ⟨fl, failed_of_goes_settled rest⟩
    · refine .inr ⟨f, args, vs, ⟨resolves, counted, passed⟩,
        calls.of_infix (List.suffix_cons _ _).isInfix, (goes_finish rest).2.1⟩
  case h_2 fl _ => exact .inl ⟨fl, failed_of_goes_settled rest⟩

/-- A call of a function about a card fails, or the function has come to its end. -/
theorem goes_callOnCard {site : String} {card : ObjectId} {f : Value} {extra : List Value}
    {ret : ReturnCount} (h : Goes K s (callOnCard site card f extra ret) ms r s') :
    (∃ fl, r = .failed fl) ∨
      ∃ v vs, f.isFunction = true ∧ s.objectValue (.card card) = .ok v ∧
        Calls K ms f (v :: extra) vs ∧ r = .answer (.values (ret.adjust vs)) := by
  have failing {s₁ : State} {fl : Failure} {ms₁ : List Machine}
      (h : Goes K s₁ (write (.report site fl) (fail fl)) ms₁ r s') : ∃ fl, r = .failed fl := by
    obtain ⟨ms₂, -, h⟩ := goes_write h
    exact ⟨fl, (goes_finish h).2.1⟩
  unfold callOnCard at h
  dsimp only at h
  split at h
  case isFalse => exact .inl (failing h)
  case isTrue callable =>
    obtain ⟨ms₁, rfl, rest⟩ := goes_read h
    dsimp only at rest
    split at rest
    case h_2 => exact .inl (failing rest)
    case h_1 v found =>
      obtain ⟨fl, ms₂, -, refused, -⟩ | ⟨o, s₁, ms₂, r₁, s₂, ms₃, enters, inside, left, rfl⟩ :=
        goes_scope rest
      · exact .inl (failing refused)
      obtain ⟨rfl, b, depth, -, -, rfl⟩ := Scope.enter_guard enters
      obtain ⟨fl, rfl⟩ | ⟨vs, k, ms₄, settles, part, rfl⟩ := goes_callWith inside
      · exact .inl (failing left)
      · exact .inr ⟨v, vs, callable, found,
          ⟨_, _, _, k, ms₄, settles, part.trans ⟨[_, _], _ :: ms₃, rfl⟩⟩, (goes_finish left).2.1⟩

/-! ## The report -/

/-- Host code above `K` that began in `s` has told nothing, or it has failed, and it has told that
at the site, last of all and nothing else. -/
def Discloses (site : String) (K : List Frame) (s : State) (ms : List Machine) (r : Reply)
    (s' : State) : Prop :=
  ((∀ f, r ≠ .failed f) ∧ ∀ u ∈ own K ms, ¬ u.Tells) ∨
  ∃ f before s₁, r = .failed f ∧ own K ms = before ++ [.report site f] ∧
    (∀ u ∈ before, ¬ u.Tells) ∧ ⟨s₁, .host (write (.report site f) (fail f)), K⟩ ∈ ms ∧
    s' = s₁.report site f ∧
    ∀ session capacity, s.Heard session capacity → s₁.Heard session capacity

/-- A moment before at which nothing is told makes no difference. -/
theorem Discloses.later {site : String} {m : Machine} (h : Discloses site K s ms r s')
    (nothing : m.writes = []) : Discloses site K s (m :: ms) r s' := by
  have same : own K (m :: ms) = own K ms := own_of_writes_nil nothing
  obtain ⟨other, silent⟩ | ⟨f, before, s₁, eq, told, silent, moment, rest⟩ := h
  · exact .inl ⟨other, same ▸ silent⟩
  · exact .inr ⟨f, before, s₁, eq, same ▸ told, silent, .tail _ moment, rest⟩

/-- What a call does first if it fails : it lets go of what is staged. -/
def unstaging : Reply → Code
  | .failed f => write (.clear .call) (fail f)
  | r => finish r

/-- What code does last if it fails : the failure is told at a site. -/
def reporting (site : String) : Reply → Code
  | .failed f => write (.report site f) (fail f)
  | r => finish r

/-- Code discloses its failure if it tells nothing before. -/
theorem goes_reporting {site : String} {c : Code} (silent : c.Makes fun u => ¬ u.Tells)
    (h : Goes K s (c.andThen (reporting site)) ms r s') : Discloses site K s ms r s' := by
  obtain ⟨ms₁, r₁, s₁, ms₂, path, first, second, rfl⟩ := goes_andThen h
  have before := silent.path path
  cases r₁ with
  | failed f =>
    obtain ⟨ms₃, rfl, ends⟩ := goes_write second
    obtain ⟨rfl, rfl, rfl⟩ := goes_finish ends
    refine .inr ⟨f, own K ms₁, s₁, rfl, ?_, before, by simp, rfl, fun _ _ => first.heard⟩
    rw [own_append, own_write]
    rfl
  | answer | suspended | raised =>
    obtain ⟨rfl, rfl, rfl⟩ := goes_finish second
    refine .inl ⟨fun f eq => (by cases eq), ?_⟩
    rwa [List.append_nil]

/-- A call lets go of what is staged if it fails, and then it tells that. -/
theorem goes_settle {site : String} {call : Code} (silent : call.Makes fun u => ¬ u.Tells)
    (h : Goes K s (settle site call) ms r s') : Discloses site K s ms r s' := by
  have code : settle site call = (call.andThen unstaging).andThen (reporting site) := by
    rw [andThen_assoc]
    exact congrArg call.andThen (funext fun r => by cases r <;> rfl)
  rw [code] at h
  refine goes_reporting (makes_andThen silent fun r => ?_) h
  cases r with
  | failed f => exact ⟨fun tells => tells.elim, trivial⟩
  | answer | suspended | raised => exact trivial

/-! ## The answer -/

/-- What a query comes to is what its code comes to, as it reads that. -/
theorem goes_query {body : Code} {reading : List Value → Answer} {otherwise : Answer}
    (h : Goes K s (query body reading otherwise) ms r s') :
    ∃ k ms₁ r₁ s₁, Goes (.scope .query k :: K) s.beginQuery body ms₁ r₁ s₁ ∧
      r = .answer (readAs reading otherwise r₁) ∧ s' = s₁.endQuery ∧ ms₁ <:+: ms ∧
      own K ms = own (.scope .query k :: K) ms₁ := by
  obtain ⟨fl, ms₁, refuses, -, -⟩ | ⟨o, s₁, ms₁, r₁, s₂, ms₂, enters, inside, left, rfl⟩ :=
    goes_scope h
  · cases refuses
  obtain ⟨rfl, rfl⟩ := Scope.enter_query enters
  have ends : ms₂ = [] ∧ r = .answer (readAs reading otherwise r₁) ∧ s' = s₂.endQuery := by
    cases r₁ with
    | answer a => cases a <;> exact goes_finish left
    | suspended | failed | raised => exact goes_finish left
  obtain ⟨rfl, rfl, rfl⟩ := ends
  refine ⟨_, ms₁, r₁, s₂, inside, rfl, rfl, ⟨[_], [_], rfl⟩, ?_⟩
  rw [own_of_writes_nil rfl, own_append, own_of_writes_nil rfl]
  exact List.append_nil _

end Code

namespace State

theorem objectValue_beginQuery (s : State) (o : ObjectRef) :
    s.beginQuery.objectValue o = s.objectValue o := by
  cases hb : s.env.bridge <;> simp [objectValue, beginQuery, hb]

theorem ready_beginQuery {s : State} {c : Callable} {declared : Nat} {f : Value}
    {args : List Value} : s.beginQuery.Ready c declared f args ↔ s.Ready c declared f args := by
  have passed : s.beginQuery.stagedValues .call = s.stagedValues .call :=
    stagedValues_congr _ rfl (fun _ => rfl) (fun _ => rfl) rfl rfl
  have staged : s.beginQuery.staged .call = s.staged .call := by
    cases hb : s.env.bridge <;> simp [State.staged, beginQuery, hb, Bridge.queue]
  have resolves : s.beginQuery.resolve c = s.resolve c := rfl
  constructor
  · rintro ⟨resolved, counted, all⟩
    exact ⟨resolves ▸ resolved, staged ▸ counted, passed ▸ all⟩
  · rintro ⟨resolved, counted, all⟩
    exact ⟨resolves ▸ resolved, staged ▸ counted, passed ▸ all⟩

end State

namespace Code

open Machine

variable {K : List Frame} {s s' : State} {ms : List Machine} {r : Reply}

/-- What the evaluation of a function does that the host holds. -/
theorem callFunction_asks {c : Callable} {declared : Nat} {ret : ReturnCount}
    (h : Goes K s.beginQuery (callFunction c declared ret) ms r s') :
    Discloses "call_function" K s.beginQuery ms r s' ∧ ((∃ f, r = .failed f) ∨
      ∃ f args vs, s.Ready c declared f args ∧ Calls K ms f args vs ∧
        r = .answer (.values (ret.adjust vs))) := by
  obtain ⟨call, code, silent⟩ := Operation.code_eq_settle (o := .callFunction c declared ret) rfl
  constructor
  · have settles : Goes K s.beginQuery (settle "call_function" call) ms r s' := code ▸ h
    exact goes_settle silent settles
  · refine (goes_callFunction h).imp_right ?_
    rintro ⟨f, args, vs, ready, rest⟩
    exact ⟨f, args, vs, State.ready_beginQuery.mp ready, rest⟩

/-- What the evaluation of a function about a card does. -/
theorem callOnCard_asks {site : String} {card : ObjectId} {f : Value} {extra : List Value}
    {ret : ReturnCount} (h : Goes K s.beginQuery (callOnCard site card f extra ret) ms r s') :
    Discloses site K s.beginQuery ms r s' ∧ ((∃ f, r = .failed f) ∨
      ∃ g args vs, (g = f ∧ f.isFunction = true ∧
        ∃ v, s.objectValue (.card card) = .ok v ∧ args = v :: extra) ∧ Calls K ms g args vs ∧
          r = .answer (.values (ret.adjust vs))) := by
  constructor
  · have code : ∃ call : Code, callOnCard site card f extra ret = call.andThen (reporting site) ∧
        call.Makes fun u => ¬ u.Tells := by
      refine ⟨_, congrArg (andThen _) (funext fun (r : Reply) => by cases r <;> rfl), ?_⟩
      split
      · intro s
        dsimp only
        split
        · exact makes_within (makes_callWith _ _ _)
        · exact trivial
      · exact trivial
    obtain ⟨call, code, silent⟩ := code
    rw [code] at h
    exact goes_reporting silent h
  · refine (goes_callOnCard h).imp_right ?_
    rintro ⟨v, vs, callable, found, calls, rfl⟩
    rw [State.objectValue_beginQuery] at found
    exact ⟨f, _, vs, ⟨rfl, callable, v, found, rfl⟩, calls, rfl⟩

end Code

namespace Operation

open Machine Code

variable {o : Operation} {q : Question}

/-- What an operation does that evaluates a function which it is given. -/
theorem Queries.code_asks (given : o.Queries) (asks : o.question = some q) :
    ∃ body ret reading, o.code = query body reading q.otherwise ∧
      (∀ vs, reading (ReturnCount.adjust ret vs) = q.reading vs) ∧
      ∀ K s ms r s', Goes K s.beginQuery body ms r s' →
        Discloses q.site K s.beginQuery ms r s' ∧ ((∃ f, r = .failed f) ∨
          ∃ f args vs, o.Evaluates s f args ∧ Calls K ms f args vs ∧
            r = .answer (.values (ret.adjust vs))) := by
  cases o with
  | checkCondition c n =>
    cases asks
    cases c with
    | none => cases given
    | some c =>
      exact ⟨_, .exactly 1, _, rfl, fun vs => by cases vs <;> rfl,
        fun K s ms r s' h => callFunction_asks h⟩
  | functionValue c n =>
    cases asks
    cases c with
    | none => cases given
    | some c =>
      exact ⟨_, .exactly 1, _, rfl, fun vs => by cases vs <;> rfl,
        fun K s ms r s' h => callFunction_asks h⟩
  | functionValues c n =>
    cases asks
    cases c with
    | none => cases given
    | some c => exact ⟨_, .all, _, rfl, fun vs => rfl, fun K s ms r s' h => callFunction_asks h⟩
  | checkMatching card f extra =>
    cases asks
    exact ⟨_, .exactly 1, _, if_neg given, fun vs => by cases vs <;> rfl,
      fun K s ms r s' h => callOnCard_asks h⟩
  | operationValue card f extra =>
    cases asks
    exact ⟨_, .exactly 1, _, if_neg given, fun vs => by cases vs <;> rfl,
      fun K s ms r s' h => callOnCard_asks h⟩
  | operationValues card f extra =>
    cases asks
    exact ⟨_, .all, _, if_neg given, fun vs => rfl, fun K s ms r s' h => callOnCard_asks h⟩
  | checkMatchingTable card f t =>
    cases asks
    refine ⟨_, .exactly 1, _, if_neg given, fun vs => by cases vs <;> rfl, fun K s ms r s' h => ?_⟩
    obtain ⟨ms₁, rfl, rest⟩ := goes_read h
    obtain ⟨discloses, outcome⟩ := callOnCard_asks rest
    refine ⟨discloses.later rfl, outcome.imp_right ?_⟩
    rintro ⟨g, args, vs, evaluates, calls, eq⟩
    exact ⟨g, args, vs, evaluates, calls.of_infix (List.suffix_cons _ _).isInfix, eq⟩
  | _ => cases asks

/-- Without a function nothing is evaluated. -/
theorem code_absent (absent : ¬ o.Queries) (asks : o.question = some q) :
    o.code = withoutFunction q.absent ∨ o.code = answer q.absent := by
  cases o with
  | checkCondition c n | functionValue c n | functionValues c n =>
    cases asks
    cases c with
    | none => exact .inl rfl
    | some c => exact absurd trivial absent
  | checkMatching card f extra | checkMatchingTable card f t | operationValue card f extra
  | operationValues card f extra =>
    cases asks
    exact .inr (if_pos (Classical.not_not.mp absent))
  | _ => cases asks

end Operation

open Code Machine

/-- **Queries fail closed, and not silently.** An operation that evaluates a condition or a query
comes to one of three ends. Without a function to evaluate the answer is the one for that. If the
function that is to be called by the state in which the operation begins has been called, with the
values that it is to be called with, and has come to its end, its results are read. In both cases
nothing is told. In all other cases a failure is reported at the site of the operation, once and
last of all, nothing else is told, and the answer is the other one. Where someone takes messages the
report is one message about a failure, as much of it as fits. -/
theorem query_fails_closed {o : Operation} {q : Question} (asks : o.question = some q)
    {K : List Frame} {s s' : State} {ms : List Machine} {r : Reply}
    (ends : o.code.Goes K s ms r s') :
    (¬ o.Queries ∧ r = .answer q.absent ∧ ∀ u ∈ own K ms, ¬ u.Tells) ∨
    (o.Queries ∧ (∃ k f args vs, o.Evaluates s f args ∧ Calls (.scope .query k :: K) ms f args vs ∧
      r = .answer (q.reading vs)) ∧ ∀ u ∈ own K ms, ¬ u.Tells) ∨
    (o.Queries ∧ r = .answer q.otherwise ∧ ∃ f before s₁, own K ms = before ++ [.report q.site f] ∧
      (∀ u ∈ before, ¬ u.Tells) ∧
      (∃ k, ⟨s₁, .host (write (.report q.site f) (fail f)), .scope .query k :: K⟩ ∈ ms) ∧
      ∀ session b, s.env.session = some session → s.env.handles = true → s.env.bridge = some b →
        1 ≤ b.messages.capacity →
          ReportedAt b.messages.capacity q.site f s₁.messages s'.messages) := by
  by_cases given : o.Queries
  · obtain ⟨body, ret, reading, code, reads, goes⟩ := given.code_asks asks
    rw [code] at ends
    obtain ⟨k, ms₁, r₁, s₁, inside, rfl, rfl, part, same⟩ := goes_query ends
    obtain ⟨discloses, outcome⟩ := goes _ _ _ _ _ inside
    rw [same]
    obtain ⟨f, rfl⟩ | ⟨f, args, vs, evaluates, calls, rfl⟩ := outcome
    · obtain ⟨other, -⟩ | ⟨f', before, s₂, eq, told, silent, moment, rfl, heard⟩ := discloses
      · exact absurd rfl (other f)
      cases eq
      refine .inr (.inr ⟨given, rfl, f, before, s₂, told, silent, ⟨k, part.subset moment⟩,
        fun session b known handles hb room => ?_⟩)
      have begins : s.Heard session b.messages.capacity :=
        ⟨known, handles, congrArg (Option.map _) hb⟩
      have queried : Effect s [] [] s.beginQuery [.query] := .enter .query rfl
      exact (heard _ _ (queried.heard begins)).reportedAt room q.site f
    · obtain ⟨-, silent⟩ | ⟨f', before, s₂, eq, -⟩ := discloses
      · exact .inr (.inl ⟨given,
          ⟨k, f, args, vs, evaluates, calls.of_infix part, by rw [readAs, reads]⟩, silent⟩)
      · cases eq
  · have path := ends.path
    obtain cleared | nothing := Operation.code_absent given asks
    · rw [cleared] at path
      generalize own K ms = us at path
      cases path with
      | write path =>
        obtain ⟨rfl, rfl⟩ := path_finish path
        exact .inl ⟨given, rfl, List.forall_mem_singleton.mpr fun tells => tells.elim⟩
    · rw [nothing] at path
      obtain ⟨none, rfl⟩ := path_finish path
      rw [none]
      exact .inl ⟨given, rfl, fun _ mem => (List.not_mem_nil mem).elim⟩

/-- What is no function is reported, and no card matches it. -/
theorem query_fails_closed_uncallable : ∃ ms f, ∃ s₁ s' : State,
    Goes [] ⟨(Host.Blueprint.plain ⟨1⟩).environment 0, .empty⟩
      (Operation.checkMatching ⟨7⟩ (.int 5) []).code ms (.answer (.truth false)) s' ∧
    ReportedAt 128 "check_matching" f s₁.messages s'.messages := by
  let s : State := ⟨(Host.Blueprint.plain ⟨1⟩).environment 0, .empty⟩
  let o : Operation := .checkMatching ⟨7⟩ (.int 5) []
  have ended : Machine.run (fun _ _ => .done) 6 (.start s o.code) = .ended (.answer (.truth false))
      ((s.beginQuery.report "check_matching" (notCallable (.int 5))).endQuery) := rfl
  obtain ⟨us, run⟩ := (steps_of_ended 6 _ ended).run
  obtain ⟨ms, goes, -⟩ := Run.course run
  have given : o.Queries := fun nil => by cases nil
  obtain ⟨absent, -⟩ | ⟨-, ⟨k, f, args, vs, ⟨rfl, callable, -⟩, -⟩, -⟩ |
    ⟨-, -, f, before, s₁, -, -, -, told⟩ := query_fails_closed (o := o) rfl goes
  · exact absurd given absent
  · cases callable
  · exact ⟨ms, f, s₁, _, goes, told ⟨1⟩ _ rfl rfl rfl (by decide)⟩

end CardBridge

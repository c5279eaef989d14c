import CardBridge.Proofs.PublicCode
import Mathlib.Algebra.Ring.Nat

/-!
# No action while a query is evaluated

The bookkeeping counts the conditions and queries that are being evaluated, and actions are allowed
while there are none. The count goes up and down with scopes, and scopes are on the stack, so at
every moment it is the number of queries on the stack (`Counted`), as long as that is a number of 32
bits. What a coroutine does when it is resumed is on top of the stack that it is resumed on,
wherever the coroutine was begun.

What is on the stack has been put there by the operations that evaluate conditions and queries,
since a host has nothing else for it (`Code.Public`). So actions are forbidden exactly while one of
these is at work (`no_action_while_evaluating`).
-/

namespace CardBridge

open Script (Value)

/-! ## Counting queries -/

/-- How many queries some open scopes are. -/
def queries : List Open → Nat
  | [] => 0
  | .query :: os => queries os + 1
  | _ :: os => queries os

theorem queries_ne_zero_iff {os : List Open} : queries os ≠ 0 ↔ .query ∈ os := by
  induction os with
  | nil => simp [queries]
  | cons o os ih =>
    cases o with
    | query => simp [queries]
    | guard | step | loading | holding => simpa [queries] using ih

/-- What can happen to the count of queries in one step : a query begins, a query ends, or
nothing. -/
theorem Effect.queries {s s' : State} {os os' : List Open} {us : List Update}
    (h : Effect s os us s' os') {b : Bridge} (hb : s.env.bridge = some b) :
    ∃ b', s'.env.bridge = some b' ∧
      ((os' = .query :: os ∧ b'.noAction = b.noAction + 1) ∨
      (os = .query :: os' ∧ b'.noAction = if b.noAction = 0 then 0 else b.noAction - 1) ∨
      (CardBridge.queries os' = CardBridge.queries os ∧ b'.noAction = b.noAction)) := by
  cases h with
  | quiet | script => exact ⟨b, hb, .inr (.inr ⟨rfl, rfl⟩)⟩
  | write u =>
    obtain ⟨registry, messages, hu⟩ := u.apply_bridge hb
    exact ⟨_, hu, .inr (.inr ⟨rfl, rfl⟩)⟩
  | @enter _ scope o _ h =>
    cases scope with
    | guard =>
      obtain ⟨rfl, b₁, depth, -, -, rfl⟩ := Scope.enter_guard h
      exact ⟨{ b with depth }, by simp [hb], .inr (.inr ⟨rfl, rfl⟩)⟩
    | query =>
      obtain ⟨rfl, rfl⟩ := Scope.enter_query h
      exact ⟨{ b with noAction := b.noAction + 1 }, by simp [hb], .inl ⟨rfl, rfl⟩⟩
    | start id f =>
      obtain ⟨b₁, -, -, rfl, rfl⟩ := Scope.enter_start h
      simp only [State.updateBridge_env, State.setMemory_env, hb, Option.map_some]
      exact ⟨_, rfl, .inr (.inr ⟨rfl, rfl⟩)⟩
    | proceed id =>
      obtain ⟨b₁, e, -, -, -, rfl, rfl⟩ := Scope.enter_proceed h
      simp only [State.updateBridge_env, hb, Option.map_some]
      exact ⟨_, rfl, .inr (.inr ⟨rfl, rfl⟩)⟩
    | loading code =>
      obtain ⟨rfl, m, -, rfl⟩ := Scope.enter_loading h
      exact ⟨b, hb, .inr (.inr ⟨rfl, rfl⟩)⟩
    | holding cs =>
      obtain ⟨rfl, rfl⟩ := Scope.enter_holding h
      exact ⟨b, hb, .inr (.inr ⟨rfl, rfl⟩)⟩
  | leave o r =>
    cases o with
    | guard =>
      simp only [Open.leave, State.leaveGuard_env, hb, Option.map_some]
      exact ⟨_, rfl, .inr (.inr ⟨rfl, rfl⟩)⟩
    | query =>
      simp only [Open.leave, State.updateBridge_env, hb, Option.map_some]
      exact ⟨_, rfl, .inr (.inl ⟨trivial, rfl⟩)⟩
    | step id t =>
      simp only [Open.leave, State.endStep, State.updateBridge_env, hb, Option.map_some]
      refine ⟨_, rfl, .inr (.inr ⟨rfl, ?_⟩)⟩
      split <;> rfl
    | loading cls table code =>
      obtain ⟨m, -, e⟩ := s.endLoading_eq cls table code r.isFailure
      exact ⟨b, by rw [Open.leave, e]; exact hb, .inr (.inr ⟨rfl, rfl⟩)⟩
    | holding cs => exact ⟨b, hb, .inr (.inr ⟨rfl, rfl⟩)⟩

theorem Scope.query_of_enter {scope : Scope} {s s' : State} (h : scope.enter s = .ok (.query, s')) :
    scope = .query := by
  cases scope with
  | query => rfl
  | guard => cases (Scope.enter_guard h).1
  | start id f =>
    obtain ⟨_, -, -, other, -⟩ := Scope.enter_start h
    cases other
  | proceed id =>
    obtain ⟨_, _, -, -, -, other, -⟩ := Scope.enter_proceed h
    cases other
  | loading code => cases (Scope.enter_loading h).1
  | holding cs => cases (Scope.enter_holding h).1

/-- The count of queries is the number of those that are open. -/
def Counted (env : Environment) (os : List Open) : Prop :=
  ∃ b, env.bridge = some b ∧ b.noAction.toNat = queries os

theorem Counted.effect {s s' : State} {os os' : List Open} {us : List Update}
    (h : Counted s.env os) (e : Effect s os us s' os') (few : queries os' < 2 ^ 32) :
    Counted s'.env os' := by
  obtain ⟨b, hb, count⟩ := h
  obtain ⟨b', hb', ⟨rfl, begins⟩ | ⟨rfl, ends⟩ | ⟨same, stays⟩⟩ := e.queries hb
  · refine ⟨b', hb', ?_⟩
    rw [queries] at few ⊢
    rw [begins, UInt32.toNat_add, count]
    exact Nat.mod_eq_of_lt few
  · refine ⟨b', hb', ?_⟩
    rw [queries] at count
    have open_query : b.noAction ≠ 0 := by
      intro zero
      rw [zero] at count
      exact absurd count (Nat.succ_ne_zero _).symm
    rw [ends, if_neg open_query, UInt32.toNat_sub_of_le]
    · rw [count]
      rfl
    · rw [UInt32.le_iff_toNat_le, count]
      exact Nat.succ_pos _
  · exact ⟨b', hb', by rw [stays, same, count]⟩

theorem Counted.actionsAllowed {s : State} {os : List Open} (h : Counted s.env os) :
    s.actionsAllowed = false ↔ .query ∈ os := by
  obtain ⟨b, hb, count⟩ := h
  rw [← queries_ne_zero_iff, ← count]
  simp only [State.actionsAllowed, hb, Option.map_some, Option.getD_some, beq_eq_false_iff_ne]
  exact not_congr UInt32.toNat_inj.symm

open Machine Host

/-- In a history with less than `2 ^ 32` queries at a time they are counted rightly. -/
theorem Host.Blueprint.History.counted {b : Blueprint} {P : Code → Prop} {m : Machine}
    {past : List Machine} (life : b.History P (m :: past))
    (few : ∀ m' ∈ m :: past, queries (opens m'.stack) < 2 ^ 32) :
    Counted m.state.env (opens m.stack) := by
  generalize eq : m :: past = ms at life
  induction life generalizing m past with
  | new account shared h =>
    cases eq
    exact ⟨_, rfl, rfl⟩
  | step life lent h ih =>
    cases eq
    have before := ih (fun m' mem => few m' (List.mem_cons_of_mem _ mem)) rfl
    exact before.effect (move_of_step h).effect (few _ List.mem_cons_self)
  | begins life h shared hc ih =>
    cases eq
    obtain ⟨x, hx, count⟩ := ih (fun m' mem => few m' (List.mem_cons_of_mem _ mem)) rfl
    exact ⟨x, hx, count⟩

/-! ## Operations at work -/

/-- The operation `o` that was asked for at `m₀` is at work at `m` : what it has put on the stack in
its first step is still there. -/
def Machine.AtWork (o : Operation) (m₀ m : Machine) : Prop :=
  ∃ next F m₁ us, m₀.activity = .host (o.code.andThen next) ∧ Move m₀ m₁ ∧
    m₁.stack = F :: m₀.stack ∧ Run (F :: m₀.stack) m₁ us m

theorem exists_frame_of_mem_opens {o : Open} : ∀ {S : List Frame}, o ∈ opens S →
    ∃ k K, .scope o k :: K <:+ S
  | .scope o' k :: S, mem => by
    obtain rfl | mem := List.mem_cons.mp mem
    · exact ⟨k, S, List.suffix_rfl⟩
    · obtain ⟨k', K, suffix⟩ := exists_frame_of_mem_opens mem
      exact ⟨k', K, suffix.trans (List.suffix_cons _ _)⟩
  | .script k :: S, mem | .native stack base :: S, mem => by
    obtain ⟨k', K, suffix⟩ := exists_frame_of_mem_opens (S := S) mem
    exact ⟨k', K, suffix.trans (List.suffix_cons _ _)⟩

/-- An operation that evaluates a condition or a query is at work as long as its scope is open. -/
theorem Machine.AtWork.mem_opens {o : Operation} (ho : o.Queries) {m₀ m : Machine}
    (h : AtWork o m₀ m) : .query ∈ opens m.stack := by
  obtain ⟨next, F, m₁, us, begins, move, push, run⟩ := h
  obtain ⟨body, reading, otherwise, code_eq⟩ := ho.code_eq
  obtain ⟨s, a, K⟩ := m₀
  obtain rfl : a = .host (o.code.andThen next) := begins
  rw [code_eq] at move
  cases move with
  | enter enters =>
    obtain ⟨rfl, -⟩ := Scope.enter_query enters
    obtain ⟨rfl, -⟩ := List.cons.inj push
    exact (opens_suffix (run.suffix (push ▸ List.suffix_rfl))).subset List.mem_cons_self
  | refuse refuses => cases refuses

/-- What an open query scope is of is an operation at work, if all code is public. -/
theorem Host.Blueprint.History.atWork {b : Blueprint} {m : Machine} {past : List Machine}
    (life : b.History Code.Public (m :: past)) (asked : .query ∈ opens m.stack) :
    ∃ o m₀, o.Queries ∧ m₀ ∈ past ∧ AtWork o m₀ m := by
  obtain ⟨k, K, on⟩ := exists_frame_of_mem_opens asked
  obtain ⟨m₀, mem, m₁, us, move, below, push, run⟩ := life.pushed on
  obtain ⟨before, -, earlier⟩ := life.earlier mem
  obtain ⟨s, scope, body, refused, s', rfl, enters, -⟩ := move.push_scope below push
  obtain rfl : scope = .query := Scope.query_of_enter enters
  obtain ⟨by_operation, -⟩ := (earlier.codes Code.hereditary_public).active rfl
  obtain ⟨o, next, ho, eq⟩ := by_operation rfl
  exact ⟨o, _, ho, mem, next, _, m₁, us, congrArg Activity.host eq, move, push, run⟩

/-- **No action while a query is evaluated.** With less than `2 ^ 32` queries at a time, at every
moment in the life of an environment actions are forbidden exactly if a condition or query that its
host has asked for is at work, and then the demand for an action fails. When an operation has come
to its end, the count of queries is what it was where that began. -/
theorem no_action_while_evaluating (b : Blueprint) {m : Machine} {past : List Machine}
    (life : b.History Code.Public (m :: past))
    (few : ∀ m' ∈ m :: past, queries (opens m'.stack) < 2 ^ 32) :
    (m.state.actionsAllowed = false ↔ ∃ o m₀, o.Queries ∧ m₀ ∈ past ∧ AtWork o m₀ m) ∧
    (∀ host K r s', Code.Gives host K m.state Operation.requireAction.code r s' ↔
      s' = m.state ∧
        r = if m.state.actionsAllowed then .answer .done else .failed .actionNotAllowed) ∧
    ∀ (o : Operation) next r, ∀ m₀ ∈ past, m₀.activity = .host (o.code.andThen next) →
      m.activity = .host (next r) → m.stack = m₀.stack →
        m.state.env.bridge.map (·.noAction) = m₀.state.env.bridge.map (·.noAction) := by
  have counted := life.counted few
  refine ⟨?_, fun host K r s' => ?_, fun o next r m₀ mem _ _ same => ?_⟩
  · rw [counted.actionsAllowed]
    exact ⟨life.atWork, fun ⟨o, m₀, ho, _, work⟩ => work.mem_opens ho⟩
  · simp only [Operation.code, Code.requireAction, Code.gives_read_iff]
    cases m.state.actionsAllowed with
    | true => exact Code.gives_finish_iff.trans and_comm
    | false => exact Code.gives_finish_iff.trans and_comm
  · obtain ⟨before, suffix, earlier⟩ := life.earlier mem
    have few_before : ∀ m' ∈ m₀ :: before, queries (opens m'.stack) < 2 ^ 32 := by
      intro m' mem'
      refine few m' (List.mem_cons_of_mem _ ?_)
      obtain rfl | mem' := List.mem_cons.mp mem'
      · exact mem
      · exact suffix.subset mem'
    obtain ⟨x, hx, count⟩ := counted
    obtain ⟨x₀, hx₀, count₀⟩ := earlier.counted few_before
    rw [same, ← count₀] at count
    rw [hx, hx₀]
    exact congrArg some (UInt32.toNat_inj.mp count)

/-- A host with a function that demands an action. -/
def demander : CardBridge.Host :=
  Code.native fun _ _ => Operation.requireAction.code

theorem no_action_while_evaluating_demander : ∃ m past o m₀,
    (Blueprint.plain ⟨1⟩).History Code.Public (m :: past) ∧
    m.activity = .host Operation.requireAction.code ∧ o.Queries ∧ m₀ ∈ past ∧ AtWork o m₀ m ∧
    Code.Gives demander [] m.state Operation.requireAction.code (.failed .actionNotAllowed)
      m.state := by
  let asks : Operation := .checkMatching ⟨7⟩ (.native (.host 0)) []
  have begins := Blueprint.History.new (b := Blueprint.plain ⟨1⟩) 0 .empty asks.public_code
  have lent (n : Script.Native) (args : List Value) : (demander n args).Public :=
    Code.public_native (fun _ _ => Operation.requireAction.public_code) n args
  have life := Blueprint.History.moments lent 5 begins
  obtain ⟨m, past, eq, at_native, few, forbidden⟩ : ∃ m past,
      moments demander 5 (.start ⟨(Blueprint.plain ⟨1⟩).environment 0, .empty⟩ asks.code) [] =
        m :: past ∧
      m.activity = .host Operation.requireAction.code ∧
      ((m :: past).all fun m' => queries (opens m'.stack) < 2 ^ 32) = true ∧
      m.state.actionsAllowed = false := ⟨_, _, rfl, rfl, rfl, rfl⟩
  rw [eq] at life
  obtain ⟨asked, demand, -⟩ := no_action_while_evaluating _ life
    fun m' mem => of_decide_eq_true (List.all_eq_true.mp few m' mem)
  obtain ⟨o, m₀, ho, mem, work⟩ := asked.mp forbidden
  refine ⟨m, past, o, m₀, life, at_native, ho, mem, work, ?_⟩
  exact (demand _ _ _ _).mpr ⟨rfl, by rw [forbidden]; rfl⟩

end CardBridge

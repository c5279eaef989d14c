import CardBridge.Proofs.OwnReports
import CardBridge.Proofs.QueryMode

/-!
# Calls that fail

A call can fail before it has begun, while it takes the staged arguments and anywhere in the scripts
and functions of the host that it leads to. However it fails, it ends in the same way
(`Code.goes_settle_failed`) : no argument is staged, and the failure is the last thing that is
told. What has begun in the course of the call has ended by then, since that is on the stack :
levels of invocation, queries (`Code.goes_queryCount`) and steps of operations
(`Code.goes_running`). So a failed call leaves everything as the next one has to find it
(`failed_call_leaves`).
-/

namespace CardBridge

open Machine

/-! ## Queries -/

/-- How many conditions and queries are being evaluated by the count of the bookkeeping. -/
def State.queryCount (s : State) : Nat :=
  (s.env.bridge.map (·.noAction.toNat)).getD 0

/-- The count of queries and the queries that are open differ as `n` and `k` do. -/
def QueryBalanced (n k : Nat) (s : State) (os : List Open) : Prop :=
  ∃ b, s.env.bridge = some b ∧ b.noAction.toNat + k = n + queries os

theorem queries_le_of_suffix {os os' : List Open} (h : os <:+ os') : queries os ≤ queries os' := by
  obtain ⟨L, rfl⟩ := h
  induction L with
  | nil => exact Nat.le_refl _
  | cons o L ih =>
    cases o with
    | query => exact Nat.le_succ_of_le ih
    | guard | step | loading | holding => exact ih

theorem QueryBalanced.effect {n k : Nat} {s s' : State} {os os' : List Open} {us : List Update}
    (h : QueryBalanced n k s os) (e : Effect s os us s' os') (above : k ≤ queries os')
    (few : s.queryCount < 2 ^ 32 - 1) : QueryBalanced n k s' os' := by
  obtain ⟨b, hb, count⟩ := h
  rw [State.queryCount, hb, Option.map_some, Option.getD_some] at few
  obtain ⟨b', hb', ⟨rfl, begins⟩ | ⟨rfl, ends⟩ | ⟨same, stays⟩⟩ := e.queries hb
  · refine ⟨b', hb', ?_⟩
    have next : (b.noAction + 1).toNat = b.noAction.toNat + 1 := by
      rw [UInt32.toNat_add]
      exact Nat.mod_eq_of_lt (Nat.add_lt_of_lt_sub few)
    rw [begins, next, queries]
    omega
  · refine ⟨b', hb', ?_⟩
    rw [queries] at count
    have positive : 1 ≤ b.noAction.toNat := by omega
    have some_open : b.noAction ≠ 0 := by
      rintro zero
      rw [zero] at positive
      exact absurd positive (by decide)
    have last : (b.noAction - 1).toNat = b.noAction.toNat - 1 :=
      UInt32.toNat_sub_of_le _ _ (UInt32.le_iff_toNat_le.mpr positive)
    rw [ends, if_neg some_open, last]
    omega
  · exact ⟨b', hb', by rw [stays, same, count]⟩

/-- Host code leaves the count of queries as it found it, however it ends, unless the count comes to
the largest number of 32 bits. -/
theorem Code.goes_queryCount {K : List Frame} {s s' : State} {c : Code} {ms : List Machine}
    {r : Reply} (h : Goes K s c ms r s') (few : ∀ m ∈ ms, m.state.queryCount < 2 ^ 32 - 1) :
    s'.queryCount = s.queryCount := by
  cases hb : s.env.bridge with
  | none =>
    have foreign : s'.env.bridge = none := h.returns.foreign hb
    rw [State.queryCount, State.queryCount, hb, foreign]
  | some b =>
    have balanced := (Course.invariant (P := fun m =>
      QueryBalanced b.noAction.toNat (queries (opens K)) m.state (opens m.stack)) h ⟨b, hb, rfl⟩
      fun m mem m' balanced move above =>
        balanced.effect move.effect (queries_le_of_suffix (opens_suffix above)) (few m mem)).1
    obtain ⟨b', hb', count⟩ := balanced
    rw [State.queryCount, State.queryCount, hb, hb']
    exact Nat.add_right_cancel count

/-! ## Steps of operations -/

/-- An operation that is at a step was at it in the table `t₀`, or the step is one of `ss`. -/
def Marked (t₀ t : CoroutineTable Nat) (ss : List (CoroutineId × Nat)) : Prop :=
  ∀ id n, t.lookup id = some ⟨.running, n⟩ → t₀.lookup id = some ⟨.running, n⟩ ∨ (id, n) ∈ ss

/-- After the end of a step its operation is not at one. -/
theorem CoroutineTable.endStep_ne_running {t : CoroutineTable Nat} {id : CoroutineId} {r : Reply}
    {n : Nat} : (t.endStep id r).lookup id ≠ some ⟨.running, n⟩ := by
  intro running
  cases he : t.lookup id with
  | none =>
    rw [endStep_none he, he] at running
    cases running
  | some e =>
    by_cases at_step : e.phase = .running
    · rw [endStep_running he at_step] at running
      split at running
      · rw [Keyed.lookup_put_self] at running
        cases running
      · rw [Keyed.lookup_erase_self] at running
        cases running
    · have stays : t.endStep id r = t := by
        have not_ended : e.phase.canBecome (State.phaseAfter r) = false := by
          obtain ⟨phase, payload⟩ := e
          cases phase with
          | running => exact absurd rfl at_step
          | created | yielded | finished | errored => cases r <;> rfl
        simp [endStep, finishStep, he, not_ended, refused, Except.toOption]
      rw [stays, he] at running
      cases running
      exact at_step rfl

/-- What is so of the steps that are open beside some others is kept by whatever happens as long as
the others stay open. -/
theorem TableEffect.marked {t₀ t t' : CoroutineTable Nat} {threads threads' : Nat}
    {us : List Update} {ss above base : List (CoroutineId × Nat)} (h : Marked t₀ t above)
    (e : TableEffect t threads us (above ++ base) t' ss threads') (stays : base <:+ ss) :
    ∃ above', ss = above' ++ base ∧ Marked t₀ t' above' := by
  generalize eq : above ++ base = os at e
  cases e with
  | quiet => exact ⟨above, eq.symm, h⟩
  | abandon =>
    refine ⟨above, eq.symm, fun id n running => ?_⟩
    unfold CoroutineTable.abandon at running
    split at running
    · exact h id n running
    · exact h id n (Keyed.lookup_erase_cases running).2
  | @start _ _ id unused =>
    refine ⟨(id, threads) :: above, by rw [← eq]; rfl, fun id' n running => ?_⟩
    obtain ⟨rfl, entry⟩ | ⟨-, running⟩ := Keyed.lookup_put_cases running
    · cases entry
      exact .inr List.mem_cons_self
    · exact (h id' n running).imp_right (List.mem_cons_of_mem _)
  | @proceed _ _ id entry =>
    refine ⟨(id, entry.payload) :: above, by rw [← eq]; rfl, fun id' n running => ?_⟩
    obtain ⟨rfl, entry⟩ | ⟨-, running⟩ := Keyed.lookup_put_cases running
    · cases entry
      exact .inr List.mem_cons_self
    · exact (h id' n running).imp_right (List.mem_cons_of_mem _)
  | @ends _ _ id n r =>
    cases above with
    | nil =>
      rw [List.nil_append] at eq
      rw [eq] at stays
      exact absurd stays.length_le (by simp)
    | cons first above =>
      obtain ⟨rfl, rfl⟩ := List.cons.inj eq
      refine ⟨above, rfl, fun id' n' running => ?_⟩
      by_cases same : id' = id
      · subst same
        exact absurd running CoroutineTable.endStep_ne_running
      · rw [CoroutineTable.lookup_endStep same] at running
        refine (h id' n' running).imp_right fun mem => (List.mem_cons.mp mem).resolve_left ?_
        exact fun step => same (Prod.mk.inj step).1

theorem steps_suffix {os os' : List Open} (h : os <:+ os') : steps os <:+ steps os' := by
  obtain ⟨L, rfl⟩ := h
  rw [steps, steps, List.filterMap_append]
  exact List.suffix_append _ _

/-- Host code that has come to its end has left no operation at a step that was not at it before. -/
theorem Code.goes_running {K : List Frame} {s s' : State} {c : Code} {ms : List Machine}
    {r : Reply} (h : Goes K s c ms r s') (id : CoroutineId) (n : Nat)
    (running : s'.operations.lookup id = some ⟨.running, n⟩) :
    s.operations.lookup id = some ⟨.running, n⟩ := by
  cases hb : s.env.bridge with
  | none =>
    have foreign : s'.env.bridge = none := h.returns.foreign hb
    rw [State.operations, foreign] at running
    cases running
  | some b =>
    have marked := Course.invariant (P := fun m => ∃ b' above, m.state.env.bridge = some b' ∧
      steps (opens m.stack) = above ++ steps (opens K) ∧ Marked b.coroutines b'.coroutines above) h
      ⟨b, [], hb, rfl, fun _ _ => .inl⟩ fun m _ m' before move stays => by
        obtain ⟨b', above, hb', eq, marked⟩ := before
        obtain ⟨-, b'', hb'', table⟩ := move.effect.table hb'
        rw [eq] at table
        obtain ⟨above', eq', marked'⟩ := table.marked marked (steps_suffix (opens_suffix stays))
        exact ⟨b'', above', hb'', eq', marked'⟩
    obtain ⟨⟨b', above, hb', eq, marked⟩, -⟩ := marked
    obtain rfl : above = [] := List.append_left_eq_self.mp eq.symm
    rw [State.lookup_operations, hb', Option.bind_some] at running
    rw [State.lookup_operations, hb, Option.bind_some]
    exact (marked id n running).resolve_right (List.not_mem_nil)

/-! ## The end of a call -/

/-- A call at a site that fails ends by discarding what is staged and telling the failure. -/
theorem Code.goes_settle_failed {site : String} {call : Code} {K : List Frame} {s s' : State}
    {ms : List Machine} {f : Failure} (h : Goes K s (settle site call) ms (.failed f) s') :
    ∃ ms₁ s₁, call.Path (own K ms₁) (.failed f) ∧
      Course K ⟨s, .host (settle site call), K⟩ ms₁
        ⟨s₁, .host (write (.clear .call) (write (.report site f) (fail f))), K⟩ ∧
      ms = ms₁ ++ [⟨s₁, .host (write (.clear .call) (write (.report site f) (fail f))), K⟩,
        ⟨s₁.clear .call, .host (write (.report site f) (fail f)), K⟩] ∧
      s' = (s₁.clear .call).report site f := by
  obtain ⟨ms₁, r₁, s₁, ms₂, path, first, second, rfl⟩ := goes_andThen h
  split at second
  case h_1 f₁ =>
    obtain ⟨ms₃, rfl, reports⟩ := goes_write second
    obtain ⟨ms₄, rfl, ends⟩ := goes_write reports
    obtain ⟨rfl, same, rfl⟩ := goes_finish ends
    cases same
    exact ⟨ms₁, s₁, path, first, rfl, rfl⟩
  case h_2 other =>
    obtain ⟨-, same, -⟩ := goes_finish second
    exact absurd same.symm (other f)

/-- **A failed call leaves everything as the next one has to find it.** However a call fails, no
argument is staged for calls when it has ended, the depth is what it was, and so is the count of
queries, unless it came to the largest number of 32 bits in between. No operation is at a step that
it was not at before. At its last moment the call reports the failure at its site, and that is the
only message of its own, except that a script could not be loaded for it ; where someone takes
messages that is the last message about a failure, as much of it as fits. -/
theorem failed_call_leaves {o : Operation} {site : String} (calls : o.site = some site)
    {K : List Frame} {s s' : State} {ms : List Machine} {f : Failure}
    (fails : o.code.Goes K s ms (.failed f) s') :
    s'.staged .call = [] ∧ s'.callDepth = s.callDepth ∧
    ((∀ m ∈ ms, m.state.queryCount < 2 ^ 32 - 1) → s'.queryCount = s.queryCount) ∧
    (∀ id n, s'.operations.lookup id = some ⟨.running, n⟩ →
      s.operations.lookup id = some ⟨.running, n⟩) ∧
    (∃ inner, own K ms = inner ++ [.clear .call, .report site f] ∧
      ∀ u ∈ inner, u.Tells → o.Loads u) ∧
    ∃ s₁, ms.getLast? = some ⟨s₁, .host (.write (.report site f) (.fail f)), K⟩ ∧
      s' = s₁.report site f ∧
      ∀ session b, s.env.session = some session → s.env.handles = true → s.env.bridge = some b →
        1 ≤ b.messages.capacity →
          ReportedAt b.messages.capacity site f s₁.messages s'.messages := by
  have depth := Code.returns_depth fails.returns
  have count := Code.goes_queryCount fails
  have running := Code.goes_running fails
  obtain ⟨call, code, makes⟩ := Operation.code_eq_settle calls
  rw [code] at fails
  obtain ⟨ms₁, s₁, path, first, rfl, rfl⟩ := Code.goes_settle_failed fails
  refine ⟨by simp, depth, count, running, ⟨own K ms₁, ?_, makes.path path⟩, s₁.clear .call,
    by simp, rfl, fun session b known handles hb room => ?_⟩
  · rw [own_append, own_write, own_write]
    rfl
  · have begins : s.Heard session b.messages.capacity :=
      ⟨known, handles, congrArg (Option.map _) hb⟩
    have cleared : Effect s₁ [] [.clear .call] (s₁.clear .call) [] := .write _
    exact (cleared.heard (first.heard begins)).reportedAt room site f

/-- An error crosses three levels of functions that the host calls. -/
theorem failed_call_leaves_crossed : ∃ ms f inner, ∃ s₁ s' : State,
    Code.Goes [] Fails.chained (Operation.callFunction ⟨2⟩ 0 .all).code ms (.failed f) s' ∧
    s'.staged .call = [] ∧ s'.callDepth = Fails.chained.callDepth ∧
    own [] ms = inner ++ [.clear .call, .report "call_function" f] ∧
    ReportedAt 128 "call_function" f s₁.messages s'.messages := by
  obtain ⟨ready, known, handles, bridge⟩ := Fails.chained_ready
  obtain ⟨b, hb, same⟩ := Option.map_eq_some_iff.mp bridge
  obtain ⟨depth, room⟩ := Prod.mk.inj same
  obtain ⟨s₀, fails⟩ := Fails.calls_g
  have attended : Fails.chained.Attended b.messages.capacity 100 0 :=
    ⟨⟨_, known⟩, handles, b, hb, rfl, by rw [depth], by rw [depth]⟩
  obtain ⟨-, raises, -⟩ := fails.tells Fails.told_lost attended.called (by decide) (by simp [room])
  obtain ⟨us, returns⟩ :=
    (Code.gives_callFunction_raised attended (by decide) ready raises fails.plain).returns
  obtain ⟨ms, goes, -⟩ := Run.course returns
  obtain ⟨empty, same_depth, -, -, ⟨inner, own, -⟩, s₁, -, -, told⟩ :=
    failed_call_leaves (o := .callFunction ⟨2⟩ 0 .all) rfl goes
  refine ⟨ms, _, inner, s₁, _, goes, empty, same_depth, own, ?_⟩
  rw [← room]
  exact told _ b known handles hb (by simp [room])

end CardBridge

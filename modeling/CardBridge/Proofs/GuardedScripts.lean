import CardBridge.Proofs.DepthAccounting
import CardBridge.Proofs.GuardedCode
import CardBridge.Proofs.StagingQueue

/-!
# Scripts inside levels of invocation

While guarded code runs, a script on the stack above it is inside a level of invocation that the
code has begun, or belongs to a task that is allowed outside (`Machine.Run.own`). The first kind is
not there when the depth is at its bound, nor when a session is told that no invocation is left. So
at the bound an operation comes to what it comes to without a script (`Operation.Declines`), and if
it seeks nothing it does come to that, since its code then has nothing left to wait for.

`scripts_guarded` says this of all operations that have scripts run. That look-ups are outside of
the levels, so that their scripts do run at the bound, is at odds with the rest
(`not_held_in_scripts`).
-/

namespace CardBridge

open Script (Value Memory Completion)

/-! ## Runs of guarded code -/

namespace Machine

/-- Only scopes of host code are on the stack. -/
def OnlyScopes (B : List Frame) : Prop :=
  ∀ F ∈ B, ∃ o k, F = .scope o k

/-- Above `K` there is a level of invocation, and below that only scopes : the level was begun by
the host code that stood at `K`. -/
def Held (K stack : List Frame) : Prop :=
  ∃ k B, OnlyScopes B ∧ .scope .guard k :: (B ++ K) <:+ stack

/-- Above `K` there is no script. -/
def NoScript (K : List Frame) (m : Machine) : Prop :=
  ∃ c B, OnlyScopes B ∧ m.activity = .host c ∧ m.stack = B ++ K

/-- At `m`, which a run from `m₀` above `K` with the changes `us` has led to, a task that satisfies
`P` is in progress which host code that stood at `K` has begun. -/
def InTask (P : Task → Prop) (m₀ : Machine) (K : List Frame) (us : List Update) (m : Machine) :
    Prop :=
  ∃ task k B s us₁ us₂, P task ∧ OnlyScopes B ∧ us = us₁ ++ us₂ ∧
    Run K m₀ us₁ ⟨s, .host (.run task k), B ++ K⟩ ∧
    Run (B ++ K) ⟨s, .host (.run task k), B ++ K⟩ us₂ m ∧ .script k :: (B ++ K) <:+ m.stack

/-- Host code that waits for a scope is guarded. -/
def Waiting (P : Task → Prop) (B : List Frame) : Prop :=
  ∀ F ∈ B, ∃ o k, F = .scope o k ∧ ∀ r, (k r).Guarded P

/-- Where guarded code that stood at `K` can have got to. -/
inductive Own (P : Task → Prop) (m₀ : Machine) (K : List Frame) (us : List Update) (m : Machine) :
    Prop
  | code {c : Code} {B : List Frame} (activity : m.activity = .host c) (stack : m.stack = B ++ K)
    (waiting : Waiting P B) (guarded : c.Guarded P)
  | level {k : Reply → Code} {B : List Frame} (stack : .scope .guard k :: (B ++ K) <:+ m.stack)
    (waiting : Waiting P B) (guarded : ∀ r, (k r).Guarded P)
  | task {task : Task} {k : Completion → Code} {B : List Frame} {s : State} {us₁ us₂ : List Update}
    (stack : .script k :: (B ++ K) <:+ m.stack) (waiting : Waiting P B)
    (guarded : ∀ c, (k c).Guarded P) (allowed : P task) (eq : us = us₁ ++ us₂)
    (before : Run K m₀ us₁ ⟨s, .host (.run task k), B ++ K⟩)
    (since : Run (B ++ K) ⟨s, .host (.run task k), B ++ K⟩ us₂ m)

variable {P : Task → Prop} {m₀ m m' : Machine} {K : List Frame} {us : List Update}

/-- Guarded code makes a move of its own. -/
theorem Own.code_move {s : State} {c : Code} {B S : List Frame} (waiting : Waiting P B)
    (guarded : c.Guarded P) (stack : S = B ++ K) (run : Run K m₀ us ⟨s, .host c, S⟩)
    (h : Move ⟨s, .host c, S⟩ m') (hK : K <:+ m'.stack) :
    Own P m₀ K (us ++ writes ⟨s, .host c, S⟩) m' := by
  cases h with
  | @leave _ o k r S =>
    match B with
    | [] =>
      rw [List.nil_append] at stack
      exact absurd (stack ▸ hK) Code.not_cons_suffix
    | F :: B =>
      obtain ⟨rfl, rfl⟩ := List.cons.inj stack
      obtain ⟨o', k', eq, hk⟩ := waiting _ List.mem_cons_self
      cases eq
      exact .code rfl rfl (fun F hF => waiting F (List.mem_cons_of_mem _ hF)) (hk r)
  | @back _ r script base S =>
    match B with
    | [] =>
      rw [List.nil_append] at stack
      exact absurd (stack ▸ hK) Code.not_cons_suffix
    | F :: B =>
      obtain ⟨rfl, rfl⟩ := List.cons.inj stack
      obtain ⟨o', k', eq, -⟩ := waiting _ List.mem_cons_self
      cases eq
  | read => exact .code rfl stack waiting (guarded s)
  | write => exact .code rfl stack waiting guarded
  | trace => exact .code rfl stack waiting (guarded _)
  | refuse => exact .code rfl stack waiting (guarded.2.1 _)
  | run =>
    subst stack
    refine .task (List.suffix_refl _) waiting guarded.2 guarded.1 rfl run ?_
    exact .move .run (List.suffix_cons _ _) (.done _)
  | @enter _ scope body refused k S o s' enters =>
    subst stack
    obtain rfl | body_guarded := guarded.1
    · obtain ⟨rfl, -⟩ := Scope.enter_guard enters
      exact .level (List.suffix_refl _) waiting guarded.2.2
    · refine .code (B := .scope o k :: B) rfl rfl (fun F hF => ?_) body_guarded
      obtain rfl | hF := List.mem_cons.mp hF
      · exact ⟨o, k, rfl, guarded.2.2⟩
      · exact waiting F hF

/-- Wherever guarded code has got to, a move that leaves `K` alone leads to such a place. -/
theorem Own.move (own : Own P m₀ K us m) (run : Run K m₀ us m) (h : Move m m')
    (hK : K <:+ m'.stack) : Own P m₀ K (us ++ m.writes) m' := by
  cases own with
  | @code c B activity stack waiting guarded =>
    obtain ⟨s, _, S⟩ := m
    cases activity
    exact Own.code_move waiting guarded stack run h hK
  | @level k B stack waiting guarded =>
    by_cases stays : .scope .guard k :: (B ++ K) <:+ m'.stack
    · exact .level stays waiting guarded
    · obtain ⟨top, left⟩ := h.pop stack stays
      obtain ⟨s, r, rfl, rfl⟩ := h.pop_scope top left
      exact .code rfl rfl waiting (guarded r)
  | @task task k B s us₁ us₂ stack waiting guarded allowed eq before since =>
    by_cases stays : .script k :: (B ++ K) <:+ m'.stack
    · refine .task stays waiting guarded allowed ?_ before
        (since.snoc h ((List.suffix_cons _ _).trans stays))
      rw [eq, List.append_assoc]
    · obtain ⟨top, left⟩ := h.pop stack stays
      obtain ⟨s', c, -, rfl⟩ := h.pop_script top left
      exact .code rfl rfl waiting (guarded c)

/-- While guarded code runs, it is at some place of its own. -/
theorem Run.own {s : State} {c : Code} (guarded : c.Guarded P)
    (h : Run K ⟨s, .host c, K⟩ us m) : Own P ⟨s, .host c, K⟩ K us m := by
  refine h.snoc_induction (P := fun us m => Own P ⟨s, .host c, K⟩ K us m) ?_ ?_
  · exact .code (B := []) rfl rfl (fun F hF => nomatch hF) guarded
  · exact fun run own move hK => own.move run move hK

theorem Waiting.onlyScopes {B : List Frame} (h : Waiting P B) : OnlyScopes B :=
  fun F hF => (h F hF).imp fun _ => Exists.imp fun _ => And.left

/-- While guarded code runs, what is above `K` is host code, or it is inside a level or a task. -/
theorem Own.cases (h : Own P m₀ K us m) :
    Held K m.stack ∨ NoScript K m ∨ InTask P m₀ K us m := by
  cases h with
  | code activity stack waiting => exact .inr (.inl ⟨_, _, waiting.onlyScopes, activity, stack⟩)
  | level stack waiting => exact .inl ⟨_, _, waiting.onlyScopes, stack⟩
  | task stack waiting _ allowed eq before since =>
    exact .inr (.inr ⟨_, _, _, _, _, _, allowed, waiting.onlyScopes, eq, before, since, stack⟩)

/-- There is a level of invocation more where one is held. -/
theorem Held.guards_lt {stack : List Frame} (h : Held K stack) :
    guards (opens K) < guards (opens stack) := by
  obtain ⟨k, B, -, above⟩ := h
  have below := guards_le_of_suffix (opens_suffix (List.suffix_append B K))
  have level := guards_le_of_suffix (opens_suffix above)
  simp only [opens, guards] at level
  omega

end Machine

/-! ## At the bound -/

open Machine

/-- No level of invocation more can begin. -/
def State.AtBound (s : State) (limit : Nat) : Prop :=
  ∃ x, s.env.bridge = some x ∧ x.depth.max = limit ∧ x.depth.current = limit

/-- The depth and the levels that are open differ as `limit` and `n` do, and the bound is kept. -/
def Bounded (limit n : Nat) (s : State) (os : List Open) : Prop :=
  ∃ x, s.env.bridge = some x ∧ x.depth.max = limit ∧ x.depth.current ≤ limit ∧
    x.depth.current + n = limit + guards os

theorem Bounded.effect {limit n : Nat} {s s' : State} {os os' : List Open} {us : List Update}
    (h : Bounded limit n s os) (e : Effect s os us s' os') (above : n ≤ guards os') :
    Bounded limit n s' os' := by
  obtain ⟨x, hx, max, le, eq⟩ := h
  obtain ⟨x', hx', ⟨rfl, enters, -⟩ | ⟨rfl, leaves, -⟩ | ⟨same, stays, -⟩⟩ := e.depth hx
  · obtain ⟨room, hd⟩ := (CallDepth.enter?_eq_some_iff _ _).mp enters
    refine ⟨x', hx', ?_⟩
    simp only [← hd, guards]
    omega
  · refine ⟨x', hx', ?_⟩
    simp only [guards] at eq above ⊢
    simp only [leaves, CallDepth.leave]
    omega
  · refine ⟨x', hx', ?_⟩
    rw [stays, same]
    exact ⟨max, le, eq⟩

namespace State.AtBound

variable {limit : Nat} {s s' : State} {K : List Frame} {us : List Update}

theorem bounded (h : s.AtBound limit) (os : List Open) : Bounded limit (guards os) s os := by
  obtain ⟨x, hx, max, eq⟩ := h
  exact ⟨x, hx, max, Nat.le_of_eq eq, by rw [eq]⟩

/-- What neither begins nor ends a level stays at the bound. -/
theorem effect {os os' : List Open} (h : s.AtBound limit) (e : Effect s os us s' os')
    (same : guards os' = guards os) : s'.AtBound limit := by
  obtain ⟨x, hx, max, -, eq⟩ := (h.bounded os).effect e (Nat.le_of_eq same.symm)
  exact ⟨x, hx, max, by omega⟩

theorem write (h : s.AtBound limit) (u : Update) : (u.apply s).AtBound limit :=
  h.effect (.write u : Effect s [] [u] (u.apply s) []) rfl

/-- In a run from the bound there is no level more. -/
theorem not_held {m : Machine} {a : Activity} (h : s.AtBound limit)
    (run : Run K ⟨s, a, K⟩ us m) : ¬ Held K m.stack := by
  intro held
  have bounded : Bounded limit (guards (opens K)) m.state (opens m.stack) :=
    run.invariant (P := Bounded limit (guards (opens K)))
      (fun h e above _ => h.effect e (guards_le_of_suffix above)) (h.bounded (opens K))
  obtain ⟨x, -, -, le, eq⟩ := bounded
  have more := held.guards_lt
  omega

/-- A run from the bound that ends where it began is at the bound again. -/
theorem run {a a' : Activity} (h : s.AtBound limit) (run : Run K ⟨s, a, K⟩ us ⟨s', a', K⟩) :
    s'.AtBound limit := by
  have bounded : Bounded limit (guards (opens K)) s' (opens K) :=
    run.invariant (P := Bounded limit (guards (opens K)))
      (fun h e above _ => h.effect e (guards_le_of_suffix above)) (h.bounded (opens K))
  obtain ⟨x, hx, max, -, eq⟩ := bounded
  exact ⟨x, hx, max, by omega⟩

end State.AtBound

/-- A scope that is no level of invocation is none when it is open. -/
theorem Scope.guards_enter {scope : Scope} {s s' : State} {o : Open}
    (h : scope.enter s = .ok (o, s')) (other : scope ≠ .guard) (os : List Open) :
    guards (o :: os) = guards os := by
  cases scope with
  | guard => exact absurd rfl other
  | query =>
    obtain ⟨rfl, -⟩ := Scope.enter_query h
    rfl
  | start id f =>
    obtain ⟨b, -, -, rfl, -⟩ := Scope.enter_start h
    rfl
  | proceed id =>
    obtain ⟨b, e, -, -, -, rfl, -⟩ := Scope.enter_proceed h
    rfl
  | loading code =>
    obtain ⟨rfl, -⟩ := Scope.enter_loading h
    rfl
  | holding cs =>
    obtain ⟨rfl, -⟩ := Scope.enter_holding h
    rfl

namespace Code

variable {limit : Nat} {K : List Frame} {s s' : State} {us : List Update} {r : Reply}

/-- The code that is left when all levels of invocation are refused at a bound. -/
def shut (limit : Nat) : Code → Code
  | finish r => finish r
  | read k => read fun s => (k s).shut limit
  | write u c => write u (c.shut limit)
  | run task k => run task fun c => (k c).shut limit
  | trace k => trace fun ls => (k ls).shut limit
  | scope .guard _ refused _ => (refused (.depthExceeded limit)).shut limit
  | scope s body refused k =>
    scope s (body.shut limit) (fun f => (refused f).shut limit) fun r => (k r).shut limit

theorem shut_scope {scope : Scope} {body : Code} {refused : Failure → Code} {k : Reply → Code}
    (h : scope ≠ .guard) : (Code.scope scope body refused k).shut limit =
      .scope scope (body.shut limit) (fun f => (refused f).shut limit)
        fun r => (k r).shut limit := by
  cases scope with
  | guard => exact absurd rfl h
  | query | start | proceed | loading | holding => rfl

theorem shut_andThen (c : Code) (next : Reply → Code) :
    (c.andThen next).shut limit = (c.shut limit).andThen fun r => (next r).shut limit := by
  induction c with
  | finish r => rfl
  | read k ih => exact congrArg Code.read (funext ih)
  | write u c ih => exact congrArg (Code.write u) ih
  | run task k ih => exact congrArg (Code.run task) (funext ih)
  | trace k ih => exact congrArg Code.trace (funext ih)
  | scope scope body refused k _ ihr ihk =>
    by_cases level : scope = .guard
    · subst level
      exact ihr _
    · simp only [andThen, shut_scope level, ihr, ihk]

/-- Without levels there are fewer ways through code. -/
theorem Path.of_shut {c : Code} (h : (c.shut limit).Path us r) : c.Path us r := by
  induction c generalizing us r with
  | finish r => exact h
  | read k ih =>
    cases h with
    | read s h => exact .read s (ih s h)
  | write u c ih =>
    cases h with
    | write h => exact .write (ih h)
  | run task k ih =>
    cases h with
    | run c h => exact .run c (ih c h)
  | trace k ih =>
    cases h with
    | trace ls h => exact .trace ls (ih ls h)
  | scope scope body refused k ihb ihr ihk =>
    by_cases level : scope = .guard
    · subst level
      exact .refused _ (ihr _ h)
    · rw [shut_scope level] at h
      cases h with
      | refused f h => exact .refused f (ihr f h)
      | scope h h' => exact .scope (ihb h) (ihk _ h')

theorem refused_atBound (h : s.AtBound limit) :
    Scope.guard.enter s = .error (.depthExceeded limit) := by
  obtain ⟨x, hx, max, eq⟩ := h
  have full : x.depth.enter? = none :=
    (CallDepth.enter?_eq_none_iff _).mpr (Nat.le_of_eq (max.trans eq.symm))
  simp only [Scope.enter, State.enterGuard, hx, full, max]
  rfl

/-- A run from the bound goes along a path without levels. -/
theorem Returns.path_shut {c : Code} (h : Returns K s c us r s') (bound : s.AtBound limit) :
    ∃ own, (c.shut limit).Path own r := by
  induction c generalizing K s s' us r with
  | finish r' =>
    obtain ⟨rfl, rfl, rfl⟩ := returns_finish h
    exact ⟨[], .finish⟩
  | read k ih =>
    obtain ⟨own, path⟩ := ih s (returns_read h) bound
    exact ⟨own, .read s path⟩
  | write u c ih =>
    obtain ⟨us', rfl, rest⟩ := returns_write h
    obtain ⟨own, path⟩ := ih rest (bound.write u)
    exact ⟨u :: own, .write path⟩
  | run task k ih =>
    obtain ⟨us₁, c, s₁, us₂, first, rest, rfl⟩ := returns_run h
    obtain ⟨own, path⟩ := ih c rest (bound.run first)
    exact ⟨own, .run c path⟩
  | trace k ih =>
    obtain ⟨ls, rest⟩ := returns_trace h
    obtain ⟨own, path⟩ := ih ls rest bound
    exact ⟨own, .trace ls path⟩
  | scope scope body refused k ihb ihr ihk =>
    by_cases level : scope = .guard
    · subst level
      obtain ⟨f, refuses, h⟩ | ⟨o, s₁, us₁, r₁, s₂, us₂, enters, -⟩ := returns_scope h
      · cases refuses.symm.trans (refused_atBound bound)
        exact ihr _ h bound
      · cases enters.symm.trans (refused_atBound bound)
    · rw [shut_scope level]
      obtain ⟨f, -, h⟩ | ⟨o, s₁, us₁, r₁, s₂, us₂, enters, hb, hk, rfl⟩ := returns_scope h
      · obtain ⟨own, path⟩ := ihr f h bound
        exact ⟨own, .refused f path⟩
      · have same := Scope.guards_enter enters level []
        have inside := bound.effect (.enter scope enters) same
        obtain ⟨own, path⟩ := ihb hb inside
        have after := (inside.run hb).effect (.leave o r₁) same.symm
        obtain ⟨own', path'⟩ := ihk r₁ hk after
        exact ⟨own ++ own', .scope path path'⟩

/-- At the bound, code that runs scripts in levels only comes to an end. -/
theorem exists_returns_atBound {c : Code} (guarded : c.Guarded fun _ => False)
    (bound : s.AtBound limit) : ∃ us r s', Returns K s c us r s' := by
  induction c generalizing K s with
  | finish r => exact ⟨_, _, _, .finish⟩
  | read k ih =>
    obtain ⟨us, r, s', h⟩ := ih s (guarded s) bound
    exact ⟨_, _, _, h.read⟩
  | write u c ih =>
    obtain ⟨us, r, s', h⟩ := ih guarded (bound.write u)
    exact ⟨_, _, _, h.write⟩
  | run task k ih => exact guarded.1.elim
  | trace k ih =>
    obtain ⟨us, r, s', h⟩ := ih _ (guarded _) bound
    exact ⟨_, _, _, h.trace⟩
  | scope scope body refused k ihb ihr ihk =>
    cases enters : scope.enter s with
    | error f =>
      obtain ⟨us, r, s', h⟩ := ihr f (guarded.2.1 f) bound
      exact ⟨_, _, _, h.refused enters⟩
    | ok p =>
      obtain ⟨o, s₁⟩ := p
      have level : scope ≠ .guard := by
        rintro rfl
        cases enters.symm.trans (refused_atBound bound)
      have same := Scope.guards_enter enters level []
      have inside := bound.effect (.enter scope enters) same
      obtain ⟨us₁, r₁, s₂, hb⟩ := ihb (guarded.1.resolve_left level) inside
      have after := (inside.run hb).effect (.leave o r₁) same.symm
      obtain ⟨us₂, r, s', hk⟩ := ihk r₁ (guarded.2.2 r₁) after
      exact ⟨_, _, _, .scope enters hb hk⟩

/-! ### What code comes to without levels -/

/-- All ways through code lead to a reply of which `Q` is true. -/
def Comes (Q : Reply → Prop) (c : Code) : Prop :=
  ∀ us r, c.Path us r → Q r

variable {Q : Reply → Prop}

theorem comes_finish {r : Reply} (h : Q r) : (finish r).Comes Q := by
  intro us r' path
  obtain ⟨-, rfl⟩ := path_finish path
  exact h

theorem comes_read {k : State → Code} (h : ∀ s, (k s).Comes Q) : (read k).Comes Q := by
  intro us r path
  cases path with
  | read s path => exact h s _ _ path

theorem comes_write {u : Update} {c : Code} (h : c.Comes Q) : (write u c).Comes Q := by
  intro us r path
  cases path with
  | write path => exact h _ _ path

theorem comes_andThen {c : Code} {next : Reply → Code} {Q' : Reply → Prop} (h : c.Comes Q')
    (h' : ∀ r, Q' r → (next r).Comes Q) : (c.andThen next).Comes Q := by
  intro us r path
  obtain ⟨us₁, r₁, us₂, first, second, -⟩ := path_andThen path
  exact h' r₁ (h _ _ first) _ _ second

/-- What a site does about a failure does not change the reply. -/
theorem comes_settle {site : String} {call : Code} (h : (call.shut limit).Comes Q) :
    ((settle site call).shut limit).Comes Q := by
  rw [settle, shut_andThen]
  refine comes_andThen h fun r hr => ?_
  cases r with
  | failed f => exact comes_write (comes_write (comes_finish hr))
  | answer | suspended | raised => exact comes_finish hr

theorem comes_withCount {declared : Nat} {k : Code} (h : (k.shut limit).Comes Q)
    (failing : ∀ f, Q (.failed f)) : ((withCount declared k).shut limit).Comes Q := by
  refine comes_read fun s => ?_
  dsimp only
  split
  · exact h
  · exact comes_finish (failing _)

theorem comes_invokeStaged (f : Value) (declared : Nat) (ret : ReturnCount)
    (failing : ∀ f, Q (.failed f)) : ((invokeStaged f declared ret).shut limit).Comes Q :=
  comes_withCount (comes_finish (failing _)) failing

theorem comes_callFound {lookup missing : Code} {declared : Nat} {ret : ReturnCount}
    (found : lookup.Comes Found) (hm : (missing.shut limit).Comes Q)
    (failing : ∀ f, Q (.failed f)) :
    ((callFound lookup declared ret missing).shut limit).Comes Q := by
  rw [callFound, shut_andThen]
  refine comes_andThen (fun us r path => found us r path.of_shut) fun r hr => ?_
  cases hr with
  | values vs =>
    dsimp only
    split
    · exact comes_invokeStaged _ _ _ failing
    · exact hm
  | raised text => exact comes_finish (failing _)
  | failed f => exact comes_finish (failing f)

/-- A reply that says that something has failed. -/
def Failing (r : Reply) : Prop :=
  ∃ f, r = .failed f

theorem failing_failed (f : Failure) : Failing (.failed f) :=
  ⟨f, rfl⟩

theorem comes_callFunction (c : Callable) (declared : Nat) (ret : ReturnCount) :
    ((callFunction c declared ret).shut limit).Comes Failing := by
  refine comes_settle (comes_read fun s => ?_)
  dsimp only
  split
  · exact comes_invokeStaged _ _ _ failing_failed
  · exact comes_finish (failing_failed _)

theorem comes_callValue (v : Value) (declared : Nat) (ret : ReturnCount) :
    ((callValue v declared ret).shut limit).Comes Failing := by
  refine comes_settle ?_
  split
  · exact comes_invokeStaged _ _ _ failing_failed
  · split <;> exact comes_finish (failing_failed _)

theorem comes_callCard (card : ObjectId) (name : String) (declared : Nat) (ret : ReturnCount)
    (forced : Bool) : ((callCard card name declared ret forced).shut limit).Comes fun r =>
      Failing r ∨ forced = false ∧ r = .answer (.values (ret.adjust [])) := by
  refine comes_settle (comes_withCount (comes_read fun s => ?_) fun f => .inl (failing_failed f))
  dsimp only
  split
  · exact comes_finish (.inl (failing_failed _))
  · split
    · exact comes_finish (.inl (failing_failed _))
    · refine comes_callFound (fun us r path => path_lookupMember path) ?_
        fun f => .inl (failing_failed f)
      cases forced with
      | false => exact comes_write (comes_finish (.inr ⟨rfl, rfl⟩))
      | true => exact comes_finish (.inl (failing_failed _))

theorem comes_callCode (code : UInt32) (name : String) (declared : Nat) (ret : ReturnCount) :
    ((callCode code name declared ret).shut limit).Comes Failing := by
  refine comes_settle ?_
  split
  · refine comes_callFound (comes_read fun s => comes_finish (.values _)) ?_ failing_failed
    exact comes_finish (failing_failed _)
  · refine comes_callFound (fun us r path => path_lookupInClass path) ?_ failing_failed
    exact comes_finish (failing_failed _)

theorem comes_within {scope : Scope} {body : Code} (other : scope ≠ .guard)
    (h : (body.shut limit).Comes Q) (failing : ∀ f, Q (.failed f)) :
    ((within scope body).shut limit).Comes Q := by
  intro us r path
  rw [within, shut_scope other] at path
  cases path with
  | refused f path => exact comes_finish (failing f) _ _ path
  | scope inner path => exact comes_finish (h _ _ inner) _ _ path

theorem comes_loadScript (source : Bytes) (name : String) :
    ((loadScript source name).shut limit).Comes Failing :=
  comes_write (comes_finish (failing_failed _))

theorem comes_loadNamed (name : String) : ((loadNamed name).shut limit).Comes Failing := by
  refine comes_read fun s => ?_
  dsimp only
  split
  · exact comes_finish (failing_failed _)
  · exact comes_loadScript _ _

theorem comes_loadCard (code : UInt32) :
    ((loadCard code).shut limit).Comes fun r => Failing r ∨ r = .answer .done := by
  refine comes_read fun s => ?_
  dsimp only
  split
  · exact comes_finish (.inr rfl)
  · split
    · exact comes_finish (.inl (failing_failed _))
    · refine comes_within (by simp) (fun us r path => .inl ?_) fun f => .inl (failing_failed f)
      exact comes_loadScript _ _ us r path

theorem comes_callOnCard (site : String) (card : ObjectId) (f : Value) (extra : List Value)
    (ret : ReturnCount) : ((callOnCard site card f extra ret).shut limit).Comes Failing := by
  rw [callOnCard, shut_andThen]
  refine comes_andThen (?_ : Comes Failing _) ?_
  · split
    · refine comes_read fun s => ?_
      dsimp only
      split <;> exact comes_finish (failing_failed _)
    · exact comes_finish (failing_failed _)
  · rintro _ ⟨e, rfl⟩
    exact comes_write (comes_finish (failing_failed e))

/-- A step that has failed. -/
def FailedStep (r : Reply) : Prop :=
  ∃ f, r = .answer (.step (.failed f))

theorem comes_failStep (q : Queue) (f : Failure) : ((failStep q f).shut limit).Comes FailedStep :=
  comes_write (comes_write (comes_finish ⟨f, rfl⟩))

theorem comes_callCoroutine (c : Callable) (declared : Nat) (id : CoroutineId) (step : Nat) :
    ((callCoroutine c declared id step).shut limit).Comes FailedStep := by
  unfold callCoroutine
  split
  · refine comes_read fun s => ?_
    dsimp only
    split
    · split <;> exact comes_failStep _ _
    · exact comes_failStep _ _
  · exact comes_failStep _ _

theorem comes_registerCard (info : CardInfo) :
    (registerCard info).Comes fun r => Failing r ∨ ∃ h, r = .answer (.handle h) := by
  refine comes_read fun s => ?_
  have bound (cls : Option String) (fresh : Bool) (code : UInt32) :
      Comes (fun r => Failing r ∨ ∃ h, r = .answer (.handle h))
        (bindObject (.card info.id) cls fun h =>
          if fresh && info.setUp && code ≠ 0 then
            write (.stage .call false (.object (.card info.id))) <|
              (callCard info.id "initial_effect" 1 (.exactly 0) false).andThen fun _ =>
                answer (.handle h)
          else answer (.handle h)) := by
    unfold bindObject
    split
    · exact comes_finish (.inl (failing_failed _))
    · refine comes_read fun s => ?_
      split
      · exact comes_finish (.inl (failing_failed _))
      · refine comes_write (comes_read fun s => ?_)
        dsimp only
        split
        · refine comes_write (comes_andThen (fun _ _ _ => trivial) fun r _ => ?_)
          exact comes_finish (.inr ⟨_, rfl⟩)
        · exact comes_finish (.inr ⟨_, rfl⟩)
  dsimp only
  split
  · exact comes_finish (.inl (failing_failed _))
  · split
    · exact bound _ _ _
    · exact comes_andThen (fun _ _ _ => trivial) fun r _ => bound _ _ _

/-- At the bound a query answers as it does when what it asks for fails. -/
theorem returns_query_atBound {body : Code} {reading : List Value → Answer} {otherwise : Answer}
    (h : Returns K s (query body reading otherwise) us r s') (bound : s.AtBound limit)
    (fails : (body.shut limit).Comes Failing) : r = .answer otherwise := by
  obtain ⟨f, refuses, -⟩ | ⟨o, s₁, us₁, r₁, s₂, us₂, enters, hb, rest, rfl⟩ := returns_scope h
  · cases refuses
  · have same := Scope.guards_enter enters (by simp) []
    obtain ⟨own, path⟩ := Returns.path_shut hb (bound.effect (.enter .query enters) same)
    obtain ⟨f, rfl⟩ := fails _ _ path
    obtain ⟨-, rfl, -⟩ := returns_finish rest
    rfl

theorem returns_withoutFunction {a : Answer} (h : Returns K s (withoutFunction a) us r s') :
    r = .answer a := by
  obtain ⟨us', -, rest⟩ := returns_write h
  exact (returns_finish rest).2.1

theorem returns_unlessNil_atBound {f : Value} {a otherwise : Answer} {body : Code}
    {reading : List Value → Answer}
    (h : Returns K s (if f = .nil then answer a else query body reading otherwise) us r s')
    (bound : s.AtBound limit) (fails : (body.shut limit).Comes Failing) :
    r = .answer (if f = .nil then a else otherwise) := by
  split at h
  case isTrue nothing =>
    rw [if_pos nothing]
    exact (returns_finish h).2.1
  case isFalse there =>
    rw [if_neg there]
    exact returns_query_atBound h bound fails

end Code

/-- What an operation comes to that may not have a script run. -/
def Operation.Declines : Operation → Reply → Prop
  | callCard _ _ _ ret forced, r =>
    Code.Failing r ∨ forced = false ∧ r = .answer (.values (ret.adjust []))
  | loadCard _, r => Code.Failing r ∨ r = .answer .done
  | registerCard _, r => Code.Failing r ∨ ∃ h, r = .answer (.handle h)
  | checkCondition condition _, r => r = .answer (.truth condition.isNone)
  | checkMatching _ filter _, r | checkMatchingTable _ filter _, r =>
    r = .answer (.truth (filter = .nil))
  | operationValue .., r | functionValue .., r => r = .answer (.integer 0)
  | operationValues .., r | functionValues .., r => r = .answer (.integers [])
  | callCoroutine .., r => Code.FailedStep r
  | _, r => Code.Failing r

open Code in
/-- At the bound an operation that has scripts run comes to what it comes to without one. -/
theorem Operation.RunsScripts.declines {o : Operation} (h : o.RunsScripts) {limit : Nat}
    {K : List Frame} {s s' : State} {us : List Update} {r : Reply}
    (returns : o.code.Returns K s us r s') (bound : s.AtBound limit) : o.Declines r := by
  obtain ⟨own, path⟩ := returns.path_shut bound
  cases o with
  | loadScript source name => exact comes_loadScript _ _ _ _ path
  | loadNamed name => exact comes_loadNamed _ _ _ path
  | loadCard code => exact comes_loadCard _ _ _ path
  | registerCard info => exact comes_registerCard _ _ _ path.of_shut
  | callFunction c declared ret => exact comes_callFunction _ _ _ _ _ path
  | callValue v declared ret => exact comes_callValue _ _ _ _ _ path
  | callCard card name declared ret forced => exact comes_callCard _ _ _ _ _ _ _ path
  | callCode code name declared ret => exact comes_callCode _ _ _ _ _ _ path
  | checkCondition condition declared =>
    cases condition with
    | none => exact returns_withoutFunction returns
    | some c => exact returns_query_atBound returns bound (comes_callFunction _ _ _)
  | functionValue f declared | functionValues f declared =>
    cases f with
    | none => exact returns_withoutFunction returns
    | some c => exact returns_query_atBound returns bound (comes_callFunction _ _ _)
  | checkMatching card f extra =>
    have answered := returns_unlessNil_atBound returns bound (comes_callOnCard _ _ _ _ _)
    by_cases nothing : f = .nil <;> simpa [Declines, nothing] using answered
  | checkMatchingTable card f table =>
    have answered := returns_unlessNil_atBound returns bound
      (comes_read fun s => comes_callOnCard _ _ _ _ _)
    by_cases nothing : f = .nil <;> simpa [Declines, nothing] using answered
  | operationValue card f extra | operationValues card f extra =>
    simpa [Declines] using returns_unlessNil_atBound returns bound (comes_callOnCard _ _ _ _ _)
  | callCoroutine c declared id step => exact comes_callCoroutine _ _ _ _ _ _ path
  | evaluate | register | unregister | stage | stageTyped | clear | takeStaged | hold | holdGlobal
  | abandon | requireAction | emit | report | printTrace => cases h

/-! ## Operations -/

open Host

/-- The begin of an operation, above what waits at `m`. -/
def Machine.asked (m : Machine) (o : Operation) : Machine :=
  ⟨m.state, .host o.code, m.stack⟩

/-- **Scripts inside levels.** While an operation runs, a script above what waits for the operation
is inside a level of invocation that the operation has begun, or in a look-up of a name by the
operation. If the depth is at the bound, or if the session has just been told that no invocation is
left, then there is no script but in such a look-up. At the bound an operation that comes to an end
declines, and an operation that looks no name up does come to an end. -/
theorem scripts_guarded (b : Blueprint) (m : Machine) (reached : b.Reaches m) (o : Operation)
    (runs : o.RunsScripts) :
    (∀ us m', Run m.stack (m.asked o) us m' →
      (Held m.stack m'.stack ∨ NoScript m.stack m' ∨
        InTask o.Seeks (m.asked o) m.stack us m') ∧
      (m.state.callDepth = b.config.maxCallDepth →
        NoScript m.stack m' ∨ InTask o.Seeks (m.asked o) m.stack us m') ∧
      ∀ m'', m'.Move m'' → m.stack <:+ m''.stack → m''.state.clearings ≠ m'.state.clearings →
        NoScript m.stack m'' ∨ InTask o.Seeks (m.asked o) m.stack (us ++ m'.writes) m'') ∧
    (m.state.callDepth = b.config.maxCallDepth →
      (∀ us r s, o.code.Returns m.stack m.state us r s → o.Declines r) ∧
      ((∀ task, ¬ o.Seeks task) → ∃ us r s, o.code.Returns m.stack m.state us r s)) := by
  have accounted : Accounted b m.state.env (opens m.stack) :=
    reached.invariant (Accounted.fresh b) fun h e => h.effect e
  have at_bound (full : m.state.callDepth = b.config.maxCallDepth) :
      m.state.AtBound b.config.maxCallDepth := by
    obtain ⟨x, hx, max, -⟩ := accounted.depth
    refine ⟨x, hx, max, ?_⟩
    rwa [State.callDepth, hx] at full
  refine ⟨fun us m' run => ⟨?_, fun full => ?_, fun m'' h hK told => ?_⟩, fun full => ?_⟩
  · exact (Run.own runs.guarded run).cases
  · exact (Run.own runs.guarded run).cases.resolve_left ((at_bound full).not_held run)
  · refine (Run.own runs.guarded (run.snoc h hK)).cases.resolve_left fun held => ?_
    have later : Accounted b m'.state.env (opens m'.stack) :=
      run.invariant (P := fun s os => Accounted b s.env os) (fun h e _ _ => h.effect e) accounted
    have last : m''.state.callDepth = 0 := by
      rw [later.clearings h.effect] at told
      split at told
      case isTrue ended => exact ended.2.1
      case isFalse => exact absurd rfl told
    obtain ⟨x, hx, -, count, -⟩ := (later.effect h.effect).depth
    have levels : m''.state.callDepth = guards (opens m''.stack) := by
      rw [← count, State.callDepth, hx]
      rfl
    have more := held.guards_lt
    omega
  · refine ⟨fun us r s returns => runs.declines returns (at_bound full), fun none => ?_⟩
    refine Code.exists_returns_atBound (runs.guarded.mono fun task h => ?_) (at_bound full)
    exact none task h

/-- An environment in which no level of invocation can begin. -/
def shutBlueprint : Blueprint :=
  ⟨⟨1⟩, { BridgeConfig.standard with maxCallDepth := 0 }, .nowhere, true, true, []⟩

/-- At the bound a call is refused, and no script runs for it. -/
theorem scripts_guarded_shut : shutBlueprint.config.maxCallDepth = 0 ∧ ∃ us r s,
    (Operation.callValue (.builtin .type) 0 .all).code.Returns []
      ⟨shutBlueprint.environment 0, .empty⟩ us r s ∧ Code.Failing r := by
  have new : shutBlueprint.Reaches
      (.start ⟨shutBlueprint.environment 0, .empty⟩ .done) := ⟨0, .empty, _, .refl⟩
  obtain ⟨-, at_bound⟩ := scripts_guarded _ _ new (.callValue (.builtin .type) 0 .all) trivial
  obtain ⟨declines, ends⟩ := at_bound rfl
  obtain ⟨us, r, s, returns⟩ := ends fun task h => h
  exact ⟨rfl, us, r, s, returns, declines us r s returns⟩

/-- A memory in which the class of cards has what it lacks looked up by a function of a script. -/
def seekingMemory (m : Memory) : Memory :=
  let (card, m) := classTable m ObjectKind.card.className
  let (f, m) := m.addClosure ⟨.mk 0 true [.ret []], [], []⟩
  (m.updateTable card fun t => { t with metatable := some card }).rawSet card (.text "__index")
    (.closure f)

theorem seekingMemory_edits (m : Memory) : m.Edits (seekingMemory m) :=
  (((classTable_edits (.refl m) _).edit (.addClosure _ _)).updateTable _ _).rawSet _ _ _

/-- An environment in which no level of invocation can begin, with a card registered. -/
def shutState : State :=
  (Update.register (.card ⟨1⟩) none).apply ⟨shutBlueprint.environment 0, .empty⟩

/-- A script may run statements outside of any level of invocation, and at the bound. -/
theorem not_held_in_scripts :
    ¬ ∀ (b : Blueprint) (m : Machine) (o : Operation), b.Reaches m → o.RunsScripts →
      m.state.callDepth = b.config.maxCallDepth → ∀ us m' env stat stack base,
      Run m.stack (m.asked o) us m' → m'.activity = .script (.exec env stat) stack base →
      Held m.stack m'.stack := by
  intro claimed
  have registered : shutBlueprint.Reaches ⟨shutState, .host .done, []⟩ :=
    ⟨0, .empty, .write (.register (.card ⟨1⟩) none) .done, .single (.move .write)⟩
  have seeking :=
    registered.later (.single (.begins (seekingMemory_edits _) shutState.shared .done))
  obtain ⟨m', env, stat, stack, base, steps, runs, levels⟩ : ∃ m' env stat stack base,
      run idle 6 (.asked (.start (shutState.setMemory (seekingMemory shutState.env.memory)) .done)
        (.callCard ⟨1⟩ "effect" 0 .all false)) = .next m' ∧
      m'.activity = .script (.exec env stat) stack base ∧ guards (opens m'.stack) = 0 :=
    ⟨_, _, _, _, _, rfl, rfl, rfl⟩
  have held := claimed _ _ (.callCard ⟨1⟩ "effect" 0 .all false) seeking trivial rfl _ _ _ _ _ _
    (run_of_next _ _ steps) runs
  have more := held.guards_lt
  rw [levels] at more
  exact absurd more (Nat.not_lt_zero _)

end CardBridge

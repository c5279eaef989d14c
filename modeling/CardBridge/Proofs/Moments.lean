import CardBridge.Proofs.Histories
import CardBridge.Proofs.Surroundings

/-!
# Moments in a row

A `Machine.Life` is a part of the life of an environment, moment by moment, with the host that lends
its functions at each of them. A call of host code is at work at some moments in a row, and what
goes on after it is not known to it. So its steps are counted on the call alone
(`Machine.StepsFrom`), and `Machine.Life.moment_eq` says where the life is then.

For host code itself a script that it runs is one step, and code in a scope is one step, too. These
are the steps of `Code.Line`, and a run that leaves alone the stack of some code is a sequence of
them (`Code.line_of_run`).
-/

namespace CardBridge

open Relation (ReflTransGen)
open Script (Completion Value)

/-! ## Host code by itself -/

namespace Code

open Machine

/-- One step of host code as it looks to itself, with the state before and after it. -/
inductive Line : State × Code → State × Code → Prop
  | read {s : State} {k : State → Code} : Line (s, .read k) (s, k s)
  | write {s : State} {u : Update} {c : Code} : Line (s, .write u c) (u.apply s, c)
  | run {s : State} {task : Task} {k : Completion → Code} (c : Completion) (s' : State) :
    Line (s, .run task k) (s', k c)
  | trace {s : State} {k : List TraceLine → Code} (ls : List TraceLine) :
    Line (s, .trace k) (s, k ls)
  | refuse {s : State} {scope : Scope} {body : Code} {refused : Failure → Code} {k : Reply → Code}
    (f : Failure) : Line (s, .scope scope body refused k) (s, refused f)
  | scope {s : State} {scope : Scope} {body : Code} {refused : Failure → Code} {k : Reply → Code}
    (r : Reply) (s' : State) : Line (s, .scope scope body refused k) (s', k r)

variable {K : List Frame} {s s' : State} {c c' d : Code} {us : List Update} {x y : State × Code}

/-- A run from host code to host code on the same stack consists of such steps. -/
theorem line_of_run (h : Run K ⟨s, .host c, K⟩ us ⟨s', .host c', K⟩) :
    ReflTransGen Line (s, c) (s', c') := by
  induction c generalizing s us with
  | finish r =>
    cases h with
    | done => exact .refl
    | move h hK run =>
      cases h with
      | leave | back => exact (not_cons_suffix hK).elim
  | read k ih =>
    cases h with
    | done => exact .refl
    | move h hK run =>
      cases h
      exact .head .read (ih s run)
  | write u c ih =>
    cases h with
    | done => exact .refl
    | move h hK run =>
      cases h
      exact .head .write (ih run)
  | run task k ih =>
    cases h with
    | done => exact .refl
    | move h hK run =>
      cases h
      obtain ⟨_, m₁, m₂, _, -, top, step, left, below, -⟩ :=
        run.split List.suffix_rfl not_cons_suffix
      obtain ⟨s₁, c, -, rfl⟩ := step.pop_script top left
      exact .head (.run c s₁) (ih c below)
  | trace k ih =>
    cases h with
    | done => exact .refl
    | move h hK run =>
      cases h
      exact .head (.trace _) (ih _ run)
  | scope scope body refused k _ ihr ihk =>
    cases h with
    | done => exact .refl
    | move h hK run =>
      cases h with
      | refuse h => exact .head (.refuse _) (ihr _ run)
      | enter h =>
        obtain ⟨_, m₁, m₂, _, -, top, step, left, below, -⟩ :=
          run.split List.suffix_rfl not_cons_suffix
        obtain ⟨s₂, r₁, rfl, rfl⟩ := step.pop_scope top left
        exact .head (.scope r₁ _) (ihk r₁ below)

theorem Hereditary.line {P : Code → Prop} (hereditary : Hereditary P)
    (h : ReflTransGen Line x y) (hx : P x.2) : P y.2 := by
  induction h with
  | refl => exact hx
  | tail _ step ih =>
    cases step with
    | read => exact hereditary.read ih _
    | write => exact hereditary.write ih
    | run => exact hereditary.run ih _
    | trace => exact hereditary.trace ih _
    | refuse f => exact (hereditary.scope ih).2.1 f
    | scope r => exact (hereditary.scope ih).2.2 r

theorem line_finish {r : Reply} (h : ReflTransGen Line (s, .finish r) x) : x = (s, .finish r) := by
  obtain rfl | ⟨y, step, -⟩ := h.cases_head
  · rfl
  · cases step

theorem line_read {k : State → Code} {u : Update}
    (h : ReflTransGen Line (s, .read k) (s', .write u c)) :
    ReflTransGen Line (s, k s) (s', .write u c) := by
  obtain eq | ⟨y, step, rest⟩ := h.cases_head
  · cases eq
  · cases step
    exact rest

theorem line_write {u : Update} (h : ReflTransGen Line (s, .write u c) x) :
    x = (s, .write u c) ∨ ReflTransGen Line (u.apply s, c) x := by
  obtain rfl | ⟨y, step, rest⟩ := h.cases_head
  · exact .inl rfl
  · cases step
    exact .inr rest

/-- Where code goes on after other code, either of them is at work. -/
theorem line_andThen {next : Reply → Code} (h : ReflTransGen Line (s, c.andThen next) x) :
    (∃ c', ReflTransGen Line (s, c) (x.1, c') ∧ x.2 = c'.andThen next) ∨
      ∃ r s₁, ReflTransGen Line (s, c) (s₁, .finish r) ∧ ReflTransGen Line (s₁, next r) x := by
  induction h with
  | refl => exact .inl ⟨c, .refl, rfl⟩
  | @tail x y _ step ih =>
    obtain ⟨c', first, eq⟩ | ⟨r, s₁, first, second⟩ := ih
    · obtain ⟨s', d⟩ := x
      obtain rfl : d = c'.andThen next := eq
      cases c' with
      | finish r => exact .inr ⟨r, s', first, .single step⟩
      | read k =>
        cases step
        exact .inl ⟨_, first.tail .read, rfl⟩
      | write u c =>
        cases step
        exact .inl ⟨_, first.tail .write, rfl⟩
      | run task k =>
        cases step with
        | run c s' => exact .inl ⟨_, first.tail (.run c s'), rfl⟩
      | trace k =>
        cases step with
        | trace ls => exact .inl ⟨_, first.tail (.trace ls), rfl⟩
      | scope scope body refused k =>
        cases step with
        | refuse f => exact .inl ⟨_, first.tail (.refuse f), rfl⟩
        | scope r s' => exact .inl ⟨_, first.tail (.scope r s'), rfl⟩
    · exact .inr ⟨r, s₁, first, second.tail step⟩

end Code

/-! ## Counted steps -/

namespace Machine

/-- `n` steps from the moment `i` on that leave the part `K` of the stack alone. -/
inductive StepsFrom (hosts : Nat → Host) (K : List Frame) : Nat → Nat → Machine → Machine → Prop
  | done {i : Nat} {m : Machine} : StepsFrom hosts K i 0 m m
  | step {i n : Nat} {m m₁ m' : Machine} (h : m.step (hosts i) = .next m₁) (hK : K <:+ m₁.stack)
    (rest : StepsFrom hosts K (i + 1) n m₁ m') : StepsFrom hosts K i (n + 1) m m'

namespace StepsFrom

variable {hosts : Nat → Host} {K : List Frame} {i n d : Nat} {m m' m'' : Machine}

theorem run (h : StepsFrom hosts K i n m m') : ∃ us, Run K m us m' := by
  induction h with
  | done => exact ⟨[], .done _⟩
  | step h hK _ ih =>
    obtain ⟨us, run⟩ := ih
    exact ⟨_, .move (move_of_step h) hK run⟩

/-- What comes later comes later. -/
theorem rest (h : StepsFrom hosts K i n m m') (h' : StepsFrom hosts K i (n + d) m m'') :
    StepsFrom hosts K (i + n) d m' m'' := by
  induction h with
  | done => simpa using h'
  | @step i n m m₁ m' h hK _ ih =>
    rw [Nat.add_right_comm] at h'
    cases h' with
    | step h₁ _ rest =>
      cases h.symm.trans h₁
      have later := ih rest
      rwa [Nat.add_right_comm] at later

theorem of_steps {host : Host} (h : Steps host K m m') :
    ∀ i, ∃ n, StepsFrom (fun _ => host) K i n m m' := by
  induction h with
  | done => exact fun _ => ⟨0, .done⟩
  | step h hK _ ih =>
    intro i
    obtain ⟨n, rest⟩ := ih (i + 1)
    exact ⟨n + 1, .step h hK rest⟩

end StepsFrom

end Machine

/-! ### Code with more to do after it -/

/-- The same frame if there is more to do after what waits in it. -/
inductive Frame.Followed (next : Reply → Code) : Frame → Frame → Prop
  | scope {o : Open} {k : Reply → Code} :
    Followed next (.scope o k) (.scope o fun r => (k r).andThen next)
  | script {k : Completion → Code} : Followed next (.script k) (.script fun c => (k c).andThen next)

namespace Machine

/-- The same moment if there is more to do after the code that is at work on the stack `K`. -/
inductive Followed (next : Reply → Code) (K : List Frame) : Machine → Machine → Prop
  | code {s : State} {c : Code} : Followed next K ⟨s, .host c, K⟩ ⟨s, .host (c.andThen next), K⟩
  | above {s : State} {a : Activity} {B : List Frame} {F F' : Frame} (h : F.Followed next F') :
    Followed next K ⟨s, a, B ++ F :: K⟩ ⟨s, a, B ++ F' :: K⟩

variable {next : Reply → Code} {K : List Frame} {m m' m₀ : Machine}

theorem alikeBelow_of_followed {F F' : Frame} (h : F.Followed next F') :
    AlikeBelow (F :: K) (F' :: K) := by
  cases h <;> exact ⟨rfl, rfl⟩

theorem Followed.suffix (h : Followed next K m m₀) : K <:+ m₀.stack := by
  cases h with
  | code => exact List.suffix_rfl
  | above => exact (List.suffix_cons _ _).trans (List.suffix_append _ _)

/-- Code has the same step if there is more to do after it. -/
theorem Followed.step {host : Host} (h : Followed next K m m₀) (step : m.step host = .next m')
    (hK : K <:+ m'.stack) : ∃ m₀', m₀.step host = .next m₀' ∧ Followed next K m' m₀' := by
  cases h with
  | @code s c =>
    cases c with
    | finish r => exact (not_step_of_finish step hK).elim
    | read k | write u c | trace k =>
      cases step
      exact ⟨_, rfl, .code⟩
    | run task k =>
      cases step
      exact ⟨_, rfl, .above (B := []) .script⟩
    | scope scope body refused k =>
      simp only [Machine.step, stepHost, Code.andThen] at step ⊢
      cases he : scope.enter s with
      | error f =>
        rw [he] at step
        cases step
        exact ⟨_, rfl, .code⟩
      | ok entered =>
        rw [he] at step
        cases step
        exact ⟨_, rfl, .above (B := []) .scope⟩
  | @above s a B F F' followed =>
    by_cases stays : F :: K <:+ m'.stack
    · obtain ⟨B', hB, step'⟩ := step_rebase (alikeBelow_of_followed followed) step stays
      obtain ⟨s', a', S⟩ := m'
      obtain rfl : S = B' ++ F :: K := hB
      exact ⟨_, step', .above followed⟩
    · have move := move_of_step step
      obtain ⟨top, left⟩ := move.pop (List.suffix_append B (F :: K)) stays
      obtain rfl : B = [] := List.append_left_eq_self.mp top
      cases followed with
      | scope =>
        obtain ⟨s, r, eq, rfl⟩ := move.pop_scope top left
        cases eq
        exact ⟨_, rfl, .code⟩
      | @script k =>
        have shorter : m'.stack.length < (Frame.script k :: K).length := by simp [left]
        cases move with
        | settle settles =>
          refine ⟨_, ?_, .code⟩
          simp [Machine.step, stepScript, settles, State.setMemory]
        | read | write | run | trace | enter | refuse | script | call =>
          simp only [List.nil_append, List.length_cons] at shorter
          omega

/-- A call takes the same steps if there is more to do after it. -/
theorem Followed.steps {hosts : Nat → Host} {i n : Nat} (steps : StepsFrom hosts K i n m m') :
    ∀ {m₀}, Followed next K m m₀ →
      ∃ m₀', StepsFrom hosts K i n m₀ m₀' ∧ Followed next K m' m₀' := by
  induction steps with
  | done => exact fun h => ⟨_, .done, h⟩
  | step first hK _ ih =>
    intro m₀ h
    obtain ⟨m₁, first', h₁⟩ := h.step first hK
    obtain ⟨m₀', rest, h'⟩ := ih h₁
    exact ⟨m₀', .step first' h₁.suffix rest, h'⟩

theorem Followed.eq_of_code {s : State} {c : Code} (h : Followed next K ⟨s, .host c, K⟩ m₀) :
    m₀ = ⟨s, .host (c.andThen next), K⟩ := by
  generalize eq : (⟨s, .host c, K⟩ : Machine) = m at h
  cases h with
  | code =>
    cases eq
    rfl
  | @above _ _ B F =>
    have same : K.length = (B ++ F :: K).length := congrArg (fun m => m.stack.length) eq
    simp only [List.length_append, List.length_cons] at same
    omega

/-! ## Lives -/

/-- Moments of an environment in a row, with the host that lends its functions at each of them. -/
structure Life (hosts : Nat → Host) (moment : Nat → Machine) (last : Nat) : Prop where
  later : ∀ i < last, Later (moment i) (moment (i + 1))
  step : ∀ i < last, ∀ m, (moment i).step (hosts i) = .next m → moment (i + 1) = m

variable {hosts : Nat → Host} {moment : Nat → Machine} {last i n : Nat}

/-- Counted steps from a moment lead to a later one. -/
theorem Life.moment_eq (life : Life hosts moment last)
    (steps : StepsFrom hosts K i n (moment i) m') (in_life : i + n ≤ last) :
    moment (i + n) = m' := by
  generalize begins : moment i = m at steps
  induction steps with
  | done => exact begins
  | @step i n m m₁ m' first _ _ ih =>
    have next : moment (i + 1) = m₁ := life.step i (by omega) m₁ (begins ▸ first)
    have later := ih (by omega) next
    rwa [Nat.add_right_comm] at later

/-- Counted steps do not go on where there is no step. -/
theorem Life.le_last (life : Life hosts moment last)
    (rests : ∀ m, (moment last).step (hosts last) ≠ .next m) (begins : i ≤ last)
    (steps : StepsFrom hosts K i n (moment i) m') : i + n ≤ last := by
  generalize eq : moment i = m at steps
  induction steps with
  | done => exact begins
  | @step i n m m₁ m' first _ _ ih =>
    subst eq
    have before : i ≠ last := fun same => rests m₁ (same ▸ first)
    have later := ih (by omega) (life.step i (by omega) m₁ first)
    omega

/-! ### Lives under one host -/

/-- The moment after `n` steps under a host, or the last one that there is. -/
def after (host : Host) : Nat → Machine → Machine
  | 0, m => m
  | n + 1, m =>
    match m.step host with
    | .next m' => after host n m'
    | _ => m

/-- Whether `n` steps under a host can be made and `P` holds of all moments from first to last, with
their numbers. -/
def along (P : Nat → Machine → Bool) (host : Host) : Nat → Nat → Machine → Bool
  | 0, i, m => P i m
  | n + 1, i, m => P i m &&
    match m.step host with
    | .next m' => along P host n (i + 1) m'
    | _ => false

theorem along_spec {P : Nat → Machine → Bool} {host : Host} :
    ∀ {n i : Nat} {m : Machine}, along P host n i m = true →
      (∀ k ≤ n, P (i + k) (after host k m) = true) ∧
      ∀ k < n, (after host k m).step host = .next (after host (k + 1) m)
  | 0, i, m, h => by
    refine ⟨fun k hk => ?_, fun k hk => absurd hk (Nat.not_lt_zero k)⟩
    obtain rfl := Nat.le_zero.mp hk
    exact h
  | n + 1, i, m, h => by
    obtain ⟨here, on⟩ := Bool.and_eq_true_iff.mp h
    cases step : m.step host with
    | next m₁ =>
      rw [step] at on
      obtain ⟨holds, steps⟩ := along_spec on
      have shift (k : Nat) : after host (k + 1) m = after host k m₁ := by simp only [after, step]
      constructor
      · rintro (_ | k) hk
        · exact here
        · have later := holds k (by omega)
          rwa [Nat.add_right_comm, ← shift] at later
      · rintro (_ | k) hk
        · exact step.trans (congrArg Progress.next (shift 0).symm)
        · rw [shift, shift]
          exact steps k (by omega)
    | ended r s | stuck s =>
      rw [step] at on
      cases on

theorem life_of_along {P : Nat → Machine → Bool} {host : Host} {m : Machine}
    (h : along P host n i m = true) : Life (fun _ => host) (after host · m) n := by
  obtain ⟨-, steps⟩ := along_spec h
  refine ⟨fun k hk => .move (move_of_step (steps k hk)), fun k hk m' step => ?_⟩
  cases (steps k hk).symm.trans step
  rfl

end Machine

end CardBridge

import CardBridge.Proofs.Lives
import Mathlib.Data.List.Chain

/-!
# Histories

A `Blueprint.History` is the life of an environment so far, moment by moment, with the latest in
front. The code that its host begins, at rest or where a script calls, satisfies `P`, which is how
much is known of the host. If `P` passes from code to what is left of it (`Code.Hereditary`), then
at every moment all code that is at work or waits satisfies it (`Blueprint.History.codes`).

What is on the stack has been put there at an earlier moment, and nothing has gone below it since
(`Blueprint.History.pushed`).
-/

namespace CardBridge

namespace Code

/-- A property that passes from code to what is left of it after a step. -/
structure Hereditary (P : Code → Prop) : Prop where
  read : ∀ {k}, P (.read k) → ∀ s, P (k s)
  write : ∀ {u c}, P (.write u c) → P c
  run : ∀ {task k}, P (.run task k) → ∀ c, P (k c)
  trace : ∀ {k}, P (.trace k) → ∀ ls, P (k ls)
  scope : ∀ {s body refused k}, P (.scope s body refused k) →
    P body ∧ (∀ f, P (refused f)) ∧ ∀ r, P (k r)

end Code

/-- What waits for something to end satisfies `P`, whatever that ends with. -/
def Frame.Waits (P : Code → Prop) : Frame → Prop
  | .scope _ k => ∀ r, P (k r)
  | .script k => ∀ c, P (k c)
  | .native .. => True

namespace Machine

/-- All code that is at work or waits satisfies `P`. -/
structure Codes (P : Code → Prop) (m : Machine) : Prop where
  active : ∀ {c}, m.activity = .host c → P c
  waiting : ∀ F ∈ m.stack, F.Waits P

variable {P : Code → Prop} {host : Host} {m m' : Machine}

theorem codes_host {s : State} {c : Code} {K : List Frame} (h : P c) (hK : ∀ F ∈ K, F.Waits P) :
    Codes P ⟨s, .host c, K⟩ :=
  ⟨fun | rfl => h, hK⟩

theorem codes_start {s : State} {c : Code} (h : P c) : Codes P (.start s c) :=
  codes_host h fun _ mem => (List.not_mem_nil mem).elim

theorem codes_script {s : State} {control : Script.Control} {stack : List Script.Frame}
    {base : Script.Base} {K : List Frame} (hK : ∀ F ∈ K, F.Waits P) :
    Codes P ⟨s, .script control stack base, K⟩ :=
  ⟨nofun, hK⟩

/-- A step under a host whose functions satisfy a hereditary property keeps it. -/
theorem Codes.step (hereditary : Code.Hereditary P) (lent : ∀ n args, P (host n args))
    (h : Codes P m) (step : m.step host = .next m') : Codes P m' := by
  have move := move_of_step step
  cases move with
  | leave =>
    obtain ⟨top, below⟩ := List.forall_mem_cons.mp h.waiting
    exact codes_host (top _) below
  | back =>
    obtain ⟨-, below⟩ := List.forall_mem_cons.mp h.waiting
    exact codes_script below
  | read => exact codes_host (hereditary.read (h.active rfl) _) h.waiting
  | write => exact codes_host (hereditary.write (h.active rfl)) h.waiting
  | run =>
    exact codes_script (List.forall_mem_cons.mpr ⟨hereditary.run (h.active rfl), h.waiting⟩)
  | trace => exact codes_host (hereditary.trace (h.active rfl) _) h.waiting
  | enter =>
    obtain ⟨body, -, after⟩ := hereditary.scope (h.active rfl)
    exact codes_host body (List.forall_mem_cons.mpr ⟨after, h.waiting⟩)
  | refuse =>
    obtain ⟨-, refused, -⟩ := hereditary.scope (h.active rfl)
    exact codes_host (refused _) h.waiting
  | script => exact codes_script h.waiting
  | call calls c =>
    simp only [Machine.step, stepScript, calls] at step
    cases step
    exact codes_host (lent _ _) (List.forall_mem_cons.mpr ⟨trivial, h.waiting⟩)
  | settle =>
    obtain ⟨top, below⟩ := List.forall_mem_cons.mp h.waiting
    exact codes_host (top _) below

/-- A run leaves alone what it is said to leave alone. -/
theorem Run.suffix {K : List Frame} {us : List Update} (h : Run K m us m')
    (begins : K <:+ m.stack) : K <:+ m'.stack := by
  induction h with
  | done => exact begins
  | move h hK _ ih => exact ih hK

/-- A scope that is put on the stack is one that host code has begun. -/
theorem Move.push_scope {o : Open} {k : Reply → Code} {K : List Frame} (h : Move m m')
    (below : m.stack = K) (push : m'.stack = .scope o k :: K) :
    ∃ s scope body refused s', m = ⟨s, .host (.scope scope body refused k), K⟩ ∧
      scope.enter s = .ok (o, s') ∧ m' = ⟨s', .host body, .scope o k :: K⟩ := by
  have longer : m'.stack.length = m.stack.length + 1 := by rw [below, push, List.length_cons]
  cases h with
  | enter enters =>
    subst below
    cases push
    exact ⟨_, _, _, _, _, rfl, enters, rfl⟩
  | run | call =>
    subst below
    cases push
  | leave | back | read | write | trace | refuse | script | settle =>
    simp only [List.length_cons] at longer
    omega

end Machine

namespace Host

open Machine
open Relation (ReflTransGen)

/-- The life of an environment so far, the latest moment in front. What the host begins satisfies
`P`. -/
inductive Blueprint.History (b : Blueprint) (P : Code → Prop) : List Machine → Prop
  | new (account : Nat) (shared : Shared) {c : Code} (h : P c) :
    History b P [.start ⟨b.environment account, shared⟩ c]
  | step {host : CardBridge.Host} {m m' : Machine} {past : List Machine}
    (life : History b P (m :: past)) (lent : ∀ n args, P (host n args))
    (h : m.step host = .next m') : History b P (m' :: m :: past)
  | begins {s : State} {r : Reply} {past : List Machine} {memory : Script.Memory}
    (life : History b P (⟨s, .host (.finish r), []⟩ :: past)) (h : s.env.memory.Edits memory)
    (shared : Shared) {c : Code} (hc : P c) :
    History b P (.start ⟨{ s.env with memory }, shared⟩ c :: ⟨s, .host (.finish r), []⟩ :: past)

namespace Blueprint.History

variable {b : Blueprint} {P : Code → Prop} {m : Machine} {past : List Machine}

/-- The latest moment comes up in a life. -/
theorem reaches (life : b.History P (m :: past)) : b.Reaches m := by
  generalize eq : m :: past = ms at life
  induction life generalizing m past with
  | new account shared h =>
    cases eq
    exact ⟨account, shared, _, .refl⟩
  | step life lent h ih =>
    cases eq
    exact (ih rfl).later (.single (.move (move_of_step h)))
  | begins life h shared hc ih =>
    cases eq
    exact (ih rfl).later (.single (.begins h shared _))

/-- All code satisfies a hereditary property at every moment. -/
theorem codes (hereditary : Code.Hereditary P) (life : b.History P (m :: past)) : m.Codes P := by
  generalize eq : m :: past = ms at life
  induction life generalizing m past with
  | new account shared h =>
    cases eq
    exact codes_start h
  | step life lent h ih =>
    cases eq
    exact (ih rfl).step hereditary lent h
  | begins life h shared hc ih =>
    cases eq
    exact codes_start hc

/-- An earlier moment is the latest one of an earlier history. -/
theorem earlier (life : b.History P (m :: past)) {m₀ : Machine} (mem : m₀ ∈ past) :
    ∃ before, before <:+ past ∧ b.History P (m₀ :: before) := by
  generalize eq : m :: past = ms at life
  induction life generalizing m past with
  | new account shared h =>
    cases eq
    cases mem
  | step life lent h ih | begins life h shared hc ih =>
    cases eq
    obtain rfl | mem := List.mem_cons.mp mem
    · exact ⟨_, List.suffix_cons _ _, life⟩
    · obtain ⟨before, suffix, earlier⟩ := ih mem rfl
      exact ⟨before, suffix.trans (List.suffix_cons _ _), earlier⟩

theorem not_suffix_start {s : State} {c : Code} {F : Frame} {K : List Frame}
    (on : F :: K <:+ (Machine.start s c).stack) : False := by
  simp [Machine.start] at on

/-- What is on the stack has been put there at an earlier moment and has been left alone since. -/
theorem pushed (life : b.History P (m :: past)) {F : Frame} {K : List Frame}
    (on : F :: K <:+ m.stack) :
    ∃ m₀ ∈ past, ∃ m₁ us, Move m₀ m₁ ∧ m₀.stack = K ∧ m₁.stack = F :: K ∧
      Run (F :: K) m₁ us m := by
  generalize eq : m :: past = ms at life
  induction life generalizing m past with
  | new account shared h | begins life h shared hc ih =>
    cases eq
    exact (not_suffix_start on).elim
  | @step host m m' past life lent h ih =>
    cases eq
    have move := move_of_step h
    have stays (still : F :: K <:+ m.stack) :
        ∃ m₀ ∈ m :: past, ∃ m₁ us, Move m₀ m₁ ∧ m₀.stack = K ∧ m₁.stack = F :: K ∧
          Run (F :: K) m₁ us m' := by
      obtain ⟨m₀, mem, m₁, us, push, below, above, run⟩ := ih still rfl
      exact ⟨m₀, List.mem_cons_of_mem _ mem, m₁, _, push, below, above, run.snoc move on⟩
    rcases move.stack with same | ⟨G, push⟩ | ⟨G, pop⟩
    · exact stays (same ▸ on)
    · rw [push, List.suffix_cons_iff] at on
      rcases on with here | still
      · obtain ⟨rfl, rfl⟩ := List.cons.inj here
        exact ⟨m, List.mem_cons_self, m', [], move, rfl, push, .done _⟩
      · exact stays still
    · exact stays (pop ▸ on.trans (List.suffix_cons _ _))

end Blueprint.History

/-- What moments there are in some steps under a host. -/
def moments (host : CardBridge.Host) : Nat → Machine → List Machine → List Machine
  | 0, m, past => m :: past
  | fuel + 1, m, past =>
    match m.step host with
    | .next m' => moments host fuel m' (m :: past)
    | _ => m :: past

/-- Steps under a host go on with a history. -/
theorem Blueprint.History.moments {b : Blueprint} {P : Code → Prop} {host : CardBridge.Host}
    (lent : ∀ n args, P (host n args)) :
    ∀ (fuel : Nat) {m : Machine} {past : List Machine}, b.History P (m :: past) →
      b.History P (moments host fuel m past)
  | 0, m, past, life => life
  | fuel + 1, m, past, life => by
    unfold Host.moments
    split
    case h_1 m' h => exact moments lent fuel (life.step lent h)
    case h_2 => exact life

/-- Whether `ok` holds of each of some steps under a host. -/
def stepsAs (ok : Machine → Machine → Bool) (host : CardBridge.Host) : Nat → Machine → Bool
  | 0, _ => true
  | fuel + 1, m =>
    match m.step host with
    | .next m' => ok m m' && stepsAs ok host fuel m'
    | _ => true

/-- Steps that are as they should be go on with a chain of moments. -/
theorem isChain_moments {R : Machine → Machine → Prop} {ok : Machine → Machine → Bool}
    (sound : ∀ m m', ok m m' = true → R m' m) {host : CardBridge.Host} :
    ∀ (fuel : Nat) {m : Machine} {past : List Machine}, (m :: past).IsChain R →
      stepsAs ok host fuel m = true → (moments host fuel m past).IsChain R
  | 0, m, past, chain, _ => chain
  | fuel + 1, m, past, chain, steps => by
    unfold stepsAs at steps
    unfold Host.moments
    split
    case h_1 m' step =>
      rw [step] at steps
      obtain ⟨here, later⟩ := Bool.and_eq_true_iff.mp steps
      exact isChain_moments sound fuel (.cons_cons (sound m m' here) chain) later
    case h_2 => exact chain

end Host

end CardBridge

import CardBridge.Host.World
import CardBridge.Proofs.Runs

/-!
# The life of an environment

An environment that is made from a `Blueprint` is at work on one piece of host code after the
other. While it is, `Machine.Move` says what happens. When it is at rest the host may begin
anything; before that it may have installed functions in the memory, and other environments may
have changed what is shared. `Machine.Later` is one step of such a life, and `Blueprint.Reaches`
says that a machine comes up in one. No finalizers run in it; where they do, it is one of
`CardBridge.Proofs.CollectingLives`.

What is true of a new environment and kept by every `Effect` is true at every moment of every life
(`Reaches.invariant`).
-/

namespace CardBridge

open Relation
open Script (Memory)

namespace Machine

/-- One step in the life of an environment. -/
inductive Later : Machine → Machine → Prop
  | move {m m' : Machine} (h : Move m m') : Later m m'
  | begins {s : State} {r : Reply} {memory : Memory} (h : s.env.memory.Edits memory)
    (shared : Shared) (c : Code) :
    Later ⟨s, .host (.finish r), []⟩ (.start ⟨{ s.env with memory }, shared⟩ c)

variable {m m' : Machine} {us : List Update} {K : List Frame}

theorem Run.later (h : Run K m us m') : ReflTransGen Later m m' := by
  induction h with
  | done => exact .refl
  | move h _ _ ih => exact ReflTransGen.head (.move h) ih

/-- What holds of an environment and is kept by every effect holds at every later moment. -/
theorem later_invariant {P : Environment → List Open → Prop} (h : ReflTransGen Later m m')
    (step : ∀ {s os us s' os'}, P s.env os → Effect s os us s' os' → P s'.env os')
    (begins : P m.state.env (opens m.stack)) : P m'.state.env (opens m'.stack) := by
  induction h with
  | refl => exact begins
  | tail _ h ih =>
    cases h with
    | move h => exact step ih h.effect
    | @begins s _ memory h shared c =>
      have kept : P (s.setMemory memory).env [] := step ih (.script h)
      exact kept

end Machine

namespace Host

open Machine

/-- A machine comes up in the life of an environment that is made from a blueprint. -/
def Blueprint.Reaches (b : Blueprint) (m : Machine) : Prop :=
  ∃ account shared c, ReflTransGen Later (.start ⟨b.environment account, shared⟩ c) m

namespace Blueprint.Reaches

variable {b : Blueprint} {m m' : Machine}

theorem later (h : b.Reaches m) (h' : ReflTransGen Later m m') : b.Reaches m' := by
  obtain ⟨account, shared, c, h⟩ := h
  exact ⟨account, shared, c, h.trans h'⟩

/-- What holds of a new environment and is kept by every effect holds at every moment. -/
theorem invariant {P : Environment → List Open → Prop} (h : b.Reaches m)
    (fresh : ∀ account, P (b.environment account) [])
    (step : ∀ {s os us s' os'}, P s.env os → Effect s os us s' os' → P s'.env os') :
    P m.state.env (opens m.stack) := by
  obtain ⟨account, shared, c, h⟩ := h
  exact later_invariant h step (fresh account)

end Blueprint.Reaches

/-- Host code that a new environment runs to its end ends a life so far. -/
theorem Blueprint.reaches_of_ended {b : Blueprint} {host : CardBridge.Host} {account : Nat}
    {shared : Shared} {c : Code} {fuel : Nat} {r : Reply} {s : State}
    (h : run host fuel (.start ⟨b.environment account, shared⟩ c) = .ended r s) :
    b.Reaches ⟨s, .host (.finish r), []⟩ := by
  exact ⟨account, shared, c, (run_of_ended fuel _ h).later⟩

/-- An environment with the usual choices and nothing of its own. -/
def Blueprint.plain (session : SessionId) : Blueprint :=
  ⟨session, .standard, .nowhere, true, true, []⟩

/-- A host that lends no functions. -/
def idle : CardBridge.Host :=
  Code.native fun _ _ => .done

end Host

end CardBridge

import CardBridge.Proofs.Runs
import CardBridge.Session.Invocation

/-!
# What host code does of its own

A run of host code has changes in it that other code makes, since scripts that it has run call
functions of the host. `Code.Path` is what is left without them : the changes and the reply along
one way through the tree, whatever the state and whatever the scripts come to. A run makes the
changes of some path, in their order (`Code.Returns.path`), so what all paths of some code have in
common is true of every run of it.
-/

namespace CardBridge

open Script (Completion Value)

namespace Code

/-- The changes that host code itself makes on one way through it, and what it comes to. -/
inductive Path : Code → List Update → Reply → Prop
  | finish {r : Reply} : Path (.finish r) [] r
  | read {k : State → Code} {us : List Update} {r : Reply} (s : State) (h : Path (k s) us r) :
    Path (.read k) us r
  | write {u : Update} {c : Code} {us : List Update} {r : Reply} (h : Path c us r) :
    Path (.write u c) (u :: us) r
  | run {task : Task} {k : Completion → Code} {us : List Update} {r : Reply} (c : Completion)
    (h : Path (k c) us r) : Path (.run task k) us r
  | trace {k : List TraceLine → Code} {us : List Update} {r : Reply} (ls : List TraceLine)
    (h : Path (k ls) us r) : Path (.trace k) us r
  | refused {scope : Scope} {body : Code} {refused : Failure → Code} {k : Reply → Code}
    {us : List Update} {r : Reply} (f : Failure) (h : Path (refused f) us r) :
    Path (.scope scope body refused k) us r
  | scope {scope : Scope} {body : Code} {refused : Failure → Code} {k : Reply → Code}
    {us us' : List Update} {r r' : Reply} (h : Path body us r) (h' : Path (k r) us' r') :
    Path (.scope scope body refused k) (us ++ us') r'

/-- A run of host code makes the changes of a path, and others between them. -/
theorem Returns.path {c : Code} {K : List Frame} {s s' : State} {us : List Update} {r : Reply}
    (h : Returns K s c us r s') : ∃ own, own.Sublist us ∧ c.Path own r := by
  induction c generalizing K s s' us r with
  | finish r' =>
    obtain ⟨rfl, rfl, rfl⟩ := returns_finish h
    exact ⟨[], .slnil, .finish⟩
  | read k ih =>
    obtain ⟨own, sub, path⟩ := ih s (returns_read h)
    exact ⟨own, sub, .read s path⟩
  | write u c ih =>
    obtain ⟨us', rfl, rest⟩ := returns_write h
    obtain ⟨own, sub, path⟩ := ih rest
    exact ⟨u :: own, sub.cons_cons u, .write path⟩
  | run task k ih =>
    obtain ⟨us₁, c, s₁, us₂, -, rest, rfl⟩ := returns_run h
    obtain ⟨own, sub, path⟩ := ih c rest
    exact ⟨own, sub.trans (List.sublist_append_right _ _), .run c path⟩
  | trace k ih =>
    obtain ⟨ls, rest⟩ := returns_trace h
    obtain ⟨own, sub, path⟩ := ih ls rest
    exact ⟨own, sub, .trace ls path⟩
  | scope scope body refused k ihb ihr ihk =>
    obtain ⟨f, -, h⟩ | ⟨o, s₁, us₁, r₁, s₂, us₂, -, hb, hk, rfl⟩ := returns_scope h
    · obtain ⟨own, sub, path⟩ := ihr f h
      exact ⟨own, sub, .refused f path⟩
    · obtain ⟨own, sub, path⟩ := ihb hb
      obtain ⟨own', sub', path'⟩ := ihk r₁ hk
      exact ⟨own ++ own', sub.append sub', .scope path path'⟩

/-! ## Paths along the code -/

variable {us : List Update} {r r' : Reply}

theorem path_finish (h : Path (.finish r') us r) : us = [] ∧ r = r' := by
  cases h
  exact ⟨rfl, rfl⟩

theorem path_andThen {c : Code} {next : Reply → Code} (h : Path (c.andThen next) us r) :
    ∃ us₁ r₁ us₂, c.Path us₁ r₁ ∧ Path (next r₁) us₂ r ∧ us = us₁ ++ us₂ := by
  induction c generalizing us with
  | finish r' => exact ⟨[], r', us, .finish, h, rfl⟩
  | read k ih =>
    cases h with
    | read s h =>
      obtain ⟨us₁, r₁, us₂, first, second, rfl⟩ := ih s h
      exact ⟨us₁, r₁, us₂, .read s first, second, rfl⟩
  | write u c ih =>
    cases h with
    | write h =>
      obtain ⟨us₁, r₁, us₂, first, second, rfl⟩ := ih h
      exact ⟨u :: us₁, r₁, us₂, .write first, second, rfl⟩
  | run task k ih =>
    cases h with
    | run c h =>
      obtain ⟨us₁, r₁, us₂, first, second, rfl⟩ := ih c h
      exact ⟨us₁, r₁, us₂, .run c first, second, rfl⟩
  | trace k ih =>
    cases h with
    | trace ls h =>
      obtain ⟨us₁, r₁, us₂, first, second, rfl⟩ := ih ls h
      exact ⟨us₁, r₁, us₂, .trace ls first, second, rfl⟩
  | scope scope body refused k ihb ihr ihk =>
    cases h with
    | refused f h =>
      obtain ⟨us₁, r₁, us₂, first, second, rfl⟩ := ihr f h
      exact ⟨us₁, r₁, us₂, .refused f first, second, rfl⟩
    | scope hb h =>
      obtain ⟨us₁, r₁, us₂, first, second, rfl⟩ := ihk _ h
      exact ⟨_, r₁, us₂, .scope hb first, second, (List.append_assoc _ _ _).symm⟩

/-- Putting an error into words makes no changes. -/
theorem path_wording {k : String → Code} :
    ∀ (fuel : Nat) (v : Value), Path (wording fuel v k) us r → ∃ text, Path (k text) us r
  | 0, v, h => ⟨_, h⟩
  | fuel + 1, v, h => by
    unfold wording at h
    split at h
    · exact ⟨_, h⟩
    · cases h with
      | read s h => exact ⟨_, h⟩
    · cases h with
      | read s h =>
        dsimp only at h
        split at h
        · exact ⟨_, h⟩
        · cases h with
          | run c h =>
            dsimp only at h
            split at h
            · split at h <;> exact ⟨_, h⟩
            · split at h <;> exact ⟨_, h⟩
            · exact path_wording fuel _ h

/-- A script that is asked for something makes no change that is the asking code's own. -/
theorem path_attempt {task : Task} {k : List Value → Code} {failed : String → Code}
    (h : Path (attempt task k failed) us r) :
    (∃ vs, Path (k vs) us r) ∨ ∃ text, Path (failed text) us r := by
  unfold attempt at h
  cases h with
  | run c h =>
    cases c with
    | returned vs | yielded vs => exact .inl ⟨vs, h⟩
    | raised v => exact .inr (path_wording _ v h)

/-- The staged arguments are taken out of their queue, whether they can be passed or not. -/
theorem path_withStaged {q : Queue} {k : List Value → Code} (h : Path (withStaged q k) us r) :
    ∃ us', us = .clear q :: us' ∧ ((∃ vs, Path (k vs) us' r) ∨
      ∃ s f, State.stagedValues s q = .error f ∧ r = .failed f) := by
  cases h with
  | read s h =>
    cases h with
    | write h =>
      refine ⟨_, rfl, ?_⟩
      split at h
      case h_1 vs _ => exact .inl ⟨vs, h⟩
      case h_2 f hf =>
        obtain ⟨-, rfl⟩ := path_finish h
        exact .inr ⟨s, f, hf, rfl⟩

end Code

end CardBridge

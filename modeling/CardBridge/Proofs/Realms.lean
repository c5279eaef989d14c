import CardBridge.Proofs.Postings
import CardBridge.Proofs.StagingQueue
import Mathlib.Data.List.Nodup

/-!
# Realms

A `Realm` has environments, each with what it is at work on, and what they share. Environments are
made and closed, and in between each of them goes its own way : at any time any of them may make the
next move, so what one does may come in the middle of what another does. An environment that is
closed is gone, and what is left of it are the functions that the host holds.

The number of an environment is never used again, nor is its account : an account is open as long as
the environment is there that it was opened for (`Realm.Orderly`). So a function that an environment
has created is refused by every other one, and by all when the environment is closed
(`Realm.Created.resolve`).
-/

namespace CardBridge

open Script (Value)
open Machine

/-! ## Realms -/

/-- An environment with its number and what it is at work on. -/
structure Resident where
  name : Nat
  env : Environment
  activity : Activity
  stack : List Frame

/-- The environments that are there, and what they share. -/
structure Realm where
  residents : List Resident
  shared : Shared
  /-- How many environments were made so far. -/
  made : Nat

namespace Resident

/-- The environment at work, with what it shares. -/
def machine (A : Resident) (shared : Shared) : Machine :=
  ⟨⟨A.env, shared⟩, A.activity, A.stack⟩

/-- The environment where it has got to. -/
def moved (A : Resident) (m : Machine) : Resident :=
  ⟨A.name, m.state.env, m.activity, m.stack⟩

/-- Nothing is in progress in the environment. -/
def AtRest (A : Resident) : Prop :=
  A.stack = [] ∧ ∃ r, A.activity = .host (.finish r)

/-- What stays as it is while the environment is there. -/
def profile (A : Resident) : Nat × Option Nat × Bool :=
  (A.name, A.env.account, A.env.bridge.isSome)

theorem profile_moved {A : Resident} {shared : Shared} {m : Machine}
    (h : Move (A.machine shared) m) : (A.moved m).profile = A.profile := by
  obtain ⟨memory, objects, bridge, env⟩ := h.effect.env_eq
  have account : m.state.env.account = A.env.account := by rw [env]; rfl
  have bridged : m.state.env.bridge.isSome = A.env.bridge.isSome := by
    cases hb : A.env.bridge with
    | none => rw [h.effect.foreign hb]
    | some b =>
      obtain ⟨b', hb', -⟩ := h.effect.queue (q := .call) hb
      rw [hb']
      rfl
  simp only [profile, moved, account, bridged]

end Resident

/-- The functions among the arguments that are staged. -/
def Bridge.functions (b : Bridge) : List Callable :=
  Shared.callables (b.params ++ b.resumes)

@[inherit_doc Bridge.functions]
def Environment.functions (env : Environment) : List Callable :=
  env.bridge.toList.flatMap (·.functions)

/-- The postings when an environment is closed. -/
def Environment.closing (env : Environment) : List Posting :=
  env.account.toList.map .closes ++ env.functions.map .disowns

theorem Host.closeEnvironment_eq (s : Shared) (env : Environment) :
    Host.closeEnvironment s env = s.postAll env.closing := by
  have taken (s : Shared) (b : Bridge) : (s.disownAll b.params).disownAll b.resumes =
      s.postAll (b.functions.map .disowns) := by
    rw [Bridge.functions, ← Shared.disownAll_eq_postAll, Shared.disownAll, Shared.disownAll,
      Shared.disownAll, List.foldl_append]
  unfold Host.closeEnvironment Environment.closing Environment.functions
  cases env.account <;> cases env.bridge <;>
    simp only [Option.toList, List.map_cons, List.map_nil, List.flatMap_cons, List.flatMap_nil,
      List.append_nil, List.nil_append, List.singleton_append, taken] <;> rfl

/-- An environment that is closed takes its account with it. -/
theorem Environment.isOpen_closing (env : Environment) (s : Shared) :
    (∀ a, (s.postAll env.closing).isOpen a =
      if env.account = some a then false else s.isOpen a) ∧
    (s.postAll env.closing).accounts.size = s.accounts.size := by
  have taken : ∀ p ∈ env.functions.map Posting.disowns, p.OfOwners := by
    intro p mem
    obtain ⟨c, -, rfl⟩ := List.mem_map.mp mem
    trivial
  obtain ⟨same, size⟩ :=
    Shared.isOpen_postAll taken (s.postAll (env.account.toList.map .closes))
  rw [closing, Shared.postAll_append, same, size]
  cases env.account with
  | none => exact ⟨fun a => rfl, rfl⟩
  | some b =>
    refine ⟨fun a => (s.isOpen_closes a b).trans ?_, Array.size_modify⟩
    simp only [Option.some.injEq]

/-- A function is valid as long as its account is open. -/
theorem State.isValid_eq {s : State} {c : Callable} {a : Nat}
    (held : s.shared.accountOf c = some a) : s.isValid c = s.shared.isOpen a := by
  obtain ⟨h, found, rfl⟩ := Option.map_eq_some_iff.mp held
  rw [isValid, found]
  rfl

/-- A function of an account that is closed is refused. -/
theorem State.resolve_closed {s : State} {c : Callable} {a : Nat}
    (held : s.shared.accountOf c = some a) (closed : s.shared.isOpen a = false) :
    s.resolve c = .error .environmentClosed := by
  rw [resolve, isValid_eq held, closed]
  rfl

/-- A function of another account is refused. -/
theorem State.resolve_foreign {s : State} {c : Callable} {a : Nat}
    (held : s.shared.accountOf c = some a) (foreign : s.env.account ≠ some a) :
    s.resolve c = .error
      (if s.shared.isOpen a = true ∧ s.env.account.isSome = true then .foreignCallable
      else .environmentClosed) := by
  obtain ⟨h, found, rfl⟩ := Option.map_eq_some_iff.mp held
  rw [resolve, isValid_eq held, found]
  cases s.shared.isOpen h.account with
  | false => rfl
  | true =>
    cases ha : s.env.account with
    | none => rfl
    | some b =>
      have apart : h.account ≠ b := fun same => foreign (by rw [ha, same])
      simp [apart]

/-- The functions in slots. -/
def Shared.slotted (s : Shared) : List Callable :=
  s.slots.map Prod.snd

/-- The functions that a scope has in use. -/
def Open.inUse : Open → List Callable
  | holding cs => cs
  | _ => []

/-- The functions that host code at work has in use. -/
def Machine.inUse (K : List Frame) : List Callable :=
  (opens K).flatMap Open.inUse

namespace Realm

/-- No environment yet. -/
def empty : Realm :=
  ⟨[], .empty, 0⟩

/-- The functions that the host has : in slots, and in use by its code. -/
def clones (S : Realm) : List Callable :=
  S.shared.slotted ++ S.residents.flatMap fun A => inUse A.stack

/-- One step of a realm, with its postings. -/
inductive Later : Realm → List Posting → Realm → Prop
  /-- An environment makes a move. Host code can stage or hold only what the host has. -/
  | moves {L R : List Resident} {A : Resident} {shared : Shared} {made : Nat} {m : Machine}
    (move : Move (A.machine shared) m)
    (owned : ∀ c ∈ (A.machine shared).copied, c ∈ clones ⟨L ++ A :: R, shared, made⟩) :
    Later ⟨L ++ A :: R, shared, made⟩ (A.machine shared).postings
      ⟨L ++ A.moved m :: R, m.state.shared, made⟩
  /-- In an environment that is at rest, the host begins something. -/
  | begins {L R : List Resident} {A : Resident} {shared : Shared} {made : Nat}
    {memory : Script.Memory} (rest : A.AtRest) (edits : A.env.memory.Edits memory) (c : Code) :
    Later ⟨L ++ A :: R, shared, made⟩ []
      ⟨L ++ ⟨A.name, { A.env with memory }, .host c, []⟩ :: R, shared, made⟩
  /-- An environment is made, with an account. -/
  | makes {residents : List Resident} {shared : Shared} {made : Nat} (b : Host.Blueprint)
      (c : Code) :
    Later ⟨residents, shared, made⟩ [.opens]
      ⟨⟨made, b.environment shared.accounts.size, .host c, []⟩ :: residents, shared.post .opens,
        made + 1⟩
  /-- A bare environment is made. -/
  | makesForeign {residents : List Resident} {shared : Shared} {made : Nat} (c : Code) :
    Later ⟨residents, shared, made⟩ []
      ⟨⟨made, Host.foreignEnvironment, .host c, []⟩ :: residents, shared, made + 1⟩
  /-- An environment that is at rest is closed. -/
  | closes {L R : List Resident} {A : Resident} {shared : Shared} {made : Nat} (rest : A.AtRest) :
    Later ⟨L ++ A :: R, shared, made⟩ A.env.closing
      ⟨L ++ R, Host.closeEnvironment shared A.env, made⟩
  /-- The scripts that are there for all change, or the journal. -/
  | shares {residents : List Resident} {shared : Shared} {made : Nat} (scripts : ScriptStore)
    (journal : List Event) :
    Later ⟨residents, shared, made⟩ [] ⟨residents, { shared with scripts, journal }, made⟩

/-- Steps of a realm, with their postings. -/
inductive Run (S : Realm) : List Posting → Realm → Prop
  | done : Run S [] S
  | later {ps qs : List Posting} {S' S'' : Realm} (run : Run S ps S') (h : Later S' qs S'') :
    Run S (ps ++ qs) S''

variable {S S' S'' : Realm} {ps qs : List Posting} {a : Nat} {c : Callable}

theorem Run.trans (h : Run S ps S') (h' : Run S' qs S'') : Run S (ps ++ qs) S'' := by
  induction h' with
  | done => rwa [List.append_nil]
  | later _ step ih =>
    rw [← List.append_assoc]
    exact .later ih step

/-- A step does to the books what its postings do. -/
theorem Later.books (h : Later S ps S') :
    S'.shared.books = (S.shared.postAll ps).books := by
  cases h with
  | moves move => exact move.books
  | closes => exact congrArg Shared.books (Host.closeEnvironment_eq _ _)
  | begins | makes | makesForeign | shares => rfl

theorem Run.books (h : Run S ps S') : S'.shared.books = (S.shared.postAll ps).books := by
  induction h with
  | done => rfl
  | later _ step ih => rw [step.books, Shared.books_postAll _ ih, Shared.postAll_append]

/-- A function stays in its account. -/
theorem Run.accountOf (h : Run S ps S') (held : S.shared.accountOf c = some a) :
    S'.shared.accountOf c = some a := by
  rw [Shared.accountOf_congr h.books]
  exact Shared.accountOf_postAll held ps

/-! ## Whose account is whose -/

/-- What is known of the environments of a realm. -/
structure Orderly (S : Realm) : Prop where
  names : (S.residents.map (·.name)).Nodup
  numbered : ∀ A ∈ S.residents, A.name < S.made
  /-- The account of an environment is open, and is its own. -/
  accounts : ∀ A ∈ S.residents, ∀ a, A.env.account = some a → S.shared.isOpen a = true ∧
    ∀ B ∈ S.residents, B.env.account = some a → B.name = A.name
  /-- An account is open for an environment. -/
  open_for : ∀ a, S.shared.isOpen a = true → ∃ A ∈ S.residents, A.env.account = some a
  bridged : ∀ A ∈ S.residents, A.env.bridge.isSome = A.env.account.isSome

/-- The environment of a number is the one with an account, while it is there. -/
structure Named (S : Realm) (name a : Nat) : Prop where
  made : name < S.made
  opened : a < S.shared.accounts.size
  account : ∀ A ∈ S.residents, A.name = name ↔ A.env.account = some a

/-- Steps in which the environments that are there stay the same. -/
structure Steady (S S' : Realm) : Prop where
  profiles : S'.residents.map (·.profile) = S.residents.map (·.profile)
  open_accounts : S'.shared.isOpen = S.shared.isOpen
  size : S'.shared.accounts.size = S.shared.accounts.size
  made : S'.made = S.made

namespace Steady

variable {name : Nat}

theorem symm (h : Steady S S') : Steady S' S :=
  ⟨h.profiles.symm, h.open_accounts.symm, h.size.symm, h.made.symm⟩

/-- Each environment was there before. -/
theorem before (h : Steady S S') {A : Resident} (mem : A ∈ S'.residents) :
    ∃ B ∈ S.residents, B.name = A.name ∧ B.env.account = A.env.account ∧
      B.env.bridge.isSome = A.env.bridge.isSome := by
  have there : A.profile ∈ S.residents.map (·.profile) :=
    h.profiles ▸ List.mem_map_of_mem mem
  obtain ⟨B, mem', same⟩ := List.mem_map.mp there
  obtain ⟨name, account, bridged⟩ := by simpa [Resident.profile] using same
  exact ⟨B, mem', name, account, bridged⟩

theorem orderly (h : Steady S S') (orderly : S.Orderly) : S'.Orderly where
  names := by
    have names (T : Realm) : T.residents.map (·.name) =
        (T.residents.map (·.profile)).map Prod.fst := by
      rw [List.map_map]
      rfl
    rw [names, h.profiles, ← names]
    exact orderly.names
  numbered A mem := by
    obtain ⟨B, mem', name, -⟩ := h.before mem
    rw [h.made, ← name]
    exact orderly.numbered B mem'
  accounts A mem a account := by
    obtain ⟨B, mem', name, same, -⟩ := h.before mem
    obtain ⟨opened, own⟩ := orderly.accounts B mem' a (same.trans account)
    refine ⟨by rwa [h.open_accounts], fun A' memA' account' => ?_⟩
    obtain ⟨B', memB', name', same', -⟩ := h.before memA'
    rw [← name, ← name']
    exact own B' memB' (same'.trans account')
  open_for a opened := by
    rw [h.open_accounts] at opened
    obtain ⟨A, mem, account⟩ := orderly.open_for a opened
    obtain ⟨B, mem', -, same, -⟩ := h.symm.before mem
    exact ⟨B, mem', same.trans account⟩
  bridged A mem := by
    obtain ⟨B, mem', -, account, bridged⟩ := h.before mem
    rw [← account, ← bridged]
    exact orderly.bridged B mem'

theorem named (h : Steady S S') (named : S.Named name a) : S'.Named name a where
  made := h.made ▸ named.made
  opened := h.size ▸ named.opened
  account A mem := by
    obtain ⟨B, mem', same, account, -⟩ := h.before mem
    rw [← same, ← account]
    exact named.account B mem'

end Steady

/-- An environment is made. Its number is a new one, and if it has an account, that is a new one. -/
structure Makes (S S' : Realm) (A : Resident) : Prop where
  residents : S'.residents = A :: S.residents
  name : A.name = S.made
  made : S'.made = S.made + 1
  bridged : A.env.bridge.isSome = A.env.account.isSome
  account : ∀ a, A.env.account = some a → a = S.shared.accounts.size
  size : S.shared.accounts.size ≤ S'.shared.accounts.size
  open_accounts :
    ∀ a, S'.shared.isOpen a = if A.env.account = some a then true else S.shared.isOpen a

/-- An environment is closed, and with it its account. -/
structure Closes (S S' : Realm) (L R : List Resident) (A : Resident) : Prop where
  before : S.residents = L ++ A :: R
  after : S'.residents = L ++ R
  made : S'.made = S.made
  size : S'.shared.accounts.size = S.shared.accounts.size
  open_accounts : ∀ a, S'.shared.isOpen a =
    if A.env.account = some a then false else S.shared.isOpen a

/-- An environment is made or closed, or the environments that are there stay the same. -/
theorem Later.cases_residents (h : Later S ps S') :
    Steady S S' ∨ (∃ A, Makes S S' A) ∨ ∃ L R A, Closes S S' L R A := by
  cases h with
  | @moves L R A shared made m move owned =>
    obtain ⟨same, size⟩ := Shared.isOpen_postAll (ofOwners_postings (A.machine shared)) shared
    have books := move.books
    refine .inl ⟨?_, (Shared.isOpen_congr books).trans same, ?_, rfl⟩
    · simp [Resident.profile_moved move]
    · exact (congrArg Array.size (Prod.mk.inj books).1).trans size
  | begins rest edits c => exact .inl ⟨by simp [Resident.profile], rfl, rfl, rfl⟩
  | shares => exact .inl ⟨rfl, rfl, rfl, rfl⟩
  | @makes residents shared made b c =>
    refine .inr (.inl ⟨_, rfl, rfl, rfl, rfl, fun a account => ?_, ?_, fun a => ?_⟩)
    · exact (Option.some.inj account).symm
    · simp [Shared.post]
    · refine (shared.isOpen_opens a).trans (if_congr ?_ rfl rfl)
      exact ⟨fun eq => congrArg some eq.symm, fun eq => (Option.some.inj eq).symm⟩
  | makesForeign c =>
    refine .inr (.inl ⟨_, rfl, rfl, rfl, rfl, fun a account => ?_, Nat.le_refl _, fun a => rfl⟩)
    cases account
  | @closes L R A shared made rest =>
    obtain ⟨opened, size⟩ := A.env.isOpen_closing shared
    rw [← Host.closeEnvironment_eq] at opened size
    exact .inr (.inr ⟨L, R, A, rfl, rfl, rfl, size, opened⟩)

/-- An environment that is made is told from those that are there. -/
theorem Makes.orderly {A : Resident} (h : Makes S S' A) (orderly : S.Orderly) : S'.Orderly := by
  obtain ⟨residents, name, made, bridged, account, -, open_accounts⟩ := h
  have old : ∀ B ∈ S.residents, ∀ a, B.env.account = some a → A.env.account ≠ some a := by
    intro B mem a own new
    obtain ⟨opened, -⟩ := orderly.accounts B mem a own
    exact absurd (account a new) (Nat.ne_of_lt (Shared.lt_of_isOpen opened))
  constructor
  · rw [residents, List.map_cons, List.nodup_cons]
    refine ⟨fun mem => ?_, orderly.names⟩
    obtain ⟨B, mem, same⟩ := List.mem_map.mp mem
    have earlier := orderly.numbered B mem
    omega
  · rw [residents, List.forall_mem_cons, made]
    exact ⟨by omega, fun B mem => Nat.lt_succ_of_lt (orderly.numbered B mem)⟩
  · rw [residents, List.forall_mem_cons]
    refine ⟨fun a new => ⟨by rw [open_accounts, if_pos new], ?_⟩, fun B mem a own => ⟨?_, ?_⟩⟩
    · exact List.forall_mem_cons.mpr ⟨fun _ => rfl, fun B mem own => absurd new (old B mem a own)⟩
    · rw [open_accounts, if_neg (old B mem a own)]
      exact (orderly.accounts B mem a own).1
    · exact List.forall_mem_cons.mpr
        ⟨fun new => absurd new (old B mem a own), (orderly.accounts B mem a own).2⟩
  · intro a opened
    rw [residents]
    rw [open_accounts] at opened
    split at opened
    case isTrue new => exact ⟨A, List.mem_cons_self, new⟩
    case isFalse =>
      obtain ⟨B, mem, own⟩ := orderly.open_for a opened
      exact ⟨B, List.mem_cons_of_mem _ mem, own⟩
  · rw [residents, List.forall_mem_cons]
    exact ⟨bridged, orderly.bridged⟩

theorem Closes.mem {L R : List Resident} {A B : Resident} (h : Closes S S' L R A) :
    B ∈ S.residents ↔ B = A ∨ B ∈ S'.residents := by
  rw [h.before, h.after]
  simp only [List.mem_append, List.mem_cons]
  exact or_left_comm

/-- An environment that is closed is told from those that stay. -/
theorem Closes.ne_name {L R : List Resident} {A B : Resident} (h : Closes S S' L R A)
    (names : (S.residents.map (·.name)).Nodup) (mem : B ∈ S'.residents) : B.name ≠ A.name := by
  intro same
  rw [h.before, List.map_append, List.map_cons] at names
  have once := (List.nodup_middle.mp names).notMem
  rw [h.after] at mem
  rw [← same, ← List.map_append] at once
  exact once (List.mem_map_of_mem mem)

theorem Closes.orderly {L R : List Resident} {A : Resident} (h : Closes S S' L R A)
    (orderly : S.Orderly) : S'.Orderly where
  names := by
    have names := orderly.names
    rw [h.before, List.map_append, List.map_cons] at names
    rw [h.after, List.map_append]
    exact (List.nodup_middle.mp names).of_cons
  numbered B mem := h.made ▸ orderly.numbered B (h.mem.mpr (.inr mem))
  accounts B mem a own := by
    obtain ⟨opened, alone⟩ := orderly.accounts B (h.mem.mpr (.inr mem)) a own
    refine ⟨?_, fun B' mem' => alone B' (h.mem.mpr (.inr mem'))⟩
    rw [h.open_accounts, if_neg, opened]
    exact fun same => h.ne_name orderly.names mem (alone A (h.mem.mpr (.inl rfl)) same).symm
  open_for a opened := by
    rw [h.open_accounts] at opened
    split at opened
    case isTrue => cases opened
    case isFalse other =>
      obtain ⟨B, mem, own⟩ := orderly.open_for a opened
      obtain rfl | mem := h.mem.mp mem
      · exact absurd own other
      · exact ⟨B, mem, own⟩
  bridged B mem := orderly.bridged B (h.mem.mpr (.inr mem))

/-- A step keeps the numbers and the accounts apart. -/
theorem Later.orderly (h : Later S ps S') (orderly : S.Orderly) : S'.Orderly := by
  obtain steady | ⟨A, makes⟩ | ⟨L, R, A, closes⟩ := h.cases_residents
  · exact steady.orderly orderly
  · exact makes.orderly orderly
  · exact closes.orderly orderly

/-- Neither a number nor an account is used again. -/
theorem Later.named {name : Nat} (h : Later S ps S') (named : S.Named name a) :
    S'.Named name a := by
  obtain steady | ⟨A, makes⟩ | ⟨L, R, A, closes⟩ := h.cases_residents
  · exact steady.named named
  · refine ⟨?_, Nat.lt_of_lt_of_le named.opened makes.size, ?_⟩
    · exact makes.made ▸ Nat.lt_succ_of_lt named.made
    · rw [makes.residents, List.forall_mem_cons]
      refine ⟨iff_of_false ?_ fun new => ?_, named.account⟩
      · exact makes.name ▸ Nat.ne_of_gt named.made
      · exact absurd (makes.account a new) (Nat.ne_of_lt named.opened)
  · exact ⟨closes.made ▸ named.made, closes.size ▸ named.opened,
      fun B mem => named.account B (closes.mem.mpr (.inr mem))⟩

theorem orderly_empty : empty.Orderly where
  names := List.nodup_nil
  numbered _ mem := (List.not_mem_nil mem).elim
  accounts _ mem := (List.not_mem_nil mem).elim
  open_for a opened := absurd (Shared.lt_of_isOpen opened) (Nat.not_lt_zero a)
  bridged _ mem := (List.not_mem_nil mem).elim

theorem Run.orderly (h : Run S ps S') (orderly : S.Orderly) : S'.Orderly := by
  induction h with
  | done => exact orderly
  | later _ step ih => exact step.orderly ih

theorem Run.named {name : Nat} (h : Run S ps S') (named : S.Named name a) : S'.Named name a := by
  induction h with
  | done => exact named
  | later _ step ih => exact step.named ih

/-- An environment has its account for itself. -/
theorem Orderly.named (orderly : S.Orderly) {A : Resident} (mem : A ∈ S.residents)
    (own : A.env.account = some a) : S.Named A.name a where
  made := orderly.numbered A mem
  opened := Shared.lt_of_isOpen (orderly.accounts A mem a own).1
  account B mem' := by
    refine ⟨fun same => ?_, (orderly.accounts A mem a own).2 B mem'⟩
    rw [List.inj_on_of_nodup_map orderly.names mem' mem same]
    exact own

/-- The account of an environment is open while the environment is there. -/
theorem Named.isOpen_iff {name : Nat} (named : S.Named name a) (orderly : S.Orderly) :
    S.shared.isOpen a = true ↔ ∃ A ∈ S.residents, A.name = name := by
  constructor
  · intro opened
    obtain ⟨A, mem, own⟩ := orderly.open_for a opened
    exact ⟨A, mem, (named.account A mem).mpr own⟩
  · rintro ⟨A, mem, same⟩
    exact (orderly.accounts A mem a ((named.account A mem).mp same)).1

/-! ## Functions of environments -/

/-- The environment of a number creates a function : it makes the step in which the host comes to
hold it. -/
inductive Creates : Realm → Nat → Callable → Realm → Prop
  | holds {L R : List Resident} {A : Resident} {shared : Shared} {made : Nat} {slot : String}
    {f : Value} {next : Code} {s : State} (active : A.activity = .host (.write (.hold slot f) next))
    (accounted : A.env.account.isSome = true) (held : s = State.hold ⟨A.env, shared⟩ slot f) :
    Creates ⟨L ++ A :: R, shared, made⟩ A.name ⟨shared.held.size⟩
      ⟨L ++ A.moved ⟨s, .host next, A.stack⟩ :: R, s.shared, made⟩

variable {name : Nat}

theorem Creates.later (h : S.Creates name c S') : ∃ ps, Later S ps S' := by
  cases h with
  | @holds L R A shared made slot f next s active accounted held =>
    subst held
    have machine : A.machine shared =
        ⟨⟨A.env, shared⟩, .host (.write (.hold slot f) next), A.stack⟩ := by
      rw [Resident.machine, active]
    refine ⟨_, .moves (machine ▸ .write) fun c mem => ?_⟩
    rw [machine] at mem
    exact (List.not_mem_nil mem).elim

/-- The books after a function was created. -/
theorem Creates.books (h : S.Creates name c S') : ∃ A ∈ S.residents, A.name = name ∧
    c = ⟨S.shared.held.size⟩ ∧ ∃ f a slot, A.env.account = some a ∧
      S'.shared.books =
        ((S.shared.post (.creates f a)).postAll (S.shared.emptying slot)).books := by
  cases h with
  | @holds L R A shared made slot f next s active accounted held =>
    subst held
    obtain ⟨a, own⟩ := Option.isSome_iff_exists.mp accounted
    have books := (Update.hold slot f).apply_books ⟨A.env, shared⟩
    simp only [Update.postings, own] at books
    exact ⟨A, List.mem_append_right _ List.mem_cons_self, rfl, rfl, f, a, slot, own, books⟩

/-- A function that an environment has created is held for its account. -/
theorem Creates.accountOf (h : S.Creates name c S') (orderly : S.Orderly) :
    ∃ a, S'.Named name a ∧ S'.shared.accountOf c = some a := by
  obtain ⟨ps, later⟩ := h.later
  obtain ⟨A, mem, rfl, rfl, f, a, slot, own, books⟩ := h.books
  refine ⟨a, later.named (orderly.named mem own), ?_⟩
  rw [Shared.accountOf_congr books]
  exact Shared.accountOf_postAll (by rw [Shared.accountOf_creates, if_pos rfl]) _

/-- A function that is held for an account was held before, or its environment creates it. -/
theorem Later.accountOf_cases (h : Later S ps S') (held : S'.shared.accountOf c = some a) :
    S.shared.accountOf c = some a ∨ ∃ A ∈ S.residents, A.env.account = some a ∧
      S.Creates A.name c S' := by
  rw [Shared.accountOf_congr h.books] at held
  obtain before | ⟨f, b, mem⟩ := Shared.accountOf_postAll_cases held
  · exact .inl before
  cases h with
  | @moves L R A shared made m move owned =>
    obtain ⟨slot, next, active, own, postings⟩ := Machine.hold_of_creates mem
    have there : A ∈ L ++ A :: R := List.mem_append_right _ List.mem_cons_self
    rw [postings] at held
    replace held : ((shared.post (.creates f b)).postAll (shared.emptying slot)).accountOf c =
      some a := held
    by_cases new : c = ⟨shared.held.size⟩
    · subst new
      have first : (shared.post (.creates f b)).accountOf ⟨shared.held.size⟩ = some b := by
        rw [Shared.accountOf_creates, if_pos rfl]
      have kept := Shared.accountOf_postAll first (shared.emptying slot)
      obtain rfl : b = a := Option.some.inj (kept.symm.trans held)
      refine .inr ⟨A, there, own, ?_⟩
      replace active : A.activity = .host (.write (.hold slot f) next) := active
      rw [Resident.machine, active] at move
      cases move
      exact .holds active (Option.isSome_of_eq_some own) rfl
    · obtain before | ⟨f', b', mem'⟩ := Shared.accountOf_postAll_cases held
      · rw [Shared.accountOf_creates, if_neg fun same => new (congrArg Callable.mk same)] at before
        exact .inl before
      · simp [Shared.emptying] at mem'
  | closes => simp [Environment.closing] at mem
  | begins | makes | makesForeign | shares => simp at mem

/-- The environment of a number has created a function. -/
def Created (S : Realm) (name : Nat) (c : Callable) : Prop :=
  ∃ S₀ S₁ ps qs, Run empty ps S₀ ∧ S₀.Creates name c S₁ ∧ Run S₁ qs S

theorem Created.later (h : S.Created name c) (later : Later S ps S') : S'.Created name c := by
  obtain ⟨S₀, S₁, ps, qs, reached, creates, run⟩ := h
  exact ⟨S₀, S₁, ps, _, reached, creates, .later run later⟩

theorem Created.accountOf (h : S.Created name c) :
    ∃ a, S.Named name a ∧ S.shared.accountOf c = some a ∧ S.Orderly := by
  obtain ⟨S₀, S₁, ps, qs, reached, creates, run⟩ := h
  have orderly := reached.orderly orderly_empty
  obtain ⟨a, named, held⟩ := creates.accountOf orderly
  obtain ⟨ps', first⟩ := creates.later
  exact ⟨a, run.named named, run.accountOf held, run.orderly (first.orderly orderly)⟩

/-- What is held for an account was created by an environment whose account that was. -/
theorem Run.exists_created (run : Run empty ps S) (held : S.shared.accountOf c = some a) :
    ∃ name, S.Named name a ∧ S.Created name c := by
  induction run with
  | done => exact absurd (Shared.lt_of_accountOf held) (Nat.not_lt_zero _)
  | later run step ih =>
    obtain before | ⟨A, mem, own, creates⟩ := step.accountOf_cases held
    · obtain ⟨name, named, created⟩ := ih before
      exact ⟨name, step.named named, created.later step⟩
    · have orderly := run.orderly orderly_empty
      exact ⟨A.name, step.named (orderly.named mem own), _, _, _, _, run, creates, .done⟩

/-- The functions that an environment has created are those that are held for its account. -/
theorem Run.created_iff (run : Run empty ps S) {A : Resident} (mem : A ∈ S.residents)
    (own : A.env.account = some a) : S.Created A.name c ↔ S.shared.accountOf c = some a := by
  constructor
  · intro created
    obtain ⟨b, named, held, -⟩ := created.accountOf
    rw [(named.account A mem).mp rfl] at own
    rwa [← own]
  · intro held
    obtain ⟨name, named, created⟩ := run.exists_created held
    rwa [(named.account A mem).mpr own]

/-- An environment is not the one of a number, or there is none of that number any more. -/
def Outside (S : Realm) (name : Nat) (env : Environment) : Prop :=
  (∃ B ∈ S.residents, B.env = env ∧ B.name ≠ name) ∨ ∀ A ∈ S.residents, A.name ≠ name

/-- Why an environment refuses a function of the one of a number. -/
def refusal (S : Realm) (name : Nat) (env : Environment) : Failure :=
  if (∃ A ∈ S.residents, A.name = name) ∧ env.bridge.isSome = true then .foreignCallable
  else .environmentClosed

/-- A function that an environment has created is refused outside of it. -/
theorem Created.resolve (created : S.Created name c) {env : Environment}
    (outside : S.Outside name env) :
    State.resolve ⟨env, S.shared⟩ c = .error (S.refusal name env) := by
  obtain ⟨a, named, held, orderly⟩ := created.accountOf
  have there := named.isOpen_iff orderly
  obtain ⟨B, mem, rfl, other⟩ | gone := outside
  · have foreign : B.env.account ≠ some a := fun own => other ((named.account B mem).mpr own)
    refine (State.resolve_foreign held foreign).trans (congrArg Except.error (if_congr ?_ rfl rfl))
    rw [there, orderly.bridged B mem]
  · have none : ¬ ∃ A ∈ S.residents, A.name = name := fun ⟨A, mem, same⟩ => gone A mem same
    have closed := Bool.eq_false_iff.mpr (there.not.mpr none)
    rw [State.resolve_closed held closed, refusal, if_neg fun both => none both.1]

end Realm

end CardBridge

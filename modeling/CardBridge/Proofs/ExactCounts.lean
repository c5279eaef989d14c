import CardBridge.Proofs.Postings
import Mathlib.Data.List.Nodup

/-!
# Exact counts

The owners of a function are counted, and an account counts the functions that are held for it and
have an owner (`Shared.live`). Postings that are sound one after the other (`Shared.SoundAll`) take
no count below what is there, so exact counts stay exact, and a function is let go once, by the
posting that takes its last owner away (`Shared.count_released`).

`Shared.Fits` says of postings that they are sound and that they change the owners as is said. It
leaves open what other owners there are, so it can be proved for one part of what there is at a
time.
-/

namespace CardBridge

open Script (Value)

/-! ## Counts -/

namespace Shared

variable {s : Shared} {c d : Callable} {a : Nat} {p : Posting} {ps qs : List Posting}

/-- The functions that are held for an account and have an owner. -/
def live (s : Shared) (a : Nat) : List Callable :=
  ((List.range s.held.size).map Callable.mk).filter fun c =>
    s.accountOf c = some a ∧ 0 < s.owners c

/-- How many functions an account says are held for it. -/
def heldFor (s : Shared) (a : Nat) : Nat :=
  ((s.accounts[a]?).map (·.held)).getD 0

/-- The accounts count what is live. -/
structure Counted (s : Shared) : Prop where
  held : ∀ a < s.accounts.size, s.heldFor a = (s.live a).length
  accounts : ∀ c a, s.accountOf c = some a → a < s.accounts.size

/-- A posting takes no count below what is there : a further owner comes from one, and with an owner
or with a last owner goes something that was counted. -/
def Sound (s : Shared) : Posting → Prop
  | .creates _ a => a < s.accounts.size
  | .owns c => 0 < s.owners c
  | .disowns c => 0 < s.owners c ∧
    ∃ a, s.accountOf c = some a ∧ (s.owners c = 1 → 0 < s.heldFor a)
  | .opens | .closes _ => True

theorem lt_of_owners (h : 0 < s.owners c) : c.id < s.held.size := by
  refine Nat.lt_of_not_le fun beyond => ?_
  rw [owners, Array.getElem?_eq_none beyond] at h
  exact absurd h (Nat.lt_irrefl 0)

theorem exists_accountOf (h : 0 < s.owners c) : ∃ a, s.accountOf c = some a := by
  rw [accountOf, Array.getElem?_eq_getElem (lt_of_owners h)]
  exact ⟨_, rfl⟩

theorem mem_live : c ∈ s.live a ↔ s.accountOf c = some a ∧ 0 < s.owners c := by
  rw [live, List.mem_filter, decide_eq_true_iff]
  refine and_iff_right_of_imp fun ⟨_, owned⟩ => ?_
  exact List.mem_map.mpr ⟨c.id, List.mem_range.mpr (lt_of_owners owned), rfl⟩

theorem nodup_live (s : Shared) (a : Nat) : (s.live a).Nodup :=
  (List.nodup_range.map fun _ _ => Callable.mk.inj).filter _

theorem owners_creates (s : Shared) (f : Value) (a : Nat) (c : Callable) :
    (s.post (.creates f a)).owners c = if c.id = s.held.size then 1 else s.owners c := by
  rw [owners, post, Array.getElem?_push]
  split <;> rfl

theorem owners_owns (h : 0 < s.owners d) (c : Callable) :
    (s.post (.owns d)).owners c = s.owners c + if d = c then 1 else 0 := by
  rw [owners, post, own, Array.getElem?_modify, owners]
  by_cases same : d = c
  · subst same
    rw [if_pos rfl, if_pos rfl, Array.getElem?_eq_getElem (lt_of_owners h)]
    rfl
  · rw [if_neg fun eq => same (congrArg Callable.mk eq), if_neg same]
    rfl

theorem owners_disowns (s : Shared) (d c : Callable) :
    (s.post (.disowns d)).owners c = s.owners c - if d = c then 1 else 0 := by
  cases hd : s.held[d.id]? with
  | none =>
    rw [post, disown_of_none hd]
    by_cases same : d = c
    · subst same
      rw [owners, hd]
      exact (Nat.zero_sub _).symm
    · rw [if_neg same]
      rfl
  | some x =>
    rw [post, disown_of_held hd, owners, Array.getElem?_modify, owners]
    by_cases same : d = c
    · subst same
      rw [if_pos rfl, if_pos rfl, hd]
      rfl
    · rw [if_neg fun eq => same (congrArg Callable.mk eq), if_neg same]
      rfl

theorem live_congr {s' : Shared} (h : ∀ c, c ∈ s'.live a ↔ c ∈ s.live a) :
    (s'.live a).length = (s.live a).length :=
  ((List.perm_ext_iff_of_nodup (s'.nodup_live a) (s.nodup_live a)).mpr h).length_eq

/-- What an account says is not changed by a posting for another one. -/
theorem heldFor_modify {s' : Shared} {b : Nat} {f : Account → Account}
    (entry : s'.accounts = s.accounts.modify b f) (h : a < s.accounts.size) :
    s'.heldFor a = if b = a then (f s.accounts[a]).held else s.heldFor a := by
  rw [heldFor, entry, Array.getElem?_modify, heldFor, Array.getElem?_eq_getElem h]
  split <;> rfl

theorem Counted.opens (h : s.Counted) : (s.post .opens).Counted := by
  have same : (s.post .opens).live = s.live := rfl
  have size : (s.post .opens).accounts.size = s.accounts.size + 1 := Array.size_push _
  refine ⟨fun a lt => ?_, fun c a held => ?_⟩
  · rw [same, heldFor, post, Array.getElem?_push]
    by_cases last : a = s.accounts.size
    · have none : s.live a = [] := by
        refine List.eq_nil_iff_forall_not_mem.mpr fun c mem => ?_
        exact absurd (h.accounts c a (mem_live.mp mem).1) (by omega)
      rw [if_pos last, none]
      rfl
    · rw [if_neg last]
      exact h.held a (by omega)
  · have lt := h.accounts c a held
    omega

theorem Counted.closes (h : s.Counted) (b : Nat) : (s.post (.closes b)).Counted := by
  have same : (s.post (.closes b)).live = s.live := rfl
  have entry : (s.post (.closes b)).accounts =
      s.accounts.modify b fun x => { x with isOpen := false } := rfl
  have size : (s.post (.closes b)).accounts.size = s.accounts.size := Array.size_modify
  refine ⟨fun a lt => ?_, fun c a held => size ▸ h.accounts c a held⟩
  rw [size] at lt
  rw [same, heldFor_modify entry lt, ← h.held a lt, heldFor, Array.getElem?_eq_getElem lt]
  split <;> rfl

theorem Counted.owns (h : s.Counted) (owned : 0 < s.owners d) : (s.post (.owns d)).Counted := by
  refine ⟨fun a lt => (h.held a lt).trans (live_congr fun c => ?_).symm, fun c a held => ?_⟩
  · rw [mem_live, mem_live, accountOf_owns, owners_owns owned]
    refine and_congr_right fun _ => ?_
    by_cases same : d = c
    · subst same
      rw [if_pos rfl]
      exact iff_of_true (Nat.succ_pos _) owned
    · rw [if_neg same]
      rfl
  · rw [accountOf_owns] at held
    exact h.accounts c a held

theorem Counted.creates (h : s.Counted) {f : Value} {b : Nat} (lt : b < s.accounts.size) :
    (s.post (.creates f b)).Counted := by
  have entry : (s.post (.creates f b)).accounts =
      s.accounts.modify b fun x => { x with held := x.held + 1 } := rfl
  have size : (s.post (.creates f b)).accounts.size = s.accounts.size := Array.size_modify
  have mem (c : Callable) (a : Nat) : c ∈ (s.post (.creates f b)).live a ↔
      c ∈ s.live a ∨ c = ⟨s.held.size⟩ ∧ b = a := by
    rw [mem_live, mem_live, accountOf_creates, owners_creates]
    by_cases new : c = ⟨s.held.size⟩
    · subst new
      have none : ¬ 0 < s.owners ⟨s.held.size⟩ := fun owned => Nat.lt_irrefl _ (lt_of_owners owned)
      simp [none]
    · have old : c.id ≠ s.held.size := fun eq => new (congrArg Callable.mk eq)
      simp [old, new]
  refine ⟨fun a lta => ?_, fun c a held => ?_⟩
  · rw [size] at lta
    have before := h.held a lta
    rw [heldFor, Array.getElem?_eq_getElem lta] at before
    rw [heldFor_modify entry lta]
    by_cases own : b = a
    · have fresh : ⟨s.held.size⟩ ∉ s.live a :=
        fun there => Nat.lt_irrefl _ (lt_of_owners (mem_live.mp there).2)
      have perm : ((s.post (.creates f b)).live a).Perm (⟨s.held.size⟩ :: s.live a) := by
        refine (List.perm_ext_iff_of_nodup (nodup_live _ _)
          (List.nodup_cons.mpr ⟨fresh, s.nodup_live a⟩)).mpr fun c => ?_
        rw [mem, List.mem_cons, or_comm, and_iff_left own]
      rw [if_pos own, perm.length_eq, List.length_cons, ← before]
      rfl
    · rw [if_neg own, live_congr fun c => (mem c a).trans (or_iff_left fun new => own new.2)]
      exact h.held a lta
  · rw [size]
    rw [accountOf_creates] at held
    split at held
    · obtain rfl := Option.some.inj held
      exact lt
    · exact h.accounts c a held

theorem Counted.disowns (h : s.Counted) (owned : 0 < s.owners d) :
    (s.post (.disowns d)).Counted := by
  obtain ⟨x, found⟩ : ∃ x, s.held[d.id]? = some x :=
    ⟨_, Array.getElem?_eq_getElem (lt_of_owners owned)⟩
  have account : s.accountOf d = some x.account := by rw [accountOf, found]; rfl
  have count : s.owners d = x.owners := by rw [owners, found]; rfl
  have posted : (s.post (.disowns d)).accounts = if x.owners = 1 then
      s.accounts.modify x.account fun a => { a with held := a.held - 1 } else s.accounts := by
    rw [post, disown_of_held found]
  have size : (s.post (.disowns d)).accounts.size = s.accounts.size := by
    rw [posted]
    split
    · exact Array.size_modify
    · rfl
  have mem (c : Callable) (a : Nat) : c ∈ (s.post (.disowns d)).live a ↔
      c ∈ s.live a ∧ ¬ (c = d ∧ x.owners = 1) := by
    rw [mem_live, mem_live, accountOf_disowns, owners_disowns, and_assoc]
    refine and_congr_right fun _ => ?_
    by_cases same : d = c
    · subst same
      rw [if_pos rfl, count, and_iff_right rfl]
      omega
    · rw [if_neg same]
      exact (and_iff_left fun both => same both.1.symm).symm
  refine ⟨fun a lta => ?_, fun c a held => ?_⟩
  · rw [size] at lta
    have before := h.held a lta
    by_cases last : x.owners = 1 ∧ x.account = a
    · obtain ⟨one, rfl⟩ := last
      have there : d ∈ s.live x.account := mem_live.mpr ⟨account, owned⟩
      have perm : ((s.post (.disowns d)).live x.account).Perm ((s.live x.account).erase d) := by
        refine (List.perm_ext_iff_of_nodup (nodup_live _ _)
          ((s.nodup_live _).erase d)).mpr fun c => ?_
        rw [mem, (s.nodup_live _).mem_erase_iff, and_comm, and_iff_left one]
      rw [if_pos one] at posted
      rw [heldFor_modify posted lta, if_pos rfl, perm.length_eq, List.length_erase_of_mem there,
        ← before, heldFor, Array.getElem?_eq_getElem lta]
      rfl
    · have same : (s.post (.disowns d)).heldFor a = s.heldFor a := by
        by_cases one : x.owners = 1
        · rw [if_pos one] at posted
          rw [heldFor_modify posted lta, if_neg fun eq => last ⟨one, eq⟩]
        · rw [if_neg one] at posted
          rw [heldFor, posted, heldFor]
      rw [same, before]
      refine (live_congr fun c => (mem c a).trans (and_iff_left_of_imp fun there => ?_)).symm
      rintro ⟨rfl, one⟩
      exact last ⟨one, Option.some.inj (account.symm.trans (mem_live.mp there).1)⟩
  · rw [size]
    rw [accountOf_disowns] at held
    exact h.accounts c a held

/-- A sound posting keeps the counts exact. -/
theorem Counted.post (h : s.Counted) (sound : s.Sound p) : (s.post p).Counted := by
  cases p with
  | opens => exact h.opens
  | closes b => exact h.closes b
  | creates f b => exact h.creates sound
  | owns d => exact h.owns sound
  | disowns d => exact h.disowns sound.1

/-- With exact counts, the owner that goes has to be there, and that is enough. -/
theorem Counted.sound_disowns (h : s.Counted) (owned : 0 < s.owners c) : s.Sound (.disowns c) := by
  obtain ⟨a, account⟩ := exists_accountOf owned
  refine ⟨owned, a, account, fun _ => ?_⟩
  rw [h.held a (h.accounts c a account)]
  exact List.length_pos_of_mem (mem_live.mpr ⟨account, owned⟩)

theorem sound_congr {s' : Shared} (h : s.books = s'.books) (sound : s.Sound p) : s'.Sound p := by
  have accounts : s.accounts = s'.accounts := (Prod.mk.inj h).1
  cases p with
  | opens | closes => exact sound
  | creates f a =>
    rw [Sound, accounts] at sound
    exact sound
  | owns c =>
    rw [Sound, owners_congr h] at sound
    exact sound
  | disowns c =>
    obtain ⟨owned, a, account, counted⟩ := sound
    rw [owners_congr h] at owned counted
    rw [accountOf_congr h] at account
    rw [heldFor, accounts] at counted
    exact ⟨owned, a, account, counted⟩

/-! ## Postings in a row -/

/-- Postings that are sound one after the other. -/
def SoundAll (s : Shared) : List Posting → Prop
  | [] => True
  | p :: ps => s.Sound p ∧ (s.post p).SoundAll ps

theorem soundAll_append {s : Shared} :
    s.SoundAll (ps ++ qs) ↔ s.SoundAll ps ∧ (s.postAll ps).SoundAll qs := by
  induction ps generalizing s with
  | nil => exact (and_iff_right trivial).symm
  | cons p ps ih => exact (and_congr_right fun _ => ih).trans and_assoc.symm

theorem soundAll_congr {s s' : Shared} (h : s.books = s'.books) (sound : s.SoundAll ps) :
    s'.SoundAll ps := by
  induction ps generalizing s s' with
  | nil => trivial
  | cons p ps ih => exact ⟨sound_congr h sound.1, ih (books_post h p) sound.2⟩

theorem Counted.postAll {s : Shared} (h : s.Counted) (sound : s.SoundAll ps) :
    (s.postAll ps).Counted := by
  induction ps generalizing s with
  | nil => exact h
  | cons p ps ih => exact ih (h.post sound.1) sound.2

theorem Counted.congr {s' : Shared} (h : s.Counted) (books : s.books = s'.books) : s'.Counted := by
  obtain ⟨accounts, held⟩ := Prod.mk.inj books
  have live : s'.live = s.live := by
    funext a
    rw [Shared.live, Shared.live, accountOf_congr books, owners_congr books, held]
  refine ⟨fun a lt => ?_, fun c a account => ?_⟩
  · rw [live, heldFor, ← accounts]
    exact h.held a (accounts ▸ lt)
  · rw [← accounts]
    exact h.accounts c a (accountOf_congr books ▸ account)

/-! ## Functions that are let go -/

/-- A function that was held, and has no owner any more. -/
def Gone (s : Shared) (c : Callable) : Prop :=
  (s.accountOf c).isSome = true ∧ s.owners c = 0

instance (s : Shared) (c : Callable) : Decidable (s.Gone c) :=
  inferInstanceAs (Decidable (_ ∧ _))

/-- A posting lets a function go when that loses its last owner. -/
def release (s : Shared) : Posting → List Callable
  | .disowns c => if s.owners c = 1 then [c] else []
  | _ => []

/-- The functions that postings let go, in order. -/
def released (s : Shared) : List Posting → List Callable
  | [] => []
  | p :: ps => s.release p ++ (s.post p).released ps

/-- A sound posting lets go what is gone after it and was not before. -/
theorem count_release (sound : s.Sound p) (c : Callable) :
    (s.release p).count c + (if s.Gone c then 1 else 0) = if (s.post p).Gone c then 1 else 0 := by
  cases p with
  | opens | closes a => exact Nat.zero_add _
  | creates f a =>
    refine (Nat.zero_add _).trans (if_congr ?_ rfl rfl)
    rw [Gone, Gone, accountOf_creates, owners_creates]
    by_cases new : c.id = s.held.size
    · have none : s.accountOf c = none :=
        Option.eq_none_iff_forall_ne_some.mpr fun a held => Nat.ne_of_lt (lt_of_accountOf held) new
      simp [new, none]
    · rw [if_neg new, if_neg new]
  | owns d =>
    refine (Nat.zero_add _).trans (if_congr ?_ rfl rfl)
    rw [Gone, Gone, accountOf_owns, owners_owns sound]
    refine and_congr_right fun _ => ?_
    by_cases same : d = c
    · subst same
      exact iff_of_false (Nat.ne_of_gt sound) (by simp)
    · rw [if_neg same]
      rfl
  | disowns d =>
    obtain ⟨owned, a, account, -⟩ := sound
    have gone : (s.post (.disowns d)).Gone c ↔
        (s.accountOf c).isSome = true ∧ s.owners c - (if d = c then 1 else 0) = 0 := by
      rw [Gone, accountOf_disowns, owners_disowns]
    rw [if_congr gone rfl rfl, release]
    by_cases same : d = c
    · subst same
      rw [if_neg fun gone : s.Gone d => Nat.ne_of_gt owned gone.2]
      by_cases last : s.owners d = 1
      · simp [last, account]
      · have more : s.owners d - 1 ≠ 0 := by omega
        simp [last, more]
    · have other : (if s.owners d = 1 then [d] else []).count c = 0 := by
        split
        · exact List.count_eq_zero.mpr fun mem => same (List.mem_singleton.mp mem).symm
        · rfl
      rw [other, if_neg same, Nat.zero_add]
      rfl

/-- What sound postings let go is what is gone after them and was not before, each function once. -/
theorem count_released {s : Shared} (sound : s.SoundAll ps) (c : Callable) :
    (s.released ps).count c + (if s.Gone c then 1 else 0) =
      if (s.postAll ps).Gone c then 1 else 0 := by
  induction ps generalizing s with
  | nil => exact Nat.zero_add _
  | cons p ps ih =>
    rw [released, List.count_append, Nat.add_right_comm, count_release sound.1, Nat.add_comm]
    exact ih sound.2

/-! ## Postings and owners -/

/-- With exact counts, in which the owners are those of `before` and others, the postings are sound,
and then the owners are those of `after` and the others. -/
def Fits (s : Shared) (before : List Callable) (ps : List Posting) (after : List Callable) : Prop :=
  ∀ others : List Callable, s.Counted → (∀ c, s.owners c = (before ++ others).count c) →
    s.SoundAll ps ∧ ∀ c, (s.postAll ps).owners c = (after ++ others).count c

variable {before after before' after' cs ds : List Callable}

theorem Fits.perm (h : s.Fits before ps after) (hb : before'.Perm before) (ha : after'.Perm after) :
    s.Fits before' ps after' := by
  intro others counted owners
  obtain ⟨sound, owners'⟩ := h others counted fun c =>
    (owners c).trans ((hb.append_right others).count_eq c)
  exact ⟨sound, fun c => (owners' c).trans ((ha.append_right others).count_eq c).symm⟩

/-- Owners that stay are of no concern. -/
theorem Fits.frame (h : s.Fits before ps after) (rest : List Callable) :
    s.Fits (before ++ rest) ps (after ++ rest) := by
  intro others counted owners
  rw [List.append_assoc] at owners ⊢
  exact h (rest ++ others) counted owners

theorem Fits.trans {middle : List Callable} (h : s.Fits before ps middle)
    (h' : (s.postAll ps).Fits middle qs after) : s.Fits before (ps ++ qs) after := by
  intro others counted owners
  obtain ⟨sound, owners'⟩ := h others counted owners
  obtain ⟨sound', owners''⟩ := h' others (counted.postAll sound) owners'
  refine ⟨soundAll_append.mpr ⟨sound, sound'⟩, ?_⟩
  rw [postAll_append]
  exact owners''

theorem fits_nil (s : Shared) (before : List Callable) : s.Fits before [] before :=
  fun _ _ owners => ⟨trivial, owners⟩

theorem fits_opens : s.Fits before [.opens] before :=
  fun _ _ owners => ⟨⟨trivial, trivial⟩, owners⟩

theorem fits_closes (a : Nat) : s.Fits before [.closes a] before :=
  fun _ _ owners => ⟨⟨trivial, trivial⟩, owners⟩

theorem fits_creates (f : Value) {a : Nat} (lt : a < s.accounts.size) :
    s.Fits before [.creates f a] (⟨s.held.size⟩ :: before) := by
  intro others counted owners
  refine ⟨⟨lt, trivial⟩, fun c => (owners_creates s f a c).trans ?_⟩
  rw [List.cons_append, List.count_cons, ← owners]
  by_cases new : c = ⟨s.held.size⟩
  · subst new
    have none : s.owners ⟨s.held.size⟩ = 0 :=
      Nat.eq_zero_of_not_pos fun owned => Nat.lt_irrefl _ (lt_of_owners owned)
    simp [none]
  · have old : c.id ≠ s.held.size := fun eq => new (congrArg Callable.mk eq)
    simp [old, Ne.symm new]

/-- A function that has an owner gets a further one. -/
theorem fits_owns_one (owned : 0 < s.owners d ∨ d ∈ before) :
    s.Fits before [.owns d] (d :: before) := by
  intro others counted owners
  have some : 0 < s.owners d := owned.elim id fun mem => by
    rw [owners]
    exact List.count_pos_iff.mpr (List.mem_append_left _ mem)
  refine ⟨⟨some, trivial⟩, fun c => (owners_owns some c).trans ?_⟩
  rw [owners, List.cons_append, List.count_cons]
  simp

theorem fits_owns (owned : ∀ c ∈ cs, 0 < s.owners c) :
    s.Fits before (cs.map .owns) (cs ++ before) := by
  induction cs generalizing s before with
  | nil => exact fits_nil s before
  | cons d cs ih =>
    obtain ⟨first, rest⟩ := List.forall_mem_cons.mp owned
    have others : (s.post (.owns d)).Fits (d :: before) (cs.map .owns) (cs ++ d :: before) := by
      refine ih fun c mem => ?_
      rw [owners_owns first]
      exact Nat.lt_of_lt_of_le (rest c mem) (Nat.le_add_right _ _)
    exact ((fits_owns_one (.inl first)).trans others).perm (.refl _) List.perm_middle.symm

/-- Functions lose owners that they have. -/
theorem fits_disowns : s.Fits (ds ++ before) (ds.map .disowns) before := by
  induction ds generalizing s with
  | nil => exact fits_nil s before
  | cons d ds ih =>
    have one : s.Fits (d :: ds ++ before) [.disowns d] (ds ++ before) := by
      intro others counted owners
      have some : 0 < s.owners d := by
        rw [owners]
        exact List.count_pos_iff.mpr List.mem_cons_self
      refine ⟨⟨counted.sound_disowns some, trivial⟩, fun c => (owners_disowns s d c).trans ?_⟩
      rw [owners, List.cons_append, List.cons_append, List.count_cons]
      simp
    exact one.trans ih

end Shared

end CardBridge

import CardBridge.Proofs.ExactCounts
import CardBridge.Proofs.Realms
import Mathlib.Algebra.Ring.Nat

/-!
# Ownership

In every realm at every time, each owner of a function is a slot, a use by host code at work, or an
argument that some environment has staged (`Realm.claims`). What a step posts is fit for what it
does to those (`Realm.Later.fits`), so the counts are exact all the time (`Realm.Run.balanced`).
-/

namespace CardBridge

open Script (Value)
open Machine

/-! ## Slots -/

namespace Keyed

variable {κ α : Type} [DecidableEq κ]

theorem put_of_lookup_none {k : κ} {m : Keyed κ α} (h : m.lookup k = none) (v : α) :
    put k v m = m ++ [(k, v)] := by
  induction m with
  | nil => rfl
  | cons p m ih =>
    obtain ⟨k', v'⟩ := p
    rw [lookup_cons] at h
    split at h
    · cases h
    case isFalse other => rw [put, if_neg other, ih h, List.cons_append]

/-- The values of distinct keys without that of one key. -/
theorem values_erase (k : κ) {m : Keyed κ α} (distinct : (m.map Prod.fst).Nodup) :
    (m.map Prod.snd).Perm ((m.lookup k).toList ++ (erase k m).map Prod.snd) := by
  induction m with
  | nil => exact .refl _
  | cons p m ih =>
    obtain ⟨k', v⟩ := p
    obtain ⟨alone, distinct⟩ := List.nodup_cons.mp distinct
    by_cases here : k' = k
    · subst here
      have gone : m.lookup k' = none := by
        refine List.lookup_eq_none_iff.mpr fun p mem => bne_iff_ne.mpr fun eq => alone ?_
        exact List.mem_map.mpr ⟨p, mem, eq.symm⟩
      have rest : erase k' ((k', v) :: m) = m := by
        refine Eq.trans ?_ (erase_of_lookup_none gone)
        simp [erase]
      rw [rest, lookup_cons, if_pos rfl]
      exact .refl _
    · have rest : erase k ((k', v) :: m) = (k', v) :: erase k m := by simp [erase, here]
      rw [rest, lookup_cons, if_neg here]
      exact ((ih distinct).cons v).trans List.perm_middle.symm

end Keyed

namespace Shared

variable {s : Shared}

/-- Each slot holds one function. -/
def Distinct (s : Shared) : Prop :=
  (s.slots.map Prod.fst).Nodup

theorem slotted_postAll (s : Shared) (ps : List Posting) : (s.postAll ps).slotted = s.slotted := by
  rw [slotted, postAll_slots, slotted]

theorem Distinct.erase (h : s.Distinct) (slot : String) :
    ((Keyed.erase slot s.slots).map Prod.fst).Nodup :=
  h.sublist (List.filter_sublist.map _)

theorem Distinct.dropSlot (h : s.Distinct) (slot : String) : (s.dropSlot slot).Distinct := by
  rw [Distinct, dropSlot_eq]
  exact h.erase slot

theorem Distinct.fillSlot (h : s.Distinct) (slot : String) (c : Callable) :
    (s.fillSlot slot c).Distinct := by
  have gone : (Keyed.erase slot s.slots).lookup slot = none := Keyed.lookup_erase_self _ _
  rw [Distinct, fillSlot_eq, Keyed.put_of_lookup_none gone, List.map_append, List.nodup_append]
  refine ⟨h.erase slot, List.nodup_singleton _, fun k mem k' mem' => ?_⟩
  obtain ⟨p, there, rfl⟩ := List.mem_map.mp mem
  have other := (List.mem_filter.mp there).2
  rw [List.map_singleton, List.mem_singleton] at mem'
  rw [mem']
  simpa using other

/-- A function that was in a slot loses an owner when that is emptied. -/
theorem Distinct.fits_dropSlot (h : s.Distinct) (slot : String) (rest : List Callable) :
    s.Fits (s.slotted ++ rest) (s.emptying slot) ((s.dropSlot slot).slotted ++ rest) := by
  refine fits_disowns.perm ?_ (.of_eq (by rw [slotted, dropSlot_eq]))
  rw [← List.append_assoc]
  exact (Keyed.values_erase slot h).append_right rest

/-- A function that has an owner for the slot gets into it. -/
theorem Distinct.fits_fillSlot (h : s.Distinct) (slot : String) (c : Callable)
    (rest : List Callable) :
    s.Fits (c :: (s.slotted ++ rest)) (s.emptying slot) ((s.fillSlot slot c).slotted ++ rest) := by
  have gone : (Keyed.erase slot s.slots).lookup slot = none := Keyed.lookup_erase_self _ _
  have filled : (s.fillSlot slot c).slotted = (s.dropSlot slot).slotted ++ [c] := by
    rw [slotted, fillSlot_eq, Keyed.put_of_lookup_none gone, List.map_append, slotted, dropSlot_eq]
    rfl
  refine (h.fits_dropSlot slot (c :: rest)).perm List.perm_middle.symm ?_
  rw [filled, List.append_assoc]
  exact .refl _

end Shared

/-! ## Owners -/

/-- The owners that an environment at work knows of : the slots, its arguments and its uses. -/
def Machine.claims (m : Machine) : List Callable :=
  m.state.shared.slotted ++ (m.state.env.functions ++ inUse m.stack)

namespace Bridge

variable {b : Bridge}

theorem functions_push (q : Queue) (front : Bool) (a : Argument) :
    (b.setQueue q (State.push front a (b.queue q))).functions.Perm
      (Shared.callables [a] ++ b.functions) := by
  have whole : Shared.callables [a] ++ b.functions =
      Shared.callables (a :: (b.params ++ b.resumes)) := by
    rw [functions, Shared.callables, Shared.callables, Shared.callables, ← List.filterMap_append,
      List.singleton_append]
  rw [whole]
  refine List.Perm.filterMap _ ?_
  cases q <;> cases front <;>
    simp only [setQueue, queue, State.push, ArgumentQueue.pushFront, ArgumentQueue.pushBack,
      if_true, Bool.false_eq_true, if_false]
  · exact (List.append_assoc _ _ _).symm ▸ List.perm_middle
  · exact .refl _
  · rw [← List.append_assoc]
    exact List.perm_append_singleton _ _
  · exact List.perm_middle

theorem functions_clear (q : Queue) :
    b.functions.Perm (Shared.callables (b.queue q) ++ (b.setQueue q []).functions) := by
  rw [functions, functions, Shared.callables, Shared.callables, Shared.callables,
    ← List.filterMap_append]
  refine List.Perm.filterMap _ ?_
  cases q with
  | call => exact .refl _
  | resume =>
    simp only [queue, setQueue, List.append_nil]
    exact List.perm_append_comm

end Bridge

namespace Environment

theorem functions_of_none {env : Environment} (hb : env.bridge = none) : env.functions = [] := by
  rw [functions, hb]
  rfl

theorem functions_of_some {env : Environment} {b : Bridge} (hb : env.bridge = some b) :
    env.functions = b.functions := by
  rw [functions, hb]
  exact List.append_nil _

end Environment

/-- What does not change the queues does not change the functions in them. -/
theorem Effect.functions {s s' : State} {os os' : List Open} {us : List Update}
    (h : Effect s os us s' os') (quiet : ∀ u ∈ us, ∀ q args, u.onQueue q args = args) :
    s'.env.functions = s.env.functions := by
  cases hb : s.env.bridge with
  | none =>
    rw [Environment.functions_of_none hb, Environment.functions_of_none (h.foreign hb)]
  | some b =>
    have stays : ∀ us : List Update, (∀ u ∈ us, ∀ q args, u.onQueue q args = args) →
        ∀ q args, us.foldl (Update.onQueue q) args = args := by
      intro us
      induction us with
      | nil => exact fun _ _ _ => rfl
      | cons u us ih =>
        intro quiet q args
        obtain ⟨first, rest⟩ := List.forall_mem_cons.mp quiet
        rw [List.foldl_cons, first, ih rest]
    obtain ⟨b', hb', params⟩ := h.queue (q := .call) hb
    obtain ⟨b'', hb'', resumes⟩ := h.queue (q := .resume) hb
    obtain rfl := Option.some.inj (hb'.symm.trans hb'')
    rw [stays us quiet] at params resumes
    rw [Environment.functions_of_some hb, Environment.functions_of_some hb', Bridge.functions,
      Bridge.functions]
    exact congrArg Shared.callables (congrArg₂ (· ++ ·) params resumes)

/-- The postings of a change are fit for what it does to the slots and the queues. -/
theorem Update.fits {u : Update} {s : State} (rest : List Callable) (distinct : s.shared.Distinct)
    (account : ∀ a, s.env.account = some a → a < s.shared.accounts.size)
    (owned : ∀ q front c, u = .stage q front (.function c) → 0 < s.shared.owners c) :
    s.shared.Fits (s.shared.slotted ++ (s.env.functions ++ rest)) (u.postings s)
      ((u.apply s).shared.slotted ++ ((u.apply s).env.functions ++ rest)) := by
  have quiet {u : Update} (hq : ∀ q args, u.onQueue q args = args) :
      (u.apply s).env.functions = s.env.functions :=
    Effect.functions (.write u : Effect s [] [u] (u.apply s) []) fun u' mem => by
      rw [List.mem_singleton.mp mem]
      exact hq
  cases u with
  | stage q front a =>
    cases hb : s.env.bridge with
    | none =>
      rw [apply, State.stage_foreign hb]
      have none : (Update.stage q front a).postings s = [] := by
        cases a <;> simp [postings, hb]
      rw [none]
      exact Shared.fits_nil _ _
    | some b =>
      have hb' : (s.stage q front a).env.bridge =
          some (b.setQueue q (State.push front a (b.queue q))) := by simp [hb]
      have slots : ((Update.stage q front a).apply s).shared.slotted = s.shared.slotted := by
        simp only [apply, State.stage, hb]
        cases a <;> rfl
      have staged := b.functions_push q front a
      rw [slots, apply, Environment.functions_of_some hb', Environment.functions_of_some hb]
      cases a with
      | function c =>
        have own : (Update.stage q front (.function c)).postings s = [.owns c] := by
          simp [postings, hb]
        rw [own]
        refine (Shared.fits_owns_one (.inl (owned q front c rfl))).perm (.refl _) ?_
        exact ((staged.append_right rest).append_left _).trans List.perm_middle
      | nil | int | bool | text | object | value =>
        exact (Shared.fits_nil _ _).perm (.refl _) ((staged.append_right rest).append_left _)
  | clear q =>
    have slots : ((Update.clear q).apply s).shared.slotted = s.shared.slotted := by
      rw [apply, State.clear, Shared.disownAll_eq_postAll]
      exact Shared.slotted_postAll _ _
    rw [slots]
    cases hb : s.env.bridge with
    | none =>
      have none : s.staged q = [] := by simp [State.staged, hb]
      have hb' : (s.clear q).env.bridge = Option.none := by simp [hb]
      rw [apply, Environment.functions_of_none hb, Environment.functions_of_none hb', postings,
        none]
      exact Shared.fits_nil _ _
    | some b =>
      have some_queue : s.staged q = b.queue q := by simp [State.staged, hb]
      have hb' : (s.clear q).env.bridge = some (b.setQueue q []) := by simp [hb]
      rw [apply, Environment.functions_of_some hb, Environment.functions_of_some hb', postings,
        some_queue]
      refine Shared.fits_disowns.perm ?_ (.refl _)
      have taken := ((b.functions_clear q).append_right rest).append_left s.shared.slotted
      rw [List.append_assoc] at taken
      exact taken.trans (List.perm_append_comm_assoc _ _ _)
  | hold slot f =>
    rw [quiet fun _ _ => rfl]
    cases ha : s.env.account with
    | none =>
      simp only [apply, State.hold, postings, ha]
      exact Shared.fits_nil _ _
    | some a =>
      simp only [apply, State.hold, postings, ha]
      have created : (s.shared.post (.creates f a)).Distinct := distinct
      exact (Shared.fits_creates f (account a ha)).trans (created.fits_fillSlot slot _ _)
  | copySlot source target =>
    rw [quiet fun _ _ => rfl]
    cases hl : s.shared.slots.lookup source with
    | none =>
      simp only [apply, State.copySlot, postings, hl]
      exact Shared.fits_nil _ _
    | some c =>
      simp only [apply, State.copySlot, postings, hl]
      have there : c ∈ s.shared.slotted := by
        obtain ⟨before, after, eq, -⟩ := List.lookup_eq_some_iff.mp hl
        rw [Shared.slotted, eq]
        simp
      have owned : (s.shared.post (.owns c)).Distinct := distinct
      exact (Shared.fits_owns_one (.inr (List.mem_append_left _ there))).trans
        (owned.fits_fillSlot target c _)
  | dropSlot slot =>
    rw [quiet fun _ _ => rfl]
    exact distinct.fits_dropSlot slot _
  | register o cls =>
    rw [quiet fun _ _ => rfl, apply, State.register_shared]
    exact Shared.fits_nil _ _
  | unregister o =>
    rw [quiet fun _ _ => rfl, apply, State.unregister_shared]
    exact Shared.fits_nil _ _
  | report site f =>
    obtain ⟨journal, e⟩ := s.report_shared site f
    rw [quiet fun _ _ => rfl, apply, e]
    exact Shared.fits_nil _ _
  | emit kind text =>
    obtain ⟨journal, e⟩ := s.emit_shared kind text
    rw [quiet fun _ _ => rfl, apply, e]
    exact Shared.fits_nil _ _
  | abandon | makeClass | makeTable | addChunk | called | ended =>
    rw [quiet fun _ _ => rfl]
    exact Shared.fits_nil _ _

theorem Update.distinct {s : State} (h : s.shared.Distinct) (u : Update) :
    (u.apply s).shared.Distinct := by
  cases u with
  | stage q front a =>
    cases hb : s.env.bridge with
    | none => rwa [apply, State.stage_foreign hb]
    | some b =>
      simp only [apply, State.stage, hb]
      cases a <;> exact h
  | clear q =>
    rw [apply, State.clear, Shared.disownAll_eq_postAll, Shared.Distinct, Shared.postAll_slots]
    exact h
  | hold slot f =>
    cases ha : s.env.account with
    | none => simpa only [apply, State.hold, ha] using h
    | some a =>
      simp only [apply, State.hold, ha]
      have created : (s.shared.post (.creates f a)).Distinct := h
      exact created.fillSlot slot _
  | copySlot source target =>
    cases hl : s.shared.slots.lookup source with
    | none => simpa only [apply, State.copySlot, hl] using h
    | some c =>
      simp only [apply, State.copySlot, hl]
      have owned : (s.shared.post (.owns c)).Distinct := h
      exact owned.fillSlot target c
  | dropSlot slot => exact h.dropSlot slot
  | register o cls => rwa [apply, State.register_shared]
  | unregister o => rwa [apply, State.unregister_shared]
  | report site f =>
    obtain ⟨journal, e⟩ := s.report_shared site f
    rw [apply, e]
    exact h
  | emit kind text =>
    obtain ⟨journal, e⟩ := s.emit_shared kind text
    rw [apply, e]
    exact h
  | abandon | makeClass | makeTable | addChunk | called | ended => exact h

theorem Open.leave_slots (o : Open) (s : State) (r : Reply) :
    (o.leave s r).shared.slots = s.shared.slots := by
  cases o with
  | guard =>
    obtain ⟨journal, e⟩ := s.leaveGuard_shared
    rw [leave, e]
  | loading cls table code =>
    obtain ⟨m, -, e⟩ := s.endLoading_eq cls table code r.isFailure
    rw [leave, e]
    rfl
  | holding cs =>
    rw [leave, Shared.foldl_disown_eq, Shared.postAll_slots]
  | query | step => rfl

theorem Scope.enter_slots {scope : Scope} {s s' : State} {o : Open}
    (h : scope.enter s = .ok (o, s')) : s'.shared.slots = s.shared.slots := by
  rw [Scope.enter_books h, Shared.postAll_slots]

/-- A scope that begins has in use what it posts owners for. -/
theorem Scope.enter_inUse {scope : Scope} {s s' : State} {o : Open}
    (h : scope.enter s = .ok (o, s')) : scope.postings = o.inUse.map .owns := by
  cases scope with
  | guard =>
    obtain ⟨rfl, -⟩ := Scope.enter_guard h
    rfl
  | query =>
    obtain ⟨rfl, -⟩ := Scope.enter_query h
    rfl
  | start id f =>
    obtain ⟨b, -, -, rfl, -⟩ := Scope.enter_start h
    rfl
  | proceed id =>
    obtain ⟨b, e, -, -, -, rfl, -⟩ := Scope.enter_proceed h
    rfl
  | loading code =>
    obtain ⟨rfl, -⟩ := Scope.enter_loading h
    rfl
  | holding cs =>
    obtain ⟨rfl, -⟩ := Scope.enter_holding h
    rfl

theorem Open.postings_eq (o : Open) : o.postings = o.inUse.map .disowns := by
  cases o <;> rfl

namespace Machine

variable {m m' : Machine}

theorem Move.distinct (h : Move m m') (distinct : m.state.shared.Distinct) :
    m'.state.shared.Distinct := by
  cases h with
  | leave => rwa [Shared.Distinct, Open.leave_slots]
  | write => exact Update.distinct distinct _
  | enter enters => rwa [Shared.Distinct, Scope.enter_slots enters]
  | back | read | run | trace | refuse | script | call | settle => exact distinct

/-- The postings of a move are fit for what it does to the owners. -/
theorem Move.fits (h : Move m m') (distinct : m.state.shared.Distinct)
    (account : ∀ a, m.state.env.account = some a → a < m.state.shared.accounts.size)
    (owned : ∀ c ∈ m.copied, 0 < m.state.shared.owners c) :
    m.state.shared.Fits m.claims m.postings m'.claims := by
  have quiet := h.effect.functions
  cases h with
  | @leave s o k r K =>
    have slots : (o.leave s r).shared.slotted = s.shared.slotted :=
      congrArg (List.map Prod.snd) (o.leave_slots s r)
    have same := quiet fun u mem => (List.not_mem_nil mem).elim
    simp only [claims, postings, slots, same, o.postings_eq]
    refine Shared.fits_disowns.perm ?_ (.refl _)
    exact ((List.perm_append_comm_assoc _ _ _).append_left _).trans
      (List.perm_append_comm_assoc _ _ _)
  | write =>
    refine Update.fits _ distinct account fun q front c eq => ?_
    subst eq
    exact owned c List.mem_cons_self
  | @enter s scope body refused k K o s' enters =>
    have slots : s'.shared.slotted = s.shared.slotted :=
      congrArg (List.map Prod.snd) (Scope.enter_slots enters)
    have same := quiet fun u mem => (List.not_mem_nil mem).elim
    have named : ∀ c ∈ o.inUse, 0 < s.shared.owners c := by
      cases scope with
      | holding cs =>
        obtain ⟨rfl, -⟩ := Scope.enter_holding enters
        exact owned
      | guard | query | start | proceed | loading =>
        have none : o.inUse.map Posting.owns = [] := (Scope.enter_inUse enters).symm
        rw [List.map_eq_nil_iff.mp none]
        exact fun c mem => (List.not_mem_nil mem).elim
    simp only [claims, postings, slots, same, Scope.enter_inUse enters]
    refine (Shared.fits_owns named).perm (.refl _) ?_
    exact ((List.perm_append_comm_assoc _ _ _).append_left _).trans
      (List.perm_append_comm_assoc _ _ _)
  | @refuse s scope body refused k K f refuses =>
    cases scope with
    | holding cs => cases refuses
    | guard | query | start | proceed | loading => exact Shared.fits_nil _ _
  | back | read | run | trace | script | call | settle => exact Shared.fits_nil _ _

end Machine

/-! ## Realms -/

namespace Resident

/-- The owners in an environment : what it has staged, and what its host code has in use. -/
def claims (A : Resident) : List Callable :=
  A.env.functions ++ inUse A.stack

theorem claims_atRest {A : Resident} (h : A.AtRest) : A.claims = A.env.functions := by
  rw [claims, h.1]
  exact List.append_nil _

end Resident

namespace Realm

variable {S S' : Realm} {ps qs : List Posting} {c : Callable} {a : Nat}

/-- All owners there are. -/
def claims (S : Realm) : List Callable :=
  S.shared.slotted ++ S.residents.flatMap (·.claims)

theorem mem_claims_of_clones (h : c ∈ S.clones) : c ∈ S.claims := by
  obtain slotted | used := List.mem_append.mp h
  · exact List.mem_append_left _ slotted
  · obtain ⟨A, mem, used⟩ := List.mem_flatMap.mp used
    exact List.mem_append_right _ (List.mem_flatMap.mpr ⟨A, mem, List.mem_append_right _ used⟩)

/-- The counts of a realm are exact. -/
structure Balanced (S : Realm) : Prop where
  orderly : S.Orderly
  distinct : S.shared.Distinct
  counted : S.shared.Counted
  owners : ∀ c, S.shared.owners c = S.claims.count c

theorem claims_split (shared : Shared) (L R : List Resident) (A : Resident) (made : Nat) :
    (claims ⟨L ++ A :: R, shared, made⟩).Perm
      ((shared.slotted ++ A.claims) ++ (L ++ R).flatMap (·.claims)) := by
  rw [claims, List.flatMap_append, List.flatMap_cons, List.flatMap_append, List.append_assoc]
  exact (List.perm_append_comm_assoc _ _ _).append_left _

/-- The postings of a step are fit for what it does to the owners. -/
theorem Later.fits (h : Later S ps S') (balanced : S.Balanced) :
    S.shared.Fits S.claims ps S'.claims ∧ S'.shared.Distinct := by
  obtain ⟨orderly, distinct, counted, owners⟩ := balanced
  cases h with
  | @moves L R A shared made m move owned =>
    have account (a : Nat) (own : A.env.account = some a) : a < shared.accounts.size :=
      Shared.lt_of_isOpen
        (orderly.accounts A (List.mem_append_right _ List.mem_cons_self) a own).1
    have some (c : Callable) (mem : c ∈ (A.machine shared).copied) : 0 < shared.owners c :=
      (owners c).symm ▸ List.count_pos_iff.mpr (mem_claims_of_clones (owned c mem))
    refine ⟨?_, move.distinct distinct⟩
    exact ((move.fits distinct account some).frame _).perm (claims_split _ _ _ _ _)
      (claims_split _ _ _ (A.moved m) _)
  | @begins L R A shared made memory rest edits c =>
    refine ⟨?_, distinct⟩
    have same : Resident.claims ⟨A.name, { A.env with memory }, .host c, []⟩ = A.claims := by
      rw [Resident.claims_atRest rest]
      exact List.append_nil _
    rw [claims, claims, List.flatMap_append, List.flatMap_append, List.flatMap_cons,
      List.flatMap_cons, same]
    exact Shared.fits_nil _ _
  | makes b c => exact ⟨Shared.fits_opens, distinct⟩
  | makesForeign c => exact ⟨Shared.fits_nil _ _, distinct⟩
  | @closes L R A shared made rest =>
    rw [Host.closeEnvironment_eq]
    refine ⟨?_, by rwa [Shared.Distinct, Shared.postAll_slots]⟩
    have closed : shared.Fits (claims ⟨L ++ A :: R, shared, made⟩)
        (A.env.account.toList.map .closes) (claims ⟨L ++ A :: R, shared, made⟩) := by
      cases A.env.account with
      | none => exact Shared.fits_nil _ _
      | some a => exact Shared.fits_closes a
    have staged : (claims ⟨L ++ A :: R, shared, made⟩).Perm
        (A.env.functions ++ (shared.slotted ++ (L ++ R).flatMap (·.claims))) := by
      refine (claims_split shared L R A made).trans ?_
      rw [Resident.claims_atRest rest, List.append_assoc]
      exact List.perm_append_comm_assoc _ _ _
    refine (closed.trans (Shared.fits_disowns.perm staged (.refl _))).perm (.refl _) ?_
    rw [claims, Shared.slotted_postAll]
  | shares => exact ⟨Shared.fits_nil _ _, distinct⟩

/-- A step keeps the counts exact, and each of its postings is sound. -/
theorem Later.balanced (h : Later S ps S') (balanced : S.Balanced) :
    S'.Balanced ∧ S.shared.SoundAll ps := by
  obtain ⟨fits, distinct⟩ := h.fits balanced
  obtain ⟨sound, owners⟩ := fits [] balanced.counted fun c => by
    rw [List.append_nil, balanced.owners]
  refine ⟨⟨h.orderly balanced.orderly, distinct, ?_, fun c => ?_⟩, sound⟩
  · exact (balanced.counted.postAll sound).congr h.books.symm
  · rw [Shared.owners_congr h.books, owners, List.append_nil]

theorem Run.balanced (h : Run S ps S') (balanced : S.Balanced) :
    S'.Balanced ∧ S.shared.SoundAll ps := by
  induction h with
  | done => exact ⟨balanced, trivial⟩
  | later run step ih =>
    obtain ⟨balanced, sound⟩ := ih
    obtain ⟨balanced', sound'⟩ := step.balanced balanced
    exact ⟨balanced', Shared.soundAll_append.mpr ⟨sound, Shared.soundAll_congr run.books sound'⟩⟩

theorem balanced_empty : empty.Balanced where
  orderly := orderly_empty
  distinct := List.nodup_nil
  counted :=
    ⟨fun a lt => absurd lt (Nat.not_lt_zero a),
      fun _ _ held => absurd (Shared.lt_of_accountOf held) (Nat.not_lt_zero _)⟩
  owners _ := rfl

/-! ## The counts -/

/-- How often a function is staged, in any queue of any environment. -/
def stagings (S : Realm) (c : Callable) : Nat :=
  (S.residents.map fun A =>
    ArgumentQueue.occurrences c (State.staged ⟨A.env, S.shared⟩ .call) +
      ArgumentQueue.occurrences c (State.staged ⟨A.env, S.shared⟩ .resume)).sum

theorem count_callables (args : List Argument) (c : Callable) :
    (Shared.callables args).count c = ArgumentQueue.occurrences c args := by
  induction args with
  | nil => rfl
  | cons a args ih =>
    rw [ArgumentQueue.occurrences, List.count_cons, ← ArgumentQueue.occurrences, ← ih]
    cases a with
    | function d =>
      have head : Shared.callables (.function d :: args) = d :: Shared.callables args := rfl
      rw [head, List.count_cons]
      simp
    | nil | int | bool | text | object | value => rfl

theorem count_functions (env : Environment) (shared : Shared) (c : Callable) :
    env.functions.count c = ArgumentQueue.occurrences c (State.staged ⟨env, shared⟩ .call) +
      ArgumentQueue.occurrences c (State.staged ⟨env, shared⟩ .resume) := by
  cases hb : env.bridge with
  | none =>
    rw [Environment.functions_of_none hb, State.staged, State.staged]
    simp only [hb]
    rfl
  | some b =>
    rw [Environment.functions_of_some hb, Bridge.functions, count_callables, State.staged,
      State.staged]
    simp only [hb]
    exact List.count_append

/-- An owner is what the host has, or what is staged. -/
theorem count_claims (S : Realm) (c : Callable) :
    S.claims.count c = S.clones.count c + S.stagings c := by
  have residents (l : List Resident) : (l.flatMap (·.claims)).count c =
      (l.flatMap fun A => inUse A.stack).count c +
        (l.map fun A => A.env.functions.count c).sum := by
    induction l with
    | nil => rfl
    | cons A l ih =>
      rw [List.flatMap_cons, List.flatMap_cons, List.map_cons, List.sum_cons, List.count_append,
        List.count_append, ih, Resident.claims, List.count_append]
      omega
  have staged : S.stagings c = (S.residents.map fun A => A.env.functions.count c).sum := by
    rw [stagings]
    exact congrArg List.sum (List.map_congr_left fun A _ => (count_functions A.env S.shared c).symm)
  rw [claims, clones, List.count_append, List.count_append, residents, staged, Nat.add_assoc]

/-- What an environment says is held of its functions is what has an owner. -/
theorem Balanced.heldFunctions (balanced : S.Balanced) (run : Run empty ps S) {A : Resident}
    (mem : A ∈ S.residents) : ∃ cs : List Callable, cs.Nodup ∧
      (∀ c, c ∈ cs ↔ S.Created A.name c ∧ 0 < S.shared.owners c) ∧
      State.heldFunctions ⟨A.env, S.shared⟩ = cs.length := by
  cases own : A.env.account with
  | none =>
    refine ⟨[], List.nodup_nil, fun c => ?_, by simp [State.heldFunctions, own]⟩
    refine iff_of_false List.not_mem_nil fun ⟨created, _⟩ => ?_
    obtain ⟨a, named, -⟩ := created.accountOf
    have other := (named.account A mem).mp rfl
    rw [own] at other
    cases other
  | some a =>
    refine ⟨S.shared.live a, S.shared.nodup_live a, fun c => ?_, ?_⟩
    · rw [run.created_iff mem own, Shared.mem_live]
    · have opened := (balanced.orderly.accounts A mem a own).1
      rw [← balanced.counted.held a (Shared.lt_of_isOpen opened)]
      simp [State.heldFunctions, own, Shared.heldFor]

/-- Functions and their owners have been counted exactly in the postings that led here. -/
structure CallablesCounted (S : Realm) (ps : List Posting) : Prop where
  /-- An environment says how many of the functions that it has created have an owner. -/
  held : ∀ A ∈ S.residents, ∃ cs : List Callable, cs.Nodup ∧
    (∀ c, c ∈ cs ↔ S.Created A.name c ∧ 0 < S.shared.owners c) ∧
    State.heldFunctions ⟨A.env, S.shared⟩ = cs.length
  /-- The owners of a function are what the host has of it, and its occurrences in queues. -/
  owners : ∀ c, S.shared.owners c = S.clones.count c + S.stagings c
  books : S.shared.books = (Shared.empty.postAll ps).books
  /-- No posting has taken a count below what was there. -/
  sound : ∀ qs p rs, ps = qs ++ p :: rs → (Shared.empty.postAll qs).Sound p
  /-- No function was let go twice. -/
  once : (Shared.empty.released ps).Nodup
  /-- A function was let go if it was created and has no owner. -/
  gone : ∀ c, c ∈ Shared.empty.released ps ↔
    (∃ name, S.Created name c) ∧ S.shared.owners c = 0

namespace Elsewhere

/-- An environment whose host code takes a function into a slot. -/
def creator : Resident :=
  ⟨0, (Host.Blueprint.plain ⟨1⟩).environment 0,
    .host (.write (.hold "slot" (.builtin .type)) .done), []⟩

/-- Another one, whose host code stages that function and empties the slot. -/
def stager : Resident :=
  ⟨1, (Host.Blueprint.plain ⟨2⟩).environment 1,
    .host (.write (.stage .resume true (.function ⟨0⟩)) (.write (.dropSlot "slot") .done)), []⟩

def opened : Realm :=
  ⟨[creator], Shared.empty.post .opens, 1⟩

def held : State :=
  State.hold ⟨creator.env, opened.shared⟩ "slot" (.builtin .type)

def left : Resident :=
  creator.moved ⟨held, .host .done, []⟩

def staged : State :=
  State.stage ⟨stager.env, held.shared.post .opens⟩ .resume true (.function ⟨0⟩)

/-- Both environments are there. -/
def together : Realm :=
  ⟨[stager, left], held.shared.post .opens, 2⟩

/-- The first environment is gone, and its function is in the queue of the second one. -/
def after : Realm :=
  ⟨[⟨1, staged.env, .host .done, []⟩],
    Host.closeEnvironment (staged.shared.dropSlot "slot") left.env, 2⟩

theorem creates : opened.Creates 0 ⟨0⟩ ⟨[left], held.shared, 1⟩ :=
  .holds (L := []) (R := []) rfl rfl rfl

theorem run_opened : ∃ ps, Run empty ps opened :=
  ⟨_, .later .done (.makes _ _)⟩

theorem run_together : ∃ ps, Run ⟨[left], held.shared, 1⟩ ps together :=
  ⟨_, .later .done (.makes (.plain ⟨2⟩) _)⟩

theorem run_after : ∃ ps, Run together ps after := by
  let next : Code := .write (.dropSlot "slot") .done
  have stages : Later together [.owns ⟨0⟩]
      ⟨[⟨1, staged.env, .host next, []⟩, left], staged.shared, 2⟩ := by
    refine .moves (L := []) (R := [left]) (A := stager) (m := ⟨staged, .host next, []⟩) .write ?_
    intro c mem
    rw [List.mem_singleton.mp mem]
    decide
  have drops : Later ⟨[⟨1, staged.env, .host next, []⟩, left], staged.shared, 2⟩
      (staged.shared.emptying "slot")
      ⟨[⟨1, staged.env, .host .done, []⟩, left], staged.shared.dropSlot "slot", 2⟩ := by
    refine .moves (L := []) (R := [left]) (A := ⟨1, staged.env, .host next, []⟩)
      (m := ⟨(Update.dropSlot "slot").apply staged, .host .done, []⟩) .write ?_
    exact fun c mem => (List.not_mem_nil mem).elim
  have closed : Later ⟨[⟨1, staged.env, .host .done, []⟩, left], staged.shared.dropSlot "slot", 2⟩ _
      after := .closes (L := [_]) (R := []) ⟨rfl, _, rfl⟩
  exact ⟨_, .later (.later (.later .done stages) drops) closed⟩

theorem created : together.Created 0 ⟨0⟩ ∧ after.Created 0 ⟨0⟩ := by
  obtain ⟨ps, opened⟩ := run_opened
  obtain ⟨qs, together⟩ := run_together
  obtain ⟨qs', after⟩ := run_after
  exact ⟨⟨_, _, _, _, opened, creates, together⟩,
    ⟨_, _, _, _, opened, creates, together.trans after⟩⟩

end Elsewhere

end Realm

end CardBridge

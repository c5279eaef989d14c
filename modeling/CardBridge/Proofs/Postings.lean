import CardBridge.Proofs.RefusedSteps
import CardBridge.Proofs.StagedAhead

/-!
# Postings

The accounts and the owners of functions are changed in `Posting`s. Those of a move are known from
what the machine is about to do (`Machine.postings`), and making them one after the other does to
the books what the move does (`Machine.Move.books`).

Host code that stages a function or has it in use becomes a further owner of it (`Machine.copied`).
All other owners come with a new function, or from a slot.
-/

namespace CardBridge

open Script (Value)
open Machine

/-! ## Accounts and owners -/

/-- A change of the accounts, or of who owns which functions. -/
inductive Posting
  /-- An account is opened. -/
  | opens
  | closes (account : Nat)
  /-- A function is held for an account, with one owner. -/
  | creates (f : Value) (account : Nat)
  /-- A function gets a further owner. -/
  | owns (c : Callable)
  /-- A function loses an owner. -/
  | disowns (c : Callable)

namespace Posting

/-- Whether a posting leaves alone which accounts there are and which of them are open. -/
def OfOwners : Posting → Prop
  | opens | closes _ => False
  | creates .. | owns _ | disowns _ => True

end Posting

namespace Shared

/-- Make a posting. -/
def post (s : Shared) : Posting → Shared
  | .opens => { s with accounts := s.accounts.push ⟨true, 0⟩ }
  | .closes a => { s with accounts := s.accounts.modify a fun x => { x with isOpen := false } }
  | .creates f a => { s with
      accounts := s.accounts.modify a fun x => { x with held := x.held + 1 }
      held := s.held.push ⟨f, a, 1⟩ }
  | .owns c => s.own c
  | .disowns c => s.disown c

/-- Make postings one after the other. -/
def postAll (s : Shared) (ps : List Posting) : Shared :=
  ps.foldl post s

/-- The accounts and the functions that are held. -/
def books (s : Shared) : Array Account × Array HeldFunction :=
  (s.accounts, s.held)

/-- Whether an account is open. -/
def isOpen (s : Shared) (a : Nat) : Bool :=
  ((s.accounts[a]?).map (·.isOpen)).getD false

/-- The account for which a function is held. -/
def accountOf (s : Shared) (c : Callable) : Option Nat :=
  (s.held[c.id]?).map (·.account)

variable {s s' : Shared} {c d : Callable} {a : Nat}

@[simp] theorem postAll_nil (s : Shared) : s.postAll [] = s :=
  rfl

theorem postAll_append (s : Shared) (ps qs : List Posting) :
    s.postAll (ps ++ qs) = (s.postAll ps).postAll qs :=
  List.foldl_append

theorem foldl_own_eq (cs : List Callable) (s : Shared) :
    cs.foldl own s = s.postAll (cs.map .owns) := by
  rw [postAll, List.foldl_map]
  rfl

theorem foldl_disown_eq (cs : List Callable) (s : Shared) :
    cs.foldl disown s = s.postAll (cs.map .disowns) := by
  rw [postAll, List.foldl_map]
  rfl

theorem disownAll_eq_postAll (args : List Argument) (s : Shared) :
    s.disownAll args = s.postAll ((callables args).map .disowns) := by
  rw [disownAll_eq, foldl_disown_eq]

/-- What a posting makes of the books hangs on the books. -/
theorem books_post (h : s.books = s'.books) (p : Posting) :
    (s.post p).books = (s'.post p).books := by
  obtain ⟨accounts, held⟩ := Prod.mk.inj h
  cases p with
  | disowns c =>
    cases hc : s.held[c.id]? with
    | none =>
      simp only [post, disown_of_none hc, disown_of_none (held ▸ hc), h]
    | some x =>
      simp only [post, disown_of_held hc, disown_of_held (held ▸ hc), books, accounts, held]
  | opens | closes | creates | owns => simp [post, own, books, accounts, held]

theorem books_postAll (ps : List Posting) :
    ∀ {s s' : Shared}, s.books = s'.books → (s.postAll ps).books = (s'.postAll ps).books := by
  induction ps with
  | nil => exact fun h => h
  | cons p ps ih => exact fun h => ih (books_post h p)

theorem isOpen_congr (h : s.books = s'.books) : s.isOpen = s'.isOpen := by
  funext a
  rw [isOpen, isOpen, (Prod.mk.inj h).1]

theorem accountOf_congr (h : s.books = s'.books) : s.accountOf = s'.accountOf := by
  funext c
  rw [accountOf, accountOf, (Prod.mk.inj h).2]

theorem owners_congr (h : s.books = s'.books) : s.owners = s'.owners := by
  funext c
  rw [owners, owners, (Prod.mk.inj h).2]

theorem lt_of_isOpen (h : s.isOpen a = true) : a < s.accounts.size := by
  refine Nat.lt_of_not_le fun beyond => ?_
  rw [isOpen, Array.getElem?_eq_none beyond] at h
  cases h

theorem lt_of_accountOf (h : s.accountOf c = some a) : c.id < s.held.size := by
  refine Nat.lt_of_not_le fun beyond => ?_
  rw [accountOf, Array.getElem?_eq_none beyond] at h
  cases h

/-- An entry changes how many functions are held for an account, not whether it is open. -/
theorem isOpen_modify {s' : Shared} {b : Nat} {f : Account → Account}
    (entry : s'.accounts = s.accounts.modify b f) (h : ∀ x, (f x).isOpen = x.isOpen) :
    s'.isOpen = s.isOpen ∧ s'.accounts.size = s.accounts.size := by
  refine ⟨funext fun a => ?_, by rw [entry, Array.size_modify]⟩
  rw [isOpen, isOpen, entry, Array.getElem?_modify]
  split
  · cases s.accounts[a]? <;> simp [h]
  · rfl

theorem isOpen_post {p : Posting} (owners : p.OfOwners) (s : Shared) :
    (s.post p).isOpen = s.isOpen ∧ (s.post p).accounts.size = s.accounts.size := by
  cases p with
  | creates f b =>
    have entry : (s.post (.creates f b)).accounts =
        s.accounts.modify b fun x => { x with held := x.held + 1 } := rfl
    exact isOpen_modify entry fun _ => rfl
  | owns c => exact ⟨rfl, rfl⟩
  | disowns c =>
    cases hc : s.held[c.id]? with
    | none => simp only [post, disown_of_none hc, true_and]
    | some x =>
      rw [post, disown_of_held hc]
      by_cases last : x.owners = 1
      · exact isOpen_modify (if_pos last) fun _ => rfl
      · rw [if_neg last]
        exact ⟨rfl, rfl⟩
  | opens | closes => exact owners.elim

/-- Postings that are about owners neither open nor close accounts. -/
theorem isOpen_postAll {ps : List Posting} (owners : ∀ p ∈ ps, p.OfOwners) (s : Shared) :
    (s.postAll ps).isOpen = s.isOpen ∧ (s.postAll ps).accounts.size = s.accounts.size := by
  induction ps generalizing s with
  | nil => exact ⟨rfl, rfl⟩
  | cons p ps ih =>
    obtain ⟨first, rest⟩ := List.forall_mem_cons.mp owners
    obtain ⟨same, size⟩ := isOpen_post first s
    obtain ⟨same', size'⟩ := ih rest (s.post p)
    exact ⟨same'.trans same, size'.trans size⟩

theorem isOpen_opens (s : Shared) (a : Nat) :
    (s.post .opens).isOpen a = if a = s.accounts.size then true else s.isOpen a := by
  rw [isOpen, post, Array.getElem?_push]
  split <;> rfl

theorem isOpen_closes (s : Shared) (a b : Nat) :
    (s.post (.closes b)).isOpen a = if b = a then false else s.isOpen a := by
  rw [isOpen, post, Array.getElem?_modify]
  split
  · cases s.accounts[a]? <;> rfl
  · rfl

theorem accountOf_modify {s' : Shared} {i : Nat} {f : HeldFunction → HeldFunction}
    (entry : s'.held = s.held.modify i f) (h : ∀ x, (f x).account = x.account) :
    s'.accountOf c = s.accountOf c := by
  rw [accountOf, accountOf, entry, Array.getElem?_modify]
  split
  · cases s.held[c.id]? <;> simp [h]
  · rfl

/-- A posting that creates a function says for which account. -/
theorem accountOf_creates (s : Shared) (f : Value) (a : Nat) (c : Callable) :
    (s.post (.creates f a)).accountOf c =
      if c.id = s.held.size then some a else s.accountOf c := by
  rw [accountOf, post, Array.getElem?_push]
  split <;> rfl

theorem accountOf_disowns (s : Shared) (d c : Callable) :
    (s.post (.disowns d)).accountOf c = s.accountOf c := by
  cases hd : s.held[d.id]? with
  | none => rw [post, disown_of_none hd]
  | some x =>
    have entry : (s.post (.disowns d)).held =
        s.held.modify d.id fun x => { x with owners := x.owners - 1 } := by
      rw [post, disown_of_held hd]
    exact accountOf_modify entry fun _ => rfl

theorem accountOf_owns (s : Shared) (d c : Callable) :
    (s.post (.owns d)).accountOf c = s.accountOf c := by
  have entry : (s.post (.owns d)).held =
      s.held.modify d.id fun x => { x with owners := x.owners + 1 } := rfl
  exact accountOf_modify entry fun _ => rfl

/-- A function stays in its account. -/
theorem accountOf_post (h : s.accountOf c = some a) (p : Posting) :
    (s.post p).accountOf c = some a := by
  cases p with
  | creates f b => rwa [accountOf_creates, if_neg (Nat.ne_of_lt (lt_of_accountOf h))]
  | owns d => rwa [accountOf_owns]
  | disowns d => rwa [accountOf_disowns]
  | opens | closes => exact h

theorem accountOf_postAll (h : s.accountOf c = some a) (ps : List Posting) :
    (s.postAll ps).accountOf c = some a := by
  induction ps generalizing s with
  | nil => exact h
  | cons p ps ih => exact ih (accountOf_post h p)

/-- A function of an account was there, or one is created. -/
theorem accountOf_postAll_cases {ps : List Posting} (h : (s.postAll ps).accountOf c = some a) :
    s.accountOf c = some a ∨ ∃ f b, .creates f b ∈ ps := by
  induction ps generalizing s with
  | nil => exact .inl h
  | cons p ps ih =>
    obtain before | ⟨f, b, mem⟩ := ih h
    · cases p with
      | creates f b => exact .inr ⟨f, b, List.mem_cons_self⟩
      | owns d => exact .inl (accountOf_owns s d c ▸ before)
      | disowns d => exact .inl (accountOf_disowns s d c ▸ before)
      | opens | closes => exact .inl before
    · exact .inr ⟨f, b, List.mem_cons_of_mem _ mem⟩

end Shared

/-! ## The postings of a move -/

/-- The postings by which a slot loses what is in it. -/
def Shared.emptying (s : Shared) (slot : String) : List Posting :=
  (s.slots.lookup slot).toList.map .disowns

/-- The postings of a change. -/
def Update.postings (s : State) : Update → List Posting
  | stage _ _ (.function c) => if s.env.bridge.isSome then [.owns c] else []
  | clear q => (Shared.callables (s.staged q)).map .disowns
  | hold slot f =>
    match s.env.account with
    | none => []
    | some a => .creates f a :: s.shared.emptying slot
  | copySlot source target =>
    match s.shared.slots.lookup source with
    | none => []
    | some c => .owns c :: s.shared.emptying target
  | dropSlot slot => s.shared.emptying slot
  | _ => []

/-- The postings at the begin of a scope. -/
def Scope.postings : Scope → List Posting
  | holding cs => cs.map .owns
  | _ => []

/-- The postings at the end of a scope. -/
def Open.postings : Open → List Posting
  | holding cs => cs.map .disowns
  | _ => []

namespace Machine

/-- The postings of the next move. -/
def postings : Machine → List Posting
  | ⟨s, .host (.write u _), _⟩ => u.postings s
  | ⟨_, .host (.scope scope _ _ _), _⟩ => scope.postings
  | ⟨_, .host (.finish _), .scope o _ :: _⟩ => o.postings
  | _ => []

/-- The functions to which the next move gives a further owner since host code has named them. -/
def copied : Machine → List Callable
  | ⟨_, .host (.write (.stage _ _ (.function c)) _), _⟩ => [c]
  | ⟨_, .host (.scope (.holding cs) _ _ _), _⟩ => cs
  | _ => []

end Machine

namespace State

variable {s : State}

theorem emit_shared (s : State) (kind : MessageKind) (text : String) :
    ∃ journal, (s.emit kind text).shared = { s.shared with journal } := by
  unfold emit
  split
  · split
    · exact ⟨_, rfl⟩
    · exact ⟨_, rfl⟩
  · exact ⟨_, rfl⟩

theorem report_shared (s : State) (site : String) (f : Failure) :
    ∃ journal, (s.report site f).shared = { s.shared with journal } := by
  refine s.report_induction (P := fun s' => ∃ journal, s'.shared = { s.shared with journal })
    (fun _ _ h => h) (fun s' kind text ⟨_, h⟩ => ?_) ⟨_, rfl⟩ site f
  obtain ⟨journal, sent⟩ := s'.emit_shared kind text
  exact ⟨journal, by rw [sent, h]⟩

theorem leaveGuard_shared (s : State) :
    ∃ journal, s.leaveGuard.shared = { s.shared with journal } := by
  unfold leaveGuard
  split
  · exact ⟨_, rfl⟩
  · dsimp only
    split
    · split
      · exact ⟨_, rfl⟩
      · exact ⟨_, rfl⟩
    · exact ⟨_, rfl⟩

end State

theorem Shared.post_slots (s : Shared) (p : Posting) : (s.post p).slots = s.slots := by
  cases p with
  | disowns c =>
    cases hc : s.held[c.id]? with
    | none => rw [post, disown_of_none hc]
    | some x => rw [post, disown_of_held hc]
  | opens | closes | creates | owns => rfl

theorem Shared.postAll_slots (ps : List Posting) :
    ∀ s : Shared, (s.postAll ps).slots = s.slots := by
  induction ps with
  | nil => exact fun s => rfl
  | cons p ps ih => exact fun s => (ih (s.post p)).trans (s.post_slots p)

/-- Owners do not depend on what is in the slots. -/
theorem Shared.disown_slots (s : Shared) (slots : Keyed String Callable) (c : Callable) :
    { s with slots }.disown c = { s.disown c with slots } := by
  have same : { s with slots }.held = s.held := rfl
  cases hc : s.held[c.id]? with
  | none => rw [disown_of_none hc, disown_of_none (same ▸ hc)]
  | some x => rw [disown_of_held hc, disown_of_held (same ▸ hc)]

/-- A slot is emptied with the postings for that. -/
theorem Shared.dropSlot_eq (s : Shared) (slot : String) : s.dropSlot slot =
    { s.postAll (s.emptying slot) with slots := Keyed.erase slot s.slots } := by
  unfold dropSlot emptying
  cases hl : s.slots.lookup slot with
  | none =>
    rw [Keyed.erase_of_lookup_none hl]
    rfl
  | some c => exact s.disown_slots _ c

theorem Shared.fillSlot_eq (s : Shared) (slot : String) (c : Callable) : s.fillSlot slot c =
    { s.postAll (s.emptying slot) with
      slots := Keyed.put slot c (Keyed.erase slot s.slots) } := by
  rw [fillSlot, dropSlot_eq]

/-- A change does to the books what its postings do. -/
theorem Update.apply_books (u : Update) (s : State) :
    (u.apply s).shared.books = (s.shared.postAll (u.postings s)).books := by
  cases u with
  | stage q front a =>
    cases hb : s.env.bridge with
    | none =>
      rw [apply, State.stage_foreign hb]
      cases a <;> simp [postings, hb]
    | some b =>
      have shared : (s.stage q front a).shared = s.shared.ownArgument a := by
        simp [State.stage, hb]
      rw [apply, shared]
      cases a <;> simp [postings, hb] <;> rfl
  | clear q =>
    rw [apply, State.clear, Shared.disownAll_eq_postAll]
    rfl
  | hold slot f =>
    cases ha : s.env.account with
    | none => simp [apply, State.hold, postings, ha]
    | some a =>
      simp only [apply, State.hold, postings, ha]
      rw [Shared.fillSlot_eq]
      rfl
  | copySlot source target =>
    cases hl : s.shared.slots.lookup source with
    | none => simp [apply, State.copySlot, postings, hl]
    | some c =>
      simp only [apply, State.copySlot, postings, hl]
      rw [Shared.fillSlot_eq]
      rfl
  | dropSlot slot =>
    simp only [apply, Shared.dropSlot_eq]
    rfl
  | report site f =>
    obtain ⟨journal, e⟩ := s.report_shared site f
    rw [apply, e]
    rfl
  | emit kind text =>
    obtain ⟨journal, e⟩ := s.emit_shared kind text
    rw [apply, e]
    rfl
  | register o cls => exact congrArg Shared.books (s.register_shared o cls)
  | unregister o => exact congrArg Shared.books (s.unregister_shared o)
  | abandon | makeClass | makeTable | addChunk | called | ended => rfl

theorem Scope.enter_books {scope : Scope} {s s' : State} {o : Open}
    (h : scope.enter s = .ok (o, s')) : s'.shared = s.shared.postAll scope.postings := by
  cases scope with
  | guard =>
    obtain ⟨-, b, depth, -, -, rfl⟩ := Scope.enter_guard h
    rfl
  | query =>
    obtain ⟨-, rfl⟩ := Scope.enter_query h
    rfl
  | start id f =>
    obtain ⟨b, -, -, -, rfl⟩ := Scope.enter_start h
    rfl
  | proceed id =>
    obtain ⟨b, e, -, -, -, -, rfl⟩ := Scope.enter_proceed h
    rfl
  | loading code =>
    obtain ⟨-, m, -, rfl⟩ := Scope.enter_loading h
    rfl
  | holding cs =>
    obtain ⟨-, rfl⟩ := Scope.enter_holding h
    exact Shared.foldl_own_eq cs s.shared

theorem Open.leave_books (o : Open) (s : State) (r : Reply) :
    (o.leave s r).shared.books = (s.shared.postAll o.postings).books := by
  cases o with
  | guard =>
    obtain ⟨journal, e⟩ := s.leaveGuard_shared
    rw [leave, e]
    rfl
  | loading cls table code =>
    obtain ⟨m, -, e⟩ := s.endLoading_eq cls table code r.isFailure
    rw [leave, e]
    rfl
  | holding cs => exact congrArg Shared.books (Shared.foldl_disown_eq cs s.shared)
  | query | step => rfl

/-- A move does to the books what its postings do. -/
theorem Machine.Move.books {m m' : Machine} (h : Move m m') :
    m'.state.shared.books = (m.state.shared.postAll m.postings).books := by
  cases h with
  | leave => exact Open.leave_books _ _ _
  | write => exact Update.apply_books _ _
  | enter enters => exact congrArg Shared.books (Scope.enter_books enters)
  | @refuse s scope body refused k K f refuses =>
    cases scope with
    | holding cs => cases refuses
    | guard | query | start | proceed | loading => rfl
  | back | read | run | trace | script | call | settle => rfl

/-- Host code does not open or close accounts. -/
theorem Machine.ofOwners_postings (m : Machine) : ∀ p ∈ m.postings, p.OfOwners := by
  have owned (cs : List Callable) : ∀ p ∈ cs.map Posting.owns, p.OfOwners := by
    intro p mem
    obtain ⟨c, -, rfl⟩ := List.mem_map.mp mem
    trivial
  have disowned (cs : List Callable) : ∀ p ∈ cs.map Posting.disowns, p.OfOwners := by
    intro p mem
    obtain ⟨c, -, rfl⟩ := List.mem_map.mp mem
    trivial
  have none : ∀ p ∈ ([] : List Posting), p.OfOwners := fun p mem => (List.not_mem_nil mem).elim
  have cons {p : Posting} {ps : List Posting} (hp : p.OfOwners) (h : ∀ p ∈ ps, p.OfOwners) :
      ∀ q ∈ p :: ps, q.OfOwners := List.forall_mem_cons.mpr ⟨hp, h⟩
  unfold postings
  split
  case h_1 s u c K =>
    unfold Update.postings
    split
    · split
      · exact cons trivial none
      · exact none
    · exact disowned _
    · split
      · exact none
      · exact cons trivial (disowned _)
    · split
      · exact none
      · exact cons trivial (disowned _)
    · exact disowned _
    · exact none
  case h_2 scope _ _ _ _ =>
    cases scope with
    | holding cs => exact owned cs
    | guard | query | start | proceed | loading => exact none
  case h_3 o _ _ =>
    cases o with
    | holding cs => exact disowned cs
    | guard | query | step | loading => exact none
  case h_4 => exact none

/-- Functions are created in one way only. -/
theorem Machine.hold_of_creates {m : Machine} {f : Value} {a : Nat}
    (h : .creates f a ∈ m.postings) : ∃ slot next,
      m.activity = .host (.write (.hold slot f) next) ∧ m.state.env.account = some a ∧
      m.postings = .creates f a :: m.state.shared.emptying slot := by
  have disowned (cs : List Callable) : .creates f a ∉ cs.map Posting.disowns := by simp
  have owned (cs : List Callable) : .creates f a ∉ cs.map Posting.owns := by simp
  obtain ⟨s, activity, K⟩ := m
  cases activity with
  | script => exact (List.not_mem_nil h).elim
  | host c =>
    cases c with
    | write u next =>
      cases u with
      | hold slot f' =>
        cases ha : s.env.account with
        | none => simp [postings, Update.postings, ha] at h
        | some b =>
          simp only [postings, Update.postings, ha, List.mem_cons] at h ⊢
          obtain same | there := h
          · cases same
            exact ⟨slot, next, rfl, rfl, rfl⟩
          · exact (disowned _ there).elim
      | stage q front b =>
        cases b <;> simp [postings, Update.postings] at h
      | clear q => exact (disowned _ h).elim
      | copySlot source target =>
        simp only [postings, Update.postings] at h
        split at h
        · exact (List.not_mem_nil h).elim
        · exact (disowned _ ((List.mem_cons.mp h).resolve_left nofun)).elim
      | dropSlot slot => exact (disowned _ h).elim
      | register | unregister | abandon | emit | report | makeClass | makeTable | addChunk | called
      | ended => exact (List.not_mem_nil h).elim
    | scope scope body refused k =>
      cases scope with
      | holding cs => exact (owned _ h).elim
      | guard | query | start | proceed | loading => exact (List.not_mem_nil h).elim
    | finish r =>
      cases K with
      | nil => exact (List.not_mem_nil h).elim
      | cons F K =>
        cases F with
        | scope o k =>
          cases o with
          | holding cs => exact (disowned _ h).elim
          | guard | query | step | loading => exact (List.not_mem_nil h).elim
        | script | native => exact (List.not_mem_nil h).elim
    | read | run | trace => exact (List.not_mem_nil h).elim

end CardBridge

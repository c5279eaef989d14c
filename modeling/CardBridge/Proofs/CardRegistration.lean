import CardBridge.Proofs.CardSetUp
import CardBridge.Proofs.HandlelessCode

/-!
# Registering cards

The registration of a card goes through four things that can fail : its script is loaded, the card
is registered, its member `initial_effect` is looked up and called. Whatever comes of the first and
of the last two, and whatever scripts do in them, the registration answers with the handle that the
card has got (`register_card_answers`). Loading comes before the card is registered, so a script may
register it first or unregister it; what the handle is then is read off the run from its begin to
the registration and from there to its end (`Code.returns_registerCard`).
-/

namespace CardBridge

open Relation (ReflTransGen)
open Machine

namespace Code

variable {K : List Frame} {s s' : State} {us : List Update} {r : Reply}

/-- In an environment that is no foreign one an object that is bound is registered, and the code
goes on with its handle. -/
theorem returns_bindObject {b : Bridge} (hb : s.env.bridge = some b) {o : ObjectRef}
    (live : o.kind ≠ .deleted) {cls : Option String} {k : Handle → Code}
    (ret : Returns K s (bindObject o cls k) us r s') :
    ∃ h s₁ us', Run K ⟨s, .host (bindObject o cls k), K⟩ [.register o cls] ⟨s₁, .host (k h), K⟩ ∧
      s₁.handleOf o = some h ∧ Returns K s₁ (k h) us' r s' ∧ us = .register o cls :: us' := by
  unfold bindObject at ret ⊢
  rw [if_neg live] at ret ⊢
  have bound := returns_read ret
  simp only [hb] at bound
  obtain ⟨us', rfl, registered⟩ := returns_write bound
  obtain ⟨h, handle⟩ := Option.isSome_iff_exists.mp (handleOf_register hb o cls)
  have rest := returns_read registered
  simp only [Update.apply, handle, Option.getD_some] at rest
  refine ⟨h, s.register o cls, us', ?_, handle, rest, rfl⟩
  refine .move .read List.suffix_rfl ?_
  simp only [hb]
  refine .move .write List.suffix_rfl (.move .read List.suffix_rfl ?_)
  simp only [Update.apply, handle, Option.getD_some]
  exact .done _

/-- What comes of setting a card up does not change the answer. -/
theorem returns_setUp {id : ObjectId} {h : Handle} {p : Prop} [Decidable p]
    (ret : Returns K s (if p then setUp id h else answer (.handle h)) us r s') :
    r = .answer (.handle h) := by
  split at ret
  · obtain ⟨us₁, -, called⟩ := returns_write ret
    obtain ⟨s₁, r₁, us₂, us₃, last, -⟩ := returns_andThen called
    exact (returns_finish last).2.1
  · exact (returns_finish ret).2.1

/-- A registration comes to where the card is registered, and answers with the handle that it has
then. -/
theorem returns_registerCard {objects : Array GameObject} (faithful : Faithful objects s.env)
    {info : CardInfo} (ret : Returns K s (registerCard info) us r s') :
    ∃ h c s₁ c₁ us₁ us₂, Run K ⟨s, .host c, K⟩ us₁ ⟨s₁, .host c₁, K⟩ ∧
      s₁.handleOf (.card info.id) = some h ∧ Returns K s₁ c₁ us₂ r s' ∧ us = us₁ ++ us₂ ∧
      r = .answer (.handle h) := by
  obtain ⟨b, hb, -⟩ := id faithful
  have begun := returns_read ret
  simp only [hb] at begun
  split at begun
  · obtain ⟨h, s₁, us', bound, handle, rest, rfl⟩ :=
      returns_bindObject (o := .card _) hb nofun begun
    exact ⟨h, _, s₁, _, _, us', bound, handle, rest, rfl, returns_setUp rest⟩
  · obtain ⟨s₁, r₁, us₁, us₂, loading, loaded, rfl⟩ := run_andThen begun
    obtain ⟨b₁, hb₁, -⟩ := faithful.later loading.later
    obtain ⟨h, s₂, us', bound, handle, rest, rfl⟩ :=
      returns_bindObject (o := .card _) hb₁ nofun loaded
    refine ⟨h, _, s₂, _, _, us', loading.trans bound, handle, rest, ?_, returns_setUp rest⟩
    rw [List.append_assoc, List.singleton_append]

/-- A card that is bound is registered, or the environment is a foreign one. -/
theorem path_bindObject_card {id : ObjectId} {cls : Option String} {k : Handle → Code}
    (path : (bindObject (.card id) cls k).Path us r) :
    us = [] ∨ ∃ us' h, us = .register (.card id) cls :: us' ∧ (k h).Path us' r := by
  rw [bindObject_card] at path
  cases path with
  | read s path =>
    dsimp only at path
    split at path
    · exact .inl (path_finish path).1
    · cases path with
      | write path =>
        cases path with
        | read s path => exact .inr ⟨_, _, rfl, path⟩

theorem path_setUp {id : ObjectId} {h : Handle} {p : Prop} [Decidable p]
    (path : (if p then setUp id h else answer (.handle h)).Path us r) :
    ∀ u ∈ us, ∀ o, ¬ u.Rebinds o := by
  split at path
  · cases path with
    | write path =>
      obtain ⟨us₁, r₁, us₂, called, last, rfl⟩ := path_andThen path
      obtain ⟨rfl, -⟩ := path_finish last
      rw [List.append_nil]
      exact List.forall_mem_cons.mpr
        ⟨fun _ => False.elim, (handleless_callCard _ _ _ _ _ _ _ called).1⟩
  · obtain ⟨rfl, -⟩ := path_finish path
    exact nofun

/-- Of the handles of objects, a registration itself reaches that of its card, and does not take it
away. -/
theorem path_registerCard {info : CardInfo} (path : (registerCard info).Path us r) :
    ∀ u ∈ us, ∀ o, u.Rebinds o → ∃ cls, u = .register (.card info.id) cls := by
  have bound {cls : Option String} {us : List Update} {p : Prop} [Decidable p]
      (path : (bindObject (.card info.id) cls fun h =>
        if p then setUp info.id h else answer (.handle h)).Path us r) :
      ∀ u ∈ us, ∀ o, u.Rebinds o → ∃ cls, u = .register (.card info.id) cls := by
    obtain rfl | ⟨us', h, rfl, registered⟩ := path_bindObject_card path
    · exact nofun
    · refine List.forall_mem_cons.mpr ⟨fun _ _ => ⟨_, rfl⟩, fun u mem o rebinds => ?_⟩
      exact absurd rebinds (path_setUp registered u mem o)
  cases path with
  | read s path =>
    dsimp only at path
    split at path
    · obtain ⟨rfl, -⟩ := path_finish path
      exact nofun
    · split at path
      · exact bound path
      · obtain ⟨us₁, r₁, us₂, loading, loaded, rfl⟩ := path_andThen path
        refine List.forall_mem_append.mpr ⟨fun u mem o rebinds => ?_, bound loaded⟩
        exact absurd rebinds ((handleless_loadCard _ _ _ loading).1 u mem o)

end Code

/-! ## Handles that were given out -/

variable {objects : Array GameObject} {K : List Frame} {s s' : State} {us : List Update}
    {h : Handle}

/-- The handle of a registered object has been given out. -/
theorem Faithful.handle_lt (faithful : Faithful objects s.env) (few : s.env.objects.size ≤ 2 ^ 32)
    {o : ObjectRef} (registered : s.handleOf o = some h) :
    h.raw.toNat < s.env.objects.size := by
  obtain ⟨b, hb, -, agrees⟩ := faithful
  exact (agrees few).handle_lt ((State.handleOf_of_bridge hb o).symm.trans registered)

/-- The handle of a registered object leads to it. -/
theorem Faithful.resolveHandle (faithful : Faithful objects s.env)
    (few : s.env.objects.size ≤ 2 ^ 32) {o : ObjectRef} (registered : s.handleOf o = some h) :
    s.resolveHandle h = some o := by
  obtain ⟨b, hb, -, agrees⟩ := faithful
  have found := (State.handleOf_of_bridge hb o).symm.trans registered
  obtain ⟨n, g, -, entry, -⟩ := (agrees few).payload_eq found
  simp [State.resolveHandle, hb, Registry.resolve, entry]

/-- A handle that an operation answers with has been given out. -/
theorem Operation.answered_lt {op : Operation}
    (ret : Code.Returns K s op.code us (.answer (.handle h)) s') (faithful : Faithful objects s.env)
    (few : s'.env.objects.size ≤ 2 ^ 32) : h.raw.toNat < s'.env.objects.size := by
  obtain ⟨own, -, path⟩ := Code.Returns.path ret
  obtain ⟨o, rfl⟩ | ⟨info, rfl⟩ := Operation.registers_of_handle path
  · have ret : Code.Returns K s (.bindObject o none fun h => .answer (.handle h)) us _ s' := ret
    by_cases live : o.kind = .deleted
    · rw [Code.bindObject, if_pos live] at ret
      exact nomatch (Code.returns_finish ret).2.1
    · obtain ⟨b, hb, -⟩ := id faithful
      obtain ⟨h', s₁, us', bound, handle, rest, rfl⟩ := Code.returns_bindObject hb live ret
      obtain ⟨-, eq, rfl⟩ := Code.returns_finish rest
      cases eq
      exact (faithful.later bound.later).handle_lt few handle
  · obtain ⟨h', c, s₁, c₁, us₁, us₂, before, handle, after, -, eq⟩ :=
      Code.returns_registerCard faithful ret
    cases eq
    obtain ⟨b, hb, persists, agrees⟩ := (faithful.later before.later).later (Run.later after)
    have few₁ := Nat.le_trans persists.size_le few
    exact Nat.lt_of_lt_of_le ((faithful.later before.later).handle_lt few₁ handle) persists.size_le

namespace Host

/-- An operation has answered with a handle before the life of an environment has come to a
moment. -/
def Blueprint.AnsweredBefore (b : Blueprint) (m : Machine) (h : Handle) : Prop :=
  ∃ (op : Operation) (K : List Frame) (us : List Update) (m₀ m₁ : Machine), b.Reaches m₀ ∧
    Code.Returns K m₀.state op.code us (.answer (.handle h)) m₁.state ∧ ReflTransGen Later m₁ m

/-- **The registration of a card answers with its handle**, whatever the script of the card does,
unless that comes to no end. If the card is not unregistered meanwhile, then in the end it is
registered under the handle; that is the one it had before, if it was registered, and otherwise it
is greater than all that operations have answered with before. Of the handles of objects the
registration reaches that of the card only, so others are what they were unless functions that
scripts have called have changed them. -/
theorem register_card_answers (b : Blueprint) (m : Machine) (reached : b.Reaches m)
    (info : CardInfo) :
    (∀ host K, (∃ h s', Code.Gives host K m.state (.registerCard info) (.answer (.handle h)) s') ∨
      Code.Hangs host K m.state (.registerCard info)) ∧
    ∀ K us r s', Code.Returns K m.state (.registerCard info) us r s' →
      ∃ h own, r = .answer (.handle h) ∧ own.Sublist us ∧
        (Code.registerCard info).Path own r ∧
        (∀ u ∈ own, ∀ o, u.Rebinds o → ∃ cls, u = .register (.card info.id) cls) ∧
        (s'.allocated < 2 ^ 32 →
          (.unregister (.card info.id) ∉ us → s'.handleOf (.card info.id) = some h ∧
            s'.resolveHandle h = some (.card info.id) ∧
            ∀ h₀, m.state.handleOf (.card info.id) = some h₀ → h = h₀) ∧
          (m.state.handleOf (.card info.id) = none →
            ∀ h₀, b.AnsweredBefore m h₀ → h₀.raw < h.raw) ∧
          ∀ o, (∀ u ∈ us, ¬ u.Rebinds o) → s'.handleOf o = m.state.handleOf o ∧
            ∀ h₀, m.state.handleOf o = some h₀ → s'.resolveHandle h₀ = some o) := by
  have faithful := reached.faithful
  refine ⟨fun host K => ?_, fun K us r s' ret => ?_⟩
  · refine (Code.gives_or_hangs host K m.state (.registerCard info)).imp_left ?_
    rintro ⟨r, s', gives⟩
    obtain ⟨us, ret⟩ := gives.returns
    obtain ⟨h, -, -, -, -, -, -, -, -, -, rfl⟩ := Code.returns_registerCard faithful ret
    exact ⟨h, s', gives⟩
  obtain ⟨h, c, s₁, c₁, us₁, us₂, before, handle, after, rfl, rfl⟩ :=
    Code.returns_registerCard faithful ret
  obtain ⟨own, sub, path⟩ := Code.Returns.path ret
  refine ⟨h, own, rfl, sub, path, Code.path_registerCard path, fun few => ?_⟩
  have few' : s'.env.objects.size ≤ 2 ^ 32 := by
    unfold State.allocated at few
    omega
  have faithful₁ := Faithful.later (m := ⟨m.state, .host c, K⟩) faithful before.later
  have faithful' := faithful₁.later (Run.later after)
  have few₁ : s₁.env.objects.size ≤ 2 ^ 32 := by
    obtain ⟨-, -, persists, -⟩ := faithful'
    exact Nat.le_trans persists.size_le few'
  refine ⟨fun stays => ?_, fun new h₀ given => ?_, fun o others => ?_⟩
  · have last := Run.handleOf_kept after faithful₁ few' handle fun mem =>
      stays (List.mem_append_right _ mem)
    refine ⟨last, faithful'.resolveHandle few' last, fun h₀ registered => ?_⟩
    have kept := Run.handleOf_kept ret faithful few' registered stays
    exact Option.some.inj (last.symm.trans kept)
  · obtain ⟨op, K₀, us₀, m₀, m₁, reached₀, ret₀, later⟩ := given
    have faithful₀ := Faithful.later (m := ⟨m₀.state, .host op.code, K₀⟩) reached₀.faithful
      (Run.later ret₀)
    obtain ⟨-, -, more₁, -⟩ := Faithful.later (m := m₁) faithful₀ later
    obtain ⟨-, -, more, -⟩ := id faithful₁
    have size_le := Nat.le_trans more₁.size_le more.size_le
    have given := Operation.answered_lt ret₀ reached₀.faithful (Nat.le_trans size_le few₁)
    obtain old | greater := before.handleOf_new faithful few₁ handle
    · exact nomatch new.symm.trans old
    · rw [UInt32.lt_iff_toNat_lt]
      exact Nat.lt_of_lt_of_le given (Nat.le_trans more₁.size_le greater)
  · have same : s'.handleOf o = m.state.handleOf o := Run.handleOf_eq ret others
    exact ⟨same, fun h₀ registered => faithful'.resolveHandle few' (same.trans registered)⟩

/-- The begin of the registration of a card whose script raises an error while it is loaded. -/
def raisingRegistration : Machine :=
  let blueprint := { Blueprint.plain ⟨1⟩ with reader := .store [("c7.lua", bytes "error('no')")] }
  .start ⟨blueprint.environment 0, .empty⟩ (.registerCard someCard)

/-- Whether a change unregisters some object. -/
def unregisters : Update → Bool
  | .unregister _ => true
  | _ => false

theorem register_card_answers_raising : ∃ us s' h,
    Code.Returns [] raisingRegistration.state (.registerCard someCard) us (.answer (.handle h)) s' ∧
      s'.handleOf (.card ⟨1⟩) = some h ∧ s'.resolveHandle h = some (.card ⟨1⟩) ∧
      Code.isClassLoaded s' 7 = false := by
  have reached : Blueprint.Reaches _ raisingRegistration := ⟨0, .empty, _, .refl⟩
  have ends : Code.endsAs (fun _ s => decide (s.allocated < 2 ^ 32) && !Code.isClassLoaded s 7)
      (run idle 60 raisingRegistration) = true := by decide +kernel
  have keeps :
      (written idle 60 raisingRegistration).all (!unregisters ·) = true := by decide +kernel
  unfold Code.endsAs at ends
  split at ends
  case h_2 => cases ends
  case h_1 r s' ended =>
    simp only [Bool.and_eq_true, decide_eq_true_eq, Bool.not_eq_true'] at ends
    have ret := run_of_ended 60 _ ended
    obtain ⟨h, -, rfl, -, -, -, last⟩ :=
      (register_card_answers _ _ reached someCard).2 [] _ _ _ ret
    have stays : .unregister (.card someCard.id) ∉ written idle 60 raisingRegistration :=
      fun mem => absurd (List.all_eq_true.mp keeps _ mem) (by decide)
    obtain ⟨registered, resolves, -⟩ := (last ends.1).1 stays
    exact ⟨_, s', h, ret, registered, resolves, ends.2⟩

end Host

end CardBridge

import CardBridge.Proofs.CardRegistration
import CardBridge.Proofs.MemberLookup

/-!
# Registering again

An object that is registered once more answers with the handle that it has, and the registry and the
memory of scripts stay as they are. Objects that are no cards stay as they are altogether, and so
does a card without a class. A card with a class loses it (`State.register_again`), for this is also
how a card is bound to its class, and to be registered as an object it brings none. Its members are
then those of all cards (`register_again_answers`), and calls of the functions of its script find
nothing (`not_members_kept`).
-/

namespace CardBridge

open Machine
open Script (Value)

namespace State

variable {s : State} {o : ObjectRef} {h : Handle} {n : Nat}

/-- A state in which a game object has no class. -/
def withoutClass (s : State) (n : Nat) : State :=
  { s with env := { s.env with objects := s.env.objects.modify n fun g => { g with cls := none } } }

/-- What registering an object again makes of a state, where its game object is `n`. -/
def refreshed (s : State) (o : ObjectRef) (n : Nat) : State :=
  if o.kind = .card then s.withoutClass n else s

theorem object_withoutClass (s : State) (n n' : Nat) : (s.withoutClass n).object n' =
    if n' = n then { s.object n with cls := none } else s.object n' := by
  simp only [withoutClass, object, Array.getElem?_modify]
  by_cases same : n' = n
  · subst same
    rw [if_pos rfl, if_pos rfl]
    cases s.env.objects[n']? <;> rfl
  · rw [if_neg (Ne.symm same), if_neg same]

/-- A game object that has no class is none the worse for it. -/
theorem withoutClass_of_none (h : (s.object n).cls = none) : s.withoutClass n = s := by
  have same : s.env.objects.modify n (fun g => { g with cls := none }) = s.env.objects := by
    refine Array.ext_getElem? fun k => ?_
    rw [Array.getElem?_modify]
    split
    case isTrue eq =>
      subst eq
      cases found : s.env.objects[n]? with
      | none => rfl
      | some g =>
        rw [object, found, Option.getD_some] at h
        rw [Option.map_some, ← h]
    case isFalse => rfl
  rw [withoutClass, same]

/-- Registering an object that is registered takes away the class of a card, and does nothing
else. -/
theorem register_again {b : Bridge} (hb : s.env.bridge = some b)
    (a : Agrees s.env.objects b.registry) (registered : s.handleOf o = some h) :
    ∃ n, (s.object n).live? = some o ∧ (s.object n).handle = h ∧
      s.register o none = s.refreshed o n := by
  have found := (handleOf_of_bridge hb o).symm.trans registered
  obtain ⟨n, g, payload, -, hg, live, object, handle⟩ := a.payload_eq found
  have known : s.object n = g := by rw [State.object, hg, Option.getD_some]
  refine ⟨n, ?_, known ▸ handle, ?_⟩
  · rw [known]
    exact GameObject.live?_eq_some_iff.mpr ⟨live, object⟩
  · rw [register_of_known s hb payload]
    rfl

/-- The members of other game objects stay what they are. -/
theorem member_withoutClass_of_ne {n' : Nat} (other : n' ≠ n) {key v : Value} :
    (s.withoutClass n).Member n' key v ↔ s.Member n' key v := by
  unfold Member
  rw [object_withoutClass, if_neg other]
  have same : (s.withoutClass n).env.memory = s.env.memory := rfl
  exact and_congr_right fun _ => memberOf_congr same

/-- Those of the game object are those of its kind. -/
theorem member_withoutClass_self {key v : Value} : (s.withoutClass n).Member n key v ↔
    (s.object n).kind ≠ .deleted ∧ s.MemberOf (s.object n).kind none key v := by
  unfold Member
  rw [object_withoutClass, if_pos rfl]
  have same : (s.withoutClass n).env.memory = s.env.memory := rfl
  exact and_congr_right fun _ => memberOf_congr same

end State

namespace Code

variable {host : Host} {K : List Frame} {s s' : State} {r : Reply} {o : ObjectRef} {h : Handle}

/-- Registering a registered object answers with its handle, whatever the host. -/
theorem gives_register_again_iff {b : Bridge} (hb : s.env.bridge = some b)
    (a : Agrees s.env.objects b.registry) (live : o.kind ≠ .deleted)
    (registered : s.handleOf o = some h) :
    Gives host K s (register o) r s' ↔ r = .answer (.handle h) ∧ s' = s.register o none := by
  have handle : (s.register o none).handleOf o = some h :=
    State.handleOf_register_self hb a registered none
  unfold register bindObject
  rw [if_neg live, gives_read_iff]
  simp only [hb]
  rw [gives_write_iff, gives_read_iff]
  simp only [Update.apply, handle, Option.getD_some]
  exact gives_finish_iff

end Code

namespace Host

/-- **Registering an object again** answers with the handle that it has. The registry, the memory of
scripts and all else is as before, but for the class of a card : that is lost. So other objects have
the members that they had, and a card has those of all cards, as if it had been registered without a
script. -/
theorem register_again_answers (b : Blueprint) (m : Machine) (reached : b.Reaches m)
    (few : m.state.allocated < 2 ^ 32) (o : ObjectRef) (live : o.kind ≠ .deleted) (h : Handle)
    (registered : m.state.handleOf o = some h) :
    ∃ n, (m.state.object n).live? = some o ∧ (m.state.object n).handle = h ∧
      (∀ host K r s', Code.Gives host K m.state (Operation.register o).code r s' ↔
        r = .answer (.handle h) ∧ s' = m.state.refreshed o n) ∧
      (m.state.refreshed o n).env.bridge = m.state.env.bridge ∧
      (m.state.refreshed o n).env.memory = m.state.env.memory ∧
      (o.kind ≠ .card ∨ (m.state.object n).cls = none → m.state.refreshed o n = m.state) ∧
      (∀ n' key v, n' ≠ n →
        ((m.state.refreshed o n).Member n' key v ↔ m.state.Member n' key v)) ∧
      (o.kind = .card → (m.state.refreshed o n).object n = { m.state.object n with cls := none } ∧
        ∀ key v, (m.state.refreshed o n).Member n key v ↔ m.state.MemberOf .card none key v) := by
  obtain ⟨x, hx, -, agrees⟩ := reached.faithful
  have a := agrees (by unfold State.allocated at few; omega)
  obtain ⟨n, alive, handle, again⟩ := State.register_again hx a registered
  have kind : (m.state.object n).kind = o.kind := GameObject.kind_of_live? alive
  refine ⟨n, alive, handle, fun host K r s' => ?_, ?_, ?_, ?_, ?_, fun card => ⟨?_, ?_⟩⟩
  · exact again ▸ Code.gives_register_again_iff hx a live registered
  · unfold State.refreshed
    split <;> rfl
  · unfold State.refreshed
    split <;> rfl
  · rintro (other | nothing)
    · exact if_neg other
    · unfold State.refreshed
      split
      · exact State.withoutClass_of_none nothing
      · rfl
  · intro n' key v other
    unfold State.refreshed
    split
    · exact State.member_withoutClass_of_ne other
    · rfl
  · rw [State.refreshed, if_pos card, State.object_withoutClass, if_pos rfl]
  · intro key v
    rw [State.refreshed, if_pos card, State.member_withoutClass_self, kind, card]
    exact and_iff_right nofun

/-! ### A card that loses its class -/

/-- The begin of the registration of a card whose script has a function `f`. -/
def scriptedRegistration : Machine :=
  let source := "function self_table.f() return 5 end"
  let blueprint := { Blueprint.plain ⟨1⟩ with reader := .store [("c7.lua", bytes source)] }
  .start ⟨blueprint.environment 0, .empty⟩ (.registerCard someCard)

/-- The call of that function. -/
def callOfScript : Code :=
  .callCard ⟨1⟩ "f" 0 (.exactly 1) false

/-- Whether a reply is one value, and which. -/
def givesValue (v : Value) (r : Reply) (_ : State) : Bool :=
  match r with
  | .answer (.values vs) => vs = [v]
  | _ => false

/-- What is there to see : when the card has been registered its function answers `5`, and when it
has been registered again it answers nothing. -/
def scriptedLook (s : State) : Bool :=
  decide (s.allocated < 2 ^ 32) && s.handleOf (.card ⟨1⟩) == some ⟨1⟩ &&
    Code.endsAs (givesValue (.int 5)) (run idle 60 (.start s callOfScript)) &&
    Code.endsAs (fun _ s' => Code.endsAs (givesValue .nil) (run idle 60 (.start s' callOfScript)))
      (run idle 60 (.start s (Operation.register (.card ⟨1⟩)).code))

theorem scriptedRegistration_ends : ∃ b m, Blueprint.Reaches b m ∧ m.state.allocated < 2 ^ 32 ∧
    m.state.handleOf (.card ⟨1⟩) = some ⟨1⟩ ∧
    (∃ s₁, Code.Gives idle [] m.state callOfScript (.answer (.values [.int 5])) s₁) ∧
    ∃ r s' s₂, Code.Gives idle [] m.state (Operation.register (.card ⟨1⟩)).code r s' ∧
      Code.Gives idle [] s' callOfScript (.answer (.values [.nil])) s₂ := by
  have value {v : Value} {r : Reply} {s : State} (h : givesValue v r s = true) :
      r = .answer (.values [v]) := by
    unfold givesValue at h
    split at h
    · rw [of_decide_eq_true h]
    · cases h
  have looks :
      Code.endsAs (fun _ s => scriptedLook s) (run idle 60 scriptedRegistration) = true := by
    decide +kernel
  unfold Code.endsAs at looks
  split at looks
  case h_2 => cases looks
  case h_1 r s ended =>
    simp only [scriptedLook, Bool.and_eq_true, decide_eq_true_eq, beq_iff_eq] at looks
    obtain ⟨⟨⟨few, registered⟩, before⟩, after⟩ := looks
    obtain ⟨r₁, s₁, called, five⟩ := Code.exists_gives before
    obtain ⟨r', s', again, nothing⟩ := Code.exists_gives after
    obtain ⟨r₂, s₂, called', none⟩ := Code.exists_gives nothing
    exact ⟨_, _, Blueprint.reaches_of_ended ended, few, registered, ⟨s₁, value five ▸ called⟩,
      r', s', s₂, again, value none ▸ called'⟩

theorem register_again_answers_card : ∃ b m n, Blueprint.Reaches b m ∧
    Code.Gives idle [] m.state (Operation.register (.card ⟨1⟩)).code (.answer (.handle ⟨1⟩))
      (m.state.refreshed (.card ⟨1⟩) n) ∧
    ((m.state.refreshed (.card ⟨1⟩) n).object n).cls = none := by
  obtain ⟨b, m, reached, few, registered, -⟩ := scriptedRegistration_ends
  obtain ⟨n, -, -, answers, -, -, -, -, card⟩ :=
    register_again_answers b m reached few (.card ⟨1⟩) nofun ⟨1⟩ registered
  exact ⟨b, m, n, reached, (answers _ _ _ _).mpr ⟨rfl, rfl⟩, by rw [(card rfl).1]⟩

/-- A card that is registered again is not what it was : the function of its script was found
before, and then it is not. -/
theorem not_members_kept : ∃ b m s' s₁ s₂, Blueprint.Reaches b m ∧
    m.state.handleOf (.card ⟨1⟩) = some ⟨1⟩ ∧
    Code.Gives idle [] m.state (Operation.register (.card ⟨1⟩)).code (.answer (.handle ⟨1⟩)) s' ∧
    Code.Gives idle [] m.state callOfScript (.answer (.values [.int 5])) s₁ ∧
    Code.Gives idle [] s' callOfScript (.answer (.values [.nil])) s₂ := by
  obtain ⟨b, m, reached, few, registered, ⟨s₁, before⟩, r, s', s₂, again, after⟩ :=
    scriptedRegistration_ends
  obtain ⟨x, hx, -, agrees⟩ := reached.faithful
  have a := agrees (by unfold State.allocated at few; omega)
  obtain ⟨rfl, -⟩ := (Code.gives_register_again_iff (o := .card ⟨1⟩) hx a nofun registered).mp again
  exact ⟨b, m, s', s₁, s₂, reached, registered, again, before, after⟩

end Host

end CardBridge

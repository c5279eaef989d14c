import CardBridge.Proofs.CardRegistration
import CardBridge.Proofs.ClassTables
import CardBridge.Proofs.ScopedLoads

/-!
# Members of cards

A member of a card is looked up in the class of its script and, if that has none, in the class of
cards. The second half is no part of the look-up: it is the work of the metatable that the load of
the script gives the class (`Machine.Loads`). A class that was there before its script was asked
for, because the host has installed a function in it or has made it, is taken for a loaded one and
never gets that metatable. So the members of all cards are found through classes that loads have
made and where there is no class (`card_members`), and through other classes they are not
(`not_member_of_all_cards`).

Scripts and functions of the host may do what they like in between, as long as they respect the
classes (`Machine.KeepsClasses`). A history then has the classes in order at every moment
(`History.cardClasses`), by a lemma for one move (`Classes.move`).
-/

namespace CardBridge

open Script (Value Memory Table)

/-! ## What is found in the classes -/

/-- What a class itself has for a key; a class that is not there has nothing. -/
def State.classValue (s : State) (name : String) (key : Value) : Value :=
  match s.global name with
  | .table t => s.env.memory.rawGet t key
  | _ => .nil

theorem State.classValue_of_table {s : State} {name : String} {t : Nat}
    (h : s.global name = .table t)
    (key : Value) : s.classValue name key = s.env.memory.rawGet t key := by
  rw [classValue, h]

theorem State.memberTable_of_table {s : State} {name : String} {t : Nat} (kind : ObjectKind)
    (h : s.global name = .table t) : s.memberTable kind (some name) = some t := by
  simp [memberTable, h]

theorem State.memberTable_of_missing {s : State} {name : String} {t : Nat} {kind : ObjectKind}
    (missing : ∀ t, s.global name ≠ .table t) (h : s.global kind.className = .table t) :
    s.memberTable kind (some name) = some t := by
  unfold memberTable
  rw [h]
  split
  case h_1 found => exact absurd (Option.some.inj found) (missing _)
  case h_2 found _ => rw [← Value.table.inj found]
  case h_3 _ never => exact absurd rfl (never t)

namespace Script.Memory.CardClasses

variable {made : Nat → Prop} {card t : Nat} {s : CardBridge.State} {code : UInt32} {key : Value}

theorem bare (h : CardClasses made card s.env.memory) : s.env.memory.Bare card := by
  simp [Bare, metafield, h.card_class.alone id]

theorem inherits (h : CardClasses made card s.env.memory)
    (isClass : ClassAt made card s.env.memory t) (isMade : made t) :
    s.env.memory.Inherits t card where
  behind := by
    simp only [metafield, isClass.behind isMade]
    exact h.card_index
  last := h.bare

/-- The class of a script has the first word. -/
theorem member_own (own : s.classValue (scriptClass code) key ≠ .nil) :
    s.MemberOf .card (some (scriptClass code)) key (s.classValue (scriptClass code) key) := by
  cases named : s.global (scriptClass code) with
  | table t =>
    rw [State.classValue_of_table named] at own ⊢
    exact .found (State.memberTable_of_table _ named) (.own own)
  | _ => exact absurd (by rw [State.classValue, named]) own

/-- The class of cards has the second word, where there is no class of a script or a load has made
it. -/
theorem member_of_all (h : CardClasses made card s.env.memory)
    (nothing : s.classValue (scriptClass code) key = .nil)
    (isMade : ∀ t, s.global (scriptClass code) = .table t → made t) :
    s.MemberOf .card (some (scriptClass code)) key
      (s.classValue ObjectKind.card.className key) := by
  have named : s.global ObjectKind.card.className = .table card := h.card_global
  rw [State.classValue_of_table named]
  by_cases there : ∃ t, s.global (scriptClass code) = .table t
  · obtain ⟨t, there⟩ := there
    rw [State.classValue_of_table there] at nothing
    exact .found (State.memberTable_of_table _ there)
      (.inherited nothing (h.inherits (h.script_class there) (isMade t there)))
  · exact .found (State.memberTable_of_missing (fun t eq => there ⟨t, eq⟩) named) (.bare h.bare)

/-- A class that no load has made has the last word, too. -/
theorem member_alone (h : CardClasses made card s.env.memory)
    (there : s.global (scriptClass code) = .table t) (notMade : ¬ made t) :
    s.MemberOf .card (some (scriptClass code)) key (s.classValue (scriptClass code) key) := by
  have bare : s.env.memory.Bare t := by
    simp [Bare, metafield, (h.script_class there).alone notMade]
  rw [State.classValue_of_table there]
  exact .found (State.memberTable_of_table _ there) (.bare bare)

end Script.Memory.CardClasses

/-! ## What a move does to the classes -/

namespace Machine

/-- The script of a card is about to be loaded. -/
def Loads (m : Machine) : Prop :=
  ∃ code body refused k, m.activity = .host (.scope (.loading code) body refused k)

/-- The classes of cards stay what they are as far as scripts are concerned, and so does what is
there when the host has made its preparations at rest. -/
structure KeepsClasses (m m' : Machine) : Prop where
  script {control : Script.Control} {stack : List Script.Frame} {base : Script.Base} :
    m.activity = .script control stack base → m.state.env.memory.Respects m'.state.env.memory
  rest {r : Reply} : m.activity = .host (.finish r) → m.stack = [] →
    m.state.env.memory.Prepared m'.state.env.memory

/-- The classes of cards are in order, where `made` says which tables loads have made. -/
structure Classes (made : Nat → Prop) (card : Nat) (m : Machine) : Prop where
  memory : m.state.env.memory.CardClasses made card
  bounded : ∀ t, made t → t < m.state.env.memory.tables.size

end Machine

theorem Update.cardClasses {made : Nat → Prop} {card : Nat} {s : State} (u : Update)
    (h : s.env.memory.CardClasses made card)
    (bounded : ∀ t, made t → t < s.env.memory.tables.size) :
    (u.apply s).env.memory.CardClasses made card := by
  cases u with
  | makeClass name => exact h.classTable bounded name
  | makeTable vs => exact h.addTable _
  | addChunk chunk body => exact h.congr rfl
  | report site f =>
    obtain ⟨messages, e⟩ := s.report_env site f
    simpa [apply, e] using h
  | register o cls =>
    obtain ⟨objects, registry, e⟩ := s.register_env o cls
    simpa [apply, e] using h
  | unregister o =>
    obtain ⟨objects, registry, e⟩ := s.unregister_env o
    simpa [apply, e] using h
  | stage | clear | abandon | emit | hold | copySlot | dropSlot | called | ended =>
    simpa [apply] using h

namespace Machine

variable {made made' : Nat → Prop} {card : Nat} {m m' : Machine}

theorem Classes.made_congr (h : m.Classes made card) (same : ∀ t, made' t ↔ made t) :
    m.Classes made' card := by
  obtain rfl : made' = made := funext fun t => propext (same t)
  exact h

/-- A move of the host, or of a script that respects the classes, leaves them in order. A load makes
one more. -/
theorem Classes.move (h : m.Classes made card) (move : Move m m') (kept : m.KeepsClasses m')
    (proper : ∀ o ∈ opens m.stack, o.Proper) :
    m'.Classes (fun t => made t ∨ m.Loads ∧ t = m.state.newClass) card := by
  have edits := move.effect.memory_edits
  have grown (t : Nat) (isMade : made t) : t < m'.state.env.memory.tables.size :=
    Nat.lt_of_lt_of_le (h.bounded t isMade) edits.tables_size_le
  have quiet (still : ¬ m.Loads) (memory : m'.state.env.memory.CardClasses made card) :
      m'.Classes (fun t => made t ∨ m.Loads ∧ t = m.state.newClass) card :=
    Classes.made_congr ⟨memory, grown⟩ fun _ => or_iff_left fun loads => still loads.1
  cases move with
  | @leave s o k r K =>
    refine quiet (fun ⟨_, _, _, _, eq⟩ => nomatch eq) ?_
    by_cases loads : ∃ cls t c, o = .loading cls t c
    · obtain ⟨cls, t, c, rfl⟩ := loads
      obtain ⟨code, rfl⟩ := proper _ List.mem_cons_self
      exact h.memory.endLoading code t c r.isFailure
    · rw [Open.leave_memory fun cls t c eq => loads ⟨cls, t, c, eq⟩]
      exact h.memory
  | back | read | run | trace => exact quiet (fun ⟨_, _, _, _, eq⟩ => nomatch eq) h.memory
  | write =>
    exact quiet (fun ⟨_, _, _, _, eq⟩ => nomatch eq) (Update.cardClasses _ h.memory h.bounded)
  | @enter s scope body refused k K o s' enters =>
    by_cases loads : ∃ code, scope = .loading code
    · obtain ⟨code, rfl⟩ := loads
      cases enters
      have same (t : Nat) : (made t ∨ Loads ⟨s, .host (.scope (.loading code) body refused k), K⟩ ∧
          t = s.newClass) ↔ made t ∨ t = s.newClass :=
        or_congr_right (and_iff_right ⟨code, body, refused, k, rfl⟩)
      have memory := h.memory.beginLoading code same
      refine ⟨memory, fun t isMade => ?_⟩
      obtain isMade | rfl := (same t).mp isMade
      · exact grown t isMade
      · exact (memory.script_class (State.global_beginLoading h.memory.hasGlobals code).1).lt_size
    · refine quiet (fun ⟨code, _, _, _, eq⟩ => loads ⟨code, ?_⟩) ?_
      · cases eq
        rfl
      · exact h.memory.congr (Scope.enter_tables enters fun code eq => loads ⟨code, eq⟩)
  | @refuse s scope body refused k K f refuses =>
    refine quiet (fun ⟨code, _, _, _, eq⟩ => ?_) h.memory
    cases eq
    cases refuses
  | script | call | settle =>
    exact quiet (fun ⟨_, _, _, _, eq⟩ => nomatch eq) (h.memory.respects edits (kept.script rfl))

end Machine

/-! ## Histories -/

namespace Host

/-- What a new environment has for the class of cards. -/
def libraryCard : Nat := 6

theorem libraryMemory_classes :
    libraryMemory.CardClasses (fun _ => False) libraryCard where
  hasGlobals := (Environment.New.made (.plain ⟨0⟩) 0).hasGlobals
  card_global := by decide +kernel
  card_class := {
    ne_globals := by decide
    lt_size := by decide +kernel
    behind := nofun
    alone := fun _ => by decide +kernel }
  card_index := by decide +kernel
  script_class {code t} named := by
    rw [global_libraryMemory] at named
    cases named

/-- A table has been made by a load. -/
def LoaderMade (past : List Machine) (t : Nat) : Prop :=
  ∃ m ∈ past, m.Loads ∧ t = m.state.newClass

/-- Scripts have respected the classes at all moments, the latest moment in front. -/
def KeptClasses (ms : List Machine) : Prop :=
  ms.IsChain fun after before => before.KeepsClasses after

theorem loaderMade_cons {m : Machine} {past : List Machine} {t : Nat} :
    LoaderMade (m :: past) t ↔ LoaderMade past t ∨ m.Loads ∧ t = m.state.newClass := by
  unfold LoaderMade
  rw [List.exists_mem_cons_iff, or_comm]

variable {b : Blueprint} {P : Code → Prop} {m : Machine} {past : List Machine}

/-- The classes of cards are in order at every moment. -/
theorem Blueprint.History.cardClasses (life : b.History P (m :: past))
    (kept : KeptClasses (m :: past)) : m.Classes (LoaderMade past) libraryCard := by
  generalize eq : m :: past = ms at life
  induction life generalizing m past with
  | new account shared h =>
    cases eq
    have none (t : Nat) : LoaderMade [] t ↔ False := by simp [LoaderMade]
    exact Machine.Classes.made_congr ⟨libraryMemory_classes, fun _ => False.elim⟩ none
  | @step host m m' past life lent h ih =>
    cases eq
    obtain ⟨here, before⟩ := List.isChain_cons_cons.mp kept
    have classes := (ih before rfl).move (Machine.move_of_step h) here life.reaches.proper
    exact classes.made_congr fun _ => loaderMade_cons
  | begins life h shared hc ih =>
    cases eq
    obtain ⟨here, before⟩ := List.isChain_cons_cons.mp kept
    have classes := ih before rfl
    have prepared := here.rest rfl rfl
    refine Machine.Classes.made_congr ⟨classes.memory.prepared classes.bounded prepared, ?_⟩
      fun t => loaderMade_cons.trans (or_iff_left fun loads => ?_)
    · exact fun t isMade =>
        Nat.lt_of_lt_of_le (classes.bounded t isMade) prepared.edits.tables_size_le
    · obtain ⟨⟨_, _, _, _, eq⟩, -⟩ := loads
      cases eq

/-- **A member of a card** is what the class of its script has for the key, if it has something.
What it does not have is looked for in the class of cards, if there is no class of the script or if
a load has made it. In a class that was made in another way it is looked for in vain. -/
theorem card_members (life : b.History P (m :: past)) (kept : KeptClasses (m :: past)) {n : Nat}
    {id : ObjectId} (alive : (m.state.object n).live? = some (.card id)) {code : UInt32}
    (bound : (m.state.object n).cls = some (scriptClass code)) (key : Value) :
    ∃ v, (∀ host K lent r s',
      Code.Gives host K m.state (Code.native lent .member [.object n, key]) r s' ↔
        r = .answer (.values [v]) ∧ s' = m.state) ∧
      (m.state.classValue (scriptClass code) key ≠ .nil →
        v = m.state.classValue (scriptClass code) key) ∧
      (m.state.classValue (scriptClass code) key = .nil →
        (∀ t, m.state.global (scriptClass code) = .table t → LoaderMade past t) →
        v = m.state.classValue ObjectKind.card.className key) ∧
      (m.state.classValue (scriptClass code) key = .nil →
        (∃ t, m.state.global (scriptClass code) = .table t ∧ ¬ LoaderMade past t) → v = .nil) := by
  have classes := (life.cardClasses kept).memory
  have kind : (m.state.object n).kind = .card := GameObject.kind_of_live? alive
  have gives {v : Value} (member : m.state.MemberOf .card (some (scriptClass code)) key v) :
      ∀ host K lent r s',
        Code.Gives host K m.state (Code.native lent .member [.object n, key]) r s' ↔
          r = .answer (.values [v]) ∧ s' = m.state := by
    intro host K lent r s'
    refine Code.gives_member_iff ⟨kind ▸ nofun, ?_⟩
    rw [kind, bound]
    exact member
  by_cases own : m.state.classValue (scriptClass code) key = .nil
  · by_cases made : ∀ t, m.state.global (scriptClass code) = .table t → LoaderMade past t
    · refine ⟨_, gives (classes.member_of_all own made), absurd own, fun _ _ => rfl, ?_⟩
      rintro - ⟨t, named, notMade⟩
      exact absurd (made t named) notMade
    · obtain ⟨t, notAll⟩ := Classical.not_forall.mp made
      obtain ⟨named, notMade⟩ := Classical.not_imp.mp notAll
      exact ⟨_, gives (classes.member_alone named notMade), absurd own,
        fun _ all => absurd all made, fun _ _ => own⟩
  · exact ⟨_, gives (Memory.CardClasses.member_own own), fun _ => rfl,
      fun nothing => absurd nothing own, fun nothing => absurd nothing own⟩

/-! ### A class that is there before its script -/

/-- Whether the host is at work, so that neither a script nor a preparation changes the memory
next. -/
def hostAtWork (m : Machine) : Bool :=
  match m.activity with
  | .host (.finish _) => !m.stack.isEmpty
  | .host _ => true
  | .script .. => false

theorem keepsClasses_of_hostAtWork {m m' : Machine} (work : hostAtWork m = true) :
    m.KeepsClasses m' where
  script busy := by simp [hostAtWork, busy] at work
  rest idle empty := by simp [hostAtWork, idle, empty] at work

/-- A function for all cards, and one for the cards with the code `7`. -/
def installed : Memory :=
  install (install libraryMemory ObjectKind.card.className "GetX" (.host 0)) (scriptClass 7) "G"
    (.host 1)

theorem installed_prepared : libraryMemory.Prepared installed :=
  (Memory.Prepared.refl.install _ (by decide) (by decide +kernel)).install _ (by decide)
    (by decide +kernel)

/-- A new environment at rest. -/
def atRest : Machine :=
  .start ⟨(Blueprint.plain ⟨1⟩).environment 0, .empty⟩ .done

/-- The begin of the registration of a card with the code `7`. -/
def registersPrepared : Machine :=
  .start ⟨{ atRest.state.env with memory := installed }, .empty⟩
    (Code.registerCard { Machine.someCard with setUp := false })

/-- The card is registered with the class of its script, which has the one function. The other one
is in the class of all cards. -/
structure PreparedCard (m : Machine) : Prop where
  alive : (m.state.object 1).live? = some (.card ⟨1⟩)
  bound : (m.state.object 1).cls = some (scriptClass 7)
  own : m.state.classValue (scriptClass 7) (.text "G") = .native (.host 1)
  missing : m.state.classValue (scriptClass 7) (.text "GetX") = .nil
  of_all : m.state.classValue ObjectKind.card.className (.text "GetX") = .native (.host 0)
  named : m.state.global (scriptClass 7) = .table 11
  bare : m.state.env.memory.metafield (.table 11) .index = .nil

theorem registersPrepared_life :
    ∃ m past, (Blueprint.plain ⟨1⟩).History (fun _ => True) (m :: past) ∧
    KeptClasses (m :: past) ∧ PreparedCard m := by
  have rest : KeptClasses [registersPrepared, atRest] := by
    refine .cons_cons ⟨nofun, fun _ _ => installed_prepared⟩ (.singleton _)
  have life : (Blueprint.plain ⟨1⟩).History (fun _ => True) [registersPrepared, atRest] :=
    .begins (.new 0 .empty trivial) installed_prepared.edits .empty trivial
  have works : stepsAs (fun m _ => hostAtWork m) idle 5 registersPrepared = true := by
    decide +kernel
  have kept : KeptClasses (moments idle 5 registersPrepared [atRest]) :=
    isChain_moments (fun _ _ => keepsClasses_of_hostAtWork) 5 rest works
  have life : (Blueprint.plain ⟨1⟩).History (fun _ => True)
      (moments idle 5 registersPrepared [atRest]) := .moments (fun _ _ => trivial) 5 life
  obtain ⟨m, past, eq, card⟩ : ∃ m past, moments idle 5 registersPrepared [atRest] = m :: past ∧
      PreparedCard m := by
    refine ⟨_, _, rfl, ?_⟩
    constructor <;> decide +kernel
  rw [eq] at life kept
  exact ⟨m, past, life, kept, card⟩

theorem card_members_prepared :
    ∃ m past, (Blueprint.plain ⟨1⟩).History (fun _ => True) (m :: past) ∧
    KeptClasses (m :: past) ∧ (m.state.object 1).live? = some (.card ⟨1⟩) ∧
    (m.state.object 1).cls = some (scriptClass 7) ∧
    Code.Gives idle [] m.state
      (Code.native (fun _ _ => .done) .member [.object 1, .text "G"])
      (.answer (.values [.native (.host 1)])) m.state := by
  obtain ⟨m, past, life, kept, card⟩ := registersPrepared_life
  obtain ⟨v, gives, own, -⟩ := card_members life kept card.alive card.bound (.text "G")
  rw [card.own] at own
  obtain rfl := own nofun
  exact ⟨m, past, life, kept, card.alive, card.bound, (gives _ _ _ _ _).mpr ⟨rfl, rfl⟩⟩

/-- A function of all cards is not found in a card whose class was there before its script : the
host had installed another function in it. -/
theorem not_member_of_all_cards : ∃ m past,
    (Blueprint.plain ⟨1⟩).History (fun _ => True) (m :: past) ∧ KeptClasses (m :: past) ∧
    (m.state.object 1).live? = some (.card ⟨1⟩) ∧ (m.state.object 1).cls = some (scriptClass 7) ∧
    m.state.classValue (scriptClass 7) (.text "GetX") = .nil ∧
    m.state.classValue ObjectKind.card.className (.text "GetX") = .native (.host 0) ∧
    Code.Gives idle [] m.state
      (Code.native (fun _ _ => .done) .member [.object 1, .text "GetX"])
      (.answer (.values [.nil])) m.state := by
  obtain ⟨m, past, life, kept, card⟩ := registersPrepared_life
  have kind : (m.state.object 1).kind = .card := GameObject.kind_of_live? card.alive
  have nothing : m.state.env.memory.rawGet 11 (.text "GetX") = .nil :=
    (State.classValue_of_table card.named _).symm.trans card.missing
  have member : m.state.Member 1 (.text "GetX") .nil := by
    refine ⟨kind ▸ nofun, ?_⟩
    rw [kind, card.bound]
    exact nothing ▸ .found (State.memberTable_of_table _ card.named) (.bare card.bare)
  exact ⟨m, past, life, kept, card.alive, card.bound, card.missing, card.of_all,
    (Code.gives_member_iff member).mpr ⟨rfl, rfl⟩⟩

end Host

end CardBridge

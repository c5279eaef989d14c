import CardBridge.Proofs.Globals
import CardBridge.Proofs.MemberLookup

/-!
# The tables of card classes

What the class `Card` and the classes of scripts are made of, and what keeps it. A table that the
load of a card's script makes has `Card` for a metatable, any other class has none (`CardClasses`).
The host changes no table that is there but that of the globals (`Memory.Extends`), and a new class
is a new table. Scripts may do anything, as long as they respect the classes (`Memory.Respects`).
-/

namespace CardBridge

open Script (Value Memory Table)

/-! ## Names -/

theorem bytes_append (a b : String) : bytes (a ++ b) = bytes a ++ bytes b := by
  simp [bytes]

/-- Whether a key begins as the names of the classes of scripts do. -/
def beginsAsClass : Value → Bool
  | .str (first :: _) => first == Bytes.ofAscii 'c'
  | _ => false

theorem beginsAsClass_text (code : UInt32) : beginsAsClass (.text (scriptClass code)) = true := by
  rw [Value.text, scriptClass, bytes_append]
  rfl

namespace Host

/-- The globals of a new environment that begin as the classes of scripts do are no classes. -/
theorem libraryMemory_fields : ∀ p ∈ (libraryMemory.table Script.globalTable).fields,
    beginsAsClass p.1 = true → p.1 = .text "collectgarbage" ∨ p.1 = .text "coroutine" := by
  decide +kernel

theorem global_libraryMemory (code : UInt32) : libraryMemory.global (scriptClass code) = .nil := by
  rw [Memory.global, Memory.rawGet, Table.get_text]
  cases found :
      (libraryMemory.table Script.globalTable).fields.lookup (.text (scriptClass code)) with
  | none => rfl
  | some v =>
    obtain ⟨before, after, eq, -⟩ := List.lookup_eq_some_iff.mp found
    have mem : (.text (scriptClass code), v) ∈ (libraryMemory.table Script.globalTable).fields := by
      rw [eq]
      simp
    rcases libraryMemory_fields _ mem (beginsAsClass_text code) with name | name <;>
      exact absurd (text_injective name) (scriptClass_ne_of_word code rfl)

end Host

/-! ## Tables that stay -/

theorem Script.Table.metatable_set (t : Table) (key v : Value) :
    (t.set key v).metatable = t.metatable := by
  unfold set
  dsimp only
  split
  · rfl
  · split
    · rfl
    · split <;> rfl

namespace Script.Memory

variable {m m' m'' : Memory}

/-- A memory has come from another one in which the tables are the same, but for that of the globals
and for new ones. -/
structure Extends (m m' : Memory) : Prop where
  size_le : m.tables.size ≤ m'.tables.size
  table_eq {t : Nat} : t ≠ globalTable → t < m.tables.size → m'.table t = m.table t

theorem Extends.refl (m : Memory) : Extends m m :=
  ⟨Nat.le_refl _, fun _ _ => rfl⟩

theorem Extends.trans (h : Extends m m') (h' : Extends m' m'') : Extends m m'' :=
  ⟨Nat.le_trans h.size_le h'.size_le, fun other here =>
    (h'.table_eq other (Nat.lt_of_lt_of_le here h.size_le)).trans (h.table_eq other here)⟩

theorem table_addTable {t : Nat} (here : t < m.tables.size) (new : Table) :
    (m.addTable new).2.table t = m.table t := by
  simp [table, addTable, Array.getElem?_push, Nat.ne_of_lt here]

theorem table_updateTable_of_ne {t t' : Nat} (other : t ≠ t') (f : Table → Table) :
    (m.updateTable t' f).table t = m.table t := by
  simp [table, updateTable, Array.getElem?_modify, Ne.symm other]

theorem table_updateTable_self {t : Nat} (here : t < m.tables.size) (f : Table → Table) :
    (m.updateTable t f).table t = f (m.table t) := by
  simp [table, updateTable, Array.getElem?_modify, Array.getElem?_eq_getElem here]

@[simp] theorem size_updateTable (m : Memory) (t : Nat) (f : Table → Table) :
    (m.updateTable t f).tables.size = m.tables.size := by
  simp [updateTable]

theorem Extends.addTable (m : Memory) (new : Table) : Extends m (m.addTable new).2 :=
  ⟨by simp [Memory.addTable], fun _ here => table_addTable here new⟩

theorem Extends.setGlobal (h : Extends m m') (name : String) (v : Value) :
    Extends m (setGlobal m' name v) := by
  refine h.trans ⟨by simp [CardBridge.setGlobal, rawSet], fun other _ => ?_⟩
  exact table_updateTable_of_ne other _

theorem Extends.addSelfIndexed (m : Memory) (metatable : Option Nat) :
    Extends m (addSelfIndexed m metatable).2 := by
  refine ⟨by simp [CardBridge.addSelfIndexed, Memory.addTable, rawSet], fun _ here => ?_⟩
  have other : _ ≠ m.tables.size := Nat.ne_of_lt here
  exact (table_updateTable_of_ne other _).trans (table_addTable here _)

theorem metatable_rawSet (m : Memory) (t : Nat) (key v : Value) (t' : Nat) :
    ((m.rawSet t key v).table t').metatable = (m.table t').metatable := by
  by_cases here : t' = t
  · subst here
    by_cases there : t' < m.tables.size
    · rw [rawSet, table_updateTable_self there, Table.metatable_set]
    · simp [table, rawSet, updateTable, there]
  · rw [rawSet, table_updateTable_of_ne here]

theorem metatable_addSelfIndexed (m : Memory) (metatable : Option Nat) :
    ((addSelfIndexed m metatable).2.table m.tables.size).metatable = metatable := by
  have added : ((m.addTable { Table.empty with metatable }).2.table m.tables.size).metatable =
      metatable := by
    simp [addTable, table]
  exact (metatable_rawSet _ _ _ _ _).trans added

theorem size_addSelfIndexed (m : Memory) (metatable : Option Nat) :
    (addSelfIndexed m metatable).2.tables.size = m.tables.size + 1 := by
  simp [addSelfIndexed, addTable, rawSet]

/-! ## Classes of cards -/

/-- A table is a class whose members are those of the class of cards, too, if `made` says that the
load of a script has made it. -/
structure ClassAt (made : Nat → Prop) (card : Nat) (m : Memory) (t : Nat) : Prop where
  ne_globals : t ≠ globalTable
  lt_size : t < m.tables.size
  behind : made t → (m.table t).metatable = some card
  alone : ¬ made t → (m.table t).metatable = none

/-- The table `card` is the class of cards, and all classes of scripts are as they should be. -/
structure CardClasses (made : Nat → Prop) (card : Nat) (m : Memory) : Prop where
  hasGlobals : m.HasGlobals
  card_global : m.global ObjectKind.card.className = .table card
  card_class : ClassAt (fun _ => False) card m card
  card_index : m.rawGet card (.text "__index") = .table card
  script_class {code : UInt32} {t : Nat} : m.global (scriptClass code) = .table t →
    ClassAt made card m t

variable {made made' : Nat → Prop} {card t : Nat}

/-- A class stays one as long as its metatable is the same. -/
theorem ClassAt.keep (h : ClassAt made card m t) (size_le : m.tables.size ≤ m'.tables.size)
    (metatable : (m'.table t).metatable = (m.table t).metatable) (same : made' t ↔ made t) :
    ClassAt made' card m' t where
  ne_globals := h.ne_globals
  lt_size := Nat.lt_of_lt_of_le h.lt_size size_le
  behind isMade := metatable.trans (h.behind (same.mp isMade))
  alone notMade := metatable.trans (h.alone fun isMade => notMade (same.mpr isMade))

theorem ClassAt.extend (h : ClassAt made card m t) (ext : Extends m m')
    (same : made' t ↔ made t) : ClassAt made' card m' t :=
  h.keep ext.size_le (congrArg _ (ext.table_eq h.ne_globals h.lt_size)) same

/-- A new class is a class, if the metatable that it gets is the right one. -/
theorem ClassAt.addSelfIndexed (globals : m.HasGlobals) {metatable : Option Nat}
    (behind : made m.tables.size → metatable = some card)
    (alone : ¬ made m.tables.size → metatable = none) :
    ClassAt made card (addSelfIndexed m metatable).2 m.tables.size where
  ne_globals := Nat.ne_of_gt globals
  lt_size := by
    rw [size_addSelfIndexed]
    exact Nat.lt_succ_self _
  behind isMade := (metatable_addSelfIndexed m metatable).trans (behind isMade)
  alone notMade := (metatable_addSelfIndexed m metatable).trans (alone notMade)

namespace CardClasses

/-- New tables and changed globals leave the classes as they are, if the globals that name classes
still do. -/
theorem extend (h : CardClasses made card m) (ext : Extends m m')
    (same : ∀ t < m.tables.size, (made' t ↔ made t))
    (card_global : m'.global ObjectKind.card.className = m.global ObjectKind.card.className)
    (script_class : ∀ code t, m'.global (scriptClass code) = .table t →
      m.global (scriptClass code) = .table t ∨ ClassAt made' card m' t) :
    CardClasses made' card m' where
  hasGlobals := Nat.lt_of_lt_of_le h.hasGlobals ext.size_le
  card_global := card_global.trans h.card_global
  card_class := h.card_class.extend ext .rfl
  card_index := by
    rw [rawGet, ext.table_eq h.card_class.ne_globals h.card_class.lt_size]
    exact h.card_index
  script_class named := (script_class _ _ named).elim
    (fun before => (h.script_class before).extend ext (same _ (h.script_class before).lt_size)) id

theorem congr (h : CardClasses made card m) (same : m'.tables = m.tables) :
    CardClasses made card m' := by
  have table_eq (t : Nat) : m'.table t = m.table t := by rw [table, table, same]
  have global_eq (name : String) : m'.global name = m.global name := by
    rw [global, global, rawGet, rawGet, table_eq]
  exact h.extend ⟨Nat.le_of_eq (congrArg Array.size same.symm), fun _ _ => table_eq _⟩
    (fun _ _ => .rfl) (global_eq _) fun code t named => .inl ((global_eq _).symm.trans named)

theorem addTable (h : CardClasses made card m) (new : Table) :
    CardClasses made card (m.addTable new).2 :=
  h.extend (.addTable m new) (fun _ _ => .rfl)
    (global_addTable h.hasGlobals _ _) fun code _ named =>
    .inl ((global_addTable h.hasGlobals _ (scriptClass code)).symm.trans named)

theorem addSelfIndexed (h : CardClasses made card m) (metatable : Option Nat)
    (same : ∀ t < m.tables.size, (made' t ↔ made t)) :
    CardClasses made' card (addSelfIndexed m metatable).2 :=
  h.extend (.addSelfIndexed m metatable) same (global_addSelfIndexed h.hasGlobals _ _)
    fun code _ named =>
      .inl ((global_addSelfIndexed h.hasGlobals _ (scriptClass code)).symm.trans named)

/-- A global may be set, if what names a class then is one. -/
theorem setGlobal (h : CardClasses made card m) {name : String}
    (other : name ≠ ObjectKind.card.className) {v : Value}
    (isClass : ∀ code t, scriptClass code = name → v = .table t → ClassAt made card m t) :
    CardClasses made card (setGlobal m name v) := by
  have ext := (Extends.refl m).setGlobal name v
  refine h.extend ext (fun _ _ => .rfl) ?_ fun code t named => ?_
  · rw [global_setGlobal h.hasGlobals, if_neg other.symm]
  · rw [global_setGlobal h.hasGlobals] at named
    split at named
    case isTrue here => exact .inr ((isClass code t here named).extend ext .rfl)
    case isFalse => exact .inl named

/-- The host may make any class. -/
theorem classTable (h : CardClasses made card m) (bounded : ∀ t, made t → t < m.tables.size)
    (name : String) : CardClasses made card (classTable m name).2 := by
  unfold CardBridge.classTable
  split
  case h_1 => exact h
  case h_2 missing =>
    have other : name ≠ ObjectKind.card.className := by
      rintro rfl
      exact missing _ h.card_global
    refine (h.addSelfIndexed none fun _ _ => .rfl).setGlobal other ?_
    rintro code t - ⟨⟩
    exact .addSelfIndexed h.hasGlobals (fun isMade => absurd (bounded _ isMade) (Nat.lt_irrefl _))
      fun _ => rfl

/-- The globals that a load has for the class and the code name no class. -/
theorem setLoading (h : CardClasses made card m) (t c : Value) :
    CardClasses made card
      (CardBridge.setGlobal (CardBridge.setGlobal m State.classGlobal t) State.codeGlobal c) :=
  (h.setGlobal (by decide) fun _ _ eq => absurd eq (scriptClass_ne (by decide))).setGlobal
    (by decide) fun _ _ eq => absurd eq (scriptClass_ne (by decide))

/-- The load of a script makes a class with that of cards behind it. -/
theorem beginLoading {s : CardBridge.State} (h : CardClasses made card s.env.memory) (code : UInt32)
    (same : ∀ t, made' t ↔ made t ∨ t = s.newClass) :
    CardClasses made' card (s.beginLoading code).env.memory := by
  have known : CardBridge.classTable s.env.memory ObjectKind.card.className =
      (card, s.env.memory) := by
    unfold CardBridge.classTable
    rw [← global, h.card_global]
  have new : s.newClass = s.env.memory.tables.size := by rw [State.newClass, known]
  have added : CardClasses made' card
      (CardBridge.addSelfIndexed s.env.memory (some card)).2 :=
    h.addSelfIndexed (some card) fun t here => by
      rw [same, new, or_iff_left (Nat.ne_of_lt here)]
  unfold State.beginLoading
  rw [known]
  refine (added.setGlobal (scriptClass_ne_card code) ?_).setLoading _ _
  rintro code' t - ⟨⟩
  exact .addSelfIndexed h.hasGlobals (fun _ => rfl) fun notMade =>
    absurd ((same _).mpr (.inr new.symm)) notMade

theorem endLoading {s : CardBridge.State} (h : CardClasses made card s.env.memory) (code : UInt32)
    (t c : Value) (failed : Bool) :
    CardClasses made card (s.endLoading (scriptClass code) t c failed).env.memory := by
  have restored := h.setLoading t c
  cases failed with
  | false => exact restored
  | true => exact restored.setGlobal (scriptClass_ne_card code) nofun

end CardClasses

/-! ## Scripts -/

/-- The global of this name is the class of cards, or that of a script. -/
def IsCardClass (name : String) : Prop :=
  name = ObjectKind.card.className ∨ ∃ code, name = scriptClass code

/-- The classes of cards are the same as before, with the same metatables, and the class of cards
has the same table behind it. Their fields may be others. -/
structure Respects (m m' : Memory) : Prop where
  global {name : String} : IsCardClass name → m'.global name = m.global name
  metatable {name : String} {t : Nat} : IsCardClass name → m.global name = .table t →
    (m'.table t).metatable = (m.table t).metatable
  index {t : Nat} : m.global ObjectKind.card.className = .table t →
    m'.rawGet t (.text "__index") = m.rawGet t (.text "__index")

theorem CardClasses.respects (h : CardClasses made card m) (edits : m.Edits m')
    (respects : m.Respects m') : CardClasses made card m' where
  hasGlobals := h.hasGlobals.edits edits
  card_global := (respects.global (.inl rfl)).trans h.card_global
  card_class :=
    h.card_class.keep edits.tables_size_le (respects.metatable (.inl rfl) h.card_global) .rfl
  card_index := (respects.index h.card_global).trans h.card_index
  script_class {code t} named := by
    have before : m.global (scriptClass code) = .table t :=
      (respects.global (.inr ⟨code, rfl⟩)).symm.trans named
    exact (h.script_class before).keep edits.tables_size_le
      (respects.metatable (.inr ⟨code, rfl⟩) before) .rfl

/-! ## Functions of the host -/

/-- What the host makes of the memory while nothing is at work : classes, and fields of them. -/
inductive Prepared (m : Memory) : Memory → Prop
  | refl : Prepared m m
  | makeClass {m' : Memory} (h : Prepared m m') (name : String) : Prepared m (classTable m' name).2
  | edit {m' m'' : Memory} (h : Prepared m m') (edits : m'.Edits m'') (respects : m'.Respects m'') :
    Prepared m m''

theorem Prepared.edits (h : m.Prepared m') : m.Edits m' := by
  induction h with
  | refl => exact .refl m
  | makeClass _ name ih => exact classTable_edits ih name
  | edit _ edits _ ih => exact Relation.ReflTransGen.trans ih edits

theorem CardClasses.prepared (h : CardClasses made card m)
    (bounded : ∀ t, made t → t < m.tables.size)
    (prepared : m.Prepared m') : CardClasses made card m' := by
  induction prepared with
  | refl => exact h
  | makeClass before name ih =>
    exact ih.classTable (fun t isMade =>
      Nat.lt_of_lt_of_le (bounded t isMade) before.edits.tables_size_le) name
  | edit _ edits respects ih => exact ih.respects edits respects

theorem rawGet_rawSet_of_ne (m : Memory) (t : Nat) {name name' : String} (other : name' ≠ name)
    (v : Value) (t' : Nat) :
    (m.rawSet t (.text name) v).rawGet t' (.text name') = m.rawGet t' (.text name') := by
  by_cases here : t' = t
  · subst here
    by_cases there : t' < m.tables.size
    · rw [rawGet, rawSet, table_updateTable_self there, Table.get_set_text, if_neg other, rawGet]
    · simp [rawGet, table, rawSet, updateTable, there]
  · rw [rawGet, rawSet, table_updateTable_of_ne here, rawGet]

/-- The host may install a function in any class, be it that of a script. -/
theorem Prepared.install (h : m.Prepared m') {cls name : String} (f : Native)
    (field : name ≠ "__index") (own : (classTable m' cls).1 ≠ globalTable) :
    m.Prepared (Host.install m' cls name f) := by
  refine (h.makeClass cls).edit (.rawSet (.refl _) _ _ _) ?_
  exact
    { global := fun _ => global_updateTable own _ _
      metatable := fun _ _ => metatable_rawSet _ _ _ _ _
      index := fun _ => rawGet_rawSet_of_ne _ _ field.symm _ _ }

end Script.Memory

end CardBridge

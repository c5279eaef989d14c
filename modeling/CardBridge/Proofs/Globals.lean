import CardBridge.Proofs.Lives

/-!
# Globals

The globals of an environment are the fields of one table of its memory, and the host reads and
writes them without regard to metatables. A table gives back under a name what was put there last
(`Table.get_set_text`), so the same holds of globals (`Memory.global_setGlobal`). The memory of
every environment has the table (`Machine.Lived.hasGlobals`).

Host code reaches the globals by few ways : a class that is made, and the begin and the end of the
load of a card's script (`State.global_beginLoading`, `State.global_endLoading`).
-/

namespace CardBridge

open Relation (ReflTransGen)
open Script (Value Memory)

/-! ## Names -/

theorem bytes_injective : Function.Injective bytes := by
  intro a b h
  have arrays : a.toByteArray.data = b.toByteArray.data := Array.toList_inj.mp h
  exact String.toByteArray_inj.mp (ByteArray.ext arrays)

theorem text_injective {a b : String} (h : Value.text a = Value.text b) : a = b :=
  bytes_injective (Value.str.inj h)

/-- The class of a code has a name of its own. -/
theorem scriptClass_ne {code : UInt32} {name : String} (other : name.toList.head? ≠ some 'c') :
    scriptClass code ≠ name := by
  rintro rfl
  simp [scriptClass] at other

theorem scriptClass_toList (code : UInt32) :
    (scriptClass code).toList = 'c' :: Nat.toDigits 10 code.toNat := by
  have digits : toString code = String.ofList (Nat.toDigits 10 code.toNat) :=
    Nat.repr_eq_ofList_toDigits
  simp [scriptClass, digits]

theorem scriptClass_injective : Function.Injective scriptClass := by
  intro code code' h
  have lists := congrArg String.toList h
  rw [scriptClass_toList, scriptClass_toList] at lists
  have numbers := congrArg (fun ds => Nat.ofDigitChars 10 ds 0) (List.cons.inj lists).2
  simp only [Nat.ofDigitChars_ten_toDigits] at numbers
  exact UInt32.toNat_inj.mp numbers

/-- The name of a class is no word that begins with "co". -/
theorem scriptClass_ne_of_word (code : UInt32) {name : String} {rest : List Char}
    (word : name.toList = 'c' :: 'o' :: rest) : scriptClass code ≠ name := by
  intro h
  have lists := congrArg String.toList h
  rw [scriptClass_toList, word] at lists
  have digits : Nat.toDigits 10 code.toNat = 'o' :: rest := (List.cons.inj lists).2
  have first : 'o' ∈ Nat.toDigits 10 code.toNat := by
    rw [digits]
    exact List.mem_cons_self
  exact absurd (Nat.isDigit_of_mem_toDigits (by decide) (by decide) first) (by decide)

theorem scriptClass_ne_card (code : UInt32) : scriptClass code ≠ ObjectKind.card.className :=
  scriptClass_ne (by decide)

/-! ## Tables -/

namespace Script.Table

theorem lookup_setField (k v k' : Value) (fields : List (Value × Value)) :
    (setField k v fields).lookup k' = if k' = k then some v else fields.lookup k' := by
  induction fields with
  | nil => simp [setField, Keyed.lookup_cons, eq_comm]
  | cons p fields ih =>
    obtain ⟨k₁, v₁⟩ := p
    by_cases first : k₁ = k
    · subst first
      simp only [setField, if_pos, Keyed.lookup_cons, eq_comm (a := k')]
      split <;> rfl
    · simp only [setField, if_neg first, Keyed.lookup_cons, ih]
      by_cases here : k₁ = k'
      · subst here
        simp [first]
      · simp [here]

theorem set_text (t : Table) (name : String) (v : Value) : t.set (.text name) v =
    if v = .nil then { t with fields := Keyed.erase (.text name) t.fields }
    else { t with fields := setField (.text name) v t.fields } := by
  simp only [set, Value.text, Value.key, place?]
  split <;> rfl

theorem get_text (t : Table) (name : String) :
    t.get (.text name) = (t.fields.lookup (.text name)).getD .nil :=
  rfl

/-- What is put under a name is found there, and nothing else is changed. -/
theorem get_set_text (t : Table) (name name' : String) (v : Value) :
    (t.set (.text name) v).get (.text name') = if name' = name then v else t.get (.text name') := by
  rw [set_text, get_text, get_text]
  by_cases nothing : v = .nil
  · subst nothing
    by_cases same : name' = name
    · subst same
      simp
    · simp [same, Keyed.lookup_erase_of_ne fun eq => same (text_injective eq)]
  · by_cases same : name' = name
    · subst same
      simp [nothing, lookup_setField]
    · have other : Value.text name' ≠ .text name := fun eq => same (text_injective eq)
      simp [nothing, lookup_setField, other, same]

end Script.Table

/-! ## Memory -/

namespace Script.Memory
variable {m m' : Memory}

/-- The value of a global, without regard to metatables. -/
def global (m : Memory) (name : String) : Value :=
  m.rawGet globalTable (.text name)

/-- The table of the globals is there. -/
def HasGlobals (m : Memory) : Prop :=
  globalTable < m.tables.size

/-- No table is taken away. -/
theorem Edits.tables_size_le (h : m.Edits m') : m.tables.size ≤ m'.tables.size := by
  induction h with
  | refl => exact Nat.le_refl _
  | tail _ e ih =>
    refine Nat.le_trans ih ?_
    cases e with
    | addTable => simp [Memory.addTable]
    | updateTable => simp [Memory.updateTable]
    | setCell | addCells | addClosure | addThread | setThread | collect => exact Nat.le_refl _

theorem HasGlobals.edits (h : m.HasGlobals) (edits : m.Edits m') : m'.HasGlobals :=
  Nat.lt_of_lt_of_le h edits.tables_size_le

theorem HasGlobals.setGlobal (h : m.HasGlobals) (name : String) (v : Value) :
    (setGlobal m name v).HasGlobals :=
  h.edits (setGlobal_edits (.refl m) name v)

theorem global_setGlobal (h : m.HasGlobals) (name name' : String) (v : Value) :
    (setGlobal m name v).global name' = if name' = name then v else m.global name' := by
  have found : m.tables[globalTable]? = some m.tables[globalTable] := Array.getElem?_eq_getElem h
  simp [global, CardBridge.setGlobal, rawGet, rawSet, updateTable, table, found,
    Array.getElem?_modify, Table.get_set_text]

theorem global_addTable (h : m.HasGlobals) (t : Table) (name : String) :
    (m.addTable t).2.global name = m.global name := by
  have other : m.tables.size ≠ globalTable := Nat.ne_of_gt h
  simp [global, rawGet, table, addTable, Array.getElem?_push, Ne.symm other]

theorem global_updateTable {t : Nat} (other : t ≠ globalTable) (f : Table → Table) (name : String) :
    (m.updateTable t f).global name = m.global name := by
  simp [global, rawGet, table, updateTable, Array.getElem?_modify, other]

theorem global_addSelfIndexed (h : m.HasGlobals) (metatable : Option Nat) (name : String) :
    (addSelfIndexed m metatable).2.global name = m.global name := by
  have other : m.tables.size ≠ globalTable := Nat.ne_of_gt h
  rw [addSelfIndexed]
  exact (global_updateTable other _ _).trans (global_addTable h _ _)

/-- A class that is made changes the global of its name at most. -/
theorem global_classTable (h : m.HasGlobals) {name name' : String} (other : name' ≠ name) :
    (classTable m name).2.global name' = m.global name' := by
  unfold classTable
  split
  · rfl
  · have made := h.edits (addSelfIndexed_edits (.refl m) none)
    dsimp only
    rw [global_setGlobal made, if_neg other, global_addSelfIndexed h]

end Script.Memory

/-! ## States -/

namespace State

variable {s s' : State}

/-- The table that a card's script gets for its class if its load begins now. -/
def newClass (s : State) : Nat :=
  (classTable s.env.memory ObjectKind.card.className).2.tables.size

/-- That table is a new one. -/
theorem tables_size_le_newClass (s : State) : s.env.memory.tables.size ≤ s.newClass :=
  (classTable_edits (.refl _) _).tables_size_le

/-- What the globals are when the script of a card begins to be loaded. -/
theorem global_beginLoading_eq (h : s.env.memory.HasGlobals) (code : UInt32) (name : String) :
    (s.beginLoading code).global name =
      if name = codeGlobal then .int (Int64.ofNat code.toNat)
      else if name = classGlobal then .table s.newClass
      else if name = scriptClass code then .table s.newClass
      else (classTable s.env.memory ObjectKind.card.className).2.global name := by
  have made : (addSelfIndexed (classTable s.env.memory ObjectKind.card.className).2
      (some (classTable s.env.memory ObjectKind.card.className).1)).2.HasGlobals :=
    h.edits (addSelfIndexed_edits (classTable_edits (.refl _) _) _)
  have first := made.setGlobal (scriptClass code) (.table s.newClass)
  have second := first.setGlobal classGlobal (.table s.newClass)
  rw [← Memory.global_addSelfIndexed (h.edits (classTable_edits (.refl _) _)),
    ← Memory.global_setGlobal made, ← Memory.global_setGlobal first,
    ← Memory.global_setGlobal second]
  rfl

/-- While the script of a card is loaded, three globals name its class and its code. -/
theorem global_beginLoading (h : s.env.memory.HasGlobals) (code : UInt32) :
    (s.beginLoading code).global (scriptClass code) = .table s.newClass ∧
      (s.beginLoading code).global classGlobal = .table s.newClass ∧
      (s.beginLoading code).global codeGlobal = .int (Int64.ofNat code.toNat) := by
  have distinct : scriptClass code ≠ classGlobal := scriptClass_ne (by decide)
  have distinct' : scriptClass code ≠ codeGlobal := scriptClass_ne (by decide)
  have other : classGlobal ≠ codeGlobal := by decide
  simp only [global_beginLoading_eq h, if_neg distinct, if_neg distinct', if_neg other, if_true,
    and_self]

/-- The classes of other scripts stay. -/
theorem global_beginLoading_of_ne (h : s.env.memory.HasGlobals) {code code' : UInt32}
    (other : code' ≠ code) :
    (s.beginLoading code).global (scriptClass code') = s.global (scriptClass code') := by
  have distinct : scriptClass code' ≠ classGlobal := scriptClass_ne (by decide)
  have distinct' : scriptClass code' ≠ codeGlobal := scriptClass_ne (by decide)
  rw [global_beginLoading_eq h, if_neg distinct', if_neg distinct,
    if_neg (scriptClass_injective.ne other), Memory.global_classTable h (scriptClass_ne_card code')]
  rfl

/-- What the globals are when the load of a script has ended. -/
theorem global_endLoading_eq (h : s.env.memory.HasGlobals) (cls : String) (t c : Value)
    (failed : Bool) (name : String) :
    (s.endLoading cls t c failed).global name =
      if failed = true ∧ name = cls then .nil
      else if name = codeGlobal then c
      else if name = classGlobal then t
      else s.global name := by
  have first := h.setGlobal classGlobal t
  have second := first.setGlobal codeGlobal c
  have restored : (setGlobal (setGlobal s.env.memory classGlobal t) codeGlobal c).global name =
      if name = codeGlobal then c else if name = classGlobal then t else s.global name := by
    rw [Memory.global_setGlobal first, Memory.global_setGlobal h]
    rfl
  rw [← restored]
  cases failed with
  | false => rfl
  | true =>
    simp only [true_and]
    rw [← Memory.global_setGlobal second]
    rfl

/-- When a load has ended, the two globals are what they were before it, and the class of a script
that has failed is not there. -/
theorem global_endLoading (h : s.env.memory.HasGlobals) (code : UInt32) (t c : Value)
    (failed : Bool) :
    (s.endLoading (scriptClass code) t c failed).global classGlobal = t ∧
      (s.endLoading (scriptClass code) t c failed).global codeGlobal = c ∧
      (failed = true → (s.endLoading (scriptClass code) t c failed).global (scriptClass code) =
        .nil) := by
  have distinct : classGlobal ≠ scriptClass code := (scriptClass_ne (by decide)).symm
  have distinct' : codeGlobal ≠ scriptClass code := (scriptClass_ne (by decide)).symm
  have other : classGlobal ≠ codeGlobal := by decide
  simp +contextual [global_endLoading_eq h, distinct, distinct', other]

/-- Other classes stay, and so does that of a script that has not failed. -/
theorem global_endLoading_of_kept (h : s.env.memory.HasGlobals) {cls : String} {t c : Value}
    {failed : Bool} {code : UInt32} (kept : failed = true → scriptClass code ≠ cls) :
    (s.endLoading cls t c failed).global (scriptClass code) = s.global (scriptClass code) := by
  have distinct : scriptClass code ≠ classGlobal := scriptClass_ne (by decide)
  have distinct' : scriptClass code ≠ codeGlobal := scriptClass_ne (by decide)
  rw [global_endLoading_eq h, if_neg fun ⟨fails, same⟩ => kept fails same, if_neg distinct',
    if_neg distinct]

end State

/-- The begin of a scope leaves the tables alone, unless the script of a card is to be loaded. -/
theorem Scope.enter_tables {scope : Scope} {s s' : State} {o : Open}
    (h : scope.enter s = .ok (o, s')) (other : ∀ code, scope ≠ .loading code) :
    s'.env.memory.tables = s.env.memory.tables := by
  cases scope with
  | guard =>
    obtain ⟨-, b, depth, -, -, rfl⟩ := Scope.enter_guard h
    rfl
  | query =>
    obtain ⟨-, rfl⟩ := Scope.enter_query h
    rfl
  | start id f =>
    obtain ⟨b, -, -, -, rfl⟩ := Scope.enter_start h
    rfl
  | proceed id =>
    obtain ⟨b, e, -, -, -, -, rfl⟩ := Scope.enter_proceed h
    rfl
  | loading code => exact absurd rfl (other code)
  | holding cs =>
    obtain ⟨-, rfl⟩ := Scope.enter_holding h
    rfl

theorem Scope.enter_global {scope : Scope} {s s' : State} {o : Open}
    (h : scope.enter s = .ok (o, s')) (other : ∀ code, scope ≠ .loading code) (name : String) :
    s'.global name = s.global name := by
  simp only [State.global, Memory.rawGet, Memory.table, Scope.enter_tables h other]

/-- The end of a scope leaves the memory alone, unless the script of a card has been loaded. -/
theorem Open.leave_memory {o : Open} (other : ∀ cls t c, o ≠ .loading cls t c) (s : State)
    (r : Reply) : (o.leave s r).env.memory = s.env.memory := by
  cases o with
  | guard => simp [Open.leave]
  | loading cls t c => exact absurd rfl (other cls t c)
  | query | step | holding => rfl

theorem Open.leave_global {o : Open} (other : ∀ cls t c, o ≠ .loading cls t c) (s : State)
    (r : Reply) (name : String) : (o.leave s r).global name = s.global name := by
  rw [State.global, State.global, Open.leave_memory other]

/-! ## Environments -/

/-- A new environment : made from a blueprint, or a bare one. -/
inductive Environment.New : Environment → Prop
  | made (b : Host.Blueprint) (account : Nat) : New (b.environment account)
  | bare : New Host.foreignEnvironment

theorem Environment.New.hasGlobals {env : Environment} (h : env.New) : env.memory.HasGlobals := by
  cases h with
  | made b account =>
    have library : Host.libraryMemory.HasGlobals := by
      unfold Memory.HasGlobals
      decide +kernel
    exact library
  | bare =>
    have initial : Memory.initial.HasGlobals := by
      unfold Memory.HasGlobals
      decide
    exact initial

namespace Machine

/-- A machine comes up in the life of some environment. -/
def Lived (m : Machine) : Prop :=
  ∃ env shared c, env.New ∧ ReflTransGen Later (.start ⟨env, shared⟩ c) m

/-- The memory of an environment has the table of the globals at every moment. -/
theorem Lived.hasGlobals {m : Machine} (h : m.Lived) : m.state.env.memory.HasGlobals := by
  obtain ⟨env, shared, c, new, h⟩ := h
  exact later_invariant (P := fun env _ => env.memory.HasGlobals) h
    (fun kept e => kept.edits e.memory_edits) new.hasGlobals

end Machine

theorem Host.Blueprint.Reaches.lived {b : Host.Blueprint} {m : Machine} (h : b.Reaches m) :
    m.Lived := by
  obtain ⟨account, shared, c, h⟩ := h
  exact ⟨_, shared, c, .made b account, h⟩

end CardBridge

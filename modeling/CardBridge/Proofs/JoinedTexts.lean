import CardBridge.Proofs.ClassTables
import CardBridge.Proofs.MemberLookup
import CardBridge.Proofs.ReplacedBytes

/-!
# Joined texts

Strings, integers and deleted objects are joined two at a time. Two of them of which none is an
object are joined as they are. A deleted object has a function for it, which reads both of them as
text, so it adds nothing, but bytes that are no text come out as U+FFFD. What a tree of such joins
comes to is `Joining.outcome`, and that is what it stands for with the objects left out
(`Joining.text`) exactly if all that is joined with an object is text
(`Joining.outcome_eq_text_iff`). A script that joins them gets there without an error and has
changed nothing (`joined_texts`).
-/

namespace CardBridge

open Script (Value Memory Expr Event)
open Code (Gives)

/-- What is joined : strings, integers and deleted objects, and what two of them come to. -/
inductive Joining
  | string (x : Bytes)
  | integer (n : Int64)
  | deleted (n : Nat)
  | join (a b : Joining)

namespace Joining

/-- Whether it is a deleted object. -/
def isDeleted : Joining → Bool
  | deleted _ => true
  | _ => false

/-- What all stands for, the deleted objects for nothing. -/
def text : Joining → Bytes
  | string x => x
  | integer n => bytes (toString n.toInt)
  | deleted _ => []
  | join a b => a.text ++ b.text

/-- The bytes that come out. -/
def outcome : Joining → Bytes
  | string x => x
  | integer n => bytes (toString n.toInt)
  | deleted _ => []
  | join a b =>
    if a.isDeleted || b.isDeleted then
      bytes (Utf8.lossy a.outcome) ++ bytes (Utf8.lossy b.outcome)
    else a.outcome ++ b.outcome

/-- What is joined with a deleted object is text. -/
def Readable : Joining → Prop
  | join a b => a.Readable ∧ b.Readable ∧
    ((a.isDeleted || b.isDeleted) = true → Utf8.IsText a.text ∧ Utf8.IsText b.text)
  | _ => True

/-- The strings that occur. -/
def strings : Joining → List Bytes
  | string x => [x]
  | join a b => a.strings ++ b.strings
  | _ => []

open Utf8

/-- What comes out is no lighter than the text, and heavier unless it is the text. -/
theorem weight_outcome (j : Joining) :
    weight j.text ≤ weight j.outcome ∧
      (weight j.outcome ≤ weight j.text → j.Readable ∧ j.outcome = j.text) := by
  induction j with
  | string | integer | deleted => exact ⟨Nat.le_refl _, fun _ => ⟨trivial, rfl⟩⟩
  | join a b iha ihb =>
    obtain ⟨heavierA, sameA⟩ := iha
    obtain ⟨heavierB, sameB⟩ := ihb
    rw [text, outcome, weight_append]
    split
    case isTrue lossy =>
      obtain ⟨readA, textA⟩ := weight_lossy a.outcome
      obtain ⟨readB, textB⟩ := weight_lossy b.outcome
      rw [weight_append]
      refine ⟨by omega, fun same => ?_⟩
      obtain ⟨readableA, eqA⟩ := sameA (by omega)
      obtain ⟨readableB, eqB⟩ := sameB (by omega)
      have textA := textA (by omega)
      have textB := textB (by omega)
      rw [isText_iff.mp textA, isText_iff.mp textB, eqA, eqB]
      exact ⟨⟨readableA, readableB, fun _ => ⟨eqA ▸ textA, eqB ▸ textB⟩⟩, rfl⟩
    case isFalse plain =>
      rw [weight_append]
      refine ⟨Nat.add_le_add heavierA heavierB, fun same => ?_⟩
      obtain ⟨readableA, eqA⟩ := sameA (by omega)
      obtain ⟨readableB, eqB⟩ := sameB (by omega)
      exact ⟨⟨readableA, readableB, fun lossy => absurd lossy plain⟩, by rw [eqA, eqB]⟩

theorem outcome_eq_text {j : Joining} (readable : j.Readable) : j.outcome = j.text := by
  induction j with
  | string | integer | deleted => rfl
  | join a b iha ihb =>
    obtain ⟨readableA, readableB, texts⟩ := readable
    rw [text, outcome, iha readableA, ihb readableB]
    split
    case isTrue lossy =>
      obtain ⟨textA, textB⟩ := texts lossy
      rw [isText_iff.mp textA, isText_iff.mp textB]
    case isFalse => rfl

/-- The text comes out exactly if what is joined with a deleted object is text. -/
theorem outcome_eq_text_iff (j : Joining) : j.outcome = j.text ↔ j.Readable :=
  ⟨fun same => (j.weight_outcome.2 (Nat.le_of_eq (congrArg weight same))).1, outcome_eq_text⟩

theorem isText_text {j : Joining} (texts : ∀ x ∈ j.strings, IsText x) : IsText j.text := by
  induction j with
  | string x => exact texts x (List.mem_singleton_self x)
  | integer n => exact ⟨_, rfl⟩
  | deleted n => exact ⟨"", rfl⟩
  | join a b iha ihb =>
    exact (iha fun x mem => texts x (List.mem_append_left _ mem)).append
      (ihb fun x mem => texts x (List.mem_append_right _ mem))

theorem readable_of_isText {j : Joining} (texts : ∀ x ∈ j.strings, IsText x) : j.Readable := by
  induction j with
  | string | integer | deleted => trivial
  | join a b iha ihb =>
    have textsA : ∀ x ∈ a.strings, IsText x := fun x mem => texts x (List.mem_append_left _ mem)
    have textsB : ∀ x ∈ b.strings, IsText x := fun x mem => texts x (List.mem_append_right _ mem)
    exact ⟨iha textsA, ihb textsB, fun _ => ⟨isText_text textsA, isText_text textsB⟩⟩

theorem outcome_join_deleted (j : Joining) (d : Nat) :
    (join j (deleted d)).outcome = bytes (lossy j.outcome) := by
  rw [outcome, isDeleted.eq_1, Bool.or_true, if_pos rfl]
  exact List.append_nil _

theorem outcome_deleted_join (j : Joining) (d : Nat) :
    (join (deleted d) j).outcome = bytes (lossy j.outcome) :=
  rfl

/-! ## Values -/

/-- The script value : what is joined is a string. -/
def value : Joining → Value
  | string x => .str x
  | integer n => .int n
  | deleted n => .object n
  | join a b => .str (join a b).outcome

/-- The objects that are joined are deleted. -/
def Inert (s : State) : Joining → Prop
  | deleted n => (s.object n).deleted = true
  | join a b => a.Inert s ∧ b.Inert s
  | _ => True

theorem toText_value {j : Joining} (plain : j.isDeleted = false) :
    j.value.toText? = some j.outcome := by
  cases j with
  | string | integer | join => rfl
  | deleted => cases plain

theorem toText_deleted {j : Joining} (deleted : j.isDeleted = true) : j.value.toText? = none := by
  cases j with
  | string | integer | join => cases deleted
  | deleted => rfl

/-- A value that is joined with an object is read as text, and the object as none. -/
theorem joinedText_value {s : State} {j : Joining} (inert : j.Inert s) :
    joinedText s j.value = .ok (lossy j.outcome) := by
  cases j with
  | string | join => rfl
  | integer n => exact congrArg Except.ok (lossy_bytes _).symm
  | deleted n => exact if_pos inert

/-- If strings have no function of their own for it, what two values are joined by that are not
joined as they are is the function of objects. -/
theorem eitherMetafield_concat {m : Memory}
    (bare : m.rawGet Script.stringMetatable Event.concat.key = .nil)
    {a b : Joining} (deleted : (a.isDeleted || b.isDeleted) = true) :
    m.eitherMetafield a.value b.value .concat = .native .join := by
  have plain {j : Joining} (h : j.isDeleted = false) : m.metafield j.value .concat = .nil := by
    cases j with
    | string | join => exact bare
    | integer => rfl
    | deleted => cases h
  have object {j : Joining} (h : j.isDeleted = true) :
      m.metafield j.value .concat = .native .join := by
    cases j with
    | string | integer | join => cases h
    | deleted => rfl
  rw [Memory.eitherMetafield]
  cases first : a.isDeleted with
  | true => rw [object first]
  | false =>
    rw [first, Bool.false_or] at deleted
    rw [plain first, object deleted]

end Joining

/-! ## Scripts -/

namespace Machine

variable {host : Host} {F : List Frame} {s : State} {env : Script.Env}

/-- A script calls a function of the host. -/
theorem Steps.native {K : List Frame} {m : Machine} {control : Script.Control}
    {stack : List Script.Frame} {base : Script.Base} {n : Script.Native} {args : List Value}
    {t : Script.State}
    (h : Script.State.step ⟨s.env.memory, control, stack, base⟩ = .native n args t) (hK : K <:+ F)
    (rest : Steps host K
      ⟨s.setMemory t.memory, .host (host n args), .native t.stack t.base :: F⟩ m) :
    Steps host K ⟨s, .script control stack base, F⟩ m := by
  refine .step ?_ (hK.trans (List.suffix_cons _ _)) rest
  simp [Machine.step, stepScript, h, State.setMemory]

/-- There is room for one more call that no script makes directly. -/
structure Room (base : Script.Base) (stack : List Script.Frame) : Prop where
  levels : (Script.surroundings base stack).levels + 1 < Script.levelLimit
  depth : (Script.surroundings base stack).depth + 1 < Script.depthLimit

/-- An expression comes to a value, wherever it stands, and nothing is changed. -/
def Simple (host : Host) (s : State) (env : Script.Env) (e : Expr) (v : Value) : Prop :=
  ∀ F stack base, Steps host F ⟨s, .script (.eval env e) stack base, F⟩
    ⟨s, .script (.give [v]) stack base, F⟩

theorem simple_literal (v : Value) : Simple host s env (.literal v) v :=
  fun _ _ _ => .script rfl List.suffix_rfl (.done _)

theorem simple_localVar {i c : Nat} {v : Value} (x : Bytes) (bound : env.vars[i]? = some c)
    (holds : s.env.memory.cell c = v) : Simple host s env (.localVar i x) v := by
  intro F stack base
  have read : Script.State.step ⟨s.env.memory, .eval env (.localVar i x), stack, base⟩ =
      .next ⟨s.env.memory, .give [v], stack, base⟩ := by
    simp only [Script.State.step, Script.State.eval, Script.State.read, bound, holds,
      Script.State.go]
  exact .script read List.suffix_rfl (.done _)

/-- An expression joins strings, integers and deleted objects. -/
inductive Joins (host : Host) (s : State) (env : Script.Env) : Expr → Joining → Prop
  | string {e : Expr} {x : Bytes} (simple : Simple host s env e (.str x)) :
    Joins host s env e (.string x)
  | integer {e : Expr} {n : Int64} (simple : Simple host s env e (.int n)) :
    Joins host s env e (.integer n)
  | deleted {e : Expr} {n : Nat} (simple : Simple host s env e (.object n))
    (deleted : (s.object n).deleted = true) : Joins host s env e (.deleted n)
  | paren {e : Expr} {j : Joining} (inner : Joins host s env e j) : Joins host s env (.paren e) j
  | join {a b : Expr} {j k : Joining} (line : Nat) (left : Joins host s env a j)
    (right : Joins host s env b k) : Joins host s env (.binary .concat a b line) (.join j k)

theorem Joins.inert {e : Expr} {j : Joining} (joins : Joins host s env e j) : j.Inert s := by
  induction joins with
  | string | integer => trivial
  | deleted _ deleted => exact deleted
  | paren _ ih => exact ih
  | join _ _ _ ihl ihr => exact ⟨ihl, ihr⟩

/-- The function of objects reads two values as text and joins that. -/
theorem steps_native_join {lent : Nat → List Value → Code} {j k : Joining} (inertJ : j.Inert s)
    (inertK : k.Inert s) {stack : List Script.Frame} {base : Script.Base} :
    Steps host F ⟨s, .host (Code.native lent .join [j.value, k.value]), .native stack base :: F⟩
      ⟨s, .script (.give [.str (bytes (Utf8.lossy j.outcome) ++ bytes (Utf8.lossy k.outcome))])
        stack base, F⟩ := by
  have joined : (do pure ((← joinedText s j.value) ++ (← joinedText s k.value)) :
      Except String String) = .ok (Utf8.lossy j.outcome ++ Utf8.lossy k.outcome) := by
    rw [Joining.joinedText_value inertJ, Joining.joinedText_value inertK]
    rfl
  have code : Gives host (.native stack base :: F) s (Code.native lent .join [j.value, k.value])
      (.answer (.values [.text (Utf8.lossy j.outcome ++ Utf8.lossy k.outcome)])) s := by
    refine Code.gives_read_iff.mpr ?_
    dsimp only [Script.first, List.headD, List.drop]
    rw [joined]
    exact .finish
  rw [← bytes_append]
  exact (code.mono (List.suffix_cons _ _)).trans (.step rfl List.suffix_rfl (.done _))

theorem step_call_native (m : Memory) (n : Script.Native) (args : List Value) (site : Script.Site)
    {stack : List Script.Frame} {base : Script.Base} (room : Room base stack) :
    ∃ a, Script.State.step ⟨m, .call (.native n) args site, stack, base⟩ =
      .native n args ⟨m, .call (.native n) args site, .activation a :: stack, base⟩ := by
  let t : Script.State := ⟨m, .call (.native n) args site, stack, base⟩
  have levels : ¬ Script.levelLimit ≤ (t.activationAt site).levels := by
    have limit := room.levels
    simp only [Script.State.activationAt, t]
    split <;> omega
  have depth : ¬ Script.depthLimit ≤ (t.activationAt site).depth := Nat.not_le.mpr room.depth
  refine ⟨t.activationAt site, ?_⟩
  change t.call (.native n) args site = _
  simp only [Script.State.call, if_neg levels, if_neg depth]
  rfl

/-- Two values of which one is a deleted object are joined as text. -/
theorem steps_call_join {lent : Nat → List Value → Code} {j k : Joining} (inertJ : j.Inert s)
    (inertK : k.Inert s) {stack : List Script.Frame} {base : Script.Base} (room : Room base stack)
    (site : Script.Site) :
    Steps (Code.native lent) F
      ⟨s, .script (.call (.native .join) [j.value, k.value] site) (.single :: stack) base, F⟩
      ⟨s, .script (.give [.str (bytes (Utf8.lossy j.outcome) ++ bytes (Utf8.lossy k.outcome))])
        stack base, F⟩ := by
  have above : Room base (.single :: stack) := ⟨room.levels, room.depth⟩
  obtain ⟨a, call⟩ := step_call_native s.env.memory .join [j.value, k.value] site above
  refine .native call List.suffix_rfl ((steps_native_join inertJ inertK).trans ?_)
  exact .script rfl List.suffix_rfl (.script rfl List.suffix_rfl (.done _))

/-- Two values are joined as `Joining.outcome` says. -/
theorem steps_concat {lent : Nat → List Value → Code} {j k : Joining} (inertJ : j.Inert s)
    (inertK : k.Inert s) (bare : s.env.memory.rawGet Script.stringMetatable Event.concat.key = .nil)
    {stack : List Script.Frame} {base : Script.Base} (room : Room base stack)
    {left right : Option Script.Described} {line : Nat} :
    Steps (Code.native lent) F
      ⟨s, .script (.give [k.value])
        (.operands [j.value] [] env (.binary .concat left right line) :: stack) base, F⟩
      ⟨s, .script (.give [(Joining.join j k).value]) stack base, F⟩ := by
  let t : Script.State := ⟨s.env.memory, .give [k.value], stack, base⟩
  let site := env.site line none
  have begins : Script.State.step ⟨s.env.memory, .give [k.value],
      .operands [j.value] [] env (.binary .concat left right line) :: stack, base⟩ =
        t.concat j.value k.value left right site := rfl
  by_cases lossy : (j.isDeleted || k.isDeleted) = true
  · have texts : j.value.toText? = none ∨ k.value.toText? = none :=
      ((Bool.or_eq_true _ _).mp lossy).imp Joining.toText_deleted Joining.toText_deleted
    have calls : t.concat j.value k.value left right site =
        t.callEvent (.native .join) [j.value, k.value] site .concat := by
      unfold Script.State.concat
      rw [Joining.eitherMetafield_concat bare lossy]
      obtain first | second := texts
      · rw [first]
      · rw [second]
        cases j.value.toText? <;> rfl
    rw [Joining.value, Joining.outcome, if_pos lossy]
    exact .script (begins.trans calls) List.suffix_rfl (steps_call_join inertJ inertK room _)
  · rw [Bool.not_eq_true, Bool.or_eq_false_iff] at lossy
    have joins : t.concat j.value k.value left right site =
        .next { t with control := .give [.str (j.outcome ++ k.outcome)] } := by
      unfold Script.State.concat
      rw [Joining.toText_value lossy.1, Joining.toText_value lossy.2]
      rfl
    have outcome : (Joining.join j k).value = .str (j.outcome ++ k.outcome) := by
      rw [Joining.value, Joining.outcome, lossy.1, lossy.2]
      rfl
    rw [outcome]
    exact .script (begins.trans joins) List.suffix_rfl (.done _)

/-- What an expression joins is joined without an error, and nothing is changed. -/
theorem Joins.steps {lent : Nat → List Value → Code} {e : Expr} {j : Joining}
    (joins : Joins (Code.native lent) s env e j)
    (bare : s.env.memory.rawGet Script.stringMetatable Event.concat.key = .nil)
    {stack : List Script.Frame} {base : Script.Base} (room : Room base stack) :
    Steps (Code.native lent) F ⟨s, .script (.eval env e) stack base, F⟩
      ⟨s, .script (.give [j.value]) stack base, F⟩ := by
  induction joins generalizing stack with
  | string simple | integer simple | deleted simple => exact simple F stack base
  | paren _ ih =>
    have above : Room base (.single :: stack) := ⟨room.levels, room.depth⟩
    exact .script rfl List.suffix_rfl ((ih above).trans (.script rfl List.suffix_rfl (.done _)))
  | join line left right ihl ihr =>
    have above (f : Script.Frame) (operands : Script.surroundings base (f :: stack) =
        Script.surroundings base stack) : Room base (f :: stack) :=
      ⟨operands ▸ room.levels, operands ▸ room.depth⟩
    refine .script rfl List.suffix_rfl ((ihl (above _ rfl)).trans ?_)
    refine .script rfl List.suffix_rfl ((ihr (above _ rfl)).trans ?_)
    exact steps_concat left.inert right.inert bare room

end Machine

/-- **Joined texts.** A script that joins strings, integers and deleted objects, in any order and
with any parentheses, comes to a value without an error and has changed nothing, as long as strings
have no function of their own for it and there is room for one more call. The value is what is left
without the objects exactly if all that is joined with an object is text, as it is if all the
strings are. -/
theorem joined_texts {lent : Nat → List Value → Code} {s : State} {env : Script.Env}
    (bare : s.env.memory.rawGet Script.stringMetatable Event.concat.key = .nil) {e : Expr}
    {j : Joining} (joins : Machine.Joins (Code.native lent) s env e j) :
    (∀ F stack base, Machine.Room base stack → Machine.Steps (Code.native lent) F
      ⟨s, .script (.eval env e) stack base, F⟩ ⟨s, .script (.give [j.value]) stack base, F⟩) ∧
    (j.outcome = j.text ↔ j.Readable) ∧
    ((∀ x ∈ j.strings, Utf8.IsText x) → j.outcome = j.text) ∧
    (∀ x d, ((Joining.join (.string x) (.deleted d)).outcome = x ↔ Utf8.IsText x) ∧
      ((Joining.join (.deleted d) (.string x)).outcome = x ↔ Utf8.IsText x)) ∧
    (∀ i d, (Joining.join (.integer i) (.deleted d)).outcome = bytes (toString i.toInt) ∧
      (Joining.join (.deleted d) (.integer i)).outcome = bytes (toString i.toInt)) ∧
    ∀ d d', (Joining.join (.deleted d) (.deleted d')).outcome = [] := by
  refine ⟨fun F stack base room => joins.steps bare room, j.outcome_eq_text_iff,
    fun texts => Joining.outcome_eq_text (Joining.readable_of_isText texts), fun x d => ?_,
    fun i d => ?_, fun d d' => rfl⟩
  · rw [Joining.outcome_join_deleted, Joining.outcome_deleted_join]
    exact ⟨Utf8.isText_iff.symm, Utf8.isText_iff.symm⟩
  · rw [Joining.outcome_join_deleted, Joining.outcome_deleted_join]
    have read : bytes (Utf8.lossy (Joining.integer i).outcome) = bytes (toString i.toInt) :=
      congrArg bytes (Utf8.lossy_bytes _)
    exact ⟨read, read⟩

/-- A script joins a text that is not ASCII, an integer and the deleted object in a variable. -/
theorem joined_texts_unicode :
    let d : State := ⟨(Host.Blueprint.plain ⟨1⟩).environment 0, .empty⟩
    let s := d.setMemory { d.env.memory with cells := #[.object 0] }
    let e : Expr := .binary .concat (.literal (.str (bytes "é")))
      (.binary .concat (.literal (.int 7)) (.localVar 0 (bytes "d")) 1) 1
    s.env.memory.rawGet Script.stringMetatable Event.concat.key = .nil ∧
    Machine.Steps (Code.native fun _ _ => .done) []
      ⟨s, .script (.eval ⟨[0], [], []⟩ e) [] ⟨0, 0, false⟩, []⟩
      ⟨s, .script (.give [.str (bytes "é7")]) [] ⟨0, 0, false⟩, []⟩ := by
  intro d s e
  have bare : s.env.memory.rawGet Script.stringMetatable Event.concat.key = .nil := by
    decide +kernel
  have held : Machine.Simple (Code.native fun _ _ => .done) s ⟨[0], [], []⟩
      (.localVar 0 (bytes "d")) (.object 0) := Machine.simple_localVar (bytes "d") rfl rfl
  have joins : Machine.Joins (Code.native fun _ _ => .done) s ⟨[0], [], []⟩ e
      (.join (.string (bytes "é")) (.join (.integer 7) (.deleted 0))) :=
    .join 1 (.string (Machine.simple_literal _))
      (.join 1 (.integer (Machine.simple_literal _)) (.deleted held rfl))
  obtain ⟨steps, -, text, -⟩ := joined_texts bare joins
  have text := text fun x mem => ⟨"é", (List.mem_singleton.mp mem).symm⟩
  have steps := steps [] [] ⟨0, 0, false⟩ ⟨by decide, by decide⟩
  rw [Joining.value, text] at steps
  exact ⟨bare, steps⟩

/-- A byte that is no text is joined with a deleted object and is lost. -/
theorem not_joined_bytes :
    let d : State := ⟨(Host.Blueprint.plain ⟨1⟩).environment 0, .empty⟩
    let joins : Script.Stat :=
      .ret [.binary .concat (.literal (.str [0xFF])) (.localVar 0 (bytes "d")) 1]
    let p := d.env.memory.addClosure ⟨.mk 1 false [joins], [], bytes "lib.lua"⟩
    let s := (d.setMemory p.2).stage .call false (.object (.card ⟨1⟩))
    s.handleOf (.card ⟨1⟩) = none ∧ ∃ s', Gives (Code.native fun _ _ => .done) [] s
      (Operation.callValue (.closure p.1) 1 .all).code
      (.answer (.values [.str [0xEF, 0xBF, 0xBD]])) s' := by
  intro d joins p s
  obtain ⟨s', ended⟩ : ∃ s', Machine.run (Code.native fun _ _ => .done) 40
      (.start s (Operation.callValue (.closure p.1) 1 .all).code) =
        .ended (.answer (.values [.str [0xEF, 0xBF, 0xBD]])) s' := ⟨_, rfl⟩
  exact ⟨rfl, s', Machine.steps_of_ended 40 _ ended⟩

end CardBridge

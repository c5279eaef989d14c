import CardBridge.Keyed
import CardBridge.Object

/-!
# The registry

The registry gives every registered object a handle and finds the one by the other. It keeps two
maps, one in each direction. Handles are counted up and not given out again, but for the counter's
running over after the last number of 32 bits.
-/

namespace CardBridge

/-- What stands behind a handle: an object and what is kept for it. -/
structure Registration (α : Type) where
  object : ObjectRef
  payload : α
  deriving DecidableEq, Repr

/-- Handles and objects, either by the other, and the last handle given out. -/
structure Registry (α : Type) where
  entries : Keyed Handle (Registration α)
  handles : Keyed ObjectRef Handle
  last : UInt32

namespace Registry

variable {α : Type}

/-- A registry with nothing in it. -/
def empty : Registry α :=
  ⟨[], [], 0⟩

/-- Give out a new handle. -/
def allocate (r : Registry α) : Handle × Registry α :=
  (⟨r.last + 1⟩, { r with last := r.last + 1 })

/-- The handle of an object. -/
def handleOf (r : Registry α) (o : ObjectRef) : Option Handle :=
  r.handles.lookup o

/-- Register an object under a handle. If it had another one, that stops to stand for it. -/
def insertWith (r : Registry α) (h : Handle) (o : ObjectRef) (payload : α) : Registry α :=
  let kept := match r.handleOf o with
    | some old => Keyed.erase old r.entries
    | none => r.entries
  { r with
    entries := Keyed.put h ⟨o, payload⟩ kept
    handles := Keyed.put o h r.handles }

/-- Register an object under a new handle. -/
def insert (r : Registry α) (o : ObjectRef) (payload : α) : Handle × Registry α :=
  let (h, r) := r.allocate
  (h, r.insertWith h o payload)

/-- Take an object out, with what was kept for it. -/
def remove (r : Registry α) (o : ObjectRef) : Option (Registration α) × Registry α :=
  match r.handleOf o with
  | none => (none, r)
  | some h =>
    (r.entries.lookup h,
      { r with entries := Keyed.erase h r.entries, handles := Keyed.erase o r.handles })

/-- The object behind a handle. -/
def resolve (r : Registry α) (h : Handle) : Option ObjectRef :=
  (r.entries.lookup h).map (·.object)

/-- What is kept behind a handle. -/
def payloadByHandle (r : Registry α) (h : Handle) : Option α :=
  (r.entries.lookup h).map (·.payload)

/-- What is kept for an object. -/
def payload (r : Registry α) (o : ObjectRef) : Option α :=
  (r.handleOf o).bind r.payloadByHandle

/-- Whether an object is registered. -/
def contains (r : Registry α) (o : ObjectRef) : Bool :=
  (r.handleOf o).isSome

/-- How many handles stand for something. -/
def size (r : Registry α) : Nat :=
  r.entries.length

/-- How many objects of a kind are registered. -/
def count (r : Registry α) (kind : ObjectKind) : Nat :=
  (r.handles.filter fun p => p.1.kind = kind).length

/-- The registered objects of a kind with their handles. -/
def ofKind (r : Registry α) (kind : ObjectKind) : List (ObjectId × Handle) :=
  (r.handles.filter fun p => p.1.kind = kind).map fun p => (p.1.id, p.2)

/-- Take everything out. -/
def drain (r : Registry α) : List (Registration α) × Registry α :=
  (r.entries.map (·.2), { r with entries := [], handles := [] })

/-- Registering an object under a handle gives it that handle and leaves those of the others. -/
theorem handleOf_insertWith (r : Registry α) (h : Handle) (o : ObjectRef) (payload : α)
    (o' : ObjectRef) :
    (r.insertWith h o payload).handleOf o' = if o' = o then some h else r.handleOf o' := by
  change (Keyed.put o h r.handles).lookup o' = _
  split
  case isTrue same => rw [same, Keyed.lookup_put_self]
  case isFalse other => exact Keyed.lookup_put_of_ne other h r.handles

/-- Registering an object under a handle puts it behind that one, whatever stood there, and takes it
from behind the one it had. -/
theorem lookup_insertWith (r : Registry α) (h : Handle) (o : ObjectRef) (payload : α)
    (h' : Handle) :
    (r.insertWith h o payload).entries.lookup h' =
      if h' = h then some ⟨o, payload⟩
      else if r.handleOf o = some h' then none else r.entries.lookup h' := by
  unfold insertWith
  by_cases same : h' = h
  · rw [if_pos same, same]
    exact Keyed.lookup_put_self h _ _
  · rw [if_neg same]
    refine (Keyed.lookup_put_of_ne same _ _).trans ?_
    cases r.handleOf o with
    | none => rfl
    | some old =>
      by_cases here : old = h'
      · rw [here, if_pos rfl]
        exact Keyed.lookup_erase_self h' r.entries
      · rw [if_neg fun same => here (Option.some.inj same)]
        exact Keyed.lookup_erase_of_ne (Ne.symm here) r.entries

end Registry

end CardBridge

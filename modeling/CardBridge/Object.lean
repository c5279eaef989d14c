/-!
# Objects of the game

An object of the game is named by its kind and a number its session gives it. Scripts do not see
that name: they hold objects by a handle. `class` names are those of the tables that hold the
methods of a kind, or of a card's own script.
-/

namespace CardBridge

/-- The number a session gives an object. -/
structure ObjectId where
  raw : UInt32
  deriving DecidableEq, Repr

/-- What kind of thing an object is. `deleted` is the kind of what is no longer registered. -/
inductive ObjectKind
  | card | effect | group | session | deleted
  deriving DecidableEq, Repr

namespace ObjectKind

/-- The kinds that can be registered. -/
def live : List ObjectKind :=
  [card, effect, group, session]

/-- The name of a kind. -/
def text : ObjectKind → String
  | card => "Card"
  | effect => "Effect"
  | group => "Group"
  | session => "Session"
  | deleted => "Deleted"

/-- The class that holds the methods of a kind. -/
def className : ObjectKind → String
  | session => "Duel"
  | k => k.text

end ObjectKind

/-- The name of an object. -/
structure ObjectRef where
  kind : ObjectKind
  id : ObjectId
  deriving DecidableEq, Repr

/-- The text of an object's name. -/
def ObjectRef.text (o : ObjectRef) : String :=
  o.kind.text ++ "(" ++ toString o.id.raw ++ ")"

/-- The name of a card. -/
def ObjectRef.card (id : ObjectId) : ObjectRef :=
  ⟨.card, id⟩

/-- What scripts hold an object by. -/
structure Handle where
  raw : UInt32
  deriving DecidableEq, Repr

namespace Handle

/-- The handle of nothing. -/
def null : Handle := ⟨0⟩

/-- Whether it is the handle of nothing. -/
def isNull (h : Handle) : Bool :=
  h.raw = 0

/-- The text of a handle. -/
def text (h : Handle) : String :=
  "Handle(" ++ toString h.raw ++ ")"

end Handle

/-- A session, which owns an environment. -/
structure SessionId where
  raw : UInt32
  deriving DecidableEq, Repr

/-- The text of a session's name. -/
def SessionId.text (s : SessionId) : String :=
  "Session(" ++ toString s.raw ++ ")"

/-- The name that a caller gives an operation of several steps. -/
structure CoroutineId where
  raw : UInt32
  deriving DecidableEq, Repr

/-- The text of the name of an operation of several steps. -/
def CoroutineId.text (c : CoroutineId) : String :=
  "Coroutine(" ++ toString c.raw ++ ")"

/-! ## Cards -/

/-- What has to be known about a card to register it. `aliasCode` is the code of a card whose script
it may share, or zero. -/
structure CardInfo where
  id : ObjectId
  code : UInt32
  aliasCode : UInt32
  /-- Whether its script is to set it up once it is registered. -/
  setUp : Bool
  deriving DecidableEq, Repr

/-- Addition that stops at the greatest number. -/
def addUpTo (a b : UInt32) : UInt32 :=
  if a.toNat + b.toNat < UInt32.size then a + b else 0xFFFFFFFF

/-- The code whose script a card runs: its alias if both are closer than `window`. -/
def CardInfo.scriptCode (c : CardInfo) (window : UInt32) : UInt32 :=
  if c.aliasCode ≠ 0 ∧ c.aliasCode < addUpTo c.code window ∧
      c.code < addUpTo c.aliasCode window then c.aliasCode
  else c.code

/-- The class of the script of a code. -/
def scriptClass (code : UInt32) : String :=
  "c" ++ toString code

/-- The name of the script of a code. -/
def scriptName (code : UInt32) : String :=
  scriptClass code ++ ".lua"

end CardBridge

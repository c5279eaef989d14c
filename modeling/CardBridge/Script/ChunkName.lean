import CardBridge.Text.Bytes

/-!
# Chunk names

The name of a chunk as messages show it: at most 59 bytes, and of a longer name its end.
-/

namespace CardBridge.Script

/-- Bytes of a name that are shown. -/
def shownLimit : Nat := 59

/-- The name a chunk goes by in messages. -/
def shownName (name : Bytes) : Bytes :=
  if name.length ≤ shownLimit then name
  else bytes "..." ++ name.drop (name.length - (shownLimit - 3))

/-- A place in a chunk, as it stands at the front of a message. -/
structure Position where
  chunk : Bytes
  line : Nat
  deriving DecidableEq

/-- The front of a message about a place. -/
def Position.mark (p : Position) : Bytes :=
  p.chunk ++ bytes (":" ++ toString p.line ++ ": ")

end CardBridge.Script

/-!
# Configuration

What can be chosen when an environment is made.
-/

namespace CardBridge

/-- The choices: how many invocations may nest, how many bytes a report may have, how close the
code of a card has to be to its alias to share its script, and which scripts are loaded first. -/
structure BridgeConfig where
  maxCallDepth : Nat
  messageCapacity : Nat
  aliasWindow : UInt32
  preloadScripts : List String
  deriving DecidableEq, Repr

/-- The choices that card scripts are written for. -/
def BridgeConfig.standard : BridgeConfig :=
  ⟨100, 128, 10, []⟩

/-- Scripts held in memory, by name. -/
abbrev ScriptStore := List (String × List UInt8)

end CardBridge

import CardBridge.Host.World
import CardBridge.Record.Format
import CardBridge.Proofs.DepthAccounting
import CardBridge.Proofs.NestedRegistrations
import CardBridge.Proofs.CoroutineSteps
import CardBridge.Proofs.StagingQueue
import CardBridge.Proofs.RefusedSteps
import CardBridge.Proofs.GuardedScripts
import CardBridge.Proofs.Interleaving
import CardBridge.Proofs.KeptApart
import CardBridge.Proofs.ExplicitArguments
import CardBridge.Proofs.QueryMode
import CardBridge.Proofs.LoadingOnDemand
import CardBridge.Proofs.CardSetUp
import CardBridge.Proofs.ScopedLoads
import CardBridge.Proofs.FailureChains
import CardBridge.Proofs.Ownership
import CardBridge.Proofs.ForeignCallables
import CardBridge.Proofs.CardMembers
import CardBridge.Proofs.Refreshing
import CardBridge.Proofs.LoadChains
import CardBridge.Proofs.BoundedMessages
import CardBridge.Proofs.HandleNumbers
import CardBridge.Proofs.IntegerNotation
import CardBridge.Proofs.FailedCalls
import CardBridge.Proofs.FailClosedQueries
import CardBridge.Proofs.ArgumentsInOrder
import CardBridge.Proofs.AliasWindow
import CardBridge.Proofs.StepBrackets
import CardBridge.Proofs.ForcedCalls
import CardBridge.Proofs.JoinedTexts

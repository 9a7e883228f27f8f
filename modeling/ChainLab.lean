import ChainLab.Action
import ChainLab.Action.Wire
import ChainLab.Authority
import ChainLab.Authority.Evaluation
import ChainLab.Authority.Wire
import ChainLab.Bench
import ChainLab.Block
import ChainLab.Bytes
import ChainLab.Bytes.Hex
import ChainLab.Chain.Account
import ChainLab.Chain.Authorization
import ChainLab.Chain.Error
import ChainLab.Chain.Execution
import ChainLab.Chain.State
import ChainLab.Config
import ChainLab.Config.Wire
import ChainLab.Config.Yaml
import ChainLab.Crypto
import ChainLab.Crypto.Ed25519
import ChainLab.Crypto.Edwards25519
import ChainLab.Crypto.Sha2
import ChainLab.Crypto.Standard
import ChainLab.Digest
import ChainLab.Fields
import ChainLab.Json
import ChainLab.Json.Reader
import ChainLab.Json.Record
import ChainLab.Json.Text
import ChainLab.Json.Token
import ChainLab.Key
import ChainLab.Level
import ChainLab.Network
import ChainLab.Network.Description
import ChainLab.Network.Group
import ChainLab.Network.Link
import ChainLab.Node
import ChainLab.Proofs.AccountCreation
import ChainLab.Proofs.AccountEdits
import ChainLab.Proofs.ActionEffects
import ChainLab.Proofs.AnchoredNetwork
import ChainLab.Proofs.AnchoredNode
import ChainLab.Proofs.AppliedOnce
import ChainLab.Proofs.BlockExchange
import ChainLab.Proofs.Branch
import ChainLab.Proofs.ChainIsolation
import ChainLab.Proofs.Consent
import ChainLab.Proofs.Convergence
import ChainLab.Proofs.Delegation
import ChainLab.Proofs.DeliveryOrder
import ChainLab.Proofs.EntryOrder
import ChainLab.Proofs.Execution
import ChainLab.Proofs.Flooding
import ChainLab.Proofs.ForkStore
import ChainLab.Proofs.FullBlock
import ChainLab.Proofs.GroupCreation
import ChainLab.Proofs.GroupMesh
import ChainLab.Proofs.HashedContent
import ChainLab.Proofs.HonestNode
import ChainLab.Proofs.IndependentPayments
import ChainLab.Proofs.LinkFeed
import ChainLab.Proofs.LinkOrder
import ChainLab.Proofs.LinkRules
import ChainLab.Proofs.LongestBranch
import ChainLab.Proofs.MalformedGraph
import ChainLab.Proofs.MoreSignatures
import ChainLab.Proofs.NetworkRun
import ChainLab.Proofs.NetworkShape
import ChainLab.Proofs.NodeRun
import ChainLab.Proofs.OperationEvents
import ChainLab.Proofs.Overflow
import ChainLab.Proofs.Partition
import ChainLab.Proofs.PendingState
import ChainLab.Proofs.PermissionChanges
import ChainLab.Proofs.PermissionOrder
import ChainLab.Proofs.PermissionTree
import ChainLab.Proofs.Pipeline
import ChainLab.Proofs.PlainEvaluation
import ChainLab.Proofs.Preimage
import ChainLab.Proofs.QueueAgreement
import ChainLab.Proofs.Quiescence
import ChainLab.Proofs.ReachedState
import ChainLab.Proofs.References
import ChainLab.Proofs.Refusals
import ChainLab.Proofs.RefusedBlock
import ChainLab.Proofs.ReplayedHead
import ChainLab.Proofs.ReplicaAgreement
import ChainLab.Proofs.ReportedCycle
import ChainLab.Proofs.Requeue
import ChainLab.Proofs.Rights
import ChainLab.Proofs.RootedNode
import ChainLab.Proofs.Satisfiability
import ChainLab.Proofs.ScenarioRun
import ChainLab.Proofs.SoughtKeys
import ChainLab.Proofs.Staleness
import ChainLab.Proofs.Submission
import ChainLab.Proofs.Supply
import ChainLab.Proofs.Synchronization
import ChainLab.Proofs.Traffic
import ChainLab.Proofs.Unsigned
import ChainLab.Proofs.UnstakeDelay
import ChainLab.Proofs.ValidBranch
import ChainLab.Proofs.WalkAgreement
import ChainLab.Proofs.WalkBounds
import ChainLab.Proofs.WireRoundTrip
import ChainLab.Quantity
import ChainLab.Random
import ChainLab.Scenario
import ChainLab.Text.Quoted
import ChainLab.Text.Unprintable
import ChainLab.Total
import ChainLab.Transaction
import ChainLab.Transaction.Wire
import ChainLab.Yaml
import ChainLab.Yaml.Reader
import ChainLab.Yaml.Record
import ChainLab.Yaml.Scalar
import ChainLab.Yaml.Scanner
import ChainLab.Yaml.Token

import ShardManager.Lib.Checked
import ShardManager.Placer.IterativeLocalSearch
import ShardManager.Proofs.SearchRules
import ShardManager.Proofs.Rollback
import ShardManager.Proofs.Reassignment
import ShardManager.Proofs.Improvement
import ShardManager.Proofs.Operators
import ShardManager.Proofs.Propagation
import ShardManager.Proofs.Defined
import ShardManager.Proofs.FailedSearch
import ShardManager.Proofs.MissingMap
import ShardManager.Proofs.Ledger
import ShardManager.Proofs.Rounds
import ShardManager.Proofs.Hierarchy
import ShardManager.Proofs.PartialTree
import ShardManager.Lib.Rollup
import ShardManager.Proofs.Placement
import ShardManager.Proofs.Commits
import ShardManager.Proofs.Summation
import ShardManager.Proofs.Tally
import ShardManager.Proofs.Counter
import ShardManager.Proofs.Loads
import ShardManager.Proofs.Recomputed
import ShardManager.Proofs.Batching
import ShardManager.Proofs.Contribution
import ShardManager.Proofs.DrainCount
import ShardManager.Proofs.DrainedShards
import ShardManager.Proofs.KeyRanges
import ShardManager.ServerUtils.RequestHandler
import ShardManager.SvcDiscovery.RequestHandler
import ShardManager.UserLibs.Client
import ShardManager.Proofs.ClientRequests
import ShardManager.Proofs.Authentication
import ShardManager.Proofs.StreamReads
import ShardManager.Proofs.WriteQueue
import ShardManager.Psychopomp.NodeMapper
import ShardManager.Proofs.NodeMapping
import ShardManager.Proofs.Topology
import ShardManager.Proofs.Destinations
import ShardManager.Proofs.LoadBalance
import ShardManager.Proofs.Reweighed
import ShardManager.Proofs.FutureBin
import ShardManager.Lib.EventRun
import ShardManager.SvcDiscovery.HandlerManager
import ShardManager.Proofs.ServerRuns
import ShardManager.Proofs.Registry
import ShardManager.Proofs.Release
import ShardManager.Proofs.WaitingHandlers
import ShardManager.Proofs.MissingKeys
import ShardManager.Proofs.ConsistentLoads
import ShardManager.Lib.Extremum
import ShardManager.Proofs.ExactTrees
import ShardManager.Proofs.ConfiguredMetric
import ShardManager.Proofs.Agreement
import ShardManager.Proofs.Reordered
import ShardManager.Proofs.AnyOrder
import ShardManager.Proofs.SubTrees
import ShardManager.Proofs.SumOfParts
import ShardManager.Proofs.Movements
import ShardManager.Proofs.Mappings
import ShardManager.Proofs.MovedParents
import ShardManager.Lib.Worklist
import ShardManager.Proofs.ReachablePart
import ShardManager.Proofs.ExactFaults
import ShardManager.Lib.Performed
import ShardManager.Proofs.AboveBins
import ShardManager.Proofs.HottestFirst
import ShardManager.Proofs.SearchRuns
import ShardManager.Proofs.Unassigned
import ShardManager.Proofs.Mentions
import ShardManager.Proofs.NodeIds
import ShardManager.Proofs.DistinctIds
import ShardManager.Proofs.KeyOverflow
import ShardManager.Lib.VersionedStore
import ShardManager.Proofs.TwoVersions
import ShardManager.Lib.Heights
import ShardManager.Proofs.ChildrenFirst
import ShardManager.Placer.QueriedTree
import ShardManager.Proofs.NodesAgree
import ShardManager.Placer.MockShardBin
import ShardManager.Proofs.ActiveShards
import ShardManager.Placer.ExclusionConstraint
import ShardManager.Proofs.ExclusionCounts
import ShardManager.Lib.Budget
import ShardManager.Proofs.SearchBudget
import ShardManager.Proofs.Conversations
import ShardManager.Proofs.ShardMaps
import ShardManager.Proofs.SolvingStates
import ShardManager.Lib.Numbering
import ShardManager.Proofs.BinIds
import ShardManager.Proofs.DrainProgress
import ShardManager.Placer.Simulation
import ShardManager.Proofs.FirstPlacement
import ShardManager.Lib.Descent
import ShardManager.Proofs.Potentials
import ShardManager.Proofs.CapacityRelief
import ShardManager.Lib.LockStep
import ShardManager.Proofs.SameSearches
import ShardManager.Proofs.ServerParts
import ShardManager.Proofs.BalancingPenalty
import ShardManager.Proofs.PartLayers
import ShardManager.Proofs.Renewal
import ShardManager.Proofs.Surcharge
import ShardManager.Proofs.Neutral
import ShardManager.Proofs.Restored

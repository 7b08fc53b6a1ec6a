import ShardManager.Lib.Performed
import ShardManager.Psychopomp.NodeMapper
import ShardManager.Psychopomp.SolvingManagerUtils

/-! `SolvingManager.cpp`: the stages in which a manager gets the shards of its services
and the states that the search works on. A set of services is traversed in the order of
its entries. -/

namespace ShardManager.Psychopomp

abbrev ServiceId := Int

/-- `camfer::ServiceConfig`, without the fields that no stage reads. -/
structure ServiceConfig where
  nodeConfig : NodeConfig := ⟨[], ∅⟩
  metricConfig : MetricConfig := ⟨[]⟩

structure SolvingManager where
  serviceConfig : UnorderedMap ServiceId ServiceConfig := ∅
  shardMappings : UnorderedMap ServiceId ShardMapping := ∅
  shardMetricsMappings : UnorderedMap ServiceId ShardMetricsMapping := ∅
  binMappings : UnorderedMap ServiceId BinMapping := ∅
  nodeMappers : UnorderedMap ServiceId NodeMapper := ∅
  solvingStates : UnorderedMap ServiceId SolvingState := ∅

namespace SolvingManager

/-- `generateShardKeyRangeMap` as it is called for every new service. Its last loop takes no turns. -/
def newServiceRanges : List ShardKeyRange := (KeyRanges.generateShardKeyRangeMap 1 0 9223372036854775807 100).getD []

/-- The shard for a range, with the number drawn for it. -/
def newShard (range : ShardKeyRange) (id : UInt64) : Shard := ⟨⟨range.1, range.2⟩, .secondary, toInt64 id.toNat⟩

/-- The loop over the ranges; `randomGen` is a new generator for each service. `emplace`
drops the shard of a range whose number was drawn before. -/
def newShardMapping (randomGen : Nat → UInt64) : ShardMapping :=
  newServiceRanges.zipIdx.foldl (fun tempShardMapping range =>
    tempShardMapping.emplace (randomGen range.2).toNat (newShard range.1 (randomGen range.2))) ∅

/-- The mappings are those the provider returns. The loops over them do nothing. -/
def updateAll (serviceMappings : UnorderedMap ServiceId BinMapping) (manager : SolvingManager) : SolvingManager :=
  { manager with binMappings := serviceMappings }

def populateServiceConfig (_serviceIds : UnorderedSet ServiceId) (manager : SolvingManager) : SolvingManager := manager

/-- The body of the loop over the services. -/
def populateShards (randomGen : ServiceId → Nat → UInt64) (manager : SolvingManager) (svcId : ServiceId) : SolvingManager :=
  match manager.shardMappings.lookup svcId with
  | some _ => manager
  | none => { manager with shardMappings := manager.shardMappings.emplace svcId (newShardMapping (randomGen svcId)) }

def populateShardMap (serviceIds : UnorderedSet ServiceId) (randomGen : ServiceId → Nat → UInt64) (manager : SolvingManager) :
    SolvingManager :=
  serviceIds.keys.foldl (populateShards randomGen) manager

def populateShardMetricsMap (_serviceIds : UnorderedSet ServiceId) (manager : SolvingManager) : SolvingManager := manager

/-- The body of the loop over the services. `operator[]` leaves an empty mapping of
metrics and a default configuration behind. -/
def createState (manager : SolvingManager) (svcId : ServiceId) : Except Fault SolvingManager := do
  let shardMetricsMapping := (manager.shardMetricsMappings.lookup svcId).getD ∅
  let manager := { manager with shardMetricsMappings := manager.shardMetricsMappings.insert svcId shardMetricsMapping }
  match manager.shardMappings.lookup svcId, manager.binMappings.lookup svcId with
  | some shardMapping, some binMapping =>
    let svcConfig := (manager.serviceConfig.lookup svcId).getD {}
    let nodeMapper ← NodeMapper.new svcConfig.nodeConfig svcConfig.metricConfig binMapping shardMapping shardMetricsMapping
    pure
      { manager with
        serviceConfig := manager.serviceConfig.insert svcId svcConfig
        nodeMappers := manager.nodeMappers.insert svcId nodeMapper
        solvingStates := manager.solvingStates.insert svcId nodeMapper.solvingState }
  | _, _ => pure manager

def createSolvingState (serviceIds : UnorderedSet ServiceId) (manager : SolvingManager) : Except Fault SolvingManager :=
  serviceIds.keys.foldlM createState { manager with solvingStates := ∅ }

end SolvingManager

/-- The stages that the repository defines, each with what it gets from outside. -/
inductive Stage where
  | updateAll (serviceMappings : UnorderedMap ServiceId BinMapping)
  | populateServiceConfig (serviceIds : UnorderedSet ServiceId)
  | populateShardMap (serviceIds : UnorderedSet ServiceId) (randomGen : ServiceId → Nat → UInt64)
  | populateShardMetricsMap (serviceIds : UnorderedSet ServiceId)
  | createSolvingState (serviceIds : UnorderedSet ServiceId)

namespace SolvingManager

def perform (manager : SolvingManager) : Stage → Except Fault SolvingManager
  | .updateAll serviceMappings => .ok (manager.updateAll serviceMappings)
  | .populateServiceConfig serviceIds => .ok (manager.populateServiceConfig serviceIds)
  | .populateShardMap serviceIds randomGen => .ok (manager.populateShardMap serviceIds randomGen)
  | .populateShardMetricsMap serviceIds => .ok (manager.populateShardMetricsMap serviceIds)
  | .createSolvingState serviceIds => manager.createSolvingState serviceIds

/-- A manager that goes through stages in any order, up to one that faults. -/
def machine : Machine SolvingManager Stage := .ofSteps (fun _ _ => True) perform

end SolvingManager
end ShardManager.Psychopomp

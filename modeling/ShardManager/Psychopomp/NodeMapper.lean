import ShardManager.Placer.SolvingState

/-! `NodeMapper.h`: ids for the bins and the nodes above them, and the rows of the
hierarchy that `SolvingState` is built from. A map is traversed in the order of its
entries; indexing outside of a list is an error. -/

namespace ShardManager
namespace Psychopomp

/-- `camfer::Node`. -/
structure NodeSpec where
  name : String
  children : List String

structure NodeConfig where
  domains : List String
  domainNodes : UnorderedMap String (List NodeSpec)

structure MetricConfig where
  metrics : List String

structure BinInfo where
  shardInfos : List ShardInfo
  domainToNodesMap : UnorderedMap String String

abbrev BinMapping := UnorderedMap Int BinInfo
abbrev ShardMapping := UnorderedMap Nat Shard
abbrev ShardMetricsMapping := UnorderedMap Nat ShardMetrics

/-- The `ShardId`, a `uint64_t`, that an `int64_t` id becomes as a key. -/
def toShardId (id : Int) : Nat := (id % 18446744073709551616).toNat

structure NodeMapper where
  shardInfos : List ShardInfo := []
  metricVectors : List (List MetricValue) := []
  nodeMapping : List (List (List DomainId)) := []
  metricMapping : List String := []
  binDomainIdMapping : UnorderedMap DomainId Int := ∅
  domainIdBinMapping : UnorderedMap Int DomainId := ∅
  indexDomainMapping : UnorderedMap Nat String := ∅
  domainIndexMapping : UnorderedMap String Nat := ∅
  domainToNodeDomainIdMapping : UnorderedMap Nat (UnorderedMap String DomainId) := ∅

namespace NodeMapper

def element {α : Type} (items : List α) (index : Nat) : Except Fault α :=
  match items[index]? with
  | some item => .ok item
  | none => .error .outOfRange

/-- The private overload, which assigns ids. The size is that of the outer map. -/
def assignDomainId (domainIndex : Nat) (node : String) (mapper : NodeMapper) : DomainId × NodeMapper :=
  let nodes := (mapper.domainToNodeDomainIdMapping.lookup domainIndex).getD ∅
  let domainId := (nodes.lookup node).getD 0
  let domainId :=
    if domainId = 0 then (mapper.domainToNodeDomainIdMapping.insert domainIndex nodes).keys.length else domainId
  (domainId,
    { mapper with
      domainToNodeDomainIdMapping := mapper.domainToNodeDomainIdMapping.insert domainIndex (nodes.insert node domainId) })

/-- The public overload, for bins. -/
def getDomainId (mapper : NodeMapper) (binName : Int) : Option DomainId := mapper.domainIdBinMapping.lookup binName

def getBinId (mapper : NodeMapper) (domainId : DomainId) : Option Int := mapper.binDomainIdMapping.lookup domainId

/-- `-1` as a `size_t` where the domain is unknown. -/
def getDomainIndex (mapper : NodeMapper) (domain : String) : Nat :=
  (mapper.domainIndexMapping.lookup domain).getD 18446744073709551615

/-- `indexDomainMapping_[index]`, the empty string where it is absent. -/
def getDomain (mapper : NodeMapper) (index : Nat) : String := (mapper.indexDomainMapping.lookup index).getD ""

/-- `(*nodeMapping_)[domainIndex].resize(count)`. -/
def resizeDomain (domainIndex count : Nat) (mapper : NodeMapper) : Except Fault NodeMapper := do
  let rows ← element mapper.nodeMapping domainIndex
  let rows := rows.take count ++ List.replicate (count - rows.length) []
  pure { mapper with nodeMapping := mapper.nodeMapping.set domainIndex rows }

/-- `(*nodeMapping_)[domainIndex][parentId].push_back(childId)`. -/
def pushChild (domainIndex parentId childId : Nat) (mapper : NodeMapper) : Except Fault NodeMapper := do
  let rows ← element mapper.nodeMapping domainIndex
  let row ← element rows parentId
  pure { mapper with nodeMapping := mapper.nodeMapping.set domainIndex (rows.set parentId (row ++ [childId])) }

/-- The first loop of `addDomainMapping`. -/
def indexDomains : List String → Nat → NodeMapper → NodeMapper
  | [], _, mapper => mapper
  | domain :: domains, startingIndex, mapper =>
    indexDomains domains (startingIndex - 1)
      { mapper with
        indexDomainMapping := mapper.indexDomainMapping.insert startingIndex domain
        domainIndexMapping := mapper.domainIndexMapping.insert domain startingIndex }

/-- The body of the loop over the nodes of a domain. -/
def addNode (domainIndex : Nat) (mapper : NodeMapper) (node : NodeSpec) : Except Fault NodeMapper :=
  let (parentId, mapper) := mapper.assignDomainId domainIndex node.name
  node.children.foldlM (fun mapper child =>
    let (childId, mapper) := mapper.assignDomainId (domainIndex + 1) child
    mapper.pushChild domainIndex parentId childId) mapper

/-- The body of the second loop of `addDomainMapping`. The list of domains is indexed
by the number of the domain. -/
def addDomain (nodeConfig : NodeConfig) (mapper : NodeMapper) (domain : String) : Except Fault NodeMapper := do
  let domainIndex := mapper.getDomainIndex domain
  let name ← element nodeConfig.domains domainIndex
  let nodes ← atKey nodeConfig.domainNodes name
  let mapper ← mapper.resizeDomain domainIndex nodes.length
  nodes.foldlM (addNode domainIndex) mapper

def addDomainMapping (nodeConfig : NodeConfig) (mapper : NodeMapper) : Except Fault NodeMapper :=
  let mapper := indexDomains nodeConfig.domains (nodeConfig.domains.length + 1) mapper
  let mapper := { mapper with nodeMapping := List.replicate (nodeConfig.domains.length + 2) [] }
  nodeConfig.domains.foldlM (addDomain nodeConfig) mapper

def createMetricMapping (metricConfig : MetricConfig) (mapper : NodeMapper) : NodeMapper :=
  { mapper with metricMapping := mapper.metricMapping ++ metricConfig.metrics }

/-- The shard of the mapping that a reported shard is, if it is one. -/
def matchingShard (shardMapping : ShardMapping) (shardInfo : ShardInfo) : Option Shard :=
  match shardMapping.lookup (toShardId shardInfo.shard.id) with
  | none => none
  | some shard =>
    if shard.type ≠ shardInfo.shard.type ∨ shard.range.start ≠ shardInfo.shard.range.start ∨
        shard.range.end ≠ shardInfo.shard.range.end then none
    else some shard

/-- `metricVal.value_or(0)`. -/
def metricValue (shardInfo : ShardInfo) (prevMetrics : Option ShardMetrics) (metricKey : String) : MetricValue :=
  match shardInfo.metrics.metrics.lookup metricKey with
  | some metricVal => metricVal
  | none => (prevMetrics.bind fun prevMetrics => prevMetrics.metrics.lookup metricKey).getD 0

/-- The vector starts with as many zeros as it gets elements. -/
def metricVector (metricMapping : List String) (shardInfo : ShardInfo) (prevMetrics : Option ShardMetrics) : List MetricValue :=
  List.replicate metricMapping.length 0 ++ metricMapping.map (metricValue shardInfo prevMetrics)

/-- The body of the loop over the shards of a bin. The list `shardsInBin` of the
source, which nothing reads, is left out. -/
def addShard (shardMapping : ShardMapping) (shardMetricsMapping : ShardMetricsMapping) (mapper : NodeMapper)
    (shardInfo : ShardInfo) : NodeMapper :=
  match matchingShard shardMapping shardInfo with
  | none => mapper
  | some shard =>
    let prevMetrics := shardMetricsMapping.lookup (toShardId shard.id)
    { mapper with
      shardInfos := mapper.shardInfos ++ [shardInfo]
      metricVectors := mapper.metricVectors ++ [metricVector mapper.metricMapping shardInfo prevMetrics] }

/-- The body of the loop over the bins, with the counter `domainId`. -/
def addBin (shardMapping : ShardMapping) (shardMetricsMapping : ShardMetricsMapping) (state : Nat × NodeMapper)
    (bin : Sigma fun _ : Int => BinInfo) : Except Fault (Nat × NodeMapper) := do
  let domainId := state.1 + 1
  let mapper :=
    { state.2 with
      binDomainIdMapping := state.2.binDomainIdMapping.insert domainId bin.1
      domainIdBinMapping := state.2.domainIdBinMapping.insert bin.1 domainId }
  let mapper := bin.2.shardInfos.foldl (addShard shardMapping shardMetricsMapping) mapper
  let binParentDomain := mapper.getDomain 2
  match bin.2.domainToNodesMap.lookup binParentDomain with
  | none => pure (domainId, mapper)
  | some binNode =>
    if binNode = "" then pure (domainId, mapper)
    else
      let (parentId, mapper) := mapper.assignDomainId 2 binNode
      let mapper ← mapper.pushChild 2 parentId domainId
      pure (domainId, mapper)

def createNodeMapping (binMapping : BinMapping) (shardMapping : ShardMapping) (shardMetricsMapping : ShardMetricsMapping)
    (mapper : NodeMapper) : Except Fault NodeMapper := do
  let (_, mapper) ← binMapping.entries.foldlM (addBin shardMapping shardMetricsMapping) (0, mapper)
  pure mapper

def new (nodeConfig : NodeConfig) (metricConfig : MetricConfig) (binMapping : BinMapping) (shardMapping : ShardMapping)
    (shardMetricsMapping : ShardMetricsMapping) : Except Fault NodeMapper := do
  let mapper ← addDomainMapping nodeConfig {}
  createNodeMapping binMapping shardMapping shardMetricsMapping (mapper.createMetricMapping metricConfig)

/-- The state that `SolvingManager::createSolvingState` builds of a mapper. -/
def solvingState (mapper : NodeMapper) : SolvingState := .new mapper.shardInfos mapper.metricVectors mapper.nodeMapping

end NodeMapper
end Psychopomp
end ShardManager

import ShardManager.Lib.Checked
import ShardManager.Psychopomp.NodeMapper

/-! The tree of a state and the topology its `NodeMapper` was configured with. A domain
is looked up in the list of domains under its own number, which is past the end of the
list for the highest domain; a mapper exists only where nothing is configured. -/

namespace ShardManager
namespace Psychopomp
namespace NodeMapper

def nodesOf (nodeConfig : NodeConfig) (domain : String) : List NodeSpec := (nodeConfig.domainNodes.lookup domain).getD []

/-- Domains listed from the highest to the lowest, each with its nodes. -/
structure WellFormed (nodeConfig : NodeConfig) : Prop where
  domains : nodeConfig.domains.Nodup
  nodes : ∀ domain ∈ nodeConfig.domains, domain ∈ nodeConfig.domainNodes
  names : ∀ domain ∈ nodeConfig.domains, ((nodesOf nodeConfig domain).map NodeSpec.name).Nodup
  children : ∀ (position : Nat) (domain : String), nodeConfig.domains[position]? = some domain →
    ∀ node ∈ nodesOf nodeConfig domain, ∀ child ∈ node.children, ∃ lower, nodeConfig.domains[position + 1]? = some lower ∧
      child ∈ (nodesOf nodeConfig lower).map NodeSpec.name

def nodeId (mapper : NodeMapper) (domain : Domain) (name : String) : Option DomainId :=
  (mapper.domainToNodeDomainIdMapping.lookup domain).bind (·.lookup name)

/-- The tree of the state records a child exactly if a condition holds, both downwards and upwards. -/
def ListsChild (mapper : NodeMapper) (parent child : Node) (listed : Prop) : Prop :=
  (child.2 ∈ mapper.solvingState.assignmentTree.children parent.1 parent.2 ↔ listed) ∧
  (parent ∈ mapper.solvingState.assignmentTree.staticParents child.1 child.2 ↔ listed)

structure Topology (nodeConfig : NodeConfig) (binMapping : BinMapping) (mapper : NodeMapper) : Prop where
  shards : mapper.solvingState.assignmentTree.shardDomain = 0
  bins : mapper.solvingState.assignmentTree.binDomain = 1
  levels : ∀ (position : Nat) (domain : String), nodeConfig.domains[position]? = some domain →
    mapper.getDomainIndex domain + position = nodeConfig.domains.length + 1
  nodeChildren : ∀ (position : Nat) (upper lower : String), nodeConfig.domains[position]? = some upper →
    nodeConfig.domains[position + 1]? = some lower →
    ∀ parent ∈ nodesOf nodeConfig upper, ∀ child ∈ nodesOf nodeConfig lower, ∃ parentId childId,
      mapper.nodeId (mapper.getDomainIndex upper) parent.name = some parentId ∧
      mapper.nodeId (mapper.getDomainIndex lower) child.name = some childId ∧
      mapper.ListsChild (mapper.getDomainIndex upper, parentId) (mapper.getDomainIndex lower, childId)
        (child.name ∈ parent.children)
  binChildren : ∀ lowest, nodeConfig.domains.getLast? = some lowest →
    ∀ bin ∈ binMapping.entries, ∀ parent ∈ nodesOf nodeConfig lowest, ∃ parentId domainId,
      mapper.nodeId 2 parent.name = some parentId ∧ mapper.getDomainId bin.1 = some domainId ∧
      mapper.ListsChild (2, parentId) (1, domainId) (bin.2.domainToNodesMap.lookup lowest = some parent.name)

theorem lookup_indexDomains_of_not_mem {domains : List String} {domain : String} (absent : domain ∉ domains)
    (startingIndex : Nat) (mapper : NodeMapper) :
    (indexDomains domains startingIndex mapper).domainIndexMapping.lookup domain = mapper.domainIndexMapping.lookup domain := by
  induction domains generalizing startingIndex mapper with
  | nil => rfl
  | cons first domains ih =>
    obtain ⟨other, absent⟩ := List.ne_and_not_mem_of_not_mem_cons absent
    unfold indexDomains
    rw [ih absent, UnorderedMap.lookup_insert, if_neg other]

private theorem addDomain_outside (nodeConfig : NodeConfig) (mapper : NodeMapper) {domain : String} {index : Nat}
    (numbered : mapper.domainIndexMapping.lookup domain = some index) (past : nodeConfig.domains.length ≤ index) :
    addDomain nodeConfig mapper domain = .error .outOfRange := by
  have outside : element nodeConfig.domains (mapper.getDomainIndex domain) = .error .outOfRange := by
    simp [element, getDomainIndex, numbered, past]
  unfold addDomain
  simp only [outside]
  rfl

private theorem addDomainMapping_configured (nodeConfig : NodeConfig) (mapper : NodeMapper) (distinct : nodeConfig.domains.Nodup)
    (configured : nodeConfig.domains ≠ []) : addDomainMapping nodeConfig mapper = .error .outOfRange := by
  obtain ⟨highest, lower, split⟩ := List.exists_cons_of_ne_nil configured
  have absent : highest ∉ lower := (List.nodup_cons.mp (split ▸ distinct)).1
  have numbered : (indexDomains nodeConfig.domains (nodeConfig.domains.length + 1) mapper).domainIndexMapping.lookup highest =
      some (nodeConfig.domains.length + 1) := by
    generalize nodeConfig.domains.length + 1 = startingIndex
    rw [split, indexDomains, lookup_indexDomains_of_not_mem absent, UnorderedMap.lookup_insert, if_pos rfl]
  have first : ∀ nodeMapping, addDomain nodeConfig
      { indexDomains nodeConfig.domains (nodeConfig.domains.length + 1) mapper with nodeMapping } highest =
        .error .outOfRange := fun nodeMapping => addDomain_outside nodeConfig _ numbered (Nat.le_succ _)
  have stops : ∀ {initial : NodeMapper}, addDomain nodeConfig initial highest = .error .outOfRange →
      nodeConfig.domains.foldlM (addDomain nodeConfig) initial = .error .outOfRange := by
    intro initial fails
    rw [split, List.foldlM_cons, fails]
    rfl
  exact stops (first _)

theorem addShards_rows (shardMapping : ShardMapping) (shardMetricsMapping : ShardMetricsMapping) (shardInfos : List ShardInfo)
    (mapper : NodeMapper) :
    (shardInfos.foldl (addShard shardMapping shardMetricsMapping) mapper).indexDomainMapping = mapper.indexDomainMapping ∧
    (shardInfos.foldl (addShard shardMapping shardMetricsMapping) mapper).nodeMapping = mapper.nodeMapping := by
  induction shardInfos generalizing mapper with
  | nil => exact ⟨rfl, rfl⟩
  | cons shardInfo shardInfos ih =>
    obtain ⟨domains, rows⟩ := ih (addShard shardMapping shardMetricsMapping mapper shardInfo)
    rw [List.foldl_cons, domains, rows]
    unfold addShard
    cases matchingShard shardMapping shardInfo <;> exact ⟨rfl, rfl⟩

theorem addShards_ids (shardMapping : ShardMapping) (shardMetricsMapping : ShardMetricsMapping) (shardInfos : List ShardInfo)
    (mapper : NodeMapper) :
    (shardInfos.foldl (addShard shardMapping shardMetricsMapping) mapper).domainToNodeDomainIdMapping =
      mapper.domainToNodeDomainIdMapping := by
  induction shardInfos generalizing mapper with
  | nil => rfl
  | cons shardInfo shardInfos ih =>
    rw [List.foldl_cons, ih]
    unfold addShard
    cases matchingShard shardMapping shardInfo <;> rfl

theorem indexDomains_ids (domains : List String) (startingIndex : Nat) (mapper : NodeMapper) :
    (indexDomains domains startingIndex mapper).domainToNodeDomainIdMapping = mapper.domainToNodeDomainIdMapping := by
  induction domains generalizing startingIndex mapper with
  | nil => rfl
  | cons domain domains ih =>
    unfold indexDomains
    exact ih _ _

/-- A mapper of a configuration without domains. -/
structure Unconfigured (mapper : NodeMapper) : Prop where
  indexDomainMapping : mapper.indexDomainMapping = ∅
  nodeMapping : mapper.nodeMapping = [[], []]

/-- No node is named for the domain without a name. -/
def Nameless (bin : BinInfo) : Prop := ∀ name, bin.domainToNodesMap.lookup "" = some name → name = ""

variable {shardMapping : ShardMapping} {shardMetricsMapping : ShardMetricsMapping}

theorem addBin_unconfigured {state : Nat × NodeMapper} (unconfigured : Unconfigured state.2)
    (bin : Sigma fun _ : Int => BinInfo) :
    (Nameless bin.2 → ∃ after, addBin shardMapping shardMetricsMapping state bin = .ok after ∧ Unconfigured after.2) ∧
    (∀ after, addBin shardMapping shardMetricsMapping state bin = .ok after → Nameless bin.2 ∧ Unconfigured after.2) := by
  simp only [addBin]
  obtain ⟨domains, rows⟩ := addShards_rows shardMapping shardMetricsMapping bin.2.shardInfos
    { state.2 with
      binDomainIdMapping := state.2.binDomainIdMapping.insert (state.1 + 1) bin.1
      domainIdBinMapping := state.2.domainIdBinMapping.insert bin.1 (state.1 + 1) }
  generalize bin.2.shardInfos.foldl (addShard shardMapping shardMetricsMapping) _ = mapper at domains rows ⊢
  have kept : Unconfigured mapper := ⟨domains.trans unconfigured.indexDomainMapping, rows.trans unconfigured.nodeMapping⟩
  have unnamed : mapper.getDomain 2 = "" := by simp [getDomain, kept.indexDomainMapping]
  rw [unnamed]
  cases named : bin.2.domainToNodesMap.lookup "" with
  | none =>
    have nameless : Nameless bin.2 := by simp [Nameless, named]
    refine ⟨fun _ => ⟨_, rfl, kept⟩, ?_⟩
    rintro after ⟨⟩
    exact ⟨nameless, kept⟩
  | some binNode =>
    by_cases empty : binNode = ""
    · have nameless : Nameless bin.2 := by simp [Nameless, named, empty]
      simp only [empty, if_true]
      refine ⟨fun _ => ⟨_, rfl, kept⟩, ?_⟩
      rintro after ⟨⟩
      exact ⟨nameless, kept⟩
    · -- There are two levels, so that the one above the bins is out of range.
      have fails : ∀ parentId childId,
          pushChild 2 parentId childId (mapper.assignDomainId 2 binNode).2 = .error .outOfRange := by
        intro parentId childId
        have level : element (mapper.assignDomainId 2 binNode).2.nodeMapping 2 = .error .outOfRange := by
          simp [element, assignDomainId, kept.nodeMapping]
        rw [pushChild, level]
        rfl
      simp only [empty, if_false, fails]
      refine ⟨fun nameless => absurd (nameless binNode named) empty, ?_⟩
      rintro after ⟨⟩

theorem createNodeMapping_unconfigured {mapper : NodeMapper} (unconfigured : Unconfigured mapper) (binMapping : BinMapping) :
    (∃ after, mapper.createNodeMapping binMapping shardMapping shardMetricsMapping = .ok after) ↔
      ∀ bin ∈ binMapping.entries, Nameless bin.2 := by
  have loop : ∀ (bins : List (Sigma fun _ : Int => BinInfo)) (state : Nat × NodeMapper), Unconfigured state.2 →
      ((∃ after, bins.foldlM (addBin shardMapping shardMetricsMapping) state = .ok after) ↔ ∀ bin ∈ bins, Nameless bin.2) := by
    intro bins
    induction bins with
    | nil => exact fun state _ => ⟨fun _ _ member => absurd member List.not_mem_nil, fun _ => ⟨state, rfl⟩⟩
    | cons bin bins ih =>
      intro state unconfigured
      obtain ⟨defined, only⟩ := addBin_unconfigured unconfigured bin
      rw [List.foldlM_cons, List.forall_mem_cons]
      constructor
      · rintro ⟨final, finished⟩
        obtain ⟨middle, first, rest⟩ := Checked.bind_ok finished
        obtain ⟨nameless, kept⟩ := only middle first
        exact ⟨nameless, (ih middle kept).mp ⟨final, rest⟩⟩
      · rintro ⟨nameless, others⟩
        obtain ⟨middle, first, kept⟩ := defined nameless
        rw [first, Checked.ok_bind]
        exact (ih middle kept).mpr others
  rw [← loop binMapping.entries (0, mapper) unconfigured]
  constructor
  · rintro ⟨after, created⟩
    obtain ⟨final, finished, _⟩ := Checked.bind_ok created
    exact ⟨final, finished⟩
  · rintro ⟨final, finished⟩
    refine ⟨final.2, ?_⟩
    rw [createNodeMapping, finished]
    rfl

/-- The topology of a configuration with a domain never becomes a tree. -/
theorem topology_iff (nodeConfig : NodeConfig) (wellFormed : WellFormed nodeConfig) (metricConfig : MetricConfig)
    (binMapping : BinMapping) (shardMapping : ShardMapping) (shardMetricsMapping : ShardMetricsMapping) :
    (∃ mapper, new nodeConfig metricConfig binMapping shardMapping shardMetricsMapping = .ok mapper ∧
      Topology nodeConfig binMapping mapper) ↔
    nodeConfig.domains = [] ∧ ∀ bin ∈ binMapping.entries, ∀ name, bin.2.domainToNodesMap.lookup "" = some name → name = "" := by
  constructor
  · rintro ⟨mapper, made, _⟩
    obtain ⟨mapped, first, created⟩ := Checked.bind_ok made
    have none : nodeConfig.domains = [] := by
      by_contra configured
      rw [addDomainMapping_configured nodeConfig {} wellFormed.domains configured] at first
      cases first
    refine ⟨none, ?_⟩
    have unconfigured : Unconfigured (mapped.createMetricMapping metricConfig) := by
      simp only [addDomainMapping, none, indexDomains, List.foldlM_nil] at first
      cases first
      exact ⟨rfl, rfl⟩
    exact (createNodeMapping_unconfigured unconfigured binMapping).mp ⟨mapper, created⟩
  · rintro ⟨none, nameless⟩
    have mapped : addDomainMapping nodeConfig {} = .ok { nodeMapping := [[], []] } := by
      simp only [addDomainMapping, none, indexDomains, List.foldlM_nil]
      rfl
    have unconfigured : Unconfigured (createMetricMapping metricConfig { nodeMapping := [[], []] }) := ⟨rfl, rfl⟩
    obtain ⟨mapper, created⟩ := (createNodeMapping_unconfigured unconfigured binMapping).mpr nameless
    obtain ⟨shards, bins⟩ := SolvingState.new_domains mapper.shardInfos mapper.metricVectors mapper.nodeMapping
    refine ⟨mapper, ?_, shards, bins, ?_, ?_, ?_⟩
    · rw [new, mapped]
      exact created
    all_goals simp [none]

def unconfiguredBins : BinMapping :=
  ((∅ : BinMapping).insert 7 ⟨[⟨⟨⟨0, 9⟩, .primary, 3⟩, ⟨∅⟩, .added⟩], (∅ : UnorderedMap String String).insert "rack" "R1"⟩).insert
    8 ⟨[], ∅⟩

theorem topology_unconfigured :
    ∃ mapper, new ⟨[], ∅⟩ ⟨[]⟩ unconfiguredBins ∅ ∅ = .ok mapper ∧ Topology ⟨[], ∅⟩ unconfiguredBins mapper := by
  refine (topology_iff ⟨[], ∅⟩ ⟨by simp, by simp, by simp, by simp⟩ ⟨[]⟩ unconfiguredBins ∅ ∅).mpr ⟨rfl, ?_⟩
  rintro bin (_ | ⟨_, _ | ⟨_, ⟨⟩⟩⟩) name found <;> cases found

def racks : NodeConfig := ⟨["rack"], (∅ : UnorderedMap String (List NodeSpec)).insert "rack" [⟨"R1", []⟩, ⟨"R2", []⟩]⟩

theorem racks_fail : ¬ ∃ mapper, new racks ⟨[]⟩ ∅ ∅ ∅ = .ok mapper ∧ Topology racks ∅ mapper := by
  rintro ⟨mapper, made, _⟩
  cases made

end NodeMapper
end Psychopomp
end ShardManager

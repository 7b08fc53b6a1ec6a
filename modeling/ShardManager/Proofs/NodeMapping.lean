import ShardManager.Psychopomp.NodeMapper

/-! What is left of the reports of the bins once a `NodeMapper` has been built of them.
The loop over the bins collects the accepted shards and a vector of metrics for each
shard; no row of the level between shards and bins is ever written. -/

namespace ShardManager
namespace SparseMappingTree

private theorem getChildDomain_addMapping_of_ne (tree : SparseMappingTree) (parent : Node) (childDomain : Domain)
    (children : List DomainId) {domain : Domain} (other : domain ≠ parent.1) :
    (tree.addMapping parent childDomain children).getChildDomain domain = tree.getChildDomain domain := by
  unfold addMapping getChildDomain
  split
  next => simp only [UnorderedMap.lookup_insert, if_neg other]
  next => rfl

end SparseMappingTree

namespace SolvingState

private theorem getChildDomain_addDomainInternal (parentDomain childDomain : Domain) (parentChildMap : List (List DomainId))
    (tree : SparseMappingTree) {domain : Domain} (other : domain ≠ parentDomain) :
    (addDomainInternal parentDomain childDomain parentChildMap tree).getChildDomain domain = tree.getChildDomain domain := by
  unfold addDomainInternal
  induction parentChildMap.zipIdx generalizing tree with
  | nil => rfl
  | cons row rows ih =>
    rw [List.foldl_cons, ih]
    exact tree.getChildDomain_addMapping_of_ne _ _ _ other

private theorem getChildDomain_new (shardInfoVector : List ShardInfo) (metricVectors : List (List MetricValue))
    {domainMapping : List (List (List DomainId))} {level : Nat} (noRows : domainMapping[level]? = some []) :
    (new shardInfoVector metricVectors domainMapping).assignmentTree.getChildDomain (level + 1) = none := by
  suffices loop : ∀ (levels : List (List (List DomainId) × Nat)) (tree : SparseMappingTree),
      (∀ rows ∈ levels, rows.2 = level → rows.1 = []) →
      (levels.foldl (fun tree rows => addDomainInternal (rows.2 + 1) rows.2 rows.1 tree) tree).getChildDomain (level + 1) =
        tree.getChildDomain (level + 1) by
    refine (loop domainMapping.zipIdx (.empty 0 1) ?_).trans (by simp [SparseMappingTree.getChildDomain, SparseMappingTree.empty])
    rintro ⟨rows, index⟩ member rfl
    rw [List.mem_zipIdx_iff_getElem?] at member
    simpa [noRows] using member.symm
  intro levels
  induction levels with
  | nil => exact fun _ _ => rfl
  | cons rows levels ih =>
    intro tree empty
    rw [List.foldl_cons, ih _ fun other member => empty other (List.mem_cons_of_mem _ member)]
    by_cases here : rows.2 = level
    · rw [empty rows List.mem_cons_self here]
      rfl
    · exact getChildDomain_addDomainInternal _ _ _ _ fun same => here (Nat.succ.inj same).symm

end SolvingState

namespace Psychopomp
namespace NodeMapper

def acceptedShards (shardMapping : ShardMapping) (shardInfos : List ShardInfo) : List ShardInfo :=
  shardInfos.filter fun shardInfo => (matchingShard shardMapping shardInfo).isSome

/-- The accepted shards with their bins, in the order in which the loops visit them. -/
def reports (binMapping : BinMapping) (shardMapping : ShardMapping) : List (Int × ShardInfo) :=
  binMapping.entries.flatMap fun bin => (acceptedShards shardMapping bin.2.shardInfos).map fun shardInfo => (bin.1, shardInfo)

/-- The value a bin reported for a metric of a shard, or else the shard's previous value, or else 0. -/
def reportedMetric (shardMapping : ShardMapping) (shardMetricsMapping : ShardMetricsMapping) (shardInfo : ShardInfo)
    (metric : String) : MetricValue :=
  let prevMetrics := (matchingShard shardMapping shardInfo).bind fun shard => shardMetricsMapping.lookup (toShardId shard.id)
  ((shardInfo.metrics.metrics.lookup metric).or (prevMetrics.bind fun prevMetrics => prevMetrics.metrics.lookup metric)).getD 0

/-- What the loop over the domains leaves alone. -/
structure Keeps (before after : NodeMapper) : Prop where
  shardInfos : after.shardInfos = before.shardInfos
  metricVectors : after.metricVectors = before.metricVectors
  metricMapping : after.metricMapping = before.metricMapping
  domainIndexMapping : after.domainIndexMapping = before.domainIndexMapping
  shardRows : after.nodeMapping[0]? = before.nodeMapping[0]?

theorem Keeps.refl (mapper : NodeMapper) : Keeps mapper mapper := ⟨rfl, rfl, rfl, rfl, rfl⟩

theorem Keeps.trans {first second third : NodeMapper} (former : Keeps first second) (latter : Keeps second third) :
    Keeps first third where
  shardInfos := latter.shardInfos.trans former.shardInfos
  metricVectors := latter.metricVectors.trans former.metricVectors
  metricMapping := latter.metricMapping.trans former.metricMapping
  domainIndexMapping := latter.domainIndexMapping.trans former.domainIndexMapping
  shardRows := latter.shardRows.trans former.shardRows

private theorem keeps_assignDomainId (domainIndex : Nat) (node : String) (mapper : NodeMapper) :
    Keeps mapper (mapper.assignDomainId domainIndex node).2 := ⟨rfl, rfl, rfl, rfl, rfl⟩

private theorem keeps_pushChild {domainIndex parentId childId : Nat} {mapper after : NodeMapper} (above : domainIndex ≠ 0)
    (pushed : mapper.pushChild domainIndex parentId childId = .ok after) : Keeps mapper after := by
  obtain ⟨rows, _, pushed⟩ := Checked.bind_ok pushed
  obtain ⟨row, _, pushed⟩ := Checked.bind_ok pushed
  cases pushed
  exact ⟨rfl, rfl, rfl, rfl, List.getElem?_set_ne above⟩

private theorem keeps_resizeDomain {domainIndex count : Nat} {mapper after : NodeMapper} (above : domainIndex ≠ 0)
    (resized : mapper.resizeDomain domainIndex count = .ok after) : Keeps mapper after := by
  obtain ⟨rows, _, resized⟩ := Checked.bind_ok resized
  cases resized
  exact ⟨rfl, rfl, rfl, rfl, List.getElem?_set_ne above⟩

private theorem keeps_addNode {domainIndex : Nat} {mapper after : NodeMapper} {node : NodeSpec} (above : domainIndex ≠ 0)
    (added : addNode domainIndex mapper node = .ok after) : Keeps mapper after := by
  refine Checked.foldlM_invariant (Keeps mapper) ?_ (keeps_assignDomainId domainIndex node.name mapper) added
  intro current child _ next kept pushed
  exact (kept.trans (keeps_assignDomainId (domainIndex + 1) child current)).trans (keeps_pushChild above pushed)

private theorem keeps_addDomain {nodeConfig : NodeConfig} {mapper after : NodeMapper} {domain : String}
    (above : mapper.getDomainIndex domain ≠ 0) (added : addDomain nodeConfig mapper domain = .ok after) : Keeps mapper after := by
  obtain ⟨name, _, added⟩ := Checked.bind_ok added
  obtain ⟨nodes, _, added⟩ := Checked.bind_ok added
  obtain ⟨resized, first, added⟩ := Checked.bind_ok added
  refine Checked.foldlM_invariant (Keeps mapper) ?_ (keeps_resizeDomain above first) added
  intro current node _ next kept pushed
  exact kept.trans (keeps_addNode above pushed)

private theorem lookup_indexDomains {domains : List String} {mapper : NodeMapper} {domain : String} {index : Nat}
    (found : (indexDomains domains (domains.length + 1) mapper).domainIndexMapping.lookup domain = some index) :
    mapper.domainIndexMapping.lookup domain = some index ∨ 2 ≤ index := by
  induction domains generalizing mapper with
  | nil => exact .inl found
  | cons first domains ih =>
    rcases ih found with earlier | above
    · rw [UnorderedMap.lookup_insert] at earlier
      split at earlier
      next =>
        cases earlier
        exact .inr (by simp)
      next => exact .inl earlier
    · exact .inr above

private theorem indexDomains_fields (domains : List String) (startingIndex : Nat) (mapper : NodeMapper) :
    (indexDomains domains startingIndex mapper).shardInfos = mapper.shardInfos ∧
    (indexDomains domains startingIndex mapper).metricVectors = mapper.metricVectors ∧
    (indexDomains domains startingIndex mapper).metricMapping = mapper.metricMapping := by
  induction domains generalizing startingIndex mapper with
  | nil => exact ⟨rfl, rfl, rfl⟩
  | cons domain domains ih => exact ih (startingIndex - 1) _

private theorem addDomainMapping_fields {nodeConfig : NodeConfig} {mapper : NodeMapper}
    (mapped : addDomainMapping nodeConfig {} = .ok mapper) :
    mapper.shardInfos = [] ∧ mapper.metricVectors = [] ∧ mapper.metricMapping = [] ∧ mapper.nodeMapping[0]? = some [] := by
  obtain ⟨noShards, noVectors, noMetrics⟩ := indexDomains_fields nodeConfig.domains (nodeConfig.domains.length + 1) {}
  change nodeConfig.domains.foldlM (addDomain nodeConfig)
    { indexDomains nodeConfig.domains (nodeConfig.domains.length + 1) {} with
      nodeMapping := List.replicate (nodeConfig.domains.length + 2) [] } = .ok mapper at mapped
  generalize initial : ({ indexDomains nodeConfig.domains (nodeConfig.domains.length + 1) {} with
    nodeMapping := List.replicate (nodeConfig.domains.length + 2) [] } : NodeMapper) = indexed at mapped
  have kept : Keeps indexed mapper := by
    refine Checked.foldlM_invariant (Keeps indexed) ?_ (.refl indexed) mapped
    intro current domain _ next kept added
    refine kept.trans (keeps_addDomain ?_ added)
    unfold getDomainIndex
    rw [kept.domainIndexMapping, ← initial]
    cases found : (indexDomains nodeConfig.domains (nodeConfig.domains.length + 1) {}).domainIndexMapping.lookup domain with
    | none => simp
    | some index =>
      rcases lookup_indexDomains found with earlier | above
      · cases earlier
      · simp only [Option.getD_some]
        omega
  refine ⟨?_, ?_, ?_, ?_⟩
  · rw [kept.shardInfos, ← initial]
    exact noShards
  · rw [kept.metricVectors, ← initial]
    exact noVectors
  · rw [kept.metricMapping, ← initial]
    exact noMetrics
  · rw [kept.shardRows, ← initial]
    rfl

def storedMetrics (metrics : List String) (shardMapping : ShardMapping) (shardMetricsMapping : ShardMetricsMapping)
    (shardInfo : ShardInfo) : List MetricValue :=
  List.replicate metrics.length 0 ++ metrics.map (reportedMetric shardMapping shardMetricsMapping shardInfo)

private theorem metricVector_eq (metrics : List String) {shardMapping : ShardMapping} (shardMetricsMapping : ShardMetricsMapping)
    {shardInfo : ShardInfo} {shard : Shard} (accepted : matchingShard shardMapping shardInfo = some shard) :
    metricVector metrics shardInfo (shardMetricsMapping.lookup (toShardId shard.id)) =
      storedMetrics metrics shardMapping shardMetricsMapping shardInfo := by
  unfold metricVector storedMetrics
  congr 1
  refine List.map_congr_left fun metric _ => ?_
  unfold metricValue reportedMetric
  rw [accepted]
  cases shardInfo.metrics.metrics.lookup metric <;> simp

/-- What a mapper holds after the loop has visited bins with the given accepted shards. -/
structure Collects (shardMapping : ShardMapping) (shardMetricsMapping : ShardMetricsMapping) (visited : List ShardInfo)
    (before after : NodeMapper) : Prop where
  shardInfos : after.shardInfos = before.shardInfos ++ visited
  metricVectors : after.metricVectors =
    before.metricVectors ++ visited.map (storedMetrics before.metricMapping shardMapping shardMetricsMapping)
  metricMapping : after.metricMapping = before.metricMapping
  shardRows : after.nodeMapping[0]? = before.nodeMapping[0]?

variable {shardMapping : ShardMapping} {shardMetricsMapping : ShardMetricsMapping}

theorem Collects.append {first second third : NodeMapper} {former latter : List ShardInfo}
    (before : Collects shardMapping shardMetricsMapping former first second)
    (after : Collects shardMapping shardMetricsMapping latter second third) :
    Collects shardMapping shardMetricsMapping (former ++ latter) first third where
  shardInfos := by rw [after.shardInfos, before.shardInfos, List.append_assoc]
  metricVectors := by
    rw [after.metricVectors, before.metricVectors, before.metricMapping, List.map_append, List.append_assoc]
  metricMapping := after.metricMapping.trans before.metricMapping
  shardRows := after.shardRows.trans before.shardRows

private theorem Keeps.collects {before after : NodeMapper} (kept : Keeps before after) :
    Collects shardMapping shardMetricsMapping [] before after where
  shardInfos := by rw [kept.shardInfos, List.append_nil]
  metricVectors := by rw [kept.metricVectors, List.map_nil, List.append_nil]
  metricMapping := kept.metricMapping
  shardRows := kept.shardRows

private theorem collects_addShard (mapper : NodeMapper) (shardInfo : ShardInfo) :
    Collects shardMapping shardMetricsMapping (acceptedShards shardMapping [shardInfo]) mapper
      (addShard shardMapping shardMetricsMapping mapper shardInfo) := by
  unfold addShard acceptedShards
  cases accepted : matchingShard shardMapping shardInfo with
  | none =>
    rw [List.filter_cons_of_neg (by simp [accepted]), List.filter_nil]
    exact (Keeps.refl mapper).collects
  | some shard =>
    rw [List.filter_cons_of_pos (by simp [accepted]), List.filter_nil]
    refine ⟨rfl, ?_, rfl, rfl⟩
    simp only [List.map_singleton, metricVector_eq _ _ accepted]

variable (shardMapping shardMetricsMapping) in
private theorem collects_addShards (mapper : NodeMapper) (shardInfos : List ShardInfo) :
    Collects shardMapping shardMetricsMapping (acceptedShards shardMapping shardInfos) mapper
      (shardInfos.foldl (addShard shardMapping shardMetricsMapping) mapper) := by
  refine Checked.foldl_invariant
    (fun handled current => Collects shardMapping shardMetricsMapping (acceptedShards shardMapping handled) mapper current) ?_
    (Keeps.refl mapper).collects
  intro handled shardInfo _ _ current collected
  rw [acceptedShards, List.filter_append]
  exact collected.append (collects_addShard current shardInfo)

private theorem collects_addBin {state after : Nat × NodeMapper} {bin : Sigma fun _ : Int => BinInfo}
    (added : addBin shardMapping shardMetricsMapping state bin = .ok after) :
    Collects shardMapping shardMetricsMapping (acceptedShards shardMapping bin.2.shardInfos) state.2 after.2 := by
  have numbered : Keeps state.2
      { state.2 with
        binDomainIdMapping := state.2.binDomainIdMapping.insert (state.1 + 1) bin.1
        domainIdBinMapping := state.2.domainIdBinMapping.insert bin.1 (state.1 + 1) } := ⟨rfl, rfl, rfl, rfl, rfl⟩
  have collected := numbered.collects.append (collects_addShards shardMapping shardMetricsMapping _ bin.2.shardInfos)
  rw [List.nil_append] at collected
  unfold addBin at added
  simp only at added
  split at added
  next =>
    cases added
    exact collected
  next binNode _ =>
    split at added
    next =>
      cases added
      exact collected
    next =>
      obtain ⟨pushed, first, added⟩ := Checked.bind_ok added
      cases added
      have kept := (keeps_assignDomainId 2 binNode _).trans (keeps_pushChild (by decide) first)
      simpa using collected.append kept.collects

private theorem collects_createNodeMapping {binMapping : BinMapping} {mapper after : NodeMapper}
    (created : mapper.createNodeMapping binMapping shardMapping shardMetricsMapping = .ok after) :
    Collects shardMapping shardMetricsMapping ((reports binMapping shardMapping).map Prod.snd) mapper after := by
  obtain ⟨⟨domainId, last⟩, finished, created⟩ := Checked.bind_ok created
  cases created
  have flat : (reports binMapping shardMapping).map Prod.snd =
      binMapping.entries.flatMap fun bin => acceptedShards shardMapping bin.2.shardInfos := by
    simp [reports, List.map_flatMap, Function.comp_def]
  suffices loop : ∀ (bins : List (Sigma fun _ : Int => BinInfo)) (state final : Nat × NodeMapper),
      bins.foldlM (addBin shardMapping shardMetricsMapping) state = .ok final →
      Collects shardMapping shardMetricsMapping (bins.flatMap fun bin => acceptedShards shardMapping bin.2.shardInfos)
        state.2 final.2 by
    rw [flat]
    exact loop binMapping.entries (0, mapper) (domainId, after) finished
  intro bins
  induction bins with
  | nil =>
    intro state final done
    cases done
    exact (Keeps.refl state.2).collects
  | cons bin bins ih =>
    intro state final done
    rw [List.foldlM_cons] at done
    obtain ⟨middle, first, rest⟩ := Checked.bind_ok done
    rw [List.flatMap_cons]
    exact (collects_addBin first).append (ih middle final rest)

theorem new_collects {nodeConfig : NodeConfig} {metricConfig : MetricConfig} {binMapping : BinMapping} {mapper : NodeMapper}
    (made : new nodeConfig metricConfig binMapping shardMapping shardMetricsMapping = .ok mapper) :
    mapper.shardInfos = (reports binMapping shardMapping).map Prod.snd ∧
    mapper.metricVectors = ((reports binMapping shardMapping).map Prod.snd).map
      (storedMetrics metricConfig.metrics shardMapping shardMetricsMapping) ∧
    mapper.nodeMapping[0]? = some [] := by
  obtain ⟨mapped, first, created⟩ := Checked.bind_ok made
  obtain ⟨noShards, noVectors, noMetrics, noRows⟩ := addDomainMapping_fields first
  obtain ⟨shardInfos, metricVectors, _, shardRows⟩ := collects_createNodeMapping created
  simp only [createMetricMapping, noShards, noVectors, noMetrics, List.nil_append] at shardInfos metricVectors shardRows
  exact ⟨shardInfos, metricVectors, shardRows.trans noRows⟩

/-- The state built of a mapper answers every metric of every accepted shard. -/
def KeepsMetrics (metricConfig : MetricConfig) (shardMapping : ShardMapping) (shardMetricsMapping : ShardMetricsMapping)
    (mapper : NodeMapper) : Prop :=
  ∀ (index : DomainId) (shardInfo : ShardInfo), mapper.shardInfos[index]? = some shardInfo →
    ∀ (metric : Metric) (name : String), metricConfig.metrics[metric]? = some name →
      ∃ row, mapper.solvingState.metricVectors[metric]? = some row ∧ index < row.length ∧
        mapper.solvingState.getShardMetric metric index =
          reportedMetric shardMapping shardMetricsMapping shardInfo name

private theorem storedMetrics_getD (metrics : List String) (shardInfo : ShardInfo) (index : Nat) :
    (storedMetrics metrics shardMapping shardMetricsMapping shardInfo).getD index 0 =
      if index < metrics.length then 0
      else (metrics.map (reportedMetric shardMapping shardMetricsMapping shardInfo)).getD (index - metrics.length) 0 := by
  unfold storedMetrics
  split
  next early =>
    rw [List.getD_eq_getElem?_getD, List.getElem?_append_left (by simpa using early), List.getElem?_replicate, if_pos early,
      Option.getD_some]
  next late =>
    rw [List.getD_eq_getElem?_getD, List.getElem?_append_right (by simpa using late), List.length_replicate,
      ← List.getD_eq_getElem?_getD]

private theorem length_storedMetrics (metrics : List String) (shardInfo : ShardInfo) :
    (storedMetrics metrics shardMapping shardMetricsMapping shardInfo).length = 2 * metrics.length := by
  simp [storedMetrics, Nat.two_mul]

/-- The rows that the state takes for those of metrics are those of shards. -/
private theorem keepsMetrics_rows {nodeConfig : NodeConfig} {metricConfig : MetricConfig} {binMapping : BinMapping} {mapper : NodeMapper}
    (made : new nodeConfig metricConfig binMapping shardMapping shardMetricsMapping = .ok mapper) :
    KeepsMetrics metricConfig shardMapping shardMetricsMapping mapper ↔
      ∀ (index : Nat) (report : Int × ShardInfo), (reports binMapping shardMapping)[index]? = some report →
        ∀ (metric : Nat) (name : String), metricConfig.metrics[metric]? = some name →
          ∃ owner, (reports binMapping shardMapping)[metric]? = some owner ∧ index < 2 * metricConfig.metrics.length ∧
            (storedMetrics metricConfig.metrics shardMapping shardMetricsMapping owner.2).getD index 0 =
              reportedMetric shardMapping shardMetricsMapping report.2 name := by
  obtain ⟨shardInfos, metricVectors, _⟩ := new_collects made
  have rowAt : ∀ metric : Nat, mapper.solvingState.metricVectors[metric]? =
      (reports binMapping shardMapping)[metric]?.map fun report =>
        storedMetrics metricConfig.metrics shardMapping shardMetricsMapping report.2 := by
    intro metric
    change mapper.metricVectors[metric]? = _
    simp [metricVectors, List.getElem?_map, Function.comp_def]
  have valueAt : ∀ (metric index : Nat) (owner : Int × ShardInfo), (reports binMapping shardMapping)[metric]? = some owner →
      mapper.solvingState.getShardMetric metric index =
        (storedMetrics metricConfig.metrics shardMapping shardMetricsMapping owner.2).getD index 0 := by
    intro metric index owner owned
    have row := rowAt metric
    rw [owned, Option.map_some] at row
    have listed : mapper.solvingState.metricVectors.getD metric [] =
        storedMetrics metricConfig.metrics shardMapping shardMetricsMapping owner.2 := by
      rw [List.getD_eq_getElem?_getD, row, Option.getD_some]
    rw [SolvingState.getShardMetric, listed]
  constructor
  · intro keeps index report found metric name configured
    have shardAt : mapper.shardInfos[index]? = some report.2 := by simp [shardInfos, List.getElem?_map, found]
    obtain ⟨row, present, less, value⟩ := keeps index report.2 shardAt metric name configured
    rw [rowAt, Option.map_eq_some_iff] at present
    obtain ⟨owner, owned, rfl⟩ := present
    rw [length_storedMetrics] at less
    exact ⟨owner, owned, less, (valueAt _ _ _ owned).symm.trans value⟩
  · intro rows index shardInfo shardAt metric name configured
    rw [shardInfos, List.getElem?_map, Option.map_eq_some_iff] at shardAt
    obtain ⟨report, found, rfl⟩ := shardAt
    obtain ⟨owner, owned, less, value⟩ := rows index report found metric name configured
    refine ⟨_, (rowAt metric).trans (congrArg _ owned), ?_, (valueAt _ _ _ owned).trans value⟩
    rw [length_storedMetrics]
    exact less

/-- A row of the matrix belongs to a shard and begins with as many zeros as there are
metrics; the state takes it for the row of a metric. -/
theorem keepsMetrics_iff {nodeConfig : NodeConfig} {metricConfig : MetricConfig} {binMapping : BinMapping}
    {shardMapping : ShardMapping} {shardMetricsMapping : ShardMetricsMapping} {mapper : NodeMapper}
    (made : new nodeConfig metricConfig binMapping shardMapping shardMetricsMapping = .ok mapper) :
    KeepsMetrics metricConfig shardMapping shardMetricsMapping mapper ↔
      reports binMapping shardMapping = [] ∨ metricConfig.metrics = [] ∨
      metricConfig.metrics.length ≤ (reports binMapping shardMapping).length ∧
      (reports binMapping shardMapping).length ≤ 2 * metricConfig.metrics.length ∧
      ∀ report ∈ reports binMapping shardMapping, ∀ name ∈ metricConfig.metrics,
        reportedMetric shardMapping shardMetricsMapping report.2 name = 0 := by
  rw [keepsMetrics_rows made]
  constructor
  · intro rows
    by_cases noShard : reports binMapping shardMapping = []
    · exact .inl noShard
    by_cases noMetric : metricConfig.metrics = []
    · exact .inr (.inl noMetric)
    have shards := List.length_pos_iff.mpr noShard
    have metrics := List.length_pos_iff.mpr noMetric
    -- The last shard and the last metric give the bounds.
    obtain ⟨owner, owned, bounded, _⟩ := rows _ _ (List.getElem?_eq_getElem (Nat.sub_one_lt_of_lt shards)) _ _
      (List.getElem?_eq_getElem (Nat.sub_one_lt_of_lt metrics))
    have enough := (List.getElem?_eq_some_iff.mp owned).1
    -- Up to the number of metrics every row holds zeros.
    have early : ∀ (index : Nat) (report : Int × ShardInfo), index < metricConfig.metrics.length →
        (reports binMapping shardMapping)[index]? = some report →
        ∀ name ∈ metricConfig.metrics, reportedMetric shardMapping shardMetricsMapping report.2 name = 0 := by
      intro index report less found name member
      obtain ⟨metric, configured⟩ := List.mem_iff_getElem?.mp member
      obtain ⟨_, _, _, value⟩ := rows index report found metric name configured
      rw [← value, storedMetrics_getD, if_pos less]
    refine .inr (.inr ⟨by omega, by omega, ?_⟩)
    intro report member name listed
    obtain ⟨index, found⟩ := List.mem_iff_getElem?.mp member
    obtain ⟨metric, configured⟩ := List.mem_iff_getElem?.mp listed
    by_cases less : index < metricConfig.metrics.length
    · exact early index report less found name listed
    · obtain ⟨owner, owned, below, value⟩ := rows index report found metric name configured
      have other : index - metricConfig.metrics.length < metricConfig.metrics.length := by omega
      rw [← value, storedMetrics_getD, if_neg less, List.getD_eq_getElem?_getD, List.getElem?_map,
        List.getElem?_eq_getElem other, Option.map_some, Option.getD_some]
      exact early metric owner (List.getElem?_eq_some_iff.mp configured).1 owned _ (List.getElem_mem other)
  · intro condition index report found metric name configured
    rcases condition with noShard | noMetric | ⟨enough, bounded, zero⟩
    · simp [noShard] at found
    · simp [noMetric] at configured
    · have less := (List.getElem?_eq_some_iff.mp configured).1
      have inside := (List.getElem?_eq_some_iff.mp found).1
      refine ⟨_, List.getElem?_eq_getElem (Nat.lt_of_lt_of_le less enough), by omega, ?_⟩
      rw [zero _ (List.mem_of_getElem? found) name (List.mem_of_getElem? configured), storedMetrics_getD]
      split
      next => rfl
      next =>
        rw [List.getD_eq_getElem?_getD, List.getElem?_map]
        cases listed : metricConfig.metrics[index - metricConfig.metrics.length]? with
        | none => rfl
        | some other => exact zero _ (List.getElem_mem _) other (List.mem_of_getElem? listed)

def reportedShard : Shard := ⟨⟨0, 9⟩, .primary, 1⟩

def reportingBin (load : MetricValue) : BinMapping :=
  (∅ : BinMapping).insert 7 ⟨[⟨reportedShard, ⟨(∅ : UnorderedMap String MetricValue).insert "load" load⟩, .added⟩], ∅⟩

def knownShards : ShardMapping := (∅ : ShardMapping).insert 1 reportedShard

theorem keepsMetrics_idle :
    ∃ mapper, new ⟨[], ∅⟩ ⟨["load"]⟩ (reportingBin 0) knownShards ∅ = .ok mapper ∧
      KeepsMetrics ⟨["load"]⟩ knownShards ∅ mapper := by
  obtain ⟨mapper, made⟩ : ∃ mapper, new ⟨[], ∅⟩ ⟨["load"]⟩ (reportingBin 0) knownShards ∅ = .ok mapper := ⟨_, rfl⟩
  exact ⟨mapper, made, (keepsMetrics_iff made).mpr (.inr (.inr ⟨by decide, by decide, by decide⟩))⟩

/-- The load of the shard is 5, the state's metric of it 0. -/
theorem loses_load :
    ∃ mapper, new ⟨[], ∅⟩ ⟨["load"]⟩ (reportingBin 5) knownShards ∅ = .ok mapper ∧
      ¬ KeepsMetrics ⟨["load"]⟩ knownShards ∅ mapper := by
  refine ⟨_, rfl, ?_⟩
  intro keeps
  obtain ⟨_, _, _, value⟩ := keeps 0 _ rfl 0 "load" rfl
  exact absurd value (by decide)

/-- The vector holds the accepted shards, each of which is in its bin and in no other. -/
structure PlacesShards (binMapping : BinMapping) (shardMapping : ShardMapping) (mapper : NodeMapper) : Prop where
  reported : mapper.shardInfos = (reports binMapping shardMapping).map Prod.snd
  placed : ∀ (index : DomainId) (binId : Int) (shardInfo : ShardInfo),
    (reports binMapping shardMapping)[index]? = some (binId, shardInfo) →
      ∃ domainId, mapper.getDomainId binId = some domainId ∧
        (mapper.solvingState.assignmentTree.staticParents mapper.solvingState.shardDomain index).filter
          (fun parent => parent.1 = mapper.solvingState.binDomain) = [(mapper.solvingState.binDomain, domainId)] ∧
        ∀ other, other ∈ mapper.solvingState.assignmentTree.children mapper.solvingState.binDomain domainId ↔
          ∃ shardInfo, (reports binMapping shardMapping)[other]? = some (binId, shardInfo)

/-- No bin is given its shards, so only a mapper without shards places them all. -/
theorem placesShards_iff {nodeConfig : NodeConfig} {metricConfig : MetricConfig} {binMapping : BinMapping}
    {shardMapping : ShardMapping} {shardMetricsMapping : ShardMetricsMapping} {mapper : NodeMapper}
    (made : new nodeConfig metricConfig binMapping shardMapping shardMetricsMapping = .ok mapper) :
    PlacesShards binMapping shardMapping mapper ↔
      ∀ bin ∈ binMapping.entries, ∀ shardInfo ∈ bin.2.shardInfos, matchingShard shardMapping shardInfo = none := by
  obtain ⟨shardInfos, _, noRows⟩ := new_collects made
  have unaccepted : reports binMapping shardMapping = [] ↔
      ∀ bin ∈ binMapping.entries, ∀ shardInfo ∈ bin.2.shardInfos, matchingShard shardMapping shardInfo = none := by
    simp [reports, acceptedShards, List.flatMap_eq_nil_iff, List.filter_eq_nil_iff]
  rw [← unaccepted]
  constructor
  · intro places
    cases accepted : reports binMapping shardMapping with
    | nil => rfl
    | cons report rest =>
      obtain ⟨domainId, _, _, children⟩ := places.placed 0 report.1 report.2 (by rw [accepted]; rfl)
      have listed := (children 0).mpr ⟨report.2, by rw [accepted]; rfl⟩
      have unmapped : mapper.solvingState.assignmentTree.getChildDomain 1 = none :=
        SolvingState.getChildDomain_new mapper.shardInfos mapper.metricVectors noRows
      have childless := mapper.solvingState.assignmentTree.children_of_unmapped unmapped domainId
      exact absurd (childless ▸ listed) List.not_mem_nil
  · intro none
    refine ⟨shardInfos, ?_⟩
    intro index binId shardInfo found
    simp [none] at found

theorem placesShards_unknown :
    ∃ mapper, new ⟨[], ∅⟩ ⟨["load"]⟩ (reportingBin 5) ∅ ∅ = .ok mapper ∧ PlacesShards (reportingBin 5) ∅ mapper := by
  obtain ⟨mapper, made⟩ : ∃ mapper, new ⟨[], ∅⟩ ⟨["load"]⟩ (reportingBin 5) ∅ ∅ = .ok mapper := ⟨_, rfl⟩
  exact ⟨mapper, made, (placesShards_iff made).mpr (by simp [matchingShard])⟩

/-- The bin of the one accepted shard has no children. -/
theorem misses_shard :
    ∃ mapper, new ⟨[], ∅⟩ ⟨["load"]⟩ (reportingBin 5) knownShards ∅ = .ok mapper ∧
      ¬ PlacesShards (reportingBin 5) knownShards mapper := by
  refine ⟨_, rfl, ?_⟩
  intro places
  obtain ⟨domainId, _, parents, _⟩ := places.placed 0 7 _ rfl
  exact absurd parents (List.cons_ne_nil _ _).symm

end NodeMapper
end Psychopomp
end ShardManager

import ShardManager.Lib.Performed
import ShardManager.Proofs.Topology

/-! The ids that nodes get, by the calls of `getDomainId` before. A new node gets the
number of domains that have a node by then, whatever its own domain has. -/

namespace ShardManager.Psychopomp

/-- The domains that have been named when the node is named first, with its own. -/
def namedBy (calls : List (Nat × String)) (node : Nat × String) : Finset Nat :=
  ((calls.take (calls.idxOf node + 1)).map Prod.fst).toFinset

def numbered (calls : List (Nat × String)) (node : Nat × String) : Nat := (namedBy calls node).card

section Numbered
variable {calls : List (Nat × String)} {node : Nat × String}

theorem numbered_eq_iff (first second : Nat × String) :
    numbered calls first = numbered calls second ↔ namedBy calls first = namedBy calls second := by
  have nested : ∀ {earlier later : Nat × String}, calls.idxOf earlier ≤ calls.idxOf later →
      namedBy calls earlier ⊆ namedBy calls later := by
    intro earlier later before index member
    rw [namedBy, List.mem_toFinset] at member ⊢
    have shorter : calls.take (calls.idxOf earlier + 1) <+: calls.take (calls.idxOf later + 1) :=
      List.take_prefix_take_left (Nat.succ_le_succ before)
    exact (shorter.map Prod.fst).subset member
  constructor
  · intro same
    rcases Nat.le_total (calls.idxOf first) (calls.idxOf second) with before | before
    · exact Finset.eq_of_subset_of_card_le (nested before) (Nat.le_of_eq same.symm)
    · exact (Finset.eq_of_subset_of_card_le (nested before) (Nat.le_of_eq same)).symm
  · exact congrArg Finset.card

theorem numbered_append (later : List (Nat × String)) (known : node ∈ calls) :
    numbered (calls ++ later) node = numbered calls node := by
  have inside : calls.idxOf node + 1 ≤ calls.length := List.idxOf_lt_length_of_mem known
  rw [numbered, namedBy, List.idxOf_append_of_mem known, List.take_append_of_le_length inside, numbered, namedBy]

private theorem numbered_fresh (fresh : node ∉ calls) :
    numbered (calls ++ [node]) node = ((calls ++ [node]).map Prod.fst).toFinset.card := by
  rw [numbered, namedBy, List.idxOf_append_of_notMem fresh, List.idxOf_cons_self, Nat.add_zero, List.take_of_length_le (by simp)]

theorem numbered_pos (known : node ∈ calls) : 0 < numbered calls node := by
  rw [numbered, namedBy, Finset.card_pos, List.toFinset_nonempty_iff]
  obtain ⟨first, calls, rfl⟩ := List.exists_cons_of_ne_nil (List.ne_nil_of_mem known)
  simp

end Numbered

namespace NodeMapper

/-- The ids of a mapper are those that the calls have given. -/
structure Named (calls : List (Nat × String)) (mapper : NodeMapper) : Prop where
  domains : mapper.domainToNodeDomainIdMapping.keys.toFinset = (calls.map Prod.fst).toFinset
  ids : ∀ domainIndex node, mapper.nodeId domainIndex node =
    if (domainIndex, node) ∈ calls then some (numbered calls (domainIndex, node)) else none

private theorem keys_insert {V : Type} (map : UnorderedMap Nat V) (domainIndex : Nat) (value : V) :
    (map.insert domainIndex value).keys.toFinset = insert domainIndex map.keys.toFinset := by
  ext index
  rw [List.mem_toFinset, Finset.mem_insert, List.mem_toFinset, ← AList.mem_keys, AList.mem_insert, AList.mem_keys]

private theorem lookup_nodes (mapper : NodeMapper) (domainIndex : Nat) (node : String) :
    ((mapper.domainToNodeDomainIdMapping.lookup domainIndex).getD ∅).lookup node = mapper.nodeId domainIndex node := by
  rw [nodeId]
  cases mapper.domainToNodeDomainIdMapping.lookup domainIndex <;> rfl

private theorem nodeId_assign (mapper : NodeMapper) (domainIndex : Nat) (node : String) (index : Nat) (other : String) :
    (mapper.assignDomainId domainIndex node).2.nodeId index other =
      if (index, other) = (domainIndex, node) then some (mapper.assignDomainId domainIndex node).1
      else mapper.nodeId index other := by
  have inserted : (mapper.assignDomainId domainIndex node).2.domainToNodeDomainIdMapping =
      mapper.domainToNodeDomainIdMapping.insert domainIndex
        (((mapper.domainToNodeDomainIdMapping.lookup domainIndex).getD ∅).insert node (mapper.assignDomainId domainIndex node).1) := rfl
  rw [nodeId, inserted, UnorderedMap.lookup_insert]
  by_cases level : index = domainIndex
  · subst level
    rw [if_pos rfl, Option.bind_some, UnorderedMap.lookup_insert, lookup_nodes]
    simp only [Prod.mk.injEq, true_and]
  · rw [if_neg level, if_neg (by simp [level])]
    rfl

/-- A call returns the number of domains named so far if the node is new, and names it. -/
theorem Named.assign {calls : List (Nat × String)} {mapper : NodeMapper} (named : Named calls mapper) (domainIndex : Nat)
    (node : String) :
    (mapper.assignDomainId domainIndex node).1 = numbered (calls ++ [(domainIndex, node)]) (domainIndex, node) ∧
      Named (calls ++ [(domainIndex, node)]) (mapper.assignDomainId domainIndex node).2 := by
  have domains : ∀ value : UnorderedMap String DomainId, (mapper.domainToNodeDomainIdMapping.insert domainIndex value).keys.toFinset =
      ((calls ++ [(domainIndex, node)]).map Prod.fst).toFinset := by
    intro value
    rw [keys_insert, named.domains]
    ext index
    simp
  have assigned : (mapper.assignDomainId domainIndex node).1 = numbered (calls ++ [(domainIndex, node)]) (domainIndex, node) := by
    simp only [assignDomainId, lookup_nodes]
    rw [named.ids]
    by_cases known : (domainIndex, node) ∈ calls
    · have positive := numbered_pos known
      rw [if_pos known, Option.getD_some, if_neg (Nat.ne_of_gt positive), numbered_append _ known]
    · rw [if_neg known, Option.getD_none, if_pos rfl, numbered_fresh known, ← domains, List.toFinset_card_of_nodup (AList.keys_nodup _)]
  refine ⟨assigned, domains _, ?_⟩
  intro index other
  rw [nodeId_assign, assigned, named.ids]
  by_cases here : (index, other) = (domainIndex, node)
  · rw [if_pos here, if_pos (by simp [here]), here]
  · rw [if_neg here]
    by_cases known : (index, other) ∈ calls
    · rw [if_pos known, if_pos (List.mem_append_left _ known), numbered_append _ known]
    · rw [if_neg known, if_neg (by simpa [known] using here)]

end NodeMapper

/-- A call of `getDomainId` for a node, or a use of the node's id as a row of its
domain, which has so many rows. -/
inductive Mention where
  | name (domainIndex : Nat) (node : String)
  | row (domainIndex : Nat) (node : String) (rows : Nat)

abbrev Constructing (α : Type) := Traced Fault (Mention × DomainId) α

namespace NodeMapper

def tracedDomainId (domainIndex : Nat) (node : String) (mapper : NodeMapper) : Constructing (DomainId × NodeMapper) := do
  Traced.tell (.name domainIndex node, (mapper.assignDomainId domainIndex node).1)
  pure (mapper.assignDomainId domainIndex node)

def rows (mapper : NodeMapper) (domainIndex : Nat) : Nat := ((mapper.nodeMapping[domainIndex]?).getD []).length

def tracedChild (domainIndex : Nat) (node : String) (parentId childId : DomainId) (mapper : NodeMapper) :
    Constructing NodeMapper := do
  Traced.tell (.row domainIndex node (mapper.rows domainIndex), parentId)
  Traced.lift (mapper.pushChild domainIndex parentId childId)

def tracedNode (domainIndex : Nat) (mapper : NodeMapper) (node : NodeSpec) : Constructing NodeMapper := do
  let (parentId, mapper) ← tracedDomainId domainIndex node.name mapper
  node.children.foldlM (fun mapper child => do
    let (childId, mapper) ← tracedDomainId (domainIndex + 1) child mapper
    tracedChild domainIndex node.name parentId childId mapper) mapper

def tracedDomain (nodeConfig : NodeConfig) (mapper : NodeMapper) (domain : String) : Constructing NodeMapper := do
  let domainIndex := mapper.getDomainIndex domain
  let name ← Traced.lift (element nodeConfig.domains domainIndex)
  let nodes ← Traced.lift (atKey nodeConfig.domainNodes name)
  let mapper ← Traced.lift (mapper.resizeDomain domainIndex nodes.length)
  nodes.foldlM (tracedNode domainIndex) mapper

def tracedDomainMapping (nodeConfig : NodeConfig) (mapper : NodeMapper) : Constructing NodeMapper :=
  let mapper := indexDomains nodeConfig.domains (nodeConfig.domains.length + 1) mapper
  let mapper := { mapper with nodeMapping := List.replicate (nodeConfig.domains.length + 2) [] }
  nodeConfig.domains.foldlM (tracedDomain nodeConfig) mapper

def tracedBin (shardMapping : ShardMapping) (shardMetricsMapping : ShardMetricsMapping) (state : Nat × NodeMapper)
    (bin : Sigma fun _ : Int => BinInfo) : Constructing (Nat × NodeMapper) := do
  let domainId := state.1 + 1
  let mapper :=
    { state.2 with
      binDomainIdMapping := state.2.binDomainIdMapping.insert domainId bin.1
      domainIdBinMapping := state.2.domainIdBinMapping.insert bin.1 domainId }
  let mapper := bin.2.shardInfos.foldl (addShard shardMapping shardMetricsMapping) mapper
  match bin.2.domainToNodesMap.lookup (mapper.getDomain 2) with
  | none => pure (domainId, mapper)
  | some binNode =>
    if binNode = "" then pure (domainId, mapper)
    else
      let (parentId, mapper) ← tracedDomainId 2 binNode mapper
      let mapper ← tracedChild 2 binNode parentId domainId mapper
      pure (domainId, mapper)

def tracedNodeMapping (binMapping : BinMapping) (shardMapping : ShardMapping) (shardMetricsMapping : ShardMetricsMapping)
    (mapper : NodeMapper) : Constructing NodeMapper := do
  let (_, mapper) ← binMapping.entries.foldlM (tracedBin shardMapping shardMetricsMapping) (0, mapper)
  pure mapper

/-- The constructor, with its mentions of nodes and the ids they have. -/
def traced (nodeConfig : NodeConfig) (metricConfig : MetricConfig) (binMapping : BinMapping) (shardMapping : ShardMapping)
    (shardMetricsMapping : ShardMetricsMapping) : Constructing NodeMapper := do
  let mapper ← tracedDomainMapping nodeConfig {}
  tracedNodeMapping binMapping shardMapping shardMetricsMapping (mapper.createMetricMapping metricConfig)

section Results
variable (mapper : NodeMapper) (nodeConfig : NodeConfig) (shardMapping : ShardMapping) (shardMetricsMapping : ShardMetricsMapping)

theorem tracedNode_result (domainIndex : Nat) (node : NodeSpec) :
    (tracedNode domainIndex mapper node).result = addNode domainIndex mapper node := by
  rw [tracedNode, Traced.result_bind_eq]
  exact Traced.result_foldlM _ _ _

private theorem tracedDomain_result (domain : String) :
    (tracedDomain nodeConfig mapper domain).result = addDomain nodeConfig mapper domain := by
  simp only [tracedDomain, addDomain, Traced.result_bind_eq, Traced.result_foldlM, tracedNode_result]
  rfl

private theorem tracedBin_result (state : Nat × NodeMapper) (bin : Sigma fun _ : Int => BinInfo) :
    (tracedBin shardMapping shardMetricsMapping state bin).result = addBin shardMapping shardMetricsMapping state bin := by
  simp only [tracedBin, addBin]
  generalize bin.2.shardInfos.foldl (addShard shardMapping shardMetricsMapping) _ = mapper
  cases bin.2.domainToNodesMap.lookup (mapper.getDomain 2) with
  | none => rfl
  | some binNode =>
    simp only
    split
    · rfl
    · simp only [Traced.result_bind_eq]
      rfl

theorem traced_result (metricConfig : MetricConfig) (binMapping : BinMapping) :
    (traced nodeConfig metricConfig binMapping shardMapping shardMetricsMapping).result =
      new nodeConfig metricConfig binMapping shardMapping shardMetricsMapping := by
  simp only [traced, new, tracedDomainMapping, addDomainMapping, tracedNodeMapping, createNodeMapping, Traced.result_bind_eq,
    Traced.result_foldlM, tracedDomain_result, tracedBin_result]
  rfl

end Results
end NodeMapper
end ShardManager.Psychopomp

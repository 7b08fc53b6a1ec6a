import ShardManager.Lib.Numbering
import ShardManager.Proofs.NodeMapping
import ShardManager.Proofs.Topology

/-! The names that a mapper was built of and the numbers it gave them: bins and their ids
lead back to each other, domains and their indices do so from the domain on. -/

namespace ShardManager.Psychopomp
namespace NodeMapper

/-- What only the numbering of bins and domains changes. -/
structure SameNames (before after : NodeMapper) : Prop where
  binIds : after.binDomainIdMapping = before.binDomainIdMapping
  bins : after.domainIdBinMapping = before.domainIdBinMapping
  domains : after.indexDomainMapping = before.indexDomainMapping
  indices : after.domainIndexMapping = before.domainIndexMapping

theorem SameNames.refl (mapper : NodeMapper) : SameNames mapper mapper := ⟨rfl, rfl, rfl, rfl⟩

theorem SameNames.trans {first second third : NodeMapper} (former : SameNames first second) (latter : SameNames second third) :
    SameNames first third where
  binIds := latter.binIds.trans former.binIds
  bins := latter.bins.trans former.bins
  domains := latter.domains.trans former.domains
  indices := latter.indices.trans former.indices

private theorem sameNames_pushChild {domainIndex parentId childId : Nat} {mapper after : NodeMapper}
    (pushed : mapper.pushChild domainIndex parentId childId = .ok after) : SameNames mapper after := by
  obtain ⟨rows, _, pushed⟩ := Checked.bind_ok pushed
  obtain ⟨row, _, pushed⟩ := Checked.bind_ok pushed
  cases pushed
  exact ⟨rfl, rfl, rfl, rfl⟩

private theorem sameNames_assignDomainId (domainIndex : Nat) (node : String) (mapper : NodeMapper) :
    SameNames mapper (mapper.assignDomainId domainIndex node).2 := ⟨rfl, rfl, rfl, rfl⟩

private theorem sameNames_resizeDomain {domainIndex count : Nat} {mapper after : NodeMapper}
    (resized : mapper.resizeDomain domainIndex count = .ok after) : SameNames mapper after := by
  obtain ⟨rows, _, resized⟩ := Checked.bind_ok resized
  cases resized
  exact ⟨rfl, rfl, rfl, rfl⟩

private theorem sameNames_addNode {domainIndex : Nat} {node : NodeSpec} {mapper after : NodeMapper}
    (added : addNode domainIndex mapper node = .ok after) : SameNames mapper after := by
  refine Checked.foldlM_invariant (SameNames mapper) ?_ (sameNames_assignDomainId domainIndex node.name mapper) added
  intro current child _ next same pushed
  exact (same.trans (sameNames_assignDomainId (domainIndex + 1) child current)).trans (sameNames_pushChild pushed)

private theorem sameNames_addDomain {nodeConfig : NodeConfig} {domain : String} {mapper after : NodeMapper}
    (added : addDomain nodeConfig mapper domain = .ok after) : SameNames mapper after := by
  obtain ⟨name, _, added⟩ := Checked.bind_ok added
  obtain ⟨nodes, _, added⟩ := Checked.bind_ok added
  obtain ⟨resized, first, added⟩ := Checked.bind_ok added
  refine Checked.foldlM_invariant (SameNames mapper) ?_ (sameNames_resizeDomain first) added
  intro current node _ next same turn
  exact same.trans (sameNames_addNode turn)

variable {shardMapping : ShardMapping} {shardMetricsMapping : ShardMetricsMapping}

private theorem sameNames_addShards (mapper : NodeMapper) (shardInfos : List ShardInfo) :
    SameNames mapper (shardInfos.foldl (addShard shardMapping shardMetricsMapping) mapper) := by
  refine Checked.foldl_invariant (fun _ => SameNames mapper) ?_ (.refl mapper)
  intro _ shardInfo _ _ current same
  refine same.trans ?_
  unfold addShard
  split
  · exact .refl current
  · exact ⟨rfl, rfl, rfl, rfl⟩

private theorem sameNames_addBin {state after : Nat × NodeMapper} {bin : Sigma fun _ : Int => BinInfo}
    (added : addBin shardMapping shardMetricsMapping state bin = .ok after) :
    after.1 = state.1 + 1 ∧ SameNames
      { state.2 with
        binDomainIdMapping := state.2.binDomainIdMapping.insert (state.1 + 1) bin.1
        domainIdBinMapping := state.2.domainIdBinMapping.insert bin.1 (state.1 + 1) } after.2 := by
  have collected := @sameNames_addShards shardMapping shardMetricsMapping
    { state.2 with
      binDomainIdMapping := state.2.binDomainIdMapping.insert (state.1 + 1) bin.1
      domainIdBinMapping := state.2.domainIdBinMapping.insert bin.1 (state.1 + 1) } bin.2.shardInfos
  unfold addBin at added
  simp only at added
  split at added
  next =>
    cases added
    exact ⟨rfl, collected⟩
  next binNode _ =>
    split at added
    next =>
      cases added
      exact ⟨rfl, collected⟩
    next =>
      obtain ⟨pushed, first, added⟩ := Checked.bind_ok added
      cases added
      refine ⟨rfl, collected.trans ?_⟩
      have pushes := sameNames_pushChild first
      exact ⟨pushes.1, pushes.2, pushes.3, pushes.4⟩

/-- The loop over the bins numbers them in its order. -/
private theorem numbered_addBins {bins : List (Sigma fun _ : Int => BinInfo)} {state final : Nat × NodeMapper} {done : List Int}
    (distinct : (done ++ bins.map Sigma.fst).Nodup) (counted : state.1 = done.length)
    (numbered : Numbered done state.2.domainIdBinMapping state.2.binDomainIdMapping)
    (finished : bins.foldlM (addBin shardMapping shardMetricsMapping) state = .ok final) :
    Numbered (done ++ bins.map Sigma.fst) final.2.domainIdBinMapping final.2.binDomainIdMapping ∧
    final.2.indexDomainMapping = state.2.indexDomainMapping ∧ final.2.domainIndexMapping = state.2.domainIndexMapping := by
  induction bins generalizing state done with
  | nil =>
    cases finished
    rw [List.map_nil, List.append_nil]
    exact ⟨numbered, rfl, rfl⟩
  | cons bin bins ih =>
    rw [List.foldlM_cons] at finished
    obtain ⟨middle, first, rest⟩ := Checked.bind_ok finished
    obtain ⟨next, same⟩ := sameNames_addBin first
    have fresh : bin.1 ∉ done := by
      intro listed
      exact (List.nodup_append'.mp distinct).2.2 listed (by simp)
    rw [List.map_cons, List.append_cons] at distinct ⊢
    have numberedNext : Numbered (done ++ [bin.1]) middle.2.domainIdBinMapping middle.2.binDomainIdMapping := by
      rw [same.bins, same.binIds, counted]
      exact numbered.snoc fresh
    obtain ⟨all, domains, indices⟩ := ih distinct (by rw [next, counted, List.length_append, List.length_singleton]) numberedNext rest
    exact ⟨all, domains.trans same.domains, indices.trans same.indices⟩

/-- Every index that a domain has leads back to it, and is above the next one to be given. -/
def Indexed (startingIndex : Nat) (mapper : NodeMapper) : Prop :=
  ∀ domain index, mapper.domainIndexMapping.lookup domain = some index →
    mapper.indexDomainMapping.lookup index = some domain ∧ startingIndex < index

/-- The indices are given from the highest down, so none is given twice. -/
private theorem indexed_indexDomains {domains : List String} {startingIndex : Nat} {mapper : NodeMapper}
    (enough : domains.length ≤ startingIndex) (indexed : Indexed startingIndex mapper) :
    Indexed (startingIndex - domains.length) (indexDomains domains startingIndex mapper) ∧
    ∀ domain ∈ domains, ∃ index, (indexDomains domains startingIndex mapper).domainIndexMapping.lookup domain = some index ∧
      index ≤ startingIndex := by
  induction domains generalizing startingIndex mapper with
  | nil => exact ⟨indexed, fun _ impossible => absurd impossible List.not_mem_nil⟩
  | cons first domains ih =>
    rw [List.length_cons] at enough ⊢
    have next : Indexed (startingIndex - 1)
        { mapper with
          indexDomainMapping := mapper.indexDomainMapping.insert startingIndex first
          domainIndexMapping := mapper.domainIndexMapping.insert first startingIndex } := by
      intro domain index found
      simp only [UnorderedMap.lookup_insert] at found ⊢
      split at found
      next same =>
        cases found
        exact ⟨by rw [if_pos rfl, same], by omega⟩
      next =>
        obtain ⟨leadsBack, above⟩ := indexed domain index found
        exact ⟨by rw [if_neg (by omega), leadsBack], by omega⟩
    obtain ⟨rest, inRest⟩ := ih (by omega) next
    rw [indexDomains]
    refine ⟨(show startingIndex - (domains.length + 1) = startingIndex - 1 - domains.length by omega) ▸ rest, ?_⟩
    intro domain member
    by_cases later : domain ∈ domains
    · obtain ⟨index, found, below⟩ := inRest domain later
      exact ⟨index, found, by omega⟩
    · obtain rfl : domain = first := (List.mem_cons.mp member).resolve_right later
      refine ⟨startingIndex, ?_, le_rfl⟩
      rw [lookup_indexDomains_of_not_mem later, UnorderedMap.lookup_insert, if_pos rfl]

private theorem indexDomains_bins (domains : List String) (startingIndex : Nat) (mapper : NodeMapper) :
    (indexDomains domains startingIndex mapper).binDomainIdMapping = mapper.binDomainIdMapping ∧
    (indexDomains domains startingIndex mapper).domainIdBinMapping = mapper.domainIdBinMapping := by
  induction domains generalizing startingIndex mapper with
  | nil => exact ⟨rfl, rfl⟩
  | cons domain domains ih => exact ih (startingIndex - 1) _

/-- Wherever a mapper can be built, bins and ids lead back to each other, the ids are those
from 1 on, as many as there are bins, and an index leads back to its domain. -/
theorem names_inverse {nodeConfig : NodeConfig} {metricConfig : MetricConfig} {binMapping : BinMapping} {mapper : NodeMapper}
    (made : new nodeConfig metricConfig binMapping shardMapping shardMetricsMapping = .ok mapper) :
    (∀ binName domainId, mapper.getDomainId binName = some domainId ↔ mapper.getBinId domainId = some binName) ∧
    (∀ binName, (mapper.getDomainId binName).isSome ↔ binName ∈ binMapping) ∧
    (∀ domainId, (mapper.getBinId domainId).isSome ↔ 1 ≤ domainId ∧ domainId ≤ binMapping.keys.length) ∧
    ∀ domain ∈ nodeConfig.domains, mapper.getDomain (mapper.getDomainIndex domain) = domain ∧
      2 ≤ mapper.getDomainIndex domain ∧ mapper.getDomainIndex domain ≤ nodeConfig.domains.length + 1 := by
  obtain ⟨mapped, first, created⟩ := Checked.bind_ok made
  obtain ⟨⟨count, last⟩, finished, created⟩ := Checked.bind_ok created
  cases created
  have bins := indexDomains_bins nodeConfig.domains (nodeConfig.domains.length + 1) {}
  obtain ⟨indexed, given⟩ := @indexed_indexDomains nodeConfig.domains (nodeConfig.domains.length + 1) {} (by omega)
    (fun domain index impossible => by cases impossible)
  have same : SameNames (indexDomains nodeConfig.domains (nodeConfig.domains.length + 1) {}) mapped := by
    refine Checked.foldlM_invariant
      (SameNames (indexDomains nodeConfig.domains (nodeConfig.domains.length + 1) {})) ?_ ?_ first
    · intro current domain _ next same turn
      exact same.trans (sameNames_addDomain turn)
    · exact ⟨rfl, rfl, rfl, rfl⟩
  have none : Numbered ([] : List Int) mapped.domainIdBinMapping mapped.binDomainIdMapping := by
    rw [same.bins, same.binIds, bins.1, bins.2]
    exact .nil
  obtain ⟨numbered, domains, indices⟩ := numbered_addBins (by exact binMapping.nodupKeys) rfl none finished
  refine ⟨numbered.inverse, ?_, ?_, ?_⟩
  · intro binName
    exact numbered.numbered_iff.trans AList.mem_keys.symm
  · intro domainId
    exact numbered.named_iff
  · intro domain member
    obtain ⟨index, found, below⟩ := given domain member
    obtain ⟨leadsBack, above⟩ := indexed domain index found
    have isIndex : mapper.getDomainIndex domain = index := by
      have found : mapper.domainIndexMapping.lookup domain = some index := by rw [indices, ← found, ← same.indices]; rfl
      rw [getDomainIndex, found, Option.getD_some]
    have isDomain : mapper.indexDomainMapping.lookup index = some domain := by rw [domains, ← leadsBack, ← same.domains]; rfl
    rw [isIndex, getDomain, isDomain]
    exact ⟨rfl, by omega, below⟩

/-- Domains that are listed twice have indices below the length of their list. -/
def listedTwice : NodeConfig where
  domains := ["rack", "host", "rack", "host"]
  domainNodes := ((∅ : UnorderedMap String (List NodeSpec)).insert "rack" []).insert "host" []

def bareBins : BinMapping := ((∅ : BinMapping).insert 4 ⟨[], ∅⟩).insert 9 ⟨[], ∅⟩

theorem names_inverse_listedTwice :
    ∃ mapper, new listedTwice ⟨[]⟩ bareBins ∅ ∅ = .ok mapper ∧
      (∀ binName domainId, mapper.getDomainId binName = some domainId ↔ mapper.getBinId domainId = some binName) ∧
      (∀ binName, (mapper.getDomainId binName).isSome ↔ binName ∈ bareBins) ∧
      (∀ domainId, (mapper.getBinId domainId).isSome ↔ 1 ≤ domainId ∧ domainId ≤ bareBins.keys.length) ∧
      ∀ domain ∈ listedTwice.domains, mapper.getDomain (mapper.getDomainIndex domain) = domain ∧
        2 ≤ mapper.getDomainIndex domain ∧ mapper.getDomainIndex domain ≤ listedTwice.domains.length + 1 := by
  have made := Checked.ok_get (new listedTwice ⟨[]⟩ bareBins ∅ ∅) (by decide +kernel)
  exact ⟨_, made, names_inverse made⟩

end NodeMapper
end ShardManager.Psychopomp

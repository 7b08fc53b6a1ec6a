import ShardManager.Proofs.Mappings

/-! Parents and children of a tree under pending moves: the bins that a shard has are
the bins that list it. -/

namespace ShardManager
namespace SparseMappingTree
variable {tree : SparseMappingTree} {movementMaps : List MovementMap}

private theorem mem_movedParents_iff (shardId : DomainId) (node : Node) :
    node ∈ tree.movedParents movementMaps shardId ↔
      node.1 = tree.binDomain ∧ (tree.parentToChildMap.row tree.binDomain node.2).isSome ∧
        ∃ movementMap ∈ movementMaps, movementMap.getNextBin shardId = some node.2 := by
  unfold movedParents
  simp only [List.mem_filterMap, Option.ite_none_right_eq_some, Option.some.injEq]
  constructor
  · rintro ⟨_, moved, row, rfl⟩
    exact ⟨rfl, row, moved⟩
  · rintro ⟨isBin, row, moved⟩
    exact ⟨node.2, moved, row, Prod.ext isBin.symm rfl⟩

private theorem mem_childNodes_bin (agrees : ∀ movementMap ∈ movementMaps, movementMap.Agrees) (shardId binId : DomainId) :
    shardId ∈ tree.childNodes (tree.binDomain, binId) movementMaps ↔
      (∃ movementMap ∈ movementMaps, movementMap.getNextBin shardId = some binId) ∨
        shardId ∈ tree.children tree.binDomain binId := by
  unfold childNodes
  rw [if_pos rfl, List.mem_append, List.mem_flatMap]
  refine or_congr_left (exists_congr fun movementMap => and_congr_right fun member => ?_)
  rw [← AList.mem_keys]
  exact agrees movementMap member shardId binId

private theorem Faithful.bin_dual (faithful : Faithful tree) (bins : tree.getChildDomain tree.binDomain = some tree.shardDomain)
    {shardId : DomainId} (single : ∀ first second, shardId ∈ tree.children tree.binDomain first →
      shardId ∈ tree.children tree.binDomain second → first = second)
    (agrees : ∀ movementMap ∈ movementMaps, movementMap.Agrees) {binId : DomainId}
    (row : (tree.parentToChildMap.row tree.binDomain binId).isSome) :
    (tree.binDomain, binId) ∈ tree.parentNodes tree.shardDomain shardId movementMaps ↔
      shardId ∈ tree.childNodes (tree.binDomain, binId) movementMaps := by
  rw [parentNodes, if_pos rfl, List.mem_append, faithful.mem_staticParents_iff bins single, mem_movedParents_iff,
    mem_childNodes_bin agrees]
  constructor
  · rintro (listed | ⟨_, _, moved⟩)
    · exact .inr listed
    · exact .inl moved
  · rintro (moved | listed)
    · exact .inr ⟨rfl, row, moved⟩
    · exact .inl listed

private theorem getChildDomain_of_mem_parentNodes (bins : tree.getChildDomain tree.binDomain = some tree.shardDomain)
    {domain : Domain} {domainId : DomainId} {node : Node} (member : node ∈ tree.parentNodes domain domainId movementMaps) :
    tree.getChildDomain node.1 = some domain := by
  rcases List.mem_append.mp member with recorded | moved
  · exact (tree.mapped_of_mem_staticParents recorded).1
  · split at moved
    next isShard =>
      have isBin := ((mem_movedParents_iff domainId node).mp moved).1
      rw [isBin, bins, isShard]
    next => cases moved

private theorem mem_parentNodes_of_other {domain : Domain} {domainId : DomainId} {node : Node}
    (other : domain ≠ tree.shardDomain ∨ node.1 ≠ tree.binDomain) :
    node ∈ tree.parentNodes domain domainId movementMaps ↔ node ∈ tree.staticParents domain domainId := by
  rw [parentNodes, List.mem_append]
  refine or_iff_left fun moved => ?_
  split at moved
  next isShard =>
    have isBin := ((mem_movedParents_iff domainId node).mp moved).1
    rcases other with notShard | notBin
    · exact notShard isShard
    · exact notBin isBin
  next => cases moved

/-- In a tree that maps each parent once and lists each shard under one bin, the parents
and the children that pending moves make are the same relation. -/
theorem moved_parents_dual (shardDomain binDomain : Domain) (mappings : List Mapping) (tree : SparseMappingTree)
    (built : tree = machine.after (empty shardDomain binDomain) mappings)
    (once : machine.EachStep MapsNew (empty shardDomain binDomain) mappings)
    (bins : tree.getChildDomain binDomain = some shardDomain)
    (single : ∀ shardId first second, shardId ∈ tree.children binDomain first → shardId ∈ tree.children binDomain second →
      first = second)
    (movementMaps : List MovementMap) (agrees : ∀ movementMap ∈ movementMaps, movementMap.Agrees)
    (domain : Domain) (domainId : DomainId) :
    ∃ parents, tree.getParents domain domainId (movementMaps.map some) = .ok parents ∧
      (domain = shardDomain → ∀ binId, (tree.parentToChildMap.row binDomain binId).isSome →
        ∃ children, tree.getChildren binDomain binId (movementMaps.map some) = .ok (shardDomain, children) ∧
          ((binDomain, binId) ∈ parents ↔ domainId ∈ children)) ∧
      (∀ node ∈ parents, ∃ children, tree.getChildren node.1 node.2 (movementMaps.map some) = .ok (domain, children)) ∧
      ∃ unmoved, tree.getParents domain domainId [] = .ok unmoved ∧
        ∀ node, domain ≠ shardDomain ∨ node.1 ≠ binDomain → (node ∈ parents ↔ node ∈ unmoved) := by
  obtain ⟨shards, binsAre⟩ := after_domains mappings (empty shardDomain binDomain)
  have faithful : Faithful tree := built ▸ faithful_after (faithful_empty shardDomain binDomain) once
  rw [← built] at shards binsAre
  obtain rfl : tree.shardDomain = shardDomain := shards
  obtain rfl : tree.binDomain = binDomain := binsAre
  have hasBin : tree.HasBin := by
    rw [HasBin, tree.row_mapped]
    exact Option.isSome_iff_exists.mpr ⟨_, bins⟩
  refine ⟨_, tree.getParents_eq domain domainId movementMaps hasBin, ?_, ?_, _, getParents_nil tree domain domainId, ?_⟩
  · rintro rfl binId row
    exact ⟨_, tree.getChildren_eq (tree.binDomain, binId) movementMaps bins row,
      faithful.bin_dual bins (single domainId) agrees row⟩
  · intro node member
    have mapped := tree.mapped_of_mem_parentNodes member
    exact ⟨_, tree.getChildren_eq node movementMaps (getChildDomain_of_mem_parentNodes bins member) mapped.2⟩
  · exact fun node other => mem_parentNodes_of_other other

/-- The shard moves to the second bin. -/
theorem moved_parents_dual_two_bins :
    ∃ parents, twoBins.getParents 0 5 [some (({} : MovementMap).addMovement 5 2)] = .ok parents ∧
      (0 = 0 → ∀ binId, (twoBins.parentToChildMap.row 1 binId).isSome →
        ∃ children, twoBins.getChildren 1 binId [some (({} : MovementMap).addMovement 5 2)] = .ok (0, children) ∧
          ((1, binId) ∈ parents ↔ 5 ∈ children)) ∧
      (∀ node ∈ parents, ∃ children,
        twoBins.getChildren node.1 node.2 [some (({} : MovementMap).addMovement 5 2)] = .ok (0, children)) ∧
      ∃ unmoved, twoBins.getParents 0 5 [] = .ok unmoved ∧ ∀ node, 0 ≠ 0 ∨ node.1 ≠ 1 → (node ∈ parents ↔ node ∈ unmoved) := by
  refine moved_parents_dual 0 1 _ twoBins rfl ?_ rfl ?_ [({} : MovementMap).addMovement 5 2] ?_ 0 5
  · exact twoBins_once
  · exact fun shardId first second => twoBins_single 1 shardId first second
  · intro movementMap member
    obtain rfl := List.mem_singleton.mp member
    exact MovementMap.agrees_empty.addMovement 2 rfl

end SparseMappingTree
end ShardManager

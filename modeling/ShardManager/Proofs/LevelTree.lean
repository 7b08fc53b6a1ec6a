import ShardManager.Proofs.Loads

/-! The trees of a `LoadBalancingConstraint`: a part of a hierarchy, and one more node
over its top. Seen from the bins up they are layers again. -/

namespace ShardManager
open SparseMappingTree

/-- A tree whose bins list what they list in the state. -/
structure ListsBins (state : SolvingState) (tree : SparseMappingTree) : Prop extends Grounded tree where
  lists : ∀ binId, tree.children 1 binId =
    if (tree.parentToChildMap.row 1 binId).isSome then state.assignmentTree.children 1 binId else []

/-- A tree of layers in which parents and children agree, up to the bins that have rows. -/
structure LevelTree (state : SolvingState) (level : Nat → Domain) (tree : SparseMappingTree) : Prop extends ListsBins state tree where
  hasBin : tree.HasBin
  layered : Layered tree level
  upper : ∀ index domainId child, (level (index + 1), domainId) ∈ tree.staticParents (level index) child ↔
    child ∈ tree.children (level (index + 1)) domainId
  mapped : ∀ node, tree.Mapped node → ∃ index, node.1 = level index
  childDomain : ∀ index, (tree.getChildDomain (level (index + 1))).isSome →
    tree.getChildDomain (level (index + 1)) = some (level index)
  closed : ∀ index domainId child, child ∈ tree.children (level (index + 1)) domainId → tree.Mapped (level index, child)

/-- A part of a hierarchy with one more node over its top. -/
structure Crowned (part tree : SparseMappingTree) (domain : Domain) (domainIds : List DomainId) : Prop where
  shardDomain : tree.shardDomain = part.shardDomain
  binDomain : tree.binDomain = part.binDomain
  childDomain : ∀ other, tree.getChildDomain other = if other = 10 then some domain else part.getChildDomain other
  row : ∀ other domainId, tree.parentToChildMap.row other domainId =
    if (other, domainId) = ((10, 0) : Node) then some domainIds else part.parentToChildMap.row other domainId
  parents : ∀ other child parent, parent ∈ tree.staticParents other child ↔
    parent ∈ part.staticParents other child ∨ other = domain ∧ parent = (10, 0) ∧ child ∈ domainIds

/-- The layers of the tree of a `LoadBalancingConstraint`: the domains from the bins up to
its own, and that of the node over them. -/
def balanceLevel (domain : Domain) (index : Nat) : Domain := if index < domain then index + 1 else 10 + (index - domain)

section Tree
variable {state : SolvingState} {domain : Domain} {domainIds : List DomainId} {part tree : SparseMappingTree}

theorem partialTree_crowned (hierarchical : state.Hierarchical) (below : domain < 10) (domainIds : List DomainId) :
    Crowned (state.assignmentTree.createPartialTree domain domainIds) (LoadBalancingConstraint.partialTree state domain domainIds)
      domain domainIds := by
  have isPart := createPartialTree_part hierarchical.hierarchy domain domainIds
  unfold LoadBalancingConstraint.partialTree
  generalize state.assignmentTree.createPartialTree domain domainIds = part at isPart
  have limit : part.getChildDomain SolvingState.kDomainLimit = none := by
    by_contra some
    obtain ⟨domainId, mapped⟩ := isPart.inhabited SolvingState.kDomainLimit (Option.ne_none_iff_isSome.mp some)
    exact absurd (isPart.mapped _ mapped).2 (not_le_of_gt below)
  have accepted : ∀ current, part.getChildDomain SolvingState.kDomainLimit = some current → current = domain := by
    intro current found
    rw [limit] at found
    cases found
  refine ⟨addMapping_shardDomain _ _ _ _, addMapping_binDomain _ _ _ _, getChildDomain_addMapping part _ _ _ accepted,
    row_addMapping part _ _ _ accepted, ?_⟩
  intro other child parent
  rw [mem_staticParents, lookup_addMapping part _ _ _ accepted, Option.or_eq_some_iff, ← mem_staticParents]
  refine or_congr_right ?_
  obtain ⟨parentDomain, parentId⟩ := parent
  have none : parentDomain = 10 → (part.childToParentMap.parents other child).lookup parentDomain = none := by
    rintro rfl
    by_contra some
    obtain ⟨earlier, found⟩ := Option.isSome_iff_exists.mp (Option.ne_none_iff_isSome.mp some)
    have static := (part.mem_staticParents other child (10, earlier)).mpr found
    exact absurd (isPart.mapped _ (part.mapped_of_mem_staticParents static).2).2 (not_le_of_gt below)
  simp only [Option.ite_none_right_eq_some, Option.some.injEq, Prod.mk.injEq]
  change _ ∧ (other = domain ∧ child ∈ domainIds ∧ parentDomain = 10) ∧ 0 = parentId ↔ _
  constructor
  · rintro ⟨_, ⟨same, listed, top⟩, first⟩
    exact ⟨same, ⟨top, first.symm⟩, listed⟩
  · rintro ⟨same, ⟨top, first⟩, listed⟩
    exact ⟨none top, ⟨same, listed, top⟩, first.symm⟩

theorem Crowned.children (crowned : Crowned part tree domain domainIds) (other : Domain) (domainId : DomainId) :
    tree.children other domainId = if (other, domainId) = ((10, 0) : Node) then domainIds else part.children other domainId := by
  rw [SparseMappingTree.children, crowned.row]
  split <;> rfl

theorem balanceLevel_lower {index : Nat} (inside : index < domain) : balanceLevel domain index = index + 1 := if_pos inside

@[simp] theorem balanceLevel_top (domain : Domain) : balanceLevel domain domain = 10 := by simp [balanceLevel]

private theorem balanceLevel_over {index : Nat} (beyond : domain < index) : 10 < balanceLevel domain index := by
  rw [balanceLevel, if_neg (Nat.not_lt_of_gt beyond)]
  exact Nat.lt_add_of_pos_right (Nat.sub_pos_of_lt beyond)

theorem balanceLevel_injective (below : domain < 10) : Function.Injective (balanceLevel domain) := by
  intro first second same
  unfold balanceLevel at same
  grind

theorem mapped_between (isPart : Part state.assignmentTree part domain domainIds) (hasBin : part.HasBin) (index : Nat)
    (inside : index < domain) : ∃ domainId, part.Mapped (index + 1, domainId) := by
  induction index with
  | zero =>
    rw [HasBin, row_mapped, isPart.hierarchy.bins] at hasBin
    exact isPart.inhabited 1 hasBin
  | succ index ih =>
    obtain ⟨domainId, mapped⟩ := ih (Nat.lt_of_succ_lt inside)
    obtain ⟨parent, inPart, above, _⟩ := isPart.below (index + 1, domainId) mapped inside
    obtain ⟨parentDomain, parentId⟩ := parent
    cases above
    exact ⟨parentId, inPart⟩

private theorem part_unmapped (isPart : Part state.assignmentTree part domain domainIds) {other : Domain} (beyond : domain < other) :
    part.getChildDomain other = none := by
  by_contra some
  obtain ⟨domainId, mapped⟩ := isPart.inhabited other (Option.ne_none_iff_isSome.mp some)
  exact absurd (isPart.mapped _ mapped).2 (Nat.not_le_of_gt beyond)

theorem part_parents (isPart : Part state.assignmentTree part domain domainIds) {other : Domain} {child : DomainId} {parent : Node}
    (member : parent ∈ part.staticParents other child) : parent.1 = other + 1 ∧ other < domain := by
  have above := ((isPart.hierarchy.parents _ _ _).mp member).1
  have within := (isPart.mapped _ (part.mapped_of_mem_staticParents member).2).2
  rw [above] at within
  exact ⟨above, within⟩

theorem Crowned.listsBins (isPart : Part state.assignmentTree part domain domainIds) (positive : domain ≠ 0)
    (crowned : Crowned part tree domain domainIds) : ListsBins state tree where
  shards := crowned.shardDomain.trans isPart.hierarchy.shards
  bins := crowned.binDomain.trans isPart.hierarchy.bins
  leaf := by
    rw [crowned.childDomain, if_neg (by decide)]
    exact isPart.hierarchy.grounded.leaf
  parents shard parent := by
    rw [crowned.parents, or_iff_left fun top => positive top.1.symm, isPart.hierarchy.grounded.parents, crowned.children,
      if_neg (by simp)]
  nodup binId := by
    rw [crowned.children, if_neg (by simp)]
    exact isPart.hierarchy.nodup 1 binId
  lists binId := by
    have apart : ((1, binId) : Node) ≠ (10, 0) := by simp
    rw [crowned.children, if_neg apart, crowned.row, if_neg apart, children_bin isPart]

theorem Crowned.mapped (crowned : Crowned part tree domain domainIds) (below : domain < 10) {node : Node}
    (isPart : Part state.assignmentTree part domain domainIds) (inPart : part.Mapped node) : tree.Mapped node := by
  have within := (isPart.mapped node inPart).2
  have apart : node.1 ≠ 10 := ne_of_lt (lt_of_le_of_lt within below)
  refine ⟨?_, ?_⟩
  · rw [crowned.childDomain, if_neg apart]
    exact inPart.1
  · rw [crowned.row, if_neg]
    · exact inPart.2
    · rintro same
      exact apart (congrArg Prod.fst same)

theorem Crowned.layered (isPart : Part state.assignmentTree part domain domainIds) (positive : domain ≠ 0)
    (below : domain < 10) (crowned : Crowned part tree domain domainIds) : Layered tree (balanceLevel domain) := by
  have listsBins := crowned.listsBins isPart positive
  have lowest : balanceLevel domain 0 = 1 := balanceLevel_lower (Nat.pos_of_ne_zero positive)
  refine ⟨balanceLevel_injective below, ?_, lowest.trans listsBins.bins.symm, ?_, ?_, ?_⟩
  · intro index
    rw [listsBins.shards, balanceLevel]
    split <;> simp
  · intro shardId parent member
    rw [listsBins.shards] at member
    exact ((listsBins.parents shardId parent).mp member).1.trans lowest.symm
  · intro index domainId parent member
    obtain static | ⟨top, rfl, _⟩ := (crowned.parents _ _ _).mp member
    · obtain ⟨above, inside⟩ := part_parents isPart static
      rw [above]
      unfold balanceLevel at inside ⊢
      grind
    · unfold balanceLevel at top ⊢
      grind
  · intro child found
    rw [lowest, crowned.childDomain, if_neg (by decide)] at found
    have above := isPart.hierarchy.below 1 child found
    rw [listsBins.shards]
    exact (Nat.succ.inj above).symm

section Levels
variable (isPart : Part state.assignmentTree part domain domainIds) (below : domain < 10) (crowned : Crowned part tree domain domainIds)
  {index : Nat}
include isPart below crowned

omit isPart in
private theorem Crowned.children_lower (inside : index < domain) (domainId : DomainId) :
    tree.children (balanceLevel domain index) domainId = part.children (index + 1) domainId := by
  rw [balanceLevel_lower inside, crowned.children, if_neg]
  intro top
  exact absurd (congrArg Prod.fst top) (ne_of_lt (lt_of_le_of_lt inside below))

private theorem Crowned.children_top (domainId : DomainId) :
    tree.children (balanceLevel domain domain) domainId = if domainId = 0 then domainIds else [] := by
  have unmapped : ¬ part.Mapped (10, domainId) := fun mapped => absurd (isPart.mapped _ mapped).2 (Nat.not_le_of_gt below)
  rw [balanceLevel_top, crowned.children, children_unmapped (10, domainId) unmapped]
  by_cases first : domainId = 0 <;> simp [first]

private theorem Crowned.children_over (beyond : domain < index) (domainId : DomainId) :
    tree.children (balanceLevel domain index) domainId = [] := by
  have high := balanceLevel_over beyond
  have unmapped : ¬ part.Mapped (balanceLevel domain index, domainId) := fun mapped =>
    absurd (isPart.mapped _ mapped).2 (Nat.not_le_of_gt (below.trans high))
  rw [crowned.children, if_neg fun top => absurd (congrArg Prod.fst top) high.ne', children_unmapped _ unmapped]

theorem Crowned.upper (domainId child : DomainId) : (balanceLevel domain (index + 1), domainId) ∈
    tree.staticParents (balanceLevel domain index) child ↔ child ∈ tree.children (balanceLevel domain (index + 1)) domainId := by
  rw [crowned.parents]
  rcases Nat.lt_trichotomy (index + 1) domain with inside | rfl | beyond
  · rw [crowned.children_lower below inside, balanceLevel_lower inside, balanceLevel_lower (Nat.lt_of_succ_lt inside),
      or_iff_left fun top => absurd top.1 (ne_of_lt inside), isPart.hierarchy.parents]
    simp
  · rw [crowned.children_top isPart below, balanceLevel_top, balanceLevel_lower (Nat.lt_succ_self index), or_iff_right fun static =>
      absurd (part_parents isPart static).2 (Nat.lt_irrefl _)]
    by_cases first : domainId = 0 <;> simp [first]
  · have high := balanceLevel_over beyond
    rw [crowned.children_over isPart below beyond]
    refine iff_of_false ?_ List.not_mem_nil
    rintro (static | ⟨_, top, _⟩)
    · exact absurd (isPart.mapped _ (part.mapped_of_mem_staticParents static).2).2 (Nat.not_le_of_gt (below.trans high))
    · exact absurd (congrArg Prod.fst top) high.ne'

omit below in
theorem Crowned.onLevel {node : Node} (mapped : tree.Mapped node) : ∃ index, node.1 = balanceLevel domain index := by
  have some := mapped.1
  rw [crowned.childDomain] at some
  split at some
  next top => exact ⟨domain, top.trans (balanceLevel_top domain).symm⟩
  next other =>
    obtain ⟨domainId, inPart⟩ := isPart.inhabited node.1 some
    have within := (isPart.mapped _ inPart).2
    have notShards : node.1 ≠ 0 := by
      intro zero
      rw [zero] at inPart
      exact isPart.hierarchy.shards_unmapped domainId inPart
    obtain ⟨index, above⟩ := Nat.exists_eq_succ_of_ne_zero notShards
    exact ⟨index, above.trans (balanceLevel_lower (by rw [above] at within; exact within)).symm⟩

private theorem Crowned.childLevel (mapped : (tree.getChildDomain (balanceLevel domain (index + 1))).isSome) :
    tree.getChildDomain (balanceLevel domain (index + 1)) = some (balanceLevel domain index) := by
  rw [crowned.childDomain] at mapped ⊢
  rcases Nat.lt_trichotomy (index + 1) domain with inside | rfl | beyond
  · rw [balanceLevel_lower inside] at mapped ⊢
    rw [if_neg (ne_of_lt (lt_of_le_of_lt inside below))] at mapped ⊢
    obtain ⟨childDomain, found⟩ := Option.isSome_iff_exists.mp mapped
    rw [found, balanceLevel_lower (Nat.lt_of_succ_lt inside), ← Nat.succ.inj (isPart.hierarchy.below _ _ found)]
  · rw [balanceLevel_top, if_pos rfl, balanceLevel_lower (Nat.lt_succ_self index)]
  · have high := balanceLevel_over beyond
    rw [if_neg high.ne', part_unmapped isPart (below.trans high)] at mapped
    cases mapped

/-- Every child above the bins is a node of the tree. -/
theorem Crowned.closed (hasBin : part.HasBin) {domainId child : DomainId}
    (listed : child ∈ tree.children (balanceLevel domain (index + 1)) domainId) : tree.Mapped (balanceLevel domain index, child) := by
  rcases Nat.lt_trichotomy (index + 1) domain with inside | rfl | beyond
  · rw [crowned.children_lower below inside] at listed
    have parent : part.Mapped (index + 1 + 1, domainId) := by
      by_contra unmapped
      rw [children_unmapped (index + 1 + 1, domainId) unmapped] at listed
      cases listed
    rw [isPart.children _ parent] at listed
    obtain ⟨other, mapped⟩ := mapped_between isPart hasBin index (Nat.lt_of_succ_lt inside)
    rw [balanceLevel_lower (Nat.lt_of_succ_lt inside)]
    exact crowned.mapped below isPart (isPart.closed _ parent (index + 1) rfl child listed (isPart.mapped _ mapped).1)
  · rw [crowned.children_top isPart below] at listed
    rw [balanceLevel_lower (Nat.lt_succ_self index)]
    obtain ⟨other, mapped⟩ := mapped_between isPart hasBin index (Nat.lt_succ_self index)
    split at listed
    · exact crowned.mapped below isPart ((isPart.given child).mpr ⟨listed, (isPart.mapped _ mapped).1⟩)
    · cases listed
  · rw [crowned.children_over isPart below beyond] at listed
    cases listed

end Levels

theorem Crowned.levelTree (isPart : Part state.assignmentTree part domain domainIds) (hasBin : part.HasBin) (positive : domain ≠ 0)
    (below : domain < 10) (crowned : Crowned part tree domain domainIds) : LevelTree state (balanceLevel domain) tree where
  toListsBins := crowned.listsBins isPart positive
  hasBin := by
    rw [HasBin, row_mapped, isPart.hierarchy.bins] at hasBin
    rw [HasBin, row_mapped, crowned.binDomain, isPart.hierarchy.bins, ← getChildDomain, crowned.childDomain, if_neg (by decide)]
    exact hasBin
  layered := crowned.layered isPart positive below
  upper _ := crowned.upper isPart below
  mapped _ := crowned.onLevel isPart
  childDomain _ := crowned.childLevel isPart below
  closed _ _ _ := crowned.closed isPart below hasBin

private theorem listsBins_part (isPart : Part state.assignmentTree part domain domainIds) : ListsBins state part where
  toGrounded := isPart.hierarchy.grounded
  lists := children_bin isPart

private theorem partialTree_high (hierarchical : state.Hierarchical) (high : 10 ≤ domain)
    (hasBin : (state.assignmentTree.createPartialTree domain domainIds).HasBin) :
    LoadBalancingConstraint.partialTree state domain domainIds = state.assignmentTree.createPartialTree domain domainIds := by
  have isPart := createPartialTree_part hierarchical.hierarchy domain domainIds
  obtain ⟨domainId, mapped⟩ := mapped_between isPart hasBin 9 high
  obtain ⟨childDomain, found⟩ := Option.isSome_iff_exists.mp mapped.1
  obtain rfl : 9 = childDomain := Nat.succ.inj (isPart.hierarchy.below _ _ found)
  rw [LoadBalancingConstraint.partialTree, addMapping, dif_neg]
  intro accepted
  exact absurd (accepted 9 found) (Nat.ne_of_lt high)

theorem partialTree_layered (hierarchical : state.Hierarchical)
    (hasBin : (state.assignmentTree.createPartialTree domain domainIds).HasBin) :
    ListsBins state (LoadBalancingConstraint.partialTree state domain domainIds) ∧
      (LoadBalancingConstraint.partialTree state domain domainIds).HasBin ∧
      ∃ level, Layered (LoadBalancingConstraint.partialTree state domain domainIds) level ∧ ∃ index, level index = domain := by
  have isPart := createPartialTree_part hierarchical.hierarchy domain domainIds
  have positive := domain_ne_zero hierarchical hasBin
  obtain ⟨index, above⟩ := Nat.exists_eq_succ_of_ne_zero positive
  obtain below | high := Nat.lt_or_ge domain 10
  · have levels := (partialTree_crowned hierarchical below domainIds).levelTree isPart hasBin positive below
    refine ⟨levels.toListsBins, levels.hasBin, _, levels.layered, index, ?_⟩
    rw [balanceLevel_lower (above ▸ Nat.lt_succ_self index), above]
  · rw [partialTree_high hierarchical high hasBin]
    exact ⟨listsBins_part isPart, hasBin, _, isPart.hierarchy.layered, index, above.symm⟩

theorem partialTree_mapped (hierarchical : state.Hierarchical)
    (hasBin : (state.assignmentTree.createPartialTree domain domainIds).HasBin) {node : Node}
    (mapped : (state.assignmentTree.createPartialTree domain domainIds).Mapped node) :
    (LoadBalancingConstraint.partialTree state domain domainIds).Mapped node := by
  have isPart := createPartialTree_part hierarchical.hierarchy domain domainIds
  obtain below | high := Nat.lt_or_ge domain 10
  · exact (partialTree_crowned hierarchical below domainIds).mapped below isPart mapped
  · rw [partialTree_high hierarchical high hasBin]
    exact mapped

end Tree
end ShardManager

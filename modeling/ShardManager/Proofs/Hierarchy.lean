import ShardManager.Placer.SolvingState
import Mathlib.Data.Finset.Dedup

/-! Trees in which every child has one parent, one domain up. The tree of a state
is one if its mapping lists each child once; so is every part of it. -/

namespace ShardManager
namespace SparseMappingTree

theorem getChildDomain_addMapping (tree : SparseMappingTree) (parent : Node) (childDomain : Domain) (children : List DomainId)
    (accepted : ∀ current, tree.getChildDomain parent.1 = some current → current = childDomain) (domain : Domain) :
    (tree.addMapping parent childDomain children).getChildDomain domain =
      if domain = parent.1 then some childDomain else tree.getChildDomain domain := by
  unfold getChildDomain at accepted
  rw [addMapping, dif_pos accepted]
  exact UnorderedMap.lookup_insert _ _ _ _

theorem row_addMapping (tree : SparseMappingTree) (parent : Node) (childDomain : Domain) (children : List DomainId)
    (accepted : ∀ current, tree.getChildDomain parent.1 = some current → current = childDomain)
    (domain : Domain) (domainId : DomainId) :
    (tree.addMapping parent childDomain children).parentToChildMap.row domain domainId =
      if (domain, domainId) = parent then some children else tree.parentToChildMap.row domain domainId := by
  unfold getChildDomain at accepted
  rw [addMapping, dif_pos accepted]
  exact ChildRows.row_set _ _ _ _ _

theorem lookup_addMapping (tree : SparseMappingTree) (parent : Node) (childDomain : Domain) (children : List DomainId)
    (accepted : ∀ current, tree.getChildDomain parent.1 = some current → current = childDomain)
    (domain : Domain) (domainId : DomainId) (parentDomain : Domain) :
    ((tree.addMapping parent childDomain children).childToParentMap.parents domain domainId).lookup parentDomain =
      ((tree.childToParentMap.parents domain domainId).lookup parentDomain).or
        (if domain = childDomain ∧ domainId ∈ children ∧ parentDomain = parent.1 then some parent.2 else none) := by
  unfold getChildDomain at accepted
  rw [addMapping, dif_pos accepted]
  exact parents_emplaceParents _ _ _ _ _ _ _

/-- A tree built by adding rows one after another; the children of a row are in
the domain below that of its parent. -/
def addRows (rows : List (Node × List DomainId)) (tree : SparseMappingTree) : SparseMappingTree :=
  rows.foldl (fun tree row => tree.addMapping row.1 (row.1.1 - 1) row.2) tree

/-- Rows of a hierarchy: one row for a parent, and one parent for a child. -/
structure Rows (rows : List (Node × List DomainId)) : Prop where
  above : ∀ row ∈ rows, row.1.1 ≠ 0
  functional : ∀ row ∈ rows, ∀ other ∈ rows, row.1 = other.1 → row.2 = other.2
  unique : ∀ row ∈ rows, ∀ other ∈ rows, row.1.1 = other.1.1 → ∀ child ∈ row.2, child ∈ other.2 → row.1 = other.1

/-- What a tree with the given rows records. -/
structure Records (rows : List (Node × List DomainId)) (tree : SparseMappingTree) : Prop where
  childDomain : ∀ domain childDomain, tree.getChildDomain domain = some childDomain ↔
    domain = childDomain + 1 ∧ ∃ row ∈ rows, row.1.1 = domain
  row : ∀ domain domainId children, tree.parentToChildMap.row domain domainId = some children ↔
    ((domain, domainId), children) ∈ rows
  parents : ∀ domain child parent, parent ∈ tree.staticParents domain child ↔
    parent.1 = domain + 1 ∧ ∃ row ∈ rows, row.1 = parent ∧ child ∈ row.2

private theorem records_empty (shardDomain binDomain : Domain) : Records [] (empty shardDomain binDomain) where
  childDomain := by simp [empty, getChildDomain]
  row := by simp [empty, ChildRows.row]
  parents := by simp [mem_staticParents, empty, ParentMaps.parents]

theorem Records.addMapping {rows : List (Node × List DomainId)} {tree : SparseMappingTree} (records : Records rows tree)
    {row : Node × List DomainId} (wellFormed : Rows (rows ++ [row])) :
    Records (rows ++ [row]) (tree.addMapping row.1 (row.1.1 - 1) row.2) := by
  have positive : row.1.1 ≠ 0 := wellFormed.above row (by simp)
  have accepted : ∀ current, tree.getChildDomain row.1.1 = some current → current = row.1.1 - 1 := by
    intro current found
    have below := ((records.childDomain _ _).mp found).1
    grind
  constructor
  · intro domain childDomain
    rw [getChildDomain_addMapping _ _ _ _ accepted]
    by_cases here : domain = row.1.1
    · subst here
      simp only [if_true, Option.some.injEq, List.mem_append, List.mem_singleton]
      constructor
      · intro same
        exact ⟨by grind, row, .inr rfl, rfl⟩
      · rintro ⟨same, _⟩
        grind
    · rw [if_neg here, records.childDomain]
      simp only [List.mem_append, List.mem_singleton]
      refine and_congr_right fun _ => ⟨?_, ?_⟩
      · rintro ⟨other, member, same⟩
        exact ⟨other, .inl member, same⟩
      · rintro ⟨other, member | rfl, same⟩
        · exact ⟨other, member, same⟩
        · exact absurd same.symm here
  · intro domain domainId children
    rw [row_addMapping _ _ _ _ accepted]
    by_cases here : (domain, domainId) = row.1
    · rw [if_pos here, Option.some.injEq, List.mem_append, List.mem_singleton]
      constructor
      · rintro rfl
        exact .inr (by rw [here])
      · intro member
        exact wellFormed.functional row (by simp) _ (by simpa using member) here.symm
    · rw [if_neg here, records.row, List.mem_append, List.mem_singleton]
      refine ⟨.inl, ?_⟩
      rintro (member | same)
      · exact member
      · exact absurd (congrArg Prod.fst same) here
  · intro domain child parent
    rw [mem_staticParents, lookup_addMapping _ _ _ _ accepted, Option.or_eq_some_iff, ← mem_staticParents, records.parents,
      Option.ite_none_right_eq_some, Option.some.injEq]
    constructor
    · rintro (⟨above, other, member, same, listed⟩ | ⟨_, ⟨below, listed, sameDomain⟩, sameId⟩)
      · exact ⟨above, other, by simp [member], same, listed⟩
      · exact ⟨by grind, row, by simp, Prod.ext sameDomain.symm sameId, listed⟩
    · rintro ⟨above, other, member, same, listed⟩
      rw [List.mem_append, List.mem_singleton] at member
      rcases member with old | rfl
      · exact .inl ⟨above, other, old, same, listed⟩
      · cases recorded : (tree.childToParentMap.parents domain child).lookup parent.1 with
        | none => exact .inr ⟨rfl, ⟨by rw [same]; grind, listed, by rw [same]⟩, by rw [same]⟩
        | some earlier =>
          have static := (tree.mem_staticParents domain child (parent.1, earlier)).mpr recorded
          obtain ⟨_, first, inRows, sameParent, inFirst⟩ := (records.parents _ _ _).mp static
          have one := wellFormed.unique first (by simp [inRows]) other (by simp) (by rw [sameParent, same]) child inFirst listed
          refine .inl ⟨above, first, inRows, one.trans same, inFirst⟩

private theorem records_addRows (shardDomain binDomain : Domain) {rows : List (Node × List DomainId)} (wellFormed : Rows rows) :
    Records rows (addRows rows (empty shardDomain binDomain)) := by
  refine Checked.foldl_invariant Records ?_ (records_empty shardDomain binDomain)
  intro handled row rest split tree records
  refine records.addMapping ⟨?_, ?_, ?_⟩
  all_goals
    have inside : ∀ other ∈ handled ++ [row], other ∈ rows := fun other member => by
      rw [split]
      simp only [List.mem_append, List.mem_cons, List.not_mem_nil, or_false] at member ⊢
      tauto
  · exact fun other member => wellFormed.above other (inside other member)
  · exact fun first member second present => wellFormed.functional first (inside first member) second (inside second present)
  · exact fun first member second present => wellFormed.unique first (inside first member) second (inside second present)

/-- Domains are numbered from the shards up. -/
def Descends (tree : SparseMappingTree) : Prop :=
  ∀ domain childDomain, tree.getChildDomain domain = some childDomain → domain = childDomain + 1

theorem Descends.addMapping {tree : SparseMappingTree} (descends : Descends tree) {parent : Node} {childDomain : Domain}
    (below : parent.1 = childDomain + 1) (children : List DomainId) : Descends (tree.addMapping parent childDomain children) := by
  intro domain child found
  by_cases accepted : ∀ current, tree.getChildDomain parent.1 = some current → current = childDomain
  · rw [getChildDomain_addMapping _ _ _ _ accepted] at found
    split at found
    next same =>
      cases found
      exact same.trans below
    next => exact descends domain child found
  · unfold getChildDomain at accepted
    rw [SparseMappingTree.addMapping, dif_neg accepted] at found
    exact descends domain child found

private theorem descends_addRows (shardDomain binDomain : Domain) {rows : List (Node × List DomainId)}
    (above : ∀ row ∈ rows, row.1.1 ≠ 0) : Descends (addRows rows (empty shardDomain binDomain)) := by
  refine Checked.foldl_invariant (fun _ tree => Descends tree) ?_ ?_
  · intro handled row rest split tree descends
    have positive := above row (by simp [split])
    exact descends.addMapping (by grind) row.2
  · intro domain childDomain found
    cases found

/-- A tree whose domains are numbered from the shards up, with one parent for each child. -/
structure Hierarchy (tree : SparseMappingTree) : Prop where
  shards : tree.shardDomain = 0
  bins : tree.binDomain = 1
  below : Descends tree
  parents : ∀ domain child parent, parent ∈ tree.staticParents domain child ↔
    parent.1 = domain + 1 ∧ child ∈ tree.children parent.1 parent.2
  nodup : ∀ domain domainId, (tree.children domain domainId).Nodup

theorem Hierarchy.shards_unmapped {tree : SparseMappingTree} (hierarchy : Hierarchy tree) (domainId : DomainId) :
    ¬ tree.Mapped (0, domainId) := by
  rintro ⟨isSome, _⟩
  obtain ⟨childDomain, found⟩ := Option.isSome_iff_exists.mp isSome
  exact absurd (hierarchy.below 0 childDomain found) (by simp)

def childrenAt (tree : SparseMappingTree) (level : Nat) (domainId : DomainId) : Finset DomainId :=
  (tree.children (level + 2) domainId).toFinset

theorem Records.mem_children {rows : List (Node × List DomainId)} {tree : SparseMappingTree} (records : Records rows tree)
    (domain : Domain) (domainId child : DomainId) :
    child ∈ tree.children domain domainId ↔ ∃ row ∈ rows, row.1 = (domain, domainId) ∧ child ∈ row.2 := by
  unfold SparseMappingTree.children
  cases found : tree.parentToChildMap.row domain domainId with
  | none =>
    simp only [Option.getD_none, List.not_mem_nil, false_iff]
    rintro ⟨row, member, same, _⟩
    rw [(records.row domain domainId row.2).mpr (same ▸ member)] at found
    cases found
  | some children =>
    have member := (records.row domain domainId children).mp found
    simp only [Option.getD_some]
    constructor
    · exact fun listed => ⟨_, member, rfl, listed⟩
    · rintro ⟨row, inRows, same, listed⟩
      have again := (records.row domain domainId row.2).mpr (same ▸ inRows)
      rw [found, Option.some.injEq] at again
      exact again ▸ listed

theorem Records.hierarchy {rows : List (Node × List DomainId)} {tree : SparseMappingTree} (records : Records rows tree)
    (shards : tree.shardDomain = 0) (bins : tree.binDomain = 1) (distinct : ∀ row ∈ rows, row.2.Nodup) : Hierarchy tree where
  shards := shards
  bins := bins
  below domain childDomain found := ((records.childDomain domain childDomain).mp found).1
  parents domain child parent := by
    rw [records.parents, records.mem_children]
  nodup domain domainId := by
    unfold SparseMappingTree.children
    cases found : tree.parentToChildMap.row domain domainId with
    | none => exact List.nodup_nil
    | some children => exact distinct _ ((records.row domain domainId children).mp found)

theorem Hierarchy.mem_children {tree : SparseMappingTree} (hierarchy : Hierarchy tree) (domain : Domain) (child parentId : DomainId) :
    child ∈ tree.children (domain + 1) parentId ↔
      (tree.childToParentMap.parents domain child).lookup (domain + 1) = some parentId := by
  rw [← mem_staticParents _ _ _ (domain + 1, parentId), hierarchy.parents]
  simp

/-- The lowest two levels of a tree: the shards, and the bins that list them. -/
structure Grounded (tree : SparseMappingTree) : Prop where
  shards : tree.shardDomain = 0
  bins : tree.binDomain = 1
  leaf : tree.getChildDomain 0 = none
  parents : ∀ shard parent, parent ∈ tree.staticParents 0 shard ↔ parent.1 = 1 ∧ shard ∈ tree.children 1 parent.2
  nodup : ∀ binId, (tree.children 1 binId).Nodup

theorem Hierarchy.grounded {tree : SparseMappingTree} (hierarchy : Hierarchy tree) : Grounded tree where
  shards := hierarchy.shards
  bins := hierarchy.bins
  leaf := by
    cases found : tree.getChildDomain 0 with
    | none => rfl
    | some childDomain => exact absurd (hierarchy.below 0 childDomain found) (by simp)
  parents shard parent := by
    rw [hierarchy.parents]
    refine and_congr_right fun above => ?_
    rw [above, Nat.zero_add]
  nodup := hierarchy.nodup 1

theorem Grounded.mem_shards {tree : SparseMappingTree} (grounded : Grounded tree) {binId shard : DomainId}
    (listed : shard ∈ tree.children 1 binId) : shard ∈ tree.getAllDomainIds 0 := by
  have parent := (tree.mem_staticParents 0 shard (1, binId)).mp ((grounded.parents shard (1, binId)).mpr ⟨rfl, listed⟩)
  have leaf : tree.parentToChildDomainMap.lookup 0 = none := grounded.leaf
  rw [getAllDomainIds, leaf, Option.isSome_none, if_neg (by simp), UnorderedMap.mem_keys_iff]
  unfold ParentMaps.parents at parent
  cases children : tree.childToParentMap.lookup 0 with
  | none => simp [children] at parent
  | some parents =>
    cases found : parents.lookup shard with
    | none => simp [children, found] at parent
    | some rows => exact ⟨rows, found⟩

theorem nodup_getAllDomainIds (tree : SparseMappingTree) (domain : Domain) : (tree.getAllDomainIds domain).Nodup := by
  unfold getAllDomainIds
  split <;> exact AList.keys_nodup _

end SparseMappingTree

namespace SolvingState

def rowsOf (domainMapping : List (List (List DomainId))) : List (Node × List DomainId) :=
  domainMapping.zipIdx.flatMap fun rows => rows.1.zipIdx.map fun row => ((rows.2 + 1, row.2), row.1)

/-- Each child is listed once, under one parent. -/
def ListsOnce (domainMapping : List (List (List DomainId))) : Prop := ∀ rows ∈ domainMapping, rows.flatten.Nodup

instance (domainMapping : List (List (List DomainId))) : Decidable (ListsOnce domainMapping) :=
  inferInstanceAs (Decidable (∀ rows ∈ domainMapping, rows.flatten.Nodup))

theorem mem_rowsOf (domainMapping : List (List (List DomainId))) (row : Node × List DomainId) :
    row ∈ rowsOf domainMapping ↔
      ∃ below rows, row.1.1 = below + 1 ∧ domainMapping[below]? = some rows ∧ rows[row.1.2]? = some row.2 := by
  obtain ⟨⟨domain, domainId⟩, children⟩ := row
  simp only [rowsOf, List.mem_flatMap, List.mem_map, List.mem_zipIdx_iff_getElem?, Prod.exists, Prod.mk.injEq]
  constructor
  · rintro ⟨rows, below, level, children, domainId, row, ⟨rfl, rfl⟩, rfl⟩
    exact ⟨below, rows, rfl, level, row⟩
  · rintro ⟨below, rows, rfl, level, row⟩
    exact ⟨rows, below, level, children, domainId, row, ⟨rfl, rfl⟩, rfl⟩

theorem assignmentTree_eq (shardInfoVector : List ShardInfo) (metricVectors : List (List MetricValue))
    (domainMapping : List (List (List DomainId))) :
    (new shardInfoVector metricVectors domainMapping).assignmentTree =
      SparseMappingTree.addRows (rowsOf domainMapping) (.empty 0 1) := by
  simp only [new, rowsOf, SparseMappingTree.addRows, List.foldl_flatMap, List.foldl_map, addDomainInternal,
    Nat.add_sub_cancel]

private theorem flatten_unique {rows : List (List DomainId)} (distinct : rows.flatten.Nodup) {first second : Nat}
    {firstRow secondRow : List DomainId} (atFirst : rows[first]? = some firstRow) (atSecond : rows[second]? = some secondRow)
    {child : DomainId} (inFirst : child ∈ firstRow) (inSecond : child ∈ secondRow) : first = second := by
  rw [List.nodup_flatten] at distinct
  by_contra different
  have apart := List.pairwise_iff_getElem.mp distinct.2
  obtain ⟨firstInside, rfl⟩ := List.getElem?_eq_some_iff.mp atFirst
  obtain ⟨secondInside, rfl⟩ := List.getElem?_eq_some_iff.mp atSecond
  rcases Nat.lt_or_gt_of_ne different with less | more
  · exact apart first second firstInside secondInside less inFirst inSecond
  · exact apart second first secondInside firstInside more inSecond inFirst

theorem rows_rowsOf {domainMapping : List (List (List DomainId))} (once : ListsOnce domainMapping) :
    SparseMappingTree.Rows (rowsOf domainMapping) where
  above row member := by
    obtain ⟨below, _, above, _⟩ := (mem_rowsOf _ _).mp member
    grind
  functional row member other otherMember same := by
    obtain ⟨below, rows, above, level, found⟩ := (mem_rowsOf _ _).mp member
    obtain ⟨otherBelow, otherRows, otherAbove, otherLevel, otherFound⟩ := (mem_rowsOf _ _).mp otherMember
    obtain rfl : below = otherBelow := by
      rw [same] at above
      grind
    rw [level, Option.some.injEq] at otherLevel
    rw [same, otherLevel, otherFound, Option.some.injEq] at found
    exact found.symm
  unique row member other otherMember same child inRow inOther := by
    obtain ⟨below, rows, above, level, found⟩ := (mem_rowsOf _ _).mp member
    obtain ⟨otherBelow, otherRows, otherAbove, otherLevel, otherFound⟩ := (mem_rowsOf _ _).mp otherMember
    obtain rfl : below = otherBelow := by grind
    rw [level, Option.some.injEq] at otherLevel
    subst otherLevel
    exact Prod.ext same (flatten_unique (once rows (List.mem_of_getElem? level)) found otherFound inRow inOther)

variable (shardInfoVector : List ShardInfo) (metricVectors : List (List MetricValue))

theorem records_new {domainMapping : List (List (List DomainId))} (once : ListsOnce domainMapping) :
    SparseMappingTree.Records (rowsOf domainMapping) (new shardInfoVector metricVectors domainMapping).assignmentTree := by
  rw [assignmentTree_eq]
  exact SparseMappingTree.records_addRows 0 1 (rows_rowsOf once)

theorem domain_le {domainMapping : List (List (List DomainId))} (once : ListsOnce domainMapping) {domain : Domain}
    (mapped : ((new shardInfoVector metricVectors domainMapping).assignmentTree.getChildDomain domain).isSome) :
    domain ≤ domainMapping.length := by
  obtain ⟨childDomain, found⟩ := Option.isSome_iff_exists.mp mapped
  obtain ⟨_, row, inRows, rfl⟩ := ((records_new shardInfoVector metricVectors once).childDomain _ _).mp found
  obtain ⟨below, rows, above, level, _⟩ := (mem_rowsOf _ _).mp inRows
  obtain ⟨inside, _⟩ := List.getElem?_eq_some_iff.mp level
  rw [above]
  exact inside

theorem descends_new (domainMapping : List (List (List DomainId))) :
    SparseMappingTree.Descends (new shardInfoVector metricVectors domainMapping).assignmentTree := by
  rw [assignmentTree_eq]
  refine SparseMappingTree.descends_addRows 0 1 fun row member => ?_
  obtain ⟨below, _, above, _⟩ := (mem_rowsOf _ _).mp member
  exact above ▸ Nat.succ_ne_zero below

theorem hierarchy_new {domainMapping : List (List (List DomainId))} (once : ListsOnce domainMapping) :
    SparseMappingTree.Hierarchy (new shardInfoVector metricVectors domainMapping).assignmentTree := by
  obtain ⟨shards, bins⟩ := new_domains shardInfoVector metricVectors domainMapping
  refine (records_new shardInfoVector metricVectors once).hierarchy shards bins ?_
  intro row member
  obtain ⟨_, rows, _, level, found⟩ := (mem_rowsOf _ _).mp member
  have distinct := once rows (List.mem_of_getElem? level)
  rw [List.nodup_flatten] at distinct
  exact distinct.1 row.2 (List.mem_of_getElem? found)

/-- States with a hierarchy and an empty movement map of their own. -/
structure Hierarchical (state : SolvingState) : Prop where
  shardDomain : state.shardDomain = 0
  binDomain : state.binDomain = 1
  hierarchy : state.assignmentTree.Hierarchy
  movementMap : state.movementMap = some {}

theorem hierarchical_new {domainMapping : List (List (List DomainId))} (once : ListsOnce domainMapping) :
    Hierarchical (new shardInfoVector metricVectors domainMapping).withEmptyMovementMap :=
  ⟨rfl, rfl, hierarchy_new shardInfoVector metricVectors once, rfl⟩

end SolvingState
end ShardManager

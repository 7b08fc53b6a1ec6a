import ShardManager.Placer.SparseMappingTree

/-! `SparseMappingTree.cpp` with what its queries write: they read the maps with
`operator[]`, which puts an empty map where it finds none. -/

namespace ShardManager

/-- The maps of a tree between two calls. A query breaks the invariant that only a
domain with a child domain has rows. -/
structure QueriedTree where
  childToParentMap : ParentMaps
  parentToChildDomainMap : UnorderedMap Domain Domain
  parentToChildMap : ChildRows

namespace QueriedTree

def empty : QueriedTree := ⟨∅, ∅, ∅⟩

/-- The parent's domain has no other child domain. -/
def Accepts (tree : QueriedTree) (parent : Node) (childDomain : Domain) : Prop :=
  ∀ current ∈ tree.parentToChildDomainMap.lookup parent.1, current = childDomain

instance (tree : QueriedTree) (parent : Node) (childDomain : Domain) : Decidable (tree.Accepts parent childDomain) :=
  inferInstanceAs (Decidable (∀ current ∈ tree.parentToChildDomainMap.lookup parent.1, current = childDomain))

def addMapping (tree : QueriedTree) (parent : Node) (childDomain : Domain) (childrenDomainIds : List DomainId) : QueriedTree :=
  if tree.Accepts parent childDomain then
    { parentToChildDomainMap := tree.parentToChildDomainMap.insert parent.1 childDomain
      childToParentMap := SparseMappingTree.emplaceParents tree.childToParentMap parent childDomain childrenDomainIds
      parentToChildMap := tree.parentToChildMap.set parent childrenDomainIds }
  else tree

def getAllDomainIds (tree : QueriedTree) (domain : Domain) : List DomainId × QueriedTree :=
  if (tree.parentToChildDomainMap.lookup domain).isSome then
    let parentToChildMap := UnorderedMap.emplace tree.parentToChildMap domain ∅
    (((parentToChildMap.lookup domain).getD ∅).keys, { tree with parentToChildMap })
  else
    let childToParentMap := UnorderedMap.emplace tree.childToParentMap domain ∅
    (((childToParentMap.lookup domain).getD ∅).keys, { tree with childToParentMap })

def doesNodeExist (tree : QueriedTree) (domain : Domain) (domainId : DomainId) : Bool × QueriedTree :=
  let childToParentMap := UnorderedMap.emplace tree.childToParentMap domain ∅
  let parentToChildMap := UnorderedMap.emplace tree.parentToChildMap domain ∅
  let childMap := (childToParentMap.lookup domain).getD ∅
  let parentMap := (parentToChildMap.lookup domain).getD ∅
  (domainId ∈ childMap || domainId ∈ parentMap, { tree with childToParentMap, parentToChildMap })

/-- The tree has the same entries, some of them in empty maps of its own. -/
structure Shows (queried : QueriedTree) (tree : SparseMappingTree) : Prop where
  childDomains : queried.parentToChildDomainMap = tree.parentToChildDomainMap
  parents : ∀ domain, (queried.childToParentMap.lookup domain).getD ∅ = (tree.childToParentMap.lookup domain).getD ∅
  rows : ∀ domain, (queried.parentToChildMap.lookup domain).getD ∅ = (tree.parentToChildMap.lookup domain).getD ∅

variable {queried : QueriedTree} {tree : SparseMappingTree}

theorem getD_emplace {V : Type} (map : UnorderedMap Domain (UnorderedMap DomainId V)) (key domain : Domain) :
    ((UnorderedMap.emplace map key ∅).lookup domain).getD ∅ = (map.lookup domain).getD ∅ := by
  rw [UnorderedMap.lookup_emplace]
  split
  next same => rw [same, Option.getD_some]
  next => rfl

private theorem getD_emplaceParents {maps others : ParentMaps} (parent : Node) (childDomain : Domain) (children : List DomainId)
    (same : ∀ domain, (maps.lookup domain).getD ∅ = (others.lookup domain).getD ∅) (domain : Domain) :
    ((SparseMappingTree.emplaceParents maps parent childDomain children).lookup domain).getD ∅ =
      ((SparseMappingTree.emplaceParents others parent childDomain children).lookup domain).getD ∅ := by
  induction children generalizing maps others with
  | nil => exact same domain
  | cons child children ih =>
    refine ih fun other => ?_
    simp only [ParentMaps.emplace, UnorderedMap.lookup_insert, same childDomain]
    split
    next => rfl
    next => exact same other

private theorem getD_set {rows others : ChildRows} (node : Node) (children : List DomainId)
    (same : ∀ domain, (rows.lookup domain).getD ∅ = (others.lookup domain).getD ∅) (domain : Domain) :
    ((rows.set node children).lookup domain).getD ∅ = ((others.set node children).lookup domain).getD ∅ := by
  simp only [ChildRows.set, UnorderedMap.lookup_insert, same node.1]
  split
  next => rfl
  next => exact same domain

theorem shows_empty (shardDomain binDomain : Domain) : empty.Shows (.empty shardDomain binDomain) :=
  ⟨rfl, fun _ => rfl, fun _ => rfl⟩

theorem Shows.addMapping (shown : queried.Shows tree) (parent : Node) (childDomain : Domain) (children : List DomainId) :
    (queried.addMapping parent childDomain children).Shows (tree.addMapping parent childDomain children) := by
  by_cases accepted : queried.Accepts parent childDomain
  · have alike : ∀ current, tree.parentToChildDomainMap.lookup parent.1 = some current → current = childDomain :=
      shown.childDomains ▸ accepted
    rw [QueriedTree.addMapping, if_pos accepted, SparseMappingTree.addMapping, dif_pos alike]
    refine ⟨?_, getD_emplaceParents parent childDomain children shown.parents, getD_set parent children shown.rows⟩
    exact congrArg (AList.insert parent.1 childDomain) shown.childDomains
  · have alike : ¬ ∀ current, tree.parentToChildDomainMap.lookup parent.1 = some current → current = childDomain :=
      shown.childDomains ▸ accepted
    rw [QueriedTree.addMapping, if_neg accepted, SparseMappingTree.addMapping, dif_neg alike]
    exact shown

theorem Shows.getAllDomainIds (shown : queried.Shows tree) (domain : Domain) :
    (queried.getAllDomainIds domain).1 = tree.getAllDomainIds domain ∧ (queried.getAllDomainIds domain).2.Shows tree := by
  unfold QueriedTree.getAllDomainIds SparseMappingTree.getAllDomainIds
  rw [← shown.childDomains]
  split
  next =>
    refine ⟨?_, shown.childDomains, shown.parents, fun other => (getD_emplace _ _ other).trans (shown.rows other)⟩
    dsimp only
    rw [getD_emplace, shown.rows]
  next =>
    refine ⟨?_, shown.childDomains, fun other => (getD_emplace _ _ other).trans (shown.parents other), shown.rows⟩
    dsimp only
    rw [getD_emplace, shown.parents]

theorem Shows.doesNodeExist (shown : queried.Shows tree) (domain : Domain) (domainId : DomainId) :
    (queried.doesNodeExist domain domainId).1 = tree.doesNodeExist domain domainId ∧
      (queried.doesNodeExist domain domainId).2.Shows tree := by
  refine ⟨?_, shown.childDomains, fun other => (getD_emplace _ _ other).trans (shown.parents other),
    fun other => (getD_emplace _ _ other).trans (shown.rows other)⟩
  unfold QueriedTree.doesNodeExist SparseMappingTree.doesNodeExist
  dsimp only
  rw [getD_emplace, getD_emplace, shown.parents, shown.rows]

end QueriedTree
end ShardManager

import ShardManager.Lib.Checked
import ShardManager.Placer.MovementMap

/-! `SparseMappingTree.cpp`: the placement hierarchy as a list of children for
each parent and, for each child, at most one parent in every domain. -/

namespace ShardManager

abbrev ParentMaps := UnorderedMap Domain (UnorderedMap DomainId (UnorderedMap Domain DomainId))
abbrev ChildRows := UnorderedMap Domain (UnorderedMap DomainId (List DomainId))

namespace ParentMaps

/-- `childToParentMap_[domain][domainId]` without its insertion of empty maps. -/
def parents (maps : ParentMaps) (domain : Domain) (domainId : DomainId) : UnorderedMap Domain DomainId :=
  ((maps.lookup domain).bind (·.lookup domainId)).getD ∅

/-- `childToParentMap_[childDomain][child].emplace(parentDomain, parentDomainId)`,
which keeps a parent that is already there. -/
def emplace (maps : ParentMaps) (childDomain : Domain) (child : DomainId) (parent : Node) : ParentMaps :=
  let children := (maps.lookup childDomain).getD ∅
  let parents := (children.lookup child).getD ∅
  maps.insert childDomain
    (children.insert child (if parent.1 ∈ parents then parents else parents.insert parent.1 parent.2))

private theorem parents_emplace (maps : ParentMaps) (childDomain : Domain) (child : DomainId) (parent : Node)
    (domain : Domain) (domainId : DomainId) (parentDomain : Domain) :
    ((maps.emplace childDomain child parent).parents domain domainId).lookup parentDomain =
      ((maps.parents domain domainId).lookup parentDomain).or
        (if domain = childDomain ∧ domainId = child ∧ parentDomain = parent.1 then some parent.2 else none) := by
  simp only [emplace, parents, UnorderedMap.lookup_insert]
  by_cases sameDomain : domain = childDomain
  · subst sameDomain
    by_cases sameChild : domainId = child
    · subst sameChild
      have base : ((maps.lookup domain).bind (·.lookup domainId)).getD ∅ =
          (((maps.lookup domain).getD ∅).lookup domainId).getD ∅ := by
        cases maps.lookup domain <;> simp
      simp only [ite_true, Option.bind_some, UnorderedMap.lookup_insert, Option.getD_some, true_and]
      rw [base]
      split
      next present =>
        obtain ⟨other, found⟩ := (UnorderedMap.mem_iff _ _).mp present
        by_cases same : parentDomain = parent.1
        · rw [same, found]; rfl
        · simp [same]
      next absent =>
        rw [UnorderedMap.lookup_insert]
        by_cases same : parentDomain = parent.1
        · rw [same, AList.lookup_eq_none.mpr absent]; simp
        · simp [same]
    · simp only [ite_true, Option.bind_some, UnorderedMap.lookup_insert, sameChild, ite_false, false_and, and_false]
      cases maps.lookup domain <;> simp
  · simp [sameDomain]

end ParentMaps

/-- `parentToChildMap_[domain][domainId]` where it is present. -/
def ChildRows.row (rows : ChildRows) (domain : Domain) (domainId : DomainId) : Option (List DomainId) :=
  (rows.lookup domain).bind (·.lookup domainId)

def ChildRows.set (rows : ChildRows) (node : Node) (children : List DomainId) : ChildRows :=
  rows.insert node.1 (((rows.lookup node.1).getD ∅).insert node.2 children)

theorem ChildRows.row_set (rows : ChildRows) (node : Node) (children : List DomainId) (domain : Domain) (domainId : DomainId) :
    (rows.set node children).row domain domainId =
      if (domain, domainId) = node then some children else rows.row domain domainId := by
  obtain ⟨nodeDomain, nodeId⟩ := node
  simp only [set, row, UnorderedMap.lookup_insert, Prod.mk.injEq]
  by_cases same : domain = nodeDomain
  · subst same
    simp only [ite_true, Option.bind_some, UnorderedMap.lookup_insert, true_and]
    cases rows.lookup domain <;> simp
  · simp [same]

theorem ChildRows.lookup_set_isSome (rows : ChildRows) (node : Node) (children : List DomainId) (domain : Domain) :
    ((rows.set node children).lookup domain).isSome = (decide (domain = node.1) || (rows.lookup domain).isSome) := by
  simp only [set, UnorderedMap.lookup_insert]
  by_cases same : domain = node.1 <;> simp [same]

/-- Every recorded parent is a mapped node whose domain maps to the child's
domain; `addMapping` is the only writer and keeps this. -/
structure SparseMappingTree where
  shardDomain : Domain
  binDomain : Domain
  childToParentMap : ParentMaps
  parentToChildDomainMap : UnorderedMap Domain Domain
  parentToChildMap : ChildRows
  parent_mapped : ∀ domain domainId parentDomain parentId,
    (childToParentMap.parents domain domainId).lookup parentDomain = some parentId →
      parentToChildDomainMap.lookup parentDomain = some domain ∧ (parentToChildMap.row parentDomain parentId).isSome
  row_mapped : ∀ domain, (parentToChildMap.lookup domain).isSome = (parentToChildDomainMap.lookup domain).isSome

namespace SparseMappingTree

/-- The constructor `SparseMappingTree(shardDomain, binDomain)`. -/
def empty (shardDomain binDomain : Domain) : SparseMappingTree where
  shardDomain
  binDomain
  childToParentMap := ∅
  parentToChildDomainMap := ∅
  parentToChildMap := ∅
  parent_mapped := by simp [ParentMaps.parents]
  row_mapped := by simp

def emplaceParents (maps : ParentMaps) (parent : Node) (childDomain : Domain) (children : List DomainId) : ParentMaps :=
  children.foldl (fun maps child => maps.emplace childDomain child parent) maps

theorem parents_emplaceParents (maps : ParentMaps) (parent : Node) (childDomain : Domain) (children : List DomainId)
    (domain : Domain) (domainId : DomainId) (parentDomain : Domain) :
    ((emplaceParents maps parent childDomain children).parents domain domainId).lookup parentDomain =
      ((maps.parents domain domainId).lookup parentDomain).or
        (if domain = childDomain ∧ domainId ∈ children ∧ parentDomain = parent.1 then some parent.2 else none) := by
  induction children generalizing maps with
  | nil => simp [emplaceParents]
  | cons child children ih =>
    have rest := ih (maps.emplace childDomain child parent)
    rw [ParentMaps.parents_emplace] at rest
    refine rest.trans ?_
    cases (maps.parents domain domainId).lookup parentDomain with
    | some found => rfl
    | none =>
      by_cases here : domainId = child <;> by_cases later : domainId ∈ children <;>
        by_cases sameDomain : domain = childDomain <;> by_cases sameParent : parentDomain = parent.1 <;>
        simp [here, later, sameDomain, sameParent]

/-- The call logs an error and changes nothing when the parent's domain already
maps to another child domain. -/
def addMapping (tree : SparseMappingTree) (parent : Node) (childDomain : Domain) (childrenDomainIds : List DomainId) :
    SparseMappingTree :=
  if accepted : ∀ current, tree.parentToChildDomainMap.lookup parent.1 = some current → current = childDomain then
    { tree with
      parentToChildDomainMap := tree.parentToChildDomainMap.insert parent.1 childDomain
      childToParentMap := emplaceParents tree.childToParentMap parent childDomain childrenDomainIds
      parentToChildMap := tree.parentToChildMap.set parent childrenDomainIds
      parent_mapped := by
        intro domain domainId parentDomain parentId recorded
        rw [parents_emplaceParents, Option.or_eq_some_iff] at recorded
        rw [UnorderedMap.lookup_insert, ChildRows.row_set]
        rcases recorded with old | ⟨_, new⟩
        · obtain ⟨mapped, row⟩ := tree.parent_mapped domain domainId parentDomain parentId old
          refine ⟨?_, by split <;> simp [row]⟩
          split
          next same => rw [accepted domain (same ▸ mapped)]
          next => exact mapped
        · simp only [Option.ite_none_right_eq_some, Option.some.injEq] at new
          obtain ⟨⟨sameDomain, _, sameParent⟩, sameId⟩ := new
          simp [sameDomain, sameParent, ← sameId]
      row_mapped := by
        intro domain
        rw [ChildRows.lookup_set_isSome, UnorderedMap.lookup_insert, tree.row_mapped]
        by_cases same : domain = parent.1 <;> simp [same] }
  else tree

@[simp] theorem addMapping_shardDomain (tree : SparseMappingTree) (parent : Node) (childDomain : Domain)
    (children : List DomainId) : (tree.addMapping parent childDomain children).shardDomain = tree.shardDomain := by
  unfold addMapping
  split <;> rfl

@[simp] theorem addMapping_binDomain (tree : SparseMappingTree) (parent : Node) (childDomain : Domain)
    (children : List DomainId) : (tree.addMapping parent childDomain children).binDomain = tree.binDomain := by
  unfold addMapping
  split <;> rfl

/-- The two-argument `getChildren`. -/
def children (tree : SparseMappingTree) (domain : Domain) (domainId : DomainId) : List DomainId :=
  (tree.parentToChildMap.row domain domainId).getD []

def getChildDomain (tree : SparseMappingTree) (domain : Domain) : Option Domain :=
  tree.parentToChildDomainMap.lookup domain

/-- The parents recorded by `addMapping`, before movements are looked at. -/
def staticParents (tree : SparseMappingTree) (domain : Domain) (domainId : DomainId) : List Node :=
  (tree.childToParentMap.parents domain domainId).entries.map fun entry => (entry.1, entry.2)

def deref (movementMap : MovementMapPtr) : Except Fault MovementMap :=
  match movementMap with
  | some movementMap => .ok movementMap
  | none => .error .nullMovementMap

/-- The body of the loop over the movement maps. -/
def addMovedParent (tree : SparseMappingTree) (domainId : DomainId) (domainParents : List Node) (movementMap : MovementMapPtr) :
    Except Fault (List Node) := do
  let movementMap ← deref movementMap
  match movementMap.getNextBin domainId with
  | none => pure domainParents
  | some parentBin =>
    -- Check if new parent exists in tree
    let binDomainMap ← atKey tree.parentToChildMap tree.binDomain
    if parentBin ∈ binDomainMap then pure (domainParents ++ [(tree.binDomain, parentBin)])
    else pure domainParents

def getParents (tree : SparseMappingTree) (domain : Domain) (domainId : DomainId) (movementMaps : List MovementMapPtr) :
    Except Fault (List Node) :=
  if domain = tree.shardDomain then movementMaps.foldlM (tree.addMovedParent domainId) (tree.staticParents domain domainId)
  else .ok (tree.staticParents domain domainId)

/-- A node with a row of children, in a domain with a child domain. -/
def Mapped (tree : SparseMappingTree) (node : Node) : Prop :=
  (tree.getChildDomain node.1).isSome ∧ (tree.parentToChildMap.row node.1 node.2).isSome

def HasBin (tree : SparseMappingTree) : Prop := (tree.parentToChildMap.lookup tree.binDomain).isSome

instance (tree : SparseMappingTree) : Decidable tree.HasBin :=
  inferInstanceAs (Decidable ((tree.parentToChildMap.lookup tree.binDomain).isSome = true))

/-- The bins of the tree that the movement maps send a shard to. -/
def movedParents (tree : SparseMappingTree) (movementMaps : List MovementMap) (shardId : DomainId) : List Node :=
  (movementMaps.filterMap fun movementMap => movementMap.getNextBin shardId).filterMap fun parentBin =>
    if (tree.parentToChildMap.row tree.binDomain parentBin).isSome then some (tree.binDomain, parentBin) else none

/-- What `getParents` returns where no pointer is null. -/
def parentNodes (tree : SparseMappingTree) (domain : Domain) (domainId : DomainId) (movementMaps : List MovementMap) :
    List Node :=
  tree.staticParents domain domainId ++ if domain = tree.shardDomain then tree.movedParents movementMaps domainId else []

private theorem addMovedParent_eq (tree : SparseMappingTree) (domainId : DomainId) (domainParents : List Node)
    (movementMap : MovementMap) (hasBin : tree.HasBin) :
    tree.addMovedParent domainId domainParents (some movementMap) =
      .ok (domainParents ++ tree.movedParents [movementMap] domainId) := by
  obtain ⟨binDomainMap, found⟩ := Option.isSome_iff_exists.mp hasBin
  cases moved : movementMap.getNextBin domainId with
  | none => simp [addMovedParent, deref, Checked.ok_bind, movedParents, moved, pure, Except.pure]
  | some parentBin =>
    have row : (tree.parentToChildMap.row tree.binDomain parentBin).isSome ↔ parentBin ∈ binDomainMap := by
      rw [ChildRows.row, found, Option.bind_some, AList.lookup_isSome]
    by_cases present : parentBin ∈ binDomainMap <;>
      simp [addMovedParent, deref, Checked.ok_bind, movedParents, moved, pure, Except.pure, atKey, found, row, present]

/-- Without null pointers and with a bin in the tree, `getParents` adds the bins
that the shard moves to. -/
theorem getParents_eq (tree : SparseMappingTree) (domain : Domain) (domainId : DomainId) (movementMaps : List MovementMap)
    (hasBin : tree.HasBin) :
    tree.getParents domain domainId (movementMaps.map some) = .ok (tree.parentNodes domain domainId movementMaps) := by
  unfold getParents parentNodes
  split
  next =>
    generalize tree.staticParents domain domainId = domainParents
    induction movementMaps generalizing domainParents with
    | nil => simp [movedParents, pure, Except.pure]
    | cons movementMap movementMaps ih =>
      have split : tree.movedParents (movementMap :: movementMaps) domainId =
          tree.movedParents [movementMap] domainId ++ tree.movedParents movementMaps domainId := by
        rw [movedParents, ← List.singleton_append, List.filterMap_append, List.filterMap_append]
        rfl
      rw [List.map_cons, List.foldlM_cons, addMovedParent_eq tree domainId domainParents movementMap hasBin,
        Checked.ok_bind, ih, split, List.append_assoc]
  next => simp

theorem mem_staticParents (tree : SparseMappingTree) (domain : Domain) (domainId : DomainId) (node : Node) :
    node ∈ tree.staticParents domain domainId ↔ (tree.childToParentMap.parents domain domainId).lookup node.1 = some node.2 := by
  rw [← UnorderedMap.mem_entries_iff]
  unfold staticParents
  constructor
  · intro member
    obtain ⟨entry, recorded, rfl⟩ := List.mem_map.mp member
    exact recorded
  · intro recorded
    exact List.mem_map.mpr ⟨⟨node.1, node.2⟩, recorded, rfl⟩

theorem nodup_staticParents (tree : SparseMappingTree) (domain : Domain) (domainId : DomainId) :
    (tree.staticParents domain domainId).Nodup := by
  refine List.Nodup.map ?_ (tree.childToParentMap.parents domain domainId).nodupKeys.nodup
  rintro ⟨first, firstId⟩ ⟨second, secondId⟩ same
  cases same
  rfl

theorem mapped_of_row (tree : SparseMappingTree) {node : Node} (row : (tree.parentToChildMap.row node.1 node.2).isSome) :
    tree.Mapped node := by
  refine ⟨?_, row⟩
  rw [getChildDomain, ← tree.row_mapped]
  cases found : tree.parentToChildMap.lookup node.1 with
  | none => simp [ChildRows.row, found] at row
  | some rows => rfl

theorem children_of_unmapped (tree : SparseMappingTree) {domain : Domain} (unmapped : tree.getChildDomain domain = none)
    (domainId : DomainId) : tree.children domain domainId = [] := by
  have absent : tree.parentToChildMap.lookup domain = none := by
    rw [← Option.isNone_iff_eq_none, ← Option.not_isSome, tree.row_mapped]
    simpa [getChildDomain] using unmapped
  simp [children, ChildRows.row, absent]

theorem mapped_of_mem_staticParents (tree : SparseMappingTree) {domain : Domain} {domainId : DomainId} {node : Node}
    (member : node ∈ tree.staticParents domain domainId) : tree.getChildDomain node.1 = some domain ∧ tree.Mapped node := by
  obtain ⟨mapped, row⟩ := tree.parent_mapped _ _ _ _ ((tree.mem_staticParents domain domainId node).mp member)
  exact ⟨mapped, tree.mapped_of_row row⟩

private theorem mapped_of_mem_movedParents (tree : SparseMappingTree) {movementMaps : List MovementMap} {shardId : DomainId}
    {node : Node} (member : node ∈ tree.movedParents movementMaps shardId) : tree.Mapped node := by
  obtain ⟨parentBin, _, chosen⟩ := List.mem_filterMap.mp member
  split at chosen
  next row =>
    cases chosen
    exact tree.mapped_of_row row
  next => cases chosen

theorem mapped_of_mem_parentNodes (tree : SparseMappingTree) {domain : Domain} {domainId : DomainId}
    {movementMaps : List MovementMap} {node : Node} (member : node ∈ tree.parentNodes domain domainId movementMaps) :
    tree.Mapped node := by
  rcases List.mem_append.mp member with recorded | moved
  · exact (tree.mapped_of_mem_staticParents recorded).2
  · split at moved
    · exact tree.mapped_of_mem_movedParents moved
    · cases moved

/-- The three-argument `getChildren`: the child domain and the children, with
the shards the movement maps bring to a bin listed first. -/
def getChildren (tree : SparseMappingTree) (domain : Domain) (domainId : DomainId) (movementMaps : List MovementMapPtr) :
    Except Fault (Domain × List DomainId) :=
  match tree.getChildDomain domain with
  | none => .ok (0, [])
  | some childDomain => do
    let incoming ←
      if domain = tree.binDomain then
        movementMaps.foldlM (fun children movementMap => do
          let movementMap ← deref movementMap
          pure (children ++ (movementMap.getIncomingShards domainId).keys)) []
      else pure []
    let mappedChildren ← atKey (← atKey tree.parentToChildMap domain) domainId
    pure (childDomain, incoming ++ mappedChildren)

/-- What the three-argument `getChildren` lists where no pointer is null. -/
def childNodes (tree : SparseMappingTree) (node : Node) (movementMaps : List MovementMap) : List DomainId :=
  (if node.1 = tree.binDomain then movementMaps.flatMap fun movementMap => (movementMap.getIncomingShards node.2).keys
    else []) ++ tree.children node.1 node.2

theorem getChildren_eq (tree : SparseMappingTree) (node : Node) (movementMaps : List MovementMap) {childDomain : Domain}
    (mapped : tree.getChildDomain node.1 = some childDomain) (row : (tree.parentToChildMap.row node.1 node.2).isSome) :
    tree.getChildren node.1 node.2 (movementMaps.map some) = .ok (childDomain, tree.childNodes node movementMaps) := by
  have incoming : ∀ children : List DomainId, (movementMaps.map some).foldlM (fun children movementMap => do
      let movementMap ← deref movementMap
      pure (children ++ (movementMap.getIncomingShards node.2).keys)) children =
        .ok (children ++ movementMaps.flatMap fun movementMap => (movementMap.getIncomingShards node.2).keys) := by
    induction movementMaps with
    | nil => intro children; simp [pure, Except.pure]
    | cons movementMap movementMaps ih =>
      intro children
      rw [List.map_cons, List.foldlM_cons, deref, Checked.ok_bind, pure_bind, ih]
      simp
  obtain ⟨children, found⟩ := Option.isSome_iff_exists.mp row
  obtain ⟨rows, rowsFound, inRows⟩ := Option.bind_eq_some_iff.mp found
  have rowsAt : atKey tree.parentToChildMap node.1 = .ok rows := by simp [atKey, rowsFound]
  have childrenAt : atKey rows node.2 = .ok children := by simp [atKey, inRows]
  have listed : tree.children node.1 node.2 = children := by rw [SparseMappingTree.children, found, Option.getD_some]
  rw [getChildren, mapped, childNodes, listed]
  simp only
  by_cases bin : node.1 = tree.binDomain
  · rw [if_pos bin, if_pos bin, incoming, Checked.ok_bind, rowsAt, Checked.ok_bind, childrenAt]
    rfl
  · rw [if_neg bin, if_neg bin, pure_bind, rowsAt, Checked.ok_bind, childrenAt]
    rfl

def getAllDomainIds (tree : SparseMappingTree) (domain : Domain) : List DomainId :=
  if (tree.parentToChildDomainMap.lookup domain).isSome then ((tree.parentToChildMap.lookup domain).getD ∅).keys
  else ((tree.childToParentMap.lookup domain).getD ∅).keys

def doesNodeExist (tree : SparseMappingTree) (domain : Domain) (domainId : DomainId) : Bool :=
  domainId ∈ (tree.childToParentMap.lookup domain).getD ∅ || domainId ∈ (tree.parentToChildMap.lookup domain).getD ∅

/-- State of the worklist loop of `createPartialTree`. -/
structure Worklist where
  nodesToAdd : List Node
  partialTree : SparseMappingTree

/-- One turn of the loop; an empty worklist is left as it is. -/
def worklistStep (tree : SparseMappingTree) (worklist : Worklist) : Worklist :=
  match worklist.nodesToAdd with
  | [] => worklist
  | parent :: nodesToAdd =>
    match tree.getChildDomain parent.1 with
    | none => { worklist with nodesToAdd }
    | some childDomain =>
      let children := tree.children parent.1 parent.2
      { nodesToAdd := nodesToAdd ++ children.map fun child => (childDomain, child)
        partialTree := worklist.partialTree.addMapping parent childDomain children }

def worklistRun (tree : SparseMappingTree) : Nat → Worklist → Worklist
  | 0, worklist => worklist
  | turns + 1, worklist => worklistRun tree turns (worklistStep tree worklist)

/-- Turns that a node and everything below it cost the loop, down to a depth. -/
def work (tree : SparseMappingTree) : Nat → Node → Nat
  | 0, _ => 1
  | depth + 1, node =>
    match tree.getChildDomain node.1 with
    | none => 1
    | some childDomain => 1 + ((tree.children node.1 node.2).map fun child => work tree depth (childDomain, child)).sum

/-- Domains on a path downwards are distinct when no domain is above itself, so
this depth reaches the bottom. -/
def maxDepth (tree : SparseMappingTree) : Nat := tree.parentToChildDomainMap.keys.length + 1

/-- The loop runs until the worklist is empty; for an acyclic hierarchy it is
empty after the number of turns given here. -/
def createPartialTree (tree : SparseMappingTree) (domain : Domain) (treeParents : List DomainId) : SparseMappingTree :=
  let nodesToAdd := treeParents.map fun parentId => (domain, parentId)
  (worklistRun tree (nodesToAdd.map (tree.work tree.maxDepth)).sum
    ⟨nodesToAdd, empty tree.shardDomain tree.binDomain⟩).partialTree

private theorem worklistRun_domains (tree : SparseMappingTree) (turns : Nat) (worklist : Worklist) :
    (worklistRun tree turns worklist).partialTree.shardDomain = worklist.partialTree.shardDomain ∧
    (worklistRun tree turns worklist).partialTree.binDomain = worklist.partialTree.binDomain := by
  induction turns generalizing worklist with
  | zero => exact ⟨rfl, rfl⟩
  | succ turns ih =>
    obtain ⟨shards, bins⟩ := ih (worklistStep tree worklist)
    have step : (worklistStep tree worklist).partialTree.shardDomain = worklist.partialTree.shardDomain ∧
        (worklistStep tree worklist).partialTree.binDomain = worklist.partialTree.binDomain := by
      unfold worklistStep
      split
      · exact ⟨rfl, rfl⟩
      · split <;> simp
    exact ⟨shards.trans step.1, bins.trans step.2⟩

@[simp] theorem createPartialTree_shardDomain (tree : SparseMappingTree) (domain : Domain) (treeParents : List DomainId) :
    (tree.createPartialTree domain treeParents).shardDomain = tree.shardDomain := (worklistRun_domains tree _ _).1

@[simp] theorem createPartialTree_binDomain (tree : SparseMappingTree) (domain : Domain) (treeParents : List DomainId) :
    (tree.createPartialTree domain treeParents).binDomain = tree.binDomain := (worklistRun_domains tree _ _).2

end SparseMappingTree
end ShardManager

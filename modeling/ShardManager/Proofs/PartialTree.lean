import ShardManager.Proofs.ReachablePart

/-! `createPartialTree` on a hierarchy: the part that it builds is a hierarchy, with the
rows of everything below the given nodes. -/

namespace ShardManager
namespace SparseMappingTree
variable {tree : SparseMappingTree}

theorem Descends.acyclic (descends : Descends tree) : Acyclic tree.DomainEdge :=
  acyclic_of_lt id fun domain childDomain edge => by
    rw [descends domain childDomain edge]
    exact Nat.lt_succ_self childDomain

theorem Below.above (descends : Descends tree) {domain : Domain} {treeParents : List DomainId} {node : Node}
    (below : Below tree domain treeParents node) :
    node.1 = domain ∧ node.2 ∈ treeParents ∨
      node.1 < domain ∧ ∃ parent, Below tree domain treeParents parent ∧ parent.1 = node.1 + 1 ∧
        (tree.getChildDomain parent.1).isSome ∧ node.2 ∈ tree.children parent.1 parent.2 := by
  induction below with
  | given member => exact .inl ⟨rfl, member⟩
  | @child parent childDomain child above mapped listed ih =>
    have oneDown := descends _ _ mapped
    refine .inr ⟨?_, parent, above, oneDown, by rw [mapped]; rfl, listed⟩
    have inside : parent.1 ≤ domain := by
      rcases ih with ⟨same, _⟩ | ⟨less, _⟩
      · exact le_of_eq same
      · exact le_of_lt less
    rw [oneDown] at inside
    exact Nat.lt_of_succ_le inside

/-- A part of a hierarchy: the rows of the nodes below some nodes of one domain. -/
structure Part (tree part : SparseMappingTree) (domain : Domain) (treeParents : List DomainId) : Prop where
  hierarchy : Hierarchy part
  children : ∀ node, part.Mapped node → part.children node.1 node.2 = tree.children node.1 node.2
  given : ∀ domainId, part.Mapped (domain, domainId) ↔ domainId ∈ treeParents ∧ (tree.getChildDomain domain).isSome
  closed : ∀ node, part.Mapped node → ∀ childDomain, node.1 = childDomain + 1 → ∀ child ∈ tree.children node.1 node.2,
    (tree.getChildDomain childDomain).isSome → part.Mapped (childDomain, child)
  mapped : ∀ node, part.Mapped node → (tree.getChildDomain node.1).isSome ∧ node.1 ≤ domain
  inhabited : ∀ level, (part.getChildDomain level).isSome → ∃ domainId, part.Mapped (level, domainId)
  below : ∀ node, part.Mapped node → node.1 < domain →
    ∃ parent, part.Mapped parent ∧ parent.1 = node.1 + 1 ∧ node.2 ∈ tree.children parent.1 parent.2

theorem Hierarchy.unique (hierarchy : Hierarchy tree) {first second : Node} (sameDomain : first.1 = second.1)
    {childDomain : Domain} (above : first.1 = childDomain + 1) {child : DomainId}
    (inFirst : child ∈ tree.children first.1 first.2) (inSecond : child ∈ tree.children second.1 second.2) : first = second := by
  have left := (tree.mem_staticParents childDomain child first).mp ((hierarchy.parents _ _ _).mpr ⟨above, inFirst⟩)
  have right := (tree.mem_staticParents childDomain child second).mp
    ((hierarchy.parents _ _ _).mpr ⟨sameDomain ▸ above, inSecond⟩)
  rw [sameDomain, right, Option.some.injEq] at left
  exact Prod.ext sameDomain left.symm

theorem Hierarchy.single (hierarchy : Hierarchy tree) (domain : Domain) (child first second : DomainId)
    (inFirst : child ∈ tree.children domain first) (inSecond : child ∈ tree.children domain second) : first = second := by
  cases found : tree.getChildDomain domain with
  | none =>
    rw [tree.children_of_unmapped found] at inFirst
    cases inFirst
  | some childDomain =>
    have above := hierarchy.below domain childDomain found
    have same : (domain, first) = (domain, second) := hierarchy.unique rfl above inFirst inSecond
    exact (Prod.ext_iff.mp same).2

/-- A copy of some rows is a hierarchy, if these list nothing twice. -/
theorem Copies.hierarchy {part : SparseMappingTree} {nodes : List Node} (copies : Copies tree part nodes)
    (descends : Descends tree) (shards : part.shardDomain = 0) (bins : part.binDomain = 1)
    (distinct : ∀ node ∈ nodes, (tree.children node.1 node.2).Nodup) : Hierarchy part where
  shards := shards
  bins := bins
  below domain childDomain found := descends domain childDomain ((copies.childDomain domain childDomain).mp found).1
  parents domain child parent := by
    rw [copies.parents]
    by_cases inside : parent ∈ nodes
    · rw [copies.children inside]
      constructor
      · rintro ⟨_, mapped, listed⟩
        exact ⟨descends _ _ mapped, listed⟩
      · rintro ⟨above, listed⟩
        refine ⟨inside, ?_, listed⟩
        cases found : tree.getChildDomain parent.1 with
        | none =>
          rw [tree.children_of_unmapped found] at listed
          cases listed
        | some childDomain => rw [Nat.succ.inj ((descends _ _ found).symm.trans above)]
    · rw [children_unmapped parent fun isMapped => inside ((copies.mapped_iff parent).mp isMapped)]
      simp [inside]
  nodup domain domainId := by
    by_cases inside : (domain, domainId) ∈ nodes
    · have same : part.children domain domainId = tree.children domain domainId := copies.children inside
      rw [same]
      exact distinct (domain, domainId) inside
    · have none : part.children domain domainId = [] :=
        children_unmapped (domain, domainId) fun isMapped => inside ((copies.mapped_iff _).mp isMapped)
      rw [none]
      exact List.nodup_nil

theorem createPartialTree_part (hierarchy : Hierarchy tree) (domain : Domain) (treeParents : List DomainId) :
    Part tree (tree.createPartialTree domain treeParents) domain treeParents := by
  obtain ⟨_, nodes, _, copied, mem_nodes⟩ := createPartialTree_copies hierarchy.below.acyclic domain treeParents
  have copies : Copies tree (tree.createPartialTree domain treeParents) nodes :=
    copied ▸ copies_copyRows (fun node member => ((mem_nodes node).mp member).2)
      fun level child first second _ _ => hierarchy.single level child first second
  have mapped_iff : ∀ node, (tree.createPartialTree domain treeParents).Mapped node ↔
      Below tree domain treeParents node ∧ (tree.getChildDomain node.1).isSome :=
    fun node => (copies.mapped_iff node).trans (mem_nodes node)
  refine ⟨copies.hierarchy hierarchy.below (by simp [hierarchy.shards]) (by simp [hierarchy.bins])
    fun node _ => hierarchy.nodup node.1 node.2, ?_, ?_, ?_, ?_, ?_, ?_⟩
  · exact fun node isMapped => copies.children ((copies.mapped_iff node).mp isMapped)
  · intro domainId
    rw [mapped_iff]
    refine and_congr_left fun _ => ⟨fun below => ?_, .given⟩
    rcases below.above hierarchy.below with ⟨_, member⟩ | ⟨less, _⟩
    · exact member
    · exact absurd less (lt_irrefl _)
  · intro node isMapped childDomain above child listed isSome
    obtain ⟨below, mapped⟩ := (mapped_iff node).mp isMapped
    obtain ⟨other, found⟩ := Option.isSome_iff_exists.mp mapped
    obtain rfl : other = childDomain := Nat.succ.inj ((hierarchy.below _ _ found).symm.trans above)
    exact (mapped_iff (other, child)).mpr ⟨.child below found listed, isSome⟩
  · intro node isMapped
    obtain ⟨below, mapped⟩ := (mapped_iff node).mp isMapped
    refine ⟨mapped, ?_⟩
    rcases below.above hierarchy.below with ⟨same, _⟩ | ⟨less, _⟩
    · exact le_of_eq same
    · exact le_of_lt less
  · intro level isSome
    obtain ⟨childDomain, found⟩ := Option.isSome_iff_exists.mp isSome
    obtain ⟨node, member, rfl⟩ := ((copies.childDomain level childDomain).mp found).2
    exact ⟨node.2, (copies.mapped_iff node).mpr member⟩
  · intro node isMapped less
    rcases ((mapped_iff node).mp isMapped).1.above hierarchy.below with ⟨same, _⟩ | ⟨_, parent, below, above, mapped, listed⟩
    · exact absurd same (ne_of_lt less)
    · exact ⟨parent, (mapped_iff parent).mpr ⟨below, mapped⟩, above, listed⟩

theorem Part.hasBin {part : SparseMappingTree} {domain : Domain} {treeParents : List DomainId}
    (isPart : Part tree part domain treeParents) (hasBin : part.HasBin) : (tree.getChildDomain 1).isSome := by
  rw [HasBin, part.row_mapped, isPart.hierarchy.bins] at hasBin
  obtain ⟨binId, mapped⟩ := isPart.inhabited 1 hasBin
  exact (isPart.mapped _ mapped).1

theorem createPartialTree_hasBin (hierarchy : Hierarchy tree) {binId : DomainId} {treeParents : List DomainId}
    (given : binId ∈ treeParents) (row : (tree.parentToChildMap.row 1 binId).isSome) :
    (tree.createPartialTree 1 treeParents).HasBin := by
  have isPart := createPartialTree_part hierarchy 1 treeParents
  have inTree : tree.Mapped (1, binId) := tree.mapped_of_row row
  have inPart := (isPart.given binId).mpr ⟨given, inTree.1⟩
  rw [HasBin, row_mapped, isPart.hierarchy.bins]
  exact inPart.1

end SparseMappingTree
end ShardManager

import ShardManager.Lib.Worklist
import ShardManager.Proofs.Mappings

/-! `createPartialTree` on every tree whose domains have no cycle: its worklist runs
empty, and the tree it builds is the part that can be reached from the given nodes. -/

namespace ShardManager
namespace SparseMappingTree
variable {tree part : SparseMappingTree}

def expand (tree : SparseMappingTree) (node : Node) : Option (List Node) :=
  (tree.getChildDomain node.1).map fun childDomain => (tree.children node.1 node.2).map fun child => (childDomain, child)

def DomainEdge (tree : SparseMappingTree) (domain childDomain : Domain) : Prop := tree.getChildDomain domain = some childDomain

/-- The rows of some nodes of the tree, added to an empty one. -/
def copyRows (tree : SparseMappingTree) (nodes : List Node) : SparseMappingTree :=
  nodes.foldl (fun part node => part.addMapping node ((tree.getChildDomain node.1).getD 0) (tree.children node.1 node.2))
    (empty tree.shardDomain tree.binDomain)

/-- A node obtained from the given ones by repeated `getChildren`. -/
inductive Below (tree : SparseMappingTree) (domain : Domain) (treeParents : List DomainId) : Node → Prop
  | given {domainId : DomainId} (member : domainId ∈ treeParents) : Below tree domain treeParents (domain, domainId)
  | child {node : Node} {childDomain : Domain} {child : DomainId} (above : Below tree domain treeParents node)
      (mapped : tree.getChildDomain node.1 = some childDomain) (listed : child ∈ tree.children node.1 node.2) :
      Below tree domain treeParents (childDomain, child)

private theorem expand_eq_some_iff {node : Node} {successors : List Node} : tree.expand node = some successors ↔
    ∃ childDomain, tree.getChildDomain node.1 = some childDomain ∧
      successors = (tree.children node.1 node.2).map fun child => (childDomain, child) := by
  simp only [expand, Option.map_eq_some_iff, eq_comm (b := successors)]

private theorem expand_isSome (node : Node) : (tree.expand node).isSome = (tree.getChildDomain node.1).isSome := Option.isSome_map

private theorem below_iff_reaches (domain : Domain) (treeParents : List DomainId) (node : Node) :
    Below tree domain treeParents node ↔
      Traversal.Reaches tree.expand (treeParents.map fun parentId => (domain, parentId)) node := by
  constructor
  · intro below
    induction below with
    | given member => exact .start (List.mem_map.mpr ⟨_, member, rfl⟩)
    | child _ mapped listed ih =>
      exact .next ih (expand_eq_some_iff.mpr ⟨_, mapped, rfl⟩) (List.mem_map.mpr ⟨_, listed, rfl⟩)
  · intro reached
    induction reached with
    | start given =>
      obtain ⟨parentId, member, rfl⟩ := List.mem_map.mp given
      exact .given member
    | next _ follows inside ih =>
      obtain ⟨childDomain, mapped, rfl⟩ := expand_eq_some_iff.mp follows
      obtain ⟨child, listed, rfl⟩ := List.mem_map.mp inside
      exact .child ih mapped listed

section Loop

private theorem work_eq_turns (depth : Nat) (node : Node) : tree.work depth node = Traversal.turns tree.expand depth node := by
  induction depth generalizing node with
  | zero => rfl
  | succ depth ih =>
    rw [work, Traversal.turns, expand]
    cases tree.getChildDomain node.1 with
    | none => rfl
    | some childDomain =>
      simp only [Option.map_some, List.map_map, Function.comp_def]
      rw [List.map_congr_left fun child _ => ih (childDomain, child)]

private theorem worklistStep_eq (traversal : Traversal Node) :
    tree.worklistStep ⟨traversal.waiting, copyRows tree traversal.expanded⟩ =
      ⟨(traversal.step tree.expand).waiting, copyRows tree (traversal.step tree.expand).expanded⟩ := by
  obtain ⟨_ | ⟨node, waiting⟩, expanded⟩ := traversal
  · rfl
  · cases found : tree.getChildDomain node.1 with
    | none => simp only [worklistStep, Traversal.step, expand, found, Option.map_none]
    | some childDomain =>
      simp only [worklistStep, Traversal.step, expand, found, Option.map_some, copyRows, List.foldl_append, List.foldl_cons,
        List.foldl_nil, Option.getD_some]

private theorem worklistRun_eq (count : Nat) (traversal : Traversal Node) :
    tree.worklistRun count ⟨traversal.waiting, copyRows tree traversal.expanded⟩ =
      ⟨(traversal.run tree.expand count).waiting, copyRows tree (traversal.run tree.expand count).expanded⟩ := by
  induction count generalizing traversal with
  | zero => rfl
  | succ count ih =>
    rw [worklistRun, worklistStep_eq]
    exact ih (traversal.step tree.expand)

/-- The nodes whose rows were copied once the worklist is empty, which it is in the end. -/
theorem createPartialTree_copies (acyclic : Acyclic tree.DomainEdge) (domain : Domain) (treeParents : List DomainId) :
    ∃ turns nodes, tree.worklistRun turns ⟨treeParents.map fun parentId => (domain, parentId), empty tree.shardDomain tree.binDomain⟩ =
        ⟨[], copyRows tree nodes⟩ ∧
      tree.createPartialTree domain treeParents = copyRows tree nodes ∧
      ∀ node, node ∈ nodes ↔ Below tree domain treeParents node ∧ (tree.getChildDomain node.1).isSome := by
  let start := treeParents.map fun parentId => (domain, parentId)
  let turns := (start.map (tree.work tree.maxDepth)).sum
  let last := Traversal.run tree.expand turns ⟨start, []⟩
  have descends : ∀ node successors, tree.expand node = some successors → ∀ successor ∈ successors,
      rank tree.DomainEdge tree.parentToChildDomainMap.keys successor.1 <
        rank tree.DomainEdge tree.parentToChildDomainMap.keys node.1 := by
    intro node successors follows successor listed
    obtain ⟨childDomain, mapped, rfl⟩ := expand_eq_some_iff.mp follows
    obtain ⟨child, _, rfl⟩ := List.mem_map.mp listed
    exact rank_lt acyclic mapped ((UnorderedMap.mem_keys_iff _ _).mpr ⟨childDomain, mapped⟩)
  have deep : ∀ node : Node, rank tree.DomainEdge tree.parentToChildDomainMap.keys node.1 < tree.maxDepth :=
    fun node => Nat.lt_succ_of_le (rank_le_length _ _)
  have done : last.waiting = [] := by
    refine Traversal.run_empty descends deep turns ⟨start, []⟩ (le_of_eq ?_)
    exact congrArg List.sum (List.map_congr_left fun node _ => (work_eq_turns tree.maxDepth node).symm)
  have ran : tree.worklistRun turns ⟨start, empty tree.shardDomain tree.binDomain⟩ = ⟨last.waiting, copyRows tree last.expanded⟩ :=
    worklistRun_eq turns ⟨start, []⟩
  refine ⟨turns, last.expanded, done ▸ ran, congrArg Worklist.partialTree ran, fun node => ?_⟩
  rw [((Traversal.covers_start start).run turns).mem_expanded_iff done, below_iff_reaches, expand_isSome]

end Loop

/-- A copy of the rows of some nodes. -/
structure Copies (tree part : SparseMappingTree) (nodes : List Node) : Prop where
  childDomain : ∀ domain childDomain, part.getChildDomain domain = some childDomain ↔
    tree.getChildDomain domain = some childDomain ∧ ∃ node ∈ nodes, node.1 = domain
  row : ∀ node children, part.parentToChildMap.row node.1 node.2 = some children ↔
    node ∈ nodes ∧ children = tree.children node.1 node.2
  parents : ∀ childDomain child node, node ∈ part.staticParents childDomain child ↔
    node ∈ nodes ∧ tree.getChildDomain node.1 = some childDomain ∧ child ∈ tree.children node.1 node.2

theorem Copies.addMapping {nodes : List Node} (copies : Copies tree part nodes) {node : Node} {childDomain : Domain}
    (mapped : tree.getChildDomain node.1 = some childDomain)
    (single : ∀ child ∈ tree.children node.1 node.2, ∀ other, (node.1, other) ∈ nodes → child ∈ tree.children node.1 other →
      other = node.2) :
    Copies tree (part.addMapping node childDomain (tree.children node.1 node.2)) (nodes ++ [node]) := by
  have accepted : part.Accepts ⟨node, childDomain, tree.children node.1 node.2⟩ := by
    intro current found
    have known := ((copies.childDomain _ _).mp found).1
    rw [mapped, Option.some.injEq] at known
    exact known.symm
  refine ⟨fun domain other => ?_, fun parent children => ?_, fun domain child parent => ?_⟩
  · rw [getChildDomain_addMapping part _ _ _ accepted]
    split
    next same =>
      subst same
      rw [mapped]
      simp
    next different =>
      rw [copies.childDomain]
      simp [Ne.symm different]
  · rw [row_addMapping part _ _ _ accepted]
    split
    next same =>
      obtain rfl : parent = node := same
      simp [eq_comm]
    next different =>
      rw [copies.row]
      simp [show parent ≠ node from different]
  · refine (mem_staticParents_next accepted domain child parent).trans ?_
    rw [copies.parents]
    simp only [List.mem_append, List.mem_singleton]
    constructor
    · rintro (⟨inside, facts⟩ | ⟨_, rfl, listed, rfl⟩)
      · exact ⟨.inl inside, facts⟩
      · exact ⟨.inr rfl, mapped, listed⟩
    · rintro ⟨inside | rfl, below, listed⟩
      · exact .inl ⟨inside, below, listed⟩
      · -- a parent recorded earlier for the child is the node itself
        by_cases known : ∃ other, (parent.1, other) ∈ part.staticParents domain child
        · obtain ⟨other, recorded⟩ := known
          obtain ⟨inside, _, inOther⟩ := (copies.parents domain child _).mp recorded
          obtain rfl : other = parent.2 := single child listed other inside inOther
          exact .inl ⟨inside, below, listed⟩
        · rw [mapped, Option.some.injEq] at below
          exact .inr ⟨not_exists.mp known, below.symm, listed, rfl⟩

theorem copies_copyRows {nodes : List Node} (mapped : ∀ node ∈ nodes, (tree.getChildDomain node.1).isSome)
    (single : ∀ domain child first second, (domain, first) ∈ nodes → (domain, second) ∈ nodes →
      child ∈ tree.children domain first → child ∈ tree.children domain second → first = second) :
    Copies tree (copyRows tree nodes) nodes := by
  refine Checked.foldl_invariant (fun nodes part => Copies tree part nodes) ?_ ?_
  · intro handled node rest split part copies
    obtain ⟨childDomain, found⟩ := Option.isSome_iff_exists.mp (mapped node (by simp [split]))
    rw [found, Option.getD_some]
    refine copies.addMapping found fun child listed other inside inOther => ?_
    exact single node.1 child other node.2 (by simp [split, inside]) (by simp [split]) inOther listed
  · exact ⟨by simp [empty, getChildDomain], by simp [empty, ChildRows.row], by simp [mem_staticParents, empty, ParentMaps.parents]⟩

theorem Copies.children {nodes : List Node} (copies : Copies tree part nodes) {node : Node} (member : node ∈ nodes) :
    part.children node.1 node.2 = tree.children node.1 node.2 := by
  rw [SparseMappingTree.children, (copies.row node _).mpr ⟨member, rfl⟩, Option.getD_some]

theorem Copies.mapped_iff {nodes : List Node} (copies : Copies tree part nodes) (node : Node) : part.Mapped node ↔ node ∈ nodes := by
  constructor
  · rintro ⟨_, row⟩
    obtain ⟨children, found⟩ := Option.isSome_iff_exists.mp row
    exact ((copies.row node children).mp found).1
  · intro member
    exact part.mapped_of_row (Option.isSome_iff_exists.mpr ⟨_, (copies.row node _).mpr ⟨member, rfl⟩⟩)

theorem children_unmapped (node : Node) (notMapped : ¬ part.Mapped node) : part.children node.1 node.2 = [] := by
  cases row : part.parentToChildMap.row node.1 node.2 with
  | none => rw [SparseMappingTree.children, row, Option.getD_none]
  | some children => exact absurd (part.mapped_of_row (by rw [row]; rfl)) notMapped

section Chosen
variable {nodes : List Node} {chosen : Node → Prop}

private theorem Copies.same_rows (copies : Copies tree part nodes)
    (mem_nodes : ∀ node, node ∈ nodes ↔ chosen node ∧ (tree.getChildDomain node.1).isSome) {node : Node} (isChosen : chosen node) :
    part.children node.1 node.2 = tree.children node.1 node.2 ∧ part.getChildDomain node.1 = tree.getChildDomain node.1 := by
  constructor
  · cases mapped : tree.getChildDomain node.1 with
    | none =>
      rw [tree.children_of_unmapped mapped]
      refine children_unmapped node fun isMapped => ?_
      have isSome := ((mem_nodes node).mp ((copies.mapped_iff node).mp isMapped)).2
      rw [mapped] at isSome
      cases isSome
    | some childDomain => exact copies.children ((mem_nodes node).mpr ⟨isChosen, by rw [mapped]; rfl⟩)
  · refine Option.ext fun childDomain => ?_
    rw [copies.childDomain]
    refine and_iff_left_of_imp fun mapped => ⟨node, (mem_nodes node).mpr ⟨isChosen, ?_⟩, rfl⟩
    rw [mapped]
    rfl

private theorem Copies.mem_parents_iff (copies : Copies tree part nodes) (faithful : Faithful tree)
    (mem_nodes : ∀ node, node ∈ nodes ↔ chosen node ∧ (tree.getChildDomain node.1).isSome)
    (single : ∀ domain child first second, child ∈ tree.children domain first → child ∈ tree.children domain second →
      first = second) (childDomain : Domain) (child : DomainId) (node : Node) :
    node ∈ part.staticParents childDomain child ↔ node ∈ tree.staticParents childDomain child ∧ chosen node := by
  rw [copies.parents, mem_nodes]
  constructor
  · rintro ⟨⟨isChosen, _⟩, mapped, listed⟩
    exact ⟨(faithful.mem_staticParents_iff mapped (single node.1 child) node.2).mpr listed, isChosen⟩
  · rintro ⟨recorded, isChosen⟩
    have mapped := (tree.mapped_of_mem_staticParents recorded).1
    exact ⟨⟨isChosen, by rw [mapped]; rfl⟩, mapped, faithful.sound _ _ _ recorded⟩

end Chosen

open Classical in
/-- On every tree whose domains have no cycle, with each parent mapped once and each child
under one parent of a domain, the worklist runs empty and the result is the part of the
tree below the given nodes. -/
theorem createPartialTree_exact (shardDomain binDomain : Domain) (mappings : List Mapping) (tree : SparseMappingTree)
    (built : tree = machine.after (empty shardDomain binDomain) mappings)
    (once : machine.EachStep MapsNew (empty shardDomain binDomain) mappings)
    (acyclic : Acyclic tree.DomainEdge)
    (single : ∀ domain child first second, child ∈ tree.children domain first → child ∈ tree.children domain second →
      first = second)
    (domain : Domain) (treeParents : List DomainId) :
    (∃ turns, tree.worklistRun turns ⟨treeParents.map fun parentId => (domain, parentId), empty shardDomain binDomain⟩ =
      ⟨[], tree.createPartialTree domain treeParents⟩) ∧
    (∀ node, Below tree domain treeParents node →
      (tree.createPartialTree domain treeParents).children node.1 node.2 = tree.children node.1 node.2 ∧
      (tree.createPartialTree domain treeParents).getChildDomain node.1 = tree.getChildDomain node.1) ∧
    (∀ node, ¬ Below tree domain treeParents node →
      (tree.createPartialTree domain treeParents).children node.1 node.2 = [] ∧
      ∀ childDomain child parents, (tree.createPartialTree domain treeParents).getParents childDomain child [] = .ok parents →
        node ∉ parents) ∧
    ∀ childDomain child, ∃ partParents parents,
      (tree.createPartialTree domain treeParents).getParents childDomain child [] = .ok partParents ∧
      tree.getParents childDomain child [] = .ok parents ∧
      partParents.Perm (parents.filter fun node => Below tree domain treeParents node) := by
  obtain ⟨shards, bins⟩ := after_domains mappings (empty shardDomain binDomain)
  have faithful : Faithful tree := built ▸ faithful_after (faithful_empty shardDomain binDomain) once
  rw [← built] at shards bins
  obtain rfl : tree.shardDomain = shardDomain := shards
  obtain rfl : tree.binDomain = binDomain := bins
  obtain ⟨turns, nodes, ran, copied, mem_nodes⟩ := createPartialTree_copies acyclic domain treeParents
  have copies : Copies tree (tree.createPartialTree domain treeParents) nodes :=
    copied ▸ copies_copyRows (fun node member => ((mem_nodes node).mp member).2)
      fun domain child first second _ _ => single domain child first second
  generalize tree.createPartialTree domain treeParents = part at copies copied ⊢
  have parents_iff := copies.mem_parents_iff faithful mem_nodes single
  refine ⟨⟨turns, copied ▸ ran⟩, fun node below => copies.same_rows mem_nodes below, fun node notBelow => ⟨?_, ?_⟩,
    fun childDomain child => ?_⟩
  · exact children_unmapped node fun isMapped => notBelow ((mem_nodes node).mp ((copies.mapped_iff node).mp isMapped)).1
  · intro childDomain child parents found recorded
    rw [getParents_nil] at found
    cases found
    exact notBelow ((parents_iff childDomain child node).mp recorded).2
  · refine ⟨_, _, getParents_nil part childDomain child, getParents_nil tree childDomain child, ?_⟩
    rw [List.perm_ext_iff_of_nodup (part.nodup_staticParents childDomain child)
      ((tree.nodup_staticParents childDomain child).filter _)]
    intro node
    rw [parents_iff, List.mem_filter, decide_eq_true_eq]

private theorem acyclic_twoBins : Acyclic twoBins.DomainEdge :=
  acyclic_of_lt id fun domain childDomain edge => by
    rw [DomainEdge, getChildDomain_twoBins] at edge
    grind

open Classical in
/-- The part below the first bin, given twice, and a bin that the tree does not have. -/
theorem createPartialTree_exact_two_bins :
    (∃ turns, twoBins.worklistRun turns ⟨[(1, 1), (1, 9), (1, 1)], empty 0 1⟩ = ⟨[], twoBins.createPartialTree 1 [1, 9, 1]⟩) ∧
    (∀ node, Below twoBins 1 [1, 9, 1] node →
      (twoBins.createPartialTree 1 [1, 9, 1]).children node.1 node.2 = twoBins.children node.1 node.2 ∧
      (twoBins.createPartialTree 1 [1, 9, 1]).getChildDomain node.1 = twoBins.getChildDomain node.1) ∧
    (∀ node, ¬ Below twoBins 1 [1, 9, 1] node →
      (twoBins.createPartialTree 1 [1, 9, 1]).children node.1 node.2 = [] ∧
      ∀ childDomain child parents, (twoBins.createPartialTree 1 [1, 9, 1]).getParents childDomain child [] = .ok parents →
        node ∉ parents) ∧
    ∀ childDomain child, ∃ partParents parents,
      (twoBins.createPartialTree 1 [1, 9, 1]).getParents childDomain child [] = .ok partParents ∧
      twoBins.getParents childDomain child [] = .ok parents ∧
      partParents.Perm (parents.filter fun node => Below twoBins 1 [1, 9, 1] node) :=
  createPartialTree_exact 0 1 _ twoBins rfl twoBins_once acyclic_twoBins twoBins_single 1 [1, 9, 1]

end SparseMappingTree
end ShardManager

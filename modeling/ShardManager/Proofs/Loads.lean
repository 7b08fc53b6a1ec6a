import ShardManager.Proofs.Counter
import ShardManager.Proofs.Placement

/-! The values a counter keeps are the loads of its nodes after the committed
moves, through every run of the search. -/

namespace ShardManager
open SparseMappingTree IterativeLocalSearch

def partLoad (state : SolvingState) (weight : DomainId → Int) (part : SparseMappingTree) (moves : MovementMap) (binId : DomainId) :
    Int :=
  if (part.parentToChildMap.row 1 binId).isSome then state.load weight moves (1, binId) else 0

/-- The committed values are summed from the loads of the bins. -/
structure CountsLoad (state : SolvingState) (weight : DomainId → Int) (moves : MovementMap) (counter : Counter) : Prop where
  tallies : counter.Tallies
  residues : ∀ level domainId, counter.residues level domainId =
    rollup (childrenAt counter.part) (fun binId => ((partLoad state weight counter.part moves binId : Int) : Residue))
      level domainId

def SparseMappingTree.Contains (tree : SparseMappingTree) (node : Node) : Prop :=
  tree.Mapped node ∨ ∃ parent, parent ∈ tree.staticParents node.1 node.2

section Loads
variable {state : SolvingState} {weight : DomainId → Int} {part : SparseMappingTree} {domain : Domain}
  {treeParents : List DomainId}

theorem row_isSome (node : Node) : (part.parentToChildMap.row node.1 node.2).isSome ↔ part.Mapped node :=
  ⟨part.mapped_of_row, And.right⟩

theorem children_bin (isPart : Part state.assignmentTree part domain treeParents) (binId : DomainId) :
    part.children 1 binId =
      if (part.parentToChildMap.row 1 binId).isSome then state.assignmentTree.children 1 binId else [] := by
  split
  next row => exact isPart.children (1, binId) ((row_isSome (1, binId)).mp row)
  next none => exact children_unmapped (1, binId) fun mapped => none ((row_isSome (1, binId)).mpr mapped)

private theorem load_outside (moves : MovementMap) (isPart : Part state.assignmentTree part domain treeParents)
    (bottom : (state.assignmentTree.getChildDomain 1).isSome ∨ moves = {})
    {node : Node} (contains : part.Contains node) (notMapped : ¬ part.Mapped node) : state.load weight moves node = 0 := by
  obtain ⟨level, domainId⟩ := node
  rcases contains with mapped | ⟨parent, member⟩
  · exact absurd mapped notMapped
  · obtain ⟨above, listed⟩ := (isPart.hierarchy.parents _ _ _).mp member
    obtain ⟨_, inPart⟩ := part.mapped_of_mem_staticParents member
    rw [isPart.children parent inPart] at listed
    have leaf : state.assignmentTree.getChildDomain level = none := by
      by_contra some
      exact notMapped (isPart.closed parent inPart level above domainId listed (Option.ne_none_iff_isSome.mp some))
    refine SolvingState.load_leaf weight moves leaf (bottom.imp_left ?_) domainId
    rintro some rfl
    rw [leaf] at some
    cases some

/-- The loads of the nodes of a part are summed within the part. -/
theorem load_part (moves : MovementMap) (hierarchical : state.Hierarchical)
    (isPart : Part state.assignmentTree part domain treeParents)
    (bottom : (state.assignmentTree.getChildDomain 1).isSome ∨ moves = {}) {level : Nat} {domainId : DomainId}
    (contains : part.Contains (level + 1, domainId)) :
    state.load weight moves (level + 1, domainId) = rollup (childrenAt part) (partLoad state weight part moves) level domainId := by
  induction level generalizing domainId with
  | zero =>
    change state.load weight moves (1, domainId) = partLoad state weight part moves domainId
    rw [partLoad]
    split
    · rfl
    next none => exact load_outside moves isPart bottom contains fun mapped => none ((row_isSome (1, domainId)).mpr mapped)
  | succ level ih =>
    by_cases mapped : part.Mapped (level + 2, domainId)
    · have same : childrenAt state.assignmentTree level domainId = childrenAt part level domainId := by
        rw [childrenAt, childrenAt, isPart.children (level + 2, domainId) mapped]
      rw [SolvingState.load_above weight moves hierarchical, same, rollup]
      refine Finset.sum_congr rfl fun child member => ih (.inr ⟨(level + 2, domainId), ?_⟩)
      exact (isPart.hierarchy.parents _ _ _).mpr ⟨rfl, List.mem_toFinset.mp member⟩
    · have none : childrenAt part level domainId = ∅ := by
        rw [childrenAt, children_unmapped (level + 2, domainId) mapped]
        rfl
      rw [load_outside moves isPart bottom contains mapped, rollup, none, Finset.sum_empty]

theorem Counter.Tallies.value {counter : Counter} {moves : MovementMap} (tallies : counter.Tallies)
    (hierarchical : state.Hierarchical) (isPart : Part state.assignmentTree counter.part domain treeParents)
    (bottom : (state.assignmentTree.getChildDomain 1).isSome ∨ moves = {}) {level : Nat} {domainId : DomainId}
    (summed : counter.residues level domainId =
      rollup (childrenAt counter.part) (fun binId => ((partLoad state weight counter.part moves binId : Int) : Residue)) level domainId)
    (contains : counter.part.Contains (level + 1, domainId)) (fits : FitsInt32 (state.load weight moves (level + 1, domainId))) :
    (counter.metric (level + 1, domainId)).getD 0 = state.load weight moves (level + 1, domainId) := by
  refine eq_of_residue (tallies.narrow _) fits ?_
  change counter.residues level domainId = _
  rw [summed, load_part moves hierarchical isPart bottom contains]
  exact (map_rollup (Int.castAddHom Residue) _ _ _).symm

theorem CountsLoad.value {counter : Counter} {moves : MovementMap} (counts : CountsLoad state weight moves counter)
    (hierarchical : state.Hierarchical) (isPart : Part state.assignmentTree counter.part domain treeParents)
    (bottom : (state.assignmentTree.getChildDomain 1).isSome ∨ moves = {}) {node : Node} (contains : counter.part.Contains node)
    (fits : FitsInt32 (state.load weight moves node)) : (counter.metric node).getD 0 = state.load weight moves node := by
  obtain ⟨domain, domainId⟩ := node
  cases domain with
  | zero =>
    have notMapped := isPart.hierarchy.shards_unmapped domainId
    rw [counts.tallies.unmapped _ notMapped, load_outside moves isPart bottom contains notMapped]
    rfl
  | succ level => exact counts.tallies.value hierarchical isPart bottom (counts.residues level domainId) contains fits

variable (weight) in
theorem listed_cases (moves : MovementMap) (isPart : Part state.assignmentTree part domain treeParents)
    (bottom : (state.assignmentTree.getChildDomain 1).isSome ∨ moves = {})
    {domainId : DomainId} (listed : domainId ∈ treeParents) :
    part.Mapped (domain, domainId) ∨ ¬ part.Mapped (domain, domainId) ∧ state.load weight moves (domain, domainId) = 0 := by
  by_cases mapped : part.Mapped (domain, domainId)
  · exact .inl mapped
  · have leaf : state.assignmentTree.getChildDomain domain = none := by
      by_contra some
      exact mapped ((isPart.given domainId).mpr ⟨listed, Option.ne_none_iff_isSome.mp some⟩)
    have unreached : domain ≠ 1 ∨ moves = {} := by
      refine bottom.imp_left ?_
      rintro some rfl
      rw [leaf] at some
      cases some
    exact .inr ⟨mapped, SolvingState.load_leaf weight moves leaf unreached domainId⟩

theorem CountsLoad.value_listed {counter : Counter} {moves : MovementMap} (counts : CountsLoad state weight moves counter)
    (hierarchical : state.Hierarchical) (isPart : Part state.assignmentTree counter.part domain treeParents)
    (bottom : (state.assignmentTree.getChildDomain 1).isSome ∨ moves = {}) {domainId : DomainId} (listed : domainId ∈ treeParents)
    (fits : FitsInt32 (state.load weight moves (domain, domainId))) :
    (counter.metric (domain, domainId)).getD 0 = state.load weight moves (domain, domainId) := by
  rcases listed_cases weight moves isPart bottom listed with mapped | ⟨notMapped, none⟩
  · exact counts.value hierarchical isPart bottom (.inl mapped) fits
  · rw [counts.tallies.unmapped _ notMapped, none]
    rfl

section Additive
variable {domainIds : List DomainId}

theorem domain_ne_zero (hierarchical : state.Hierarchical)
    (hasBin : (state.assignmentTree.createPartialTree domain domainIds).HasBin) : domain ≠ 0 := by
  have isPart := createPartialTree_part hierarchical.hierarchy domain domainIds
  rw [HasBin, row_mapped, isPart.hierarchy.bins] at hasBin
  obtain ⟨binId, mapped⟩ := isPart.inhabited 1 hasBin
  rintro rfl
  exact absurd (isPart.mapped _ mapped).2 (by simp)

variable (domainIds) in
theorem MetricConstraint.newCounter_additive (hierarchical : state.Hierarchical) (consistency : MovementConsistency)
    (capacity faultWeight : Int) (above : domain ≠ 0) :
    Additive state consistency (state.getShardMetric 0) (newCounter state consistency domain domainIds capacity faultWeight) := by
  have isPart := createPartialTree_part hierarchical.hierarchy domain domainIds
  exact ⟨isPart.hierarchy, adds hierarchical.shardDomain hierarchical.binDomain consistency domain capacity faultWeight
    isPart.hierarchy, recordsValue consistency domain capacity faultWeight, above⟩

theorem DrainConstraint.newCounter_additive (hierarchical : state.Hierarchical) (consistency : MovementConsistency)
    (faultWeight : Int) : Additive state consistency (fun _ => 1) (newCounter state consistency 1 domainIds faultWeight) := by
  have isPart := createPartialTree_part hierarchical.hierarchy 1 domainIds
  refine ⟨isPart.hierarchy, adds hierarchical.binDomain consistency 1 faultWeight ?_, recordsValue consistency 1 faultWeight,
    by simp [newCounter]⟩
  intro level domainId mapped
  exact absurd (isPart.mapped _ mapped).2 (by simp)

end Additive

theorem countsLoad_new (order : HashOrder) (info : BinWeightInfo) (hierarchical : state.Hierarchical) {counter : Counter}
    (additive : Additive state .after weight counter) (isPart : Part state.assignmentTree counter.part domain treeParents)
    (metrics : counter.metric = fun _ => none) (faults : counter.faults = fun _ => none) :
    CountsLoad state weight {} (counter.canaried order state [{}]
      (order.ids (counter.part.getAllDomainIds state.shardDomain)) info).1.committed := by
  have shards := hierarchical.shardDomain
  have empty := counter.tallies_empty metrics faults
  refine ⟨Counter.canaried_tallies order _ _ info additive.hierarchy shards additive.records additive.above empty, ?_⟩
  intro level domainId
  have patched := Counter.canaried_patched order [{}] (order.ids (counter.part.getAllDomainIds state.shardDomain)) info
    additive.hierarchy shards additive.adds
  have zero : counter.residues level domainId = 0 := by simp [Counter.residues, metrics]
  rw [patched.eq, zero, zero_add]
  refine congrFun (congrArg (fun lowest => rollup (childrenAt counter.part) lowest level) (funext fun binId => ?_)) domainId
  rw [shards, binChange_initial .after weight state additive.hierarchy.grounded shards (order.ids_perm _), children_bin isPart,
    Counter.part_canaried, partLoad]
  split
  · rw [SolvingState.load_initial weight hierarchical]
    rfl
  · rfl

/-- What a candidate changes at the bins of a part is what it changes of their loads. -/
theorem shift_candidate (hierarchical : state.Hierarchical) (isPart : Part state.assignmentTree part domain treeParents)
    {moves : MovementMap} {shard nextBin : DomainId} (candidate : Candidate state moves shard nextBin) (binId : DomainId) :
    partLoad state weight part (moves.addMovements (.addMovement {} shard nextBin)) binId =
      partLoad state weight part moves binId + shift .after weight part shard nextBin binId := by
  obtain ⟨former, listed, different⟩ := candidate.listed
  rw [hierarchical.binDomain] at listed
  rw [partLoad, partLoad, shift, children_bin isPart]
  by_cases row : (part.parentToChildMap.row 1 binId).isSome
  · simp only [row, if_true, and_true, SolvingState.load_candidate weight hierarchical candidate]
    by_cases here : shard ∈ state.assignmentTree.children 1 binId
    · have same : ((1, binId) : Node) = (1, former) := hierarchical.hierarchy.unique rfl rfl here listed
      have apart : binId ≠ nextBin := by
        cases same
        exact different.symm
      simp [here, apart, Ne.symm apart, shouldConsider, signed]
    · by_cases arrives : binId = nextBin
      · subst arrives
        simp [here, shouldConsider, signed]
      · simp [here, arrives]
  · simp [row]

theorem CountsLoad.accepted {counter : Counter} {moves : MovementMap} (counts : CountsLoad state weight moves counter)
    (hierarchical : state.Hierarchical) (additive : Additive state .after weight counter)
    (isPart : Part state.assignmentTree counter.part domain treeParents) {shard nextBin : DomainId}
    (candidate : Candidate state moves shard nextBin) (order : HashOrder) (info : BinWeightInfo) :
    CountsLoad state weight (moves.addMovements (.addMovement {} shard nextBin))
      (counter.canaried order state [{}, moves, .addMovement {} shard nextBin] (order.ids [shard]) info).1.committed := by
  have shards := hierarchical.shardDomain
  refine ⟨Counter.canaried_tallies order _ _ info additive.hierarchy shards additive.records additive.above counts.tallies, ?_⟩
  intro level domainId
  have patched := Counter.canaried_patched order [{}, moves, .addMovement {} shard nextBin] (order.ids [shard]) info
    additive.hierarchy shards additive.adds
  rw [patched.rollup counts.residues]
  refine congrFun (congrArg (fun lowest => rollup (childrenAt counter.part) lowest level) (funext fun binId => ?_)) domainId
  rw [order.ids_singleton, binChange_moved .after weight state candidate.moved additive.hierarchy.grounded shards, Counter.part_canaried,
    shift_candidate hierarchical isPart candidate]
  simp

theorem tracks_load (order : HashOrder) (hierarchical : state.Hierarchical) {first : Counter}
    (additive : Additive state .after weight first) (isPart : Part state.assignmentTree first.part domain treeParents)
    (hasBin : first.part.HasBin) : Tracks order state (TracksCounter state first (CountsLoad state weight)) := by
  refine tracks_counter order hierarchical.movementMap hasBin ?_ ?_
  · intro moves shard nextBin counter info candidate same counts
    exact counts.accepted hierarchical (same.additive additive) (same.part ▸ isPart) candidate order info
  · intro moves counter other same metrics faults counts
    refine ⟨?_, ?_⟩
    · rw [Counter.Tallies, same.part, same.domain, same.fault, metrics, faults]
      exact counts.tallies
    · intro level domainId
      rw [Counter.residues, metrics, same.part]
      exact counts.residues level domainId

end Loads
end ShardManager

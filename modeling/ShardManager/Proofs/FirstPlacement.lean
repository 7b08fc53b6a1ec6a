import ShardManager.Placer.Simulation
import ShardManager.Proofs.DrainProgress

/-! From unassigned to placed: over a generated assignment, in which some shards are in
`kDefaultBin`, a drain of that bin has the search place them all. -/

namespace ShardManager
open SparseMappingTree IterativeLocalSearch SolvingState

section Known
variable {tree : SparseMappingTree}

def knownChildren (maps : ParentMaps) (domain : Domain) : List DomainId := ((maps.lookup domain).getD ∅).keys

private theorem mem_knownChildren_emplace (maps : ParentMaps) (childDomain : Domain) (child : DomainId) (parent : Node) (domain : Domain)
    (domainId : DomainId) : domainId ∈ knownChildren (maps.emplace childDomain child parent) domain ↔
      domain = childDomain ∧ domainId = child ∨ domainId ∈ knownChildren maps domain := by
  unfold knownChildren ParentMaps.emplace
  rw [UnorderedMap.lookup_insert]
  by_cases here : domain = childDomain
  · subst here
    simp only [if_true, Option.getD_some, true_and]
    rw [← AList.mem_keys, AList.mem_insert, AList.mem_keys]
  · simp [here]

private theorem mem_knownChildren_emplaceParents (maps : ParentMaps) (parent : Node) (childDomain : Domain) (children : List DomainId)
    (domain : Domain) (domainId : DomainId) : domainId ∈ knownChildren (emplaceParents maps parent childDomain children) domain ↔
      domain = childDomain ∧ domainId ∈ children ∨ domainId ∈ knownChildren maps domain := by
  unfold emplaceParents
  induction children generalizing maps with
  | nil => simp
  | cons child children ih =>
    rw [List.foldl_cons, ih, mem_knownChildren_emplace, List.mem_cons]
    tauto

private theorem mem_knownChildren_addRows (rows : List (Node × List DomainId)) (tree : SparseMappingTree) {domain : Domain} {domainId : DomainId}
    (known : domainId ∈ knownChildren (addRows rows tree).childToParentMap domain) :
    (∃ row ∈ rows, row.1.1 - 1 = domain ∧ domainId ∈ row.2) ∨ domainId ∈ knownChildren tree.childToParentMap domain := by
  unfold addRows at known
  induction rows generalizing tree with
  | nil => exact .inr known
  | cons row rows ih =>
    rw [List.foldl_cons] at known
    rcases ih _ known with ⟨other, member, below, listed⟩ | known
    · exact .inl ⟨other, List.mem_cons_of_mem _ member, below, listed⟩
    · unfold addMapping at known
      split at known
      · rcases (mem_knownChildren_emplaceParents _ _ _ _ _ _).mp known with ⟨below, listed⟩ | known
        · exact .inl ⟨row, List.mem_cons_self, below.symm, listed⟩
        · exact .inr known
      · exact .inr known

/-- The shards of a constructed state are those that its bins list. -/
private theorem mem_shards_new (shardInfoVector : List ShardInfo) (metricVectors : List (List MetricValue))
    {domainMapping : List (List (List DomainId))} (once : ListsOnce domainMapping) {shard : DomainId}
    (present : shard ∈ (new shardInfoVector metricVectors domainMapping).shards) :
    ∃ binId, shard ∈ (new shardInfoVector metricVectors domainMapping).assignmentTree.children 1 binId := by
  have leaf : (new shardInfoVector metricVectors domainMapping).assignmentTree.parentToChildDomainMap.lookup 0 = none :=
    (hierarchy_new shardInfoVector metricVectors once).grounded.leaf
  have records := records_new shardInfoVector metricVectors once
  rw [SolvingState.shards, List.mem_toFinset] at present
  change shard ∈ (new shardInfoVector metricVectors domainMapping).assignmentTree.getAllDomainIds 0 at present
  rw [getAllDomainIds, leaf] at present
  change shard ∈ knownChildren (new shardInfoVector metricVectors domainMapping).assignmentTree.childToParentMap 0 at present
  rw [assignmentTree_eq] at present
  rcases mem_knownChildren_addRows _ _ present with ⟨row, member, below, listed⟩ | impossible
  · obtain ⟨⟨domain, binId⟩, children⟩ := row
    have above := (rows_rowsOf once).above _ member
    obtain rfl : domain = 1 := by grind
    refine ⟨binId, ?_⟩
    rw [SparseMappingTree.children, (records.row 1 binId children).mpr member]
    exact listed
  · cases impossible

end Known

section Generated
variable (shardInfoVector : List ShardInfo) (metricVectors : List (List MetricValue)) {numBins numShards : Nat}
  {binOf : DomainId → DomainId}

def generatedState (binShardMapping : List (List DomainId)) : SolvingState :=
  (new shardInfoVector metricVectors [binShardMapping]).withEmptyMovementMap

private theorem generated_once : ListsOnce [Simulation.mapShards numBins numShards binOf] := by
  intro rows member
  rw [List.mem_singleton.mp member]
  exact Simulation.mapShards_once

private theorem generated_row (binId : DomainId) (children : List DomainId) :
    (new shardInfoVector metricVectors [Simulation.mapShards numBins numShards binOf]).assignmentTree.parentToChildMap.row 1 binId =
        some children ↔ (Simulation.mapShards numBins numShards binOf)[binId]? = some children := by
  rw [(records_new shardInfoVector metricVectors generated_once).row, mem_rowsOf]
  constructor
  · rintro ⟨below, rows, above, level, found⟩
    obtain rfl : 0 = below := Nat.succ.inj above
    cases level
    exact found
  · exact fun found => ⟨0, _, rfl, rfl, found⟩

private theorem generated_children (shard binId : DomainId) :
    shard ∈ (generatedState shardInfoVector metricVectors (Simulation.mapShards numBins numShards binOf)).assignmentTree.children 1 binId ↔
      shard < numShards ∧ binOf shard = binId ∧ binId < numBins + 1 := by
  change shard ∈ (((new shardInfoVector metricVectors
    [Simulation.mapShards numBins numShards binOf]).assignmentTree.parentToChildMap.row 1 binId).getD []) ↔ _
  by_cases inside : binId < (Simulation.mapShards numBins numShards binOf).length
  · have found := List.getElem?_eq_getElem inside
    rw [(generated_row shardInfoVector metricVectors binId _).mpr found, Option.getD_some, Simulation.mem_mapShards found]
    rw [Simulation.length_mapShards] at inside
    simp [inside]
  · have none : (new shardInfoVector metricVectors
        [Simulation.mapShards numBins numShards binOf]).assignmentTree.parentToChildMap.row 1 binId = none := by
      rw [Option.eq_none_iff_forall_ne_some]
      intro children found
      exact inside (List.getElem?_eq_some_iff.mp ((generated_row shardInfoVector metricVectors binId children).mp found)).1
    rw [Simulation.length_mapShards] at inside
    simp [none, inside]

private theorem generated_binOf (real : 0 < numBins) {binShardMapping : List (List DomainId)}
    (generated : binShardMapping = Simulation.mapShardsToBinsEmpty numBins numShards ∨
      ∃ mapEmptyBin draws, binShardMapping = Simulation.mapShardsToBinsRandom numBins numShards mapEmptyBin draws) :
    ∃ binOf, binShardMapping = Simulation.mapShards numBins numShards binOf ∧ ∀ shard, binOf shard ≤ numBins := by
  rcases generated with rfl | ⟨mapEmptyBin, draws, rfl⟩
  · exact ⟨_, rfl, fun _ => Nat.zero_le _⟩
  · refine ⟨_, rfl, ?_⟩
    intro shard
    have first : Simulation.startingBin mapEmptyBin ≤ 1 := by cases mapEmptyBin <;> decide
    exact Simulation.dist_le (Nat.le_trans first real) (draws shard)

variable {state : SolvingState} (built : state = generatedState shardInfoVector metricVectors (Simulation.mapShards numBins numShards binOf))
include built

private theorem generated_shards : state.shards.card ≤ numShards := by
  rw [← Finset.card_range numShards]
  apply Finset.card_le_card
  intro shard present
  rw [built] at present
  obtain ⟨binId, listed⟩ := mem_shards_new shardInfoVector metricVectors generated_once present
  exact Finset.mem_range.mpr ((generated_children shardInfoVector metricVectors shard binId).mp listed).1

private theorem generated_size : state.getDomainSize 1 = numBins + 1 := by
  rw [built, ← @Simulation.length_mapShards numBins numShards binOf]
  exact @getDomainSize_new shardInfoVector metricVectors _ 0 _ rfl

private theorem generated_hasBin : (state.assignmentTree.createPartialTree 1 [kDefaultBin]).HasBin := by
  have inside : kDefaultBin < (Simulation.mapShards numBins numShards binOf).length := by
    rw [Simulation.length_mapShards]
    exact Nat.succ_pos numBins
  have row := (generated_row shardInfoVector metricVectors kDefaultBin _).mpr (List.getElem?_eq_getElem inside)
  rw [built]
  exact createPartialTree_hasBin (hierarchy_new shardInfoVector metricVectors generated_once) (List.mem_singleton.mpr rfl)
    (Option.isSome_of_eq_some row)

/-- A drain of `kDefaultBin` can be constructed. -/
private theorem generated_drain (constructorOrder : HashOrder) (faultWeight : Int) (info : BinWeightInfo) :
    ∃ constraint weights, DrainConstraint.new constructorOrder state .after 1 [kDefaultBin] faultWeight info = .ok (constraint, weights) ∧
      weights.clear = weights := by
  have hierarchical : state.Hierarchical := built ▸ hierarchical_new shardInfoVector metricVectors generated_once
  have hasBin := generated_hasBin shardInfoVector metricVectors built
  rw [DrainConstraint.new, ExpressionTree.new_eq state (DrainConstraint.calculates state .after 1 faultWeight)
    (state.assignmentTree.createPartialTree 1 [kDefaultBin]) hierarchical.movementMap (hasBin.resolves _)]
  exact ⟨_, _, rfl, rfl⟩

end Generated

/-- Wherever the generated assignment puts the shards, a search for a drain of `kDefaultBin`
alone places those that are there, and leaves the others where they are. -/
theorem places_unassigned (shardInfoVector : List ShardInfo) (metricVectors : List (List MetricValue)) (numBins numShards : Nat)
    (real : 0 < numBins) (fits : numShards < 2147483648) (binShardMapping : List (List DomainId))
    (generated : binShardMapping = Simulation.mapShardsToBinsEmpty numBins numShards ∨
      ∃ mapEmptyBin draws, binShardMapping = Simulation.mapShardsToBinsRandom numBins numShards mapEmptyBin draws)
    (faultWeight : Int) (positive : 0 < faultWeight) (constructorOrder order : HashOrder) (info : BinWeightInfo)
    (maxIterations : Nat) (enoughIterations : numShards ≤ maxIterations) (draws : Nat → Nat) (fair : Fair (numBins + 1) draws) :
    ∃ constraint weights,
      DrainConstraint.new constructorOrder (generatedState shardInfoVector metricVectors binShardMapping) .after 1 [kDefaultBin]
        faultWeight info = .ok (constraint, weights) ∧
      ∃ enough, ∀ count, enough ≤ count → ∃ final : Search Unit Constraint,
        (solve order (generatedState shardInfoVector metricVectors binShardMapping) [()] maxIterations ((List.range count).map draws)
          ⟨fun _ => .drain constraint, weights⟩).result = .ok final ∧
        ∀ shard < numShards,
          (∃ binId, 0 < binId ∧ binId ≤ numBins ∧
            (generatedState shardInfoVector metricVectors binShardMapping).nodeOver final.committedMoves shard 1 = some binId) ∧
          ∀ binId, 0 < binId →
            shard ∈ (generatedState shardInfoVector metricVectors binShardMapping).assignmentTree.children 1 binId →
              final.committedMoves.getNextBin shard = none := by
  obtain ⟨binOf, rfl, known⟩ := generated_binOf real generated
  generalize built : generatedState shardInfoVector metricVectors (Simulation.mapShards numBins numShards binOf) = state
  have hierarchical : state.Hierarchical := built ▸ hierarchical_new shardInfoVector metricVectors generated_once
  have size := generated_size shardInfoVector metricVectors built.symm
  have listed : ∀ shard binId, shard ∈ state.assignmentTree.children 1 binId ↔ shard < numShards ∧ binOf shard = binId ∧ binId < numBins + 1 := by
    rw [← built]
    exact generated_children shardInfoVector metricVectors
  obtain ⟨constraint, weights, made, settled⟩ := generated_drain shardInfoVector metricVectors built.symm constructorOrder faultWeight info
  have shards := generated_shards shardInfoVector metricVectors built.symm
  have constructed : Constraint.new constructorOrder state info (.drain .after 1 [kDefaultBin] faultWeight) =
      .ok (.drain constraint, weights) := by
    rw [Constraint.new, made]
    rfl
  have inside : ∀ shard binId, shard ∈ state.assignmentTree.children 1 binId → binId < state.getDomainSize 1 := by
    rw [size]
    exact fun shard binId member => ((listed shard binId).mp member).2.2
  have few : (DrainConstraint.drainedBins state [kDefaultBin]).card ≤ min (state.getDomainSize 1 - 1) 50 := by
    have one : (DrainConstraint.drainedBins state [kDefaultBin]).card ≤ 1 := by
      refine Finset.card_le_one_iff_subset_singleton.mpr ⟨kDefaultBin, ?_⟩
      intro binId member
      exact Finset.mem_singleton.mpr (List.mem_singleton.mp (Finset.mem_filter.mp member).2)
    rw [size]
    omega
  rw [← size] at fair
  have drains : DrainConstraint.DrainsBins order state () [kDefaultBin] faultWeight ⟨fun _ => .drain constraint, weights⟩ := by
    refine ⟨hierarchical, positive, inside, few, ?_, settled⟩
    exact Constraint.Arguments.potential_drain order hierarchical (Nat.lt_of_le_of_lt shards fits)
      (generated_hasBin shardInfoVector metricVectors built.symm) constructed
  obtain ⟨enough, runs⟩ := drains.runs maxIterations fair
  refine ⟨constraint, weights, made, enough, ?_⟩
  intro count more
  obtain ⟨final, returned, taken, _, left⟩ := runs count more
  refine ⟨final, returned, ?_⟩
  intro shard present
  have inBin := (listed shard (binOf shard)).mpr ⟨present, rfl, Nat.lt_succ_of_le (known shard)⟩
  have home : state.parentOf 0 shard = some (binOf shard) := (hierarchical.parentOf_iff _ _ _).mpr inBin
  have emptied : state.shardsUnder final.committedMoves 1 [kDefaultBin] = ∅ := by
    have most := Finset.card_filter_le state.shards fun shard => ∃ domainId ∈ [kDefaultBin], state.nodeOver {} shard 1 = some domainId
    rw [← Finset.card_eq_zero, left, Nat.sub_eq_zero_iff_le]
    exact Nat.le_trans most (Nat.le_trans shards enoughIterations)
  cases next : final.committedMoves.getNextBin shard with
  | some nextBin =>
    obtain ⟨unassigned, different, bound⟩ := taken shard nextBin next
    rw [size] at bound
    have from0 : binOf shard = kDefaultBin := by
      obtain ⟨_, binId, member, under⟩ := Finset.mem_filter.mp unassigned
      rw [nodeOver, MovementMap.next_empty, Option.none_or, home, Option.some.injEq] at under
      exact under.trans (List.mem_singleton.mp member)
    constructor
    · refine ⟨nextBin, Nat.pos_of_ne_zero fun zero => different (List.mem_singleton.mpr zero), Nat.le_of_lt_succ bound, ?_⟩
      rw [nodeOver, next, Option.some_or]
    · intro binId assigned member
      obtain ⟨_, same, _⟩ := (listed shard binId).mp member
      exact absurd (same.symm.trans from0) (Nat.pos_iff_ne_zero.mp assigned)
  | none =>
    have under : state.nodeOver final.committedMoves shard 1 = some (binOf shard) := by
      rw [nodeOver, next, Option.none_or, home]
    refine ⟨⟨binOf shard, Nat.pos_of_ne_zero fun zero => ?_, known shard, under⟩, fun _ _ _ => rfl⟩
    have member : shard ∈ state.shardsUnder final.committedMoves 1 [kDefaultBin] :=
      Finset.mem_filter.mpr ⟨mem_shards hierarchical inBin, binOf shard, List.mem_singleton.mpr zero, under⟩
    rw [emptied] at member
    cases member

def fiveShards : SolvingState := generatedState [] [] (Simulation.mapShardsToBinsRandom 2 5 true id)

theorem places_unassigned_fiveShards :
    ∃ constraint weights,
      DrainConstraint.new .insertion fiveShards .after 1 [kDefaultBin] 10 .empty = .ok (constraint, weights) ∧
      ∃ enough, ∀ count, enough ≤ count → ∃ final : Search Unit Constraint,
        (solve .insertion fiveShards [()] 500000 ((List.range count).map id) ⟨fun _ => .drain constraint, weights⟩).result = .ok final ∧
        ∀ shard < 5,
          (∃ binId, 0 < binId ∧ binId ≤ 2 ∧ fiveShards.nodeOver final.committedMoves shard 1 = some binId) ∧
          ∀ binId, 0 < binId → shard ∈ fiveShards.assignmentTree.children 1 binId → final.committedMoves.getNextBin shard = none :=
  places_unassigned [] [] 2 5 (by decide) (by decide) (Simulation.mapShardsToBinsRandom 2 5 true id) (.inr ⟨true, id, rfl⟩) 10
    (by decide) .insertion .insertion .empty 500000 (by decide) id (fair_id _)

end ShardManager

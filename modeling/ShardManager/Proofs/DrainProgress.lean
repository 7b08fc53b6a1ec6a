import ShardManager.Proofs.Potentials

/-! A drain of bins does what it is for. On its own, a `DrainConstraint` with consistency
`AFTER` has the search take shards out of its bins until none is left or all
iterations are used, and never bring one in. -/

namespace ShardManager
open IterativeLocalSearch SolvingState

section Placed
variable {state : SolvingState} {moves : MovementMap}

theorem SolvingState.Hierarchical.listed_iff (hierarchical : state.Hierarchical) {shard binId : DomainId}
    (listed : shard ∈ state.assignmentTree.children 1 binId) (other : DomainId) :
    shard ∈ state.assignmentTree.children 1 other ↔ other = binId := by
  rw [← hierarchical.parentOf_iff] at listed ⊢
  rw [listed, Option.some.injEq]
  exact eq_comm

private theorem card_candidate (domainIds : List DomainId) (hierarchical : state.Hierarchical) {shard nextBin : DomainId} (candidate : Candidate state moves shard nextBin)
    {binId : DomainId} (listed : shard ∈ state.assignmentTree.children 1 binId) :
    ((state.shardsUnder (moves.addMovements (.addMovement {} shard nextBin)) 1 domainIds).card : Int) =
      (state.shardsUnder moves 1 domainIds).card + ((if nextBin ∈ domainIds then 1 else 0) - if binId ∈ domainIds then 1 else 0) := by
  rw [card_shardsUnder, card_shardsUnder, Finset.sum_congr rfl fun other _ => load_candidate _ hierarchical candidate other,
    Finset.sum_add_distrib, Finset.sum_sub_distrib]
  simp [hierarchical.listed_iff listed]

/-- A domain has as many elements as its level of the mapping has rows. -/
theorem getDomainSize_new (shardInfoVector : List ShardInfo) (metricVectors : List (List MetricValue))
    {domainMapping : List (List (List DomainId))} {below : Nat} {rows : List (List DomainId)} (level : domainMapping[below]? = some rows) :
    (new shardInfoVector metricVectors domainMapping).getDomainSize (below + 1) = rows.length := by
  change ((domainMapping.zipIdx.foldl (fun elements rows => elements.insert (rows.2 + 1) rows.1.length)
    ((∅ : UnorderedMap Domain Nat).insert 0 shardInfoVector.length)).lookup (below + 1)).getD 0 = rows.length
  generalize (∅ : UnorderedMap Domain Nat).insert 0 shardInfoVector.length = elements
  induction domainMapping using List.reverseRecOn with
  | nil => cases level
  | append_singleton levels last ih =>
    rw [List.zipIdx_append, List.foldl_append]
    simp only [List.zipIdx_singleton, List.foldl_cons, List.foldl_nil, Nat.zero_add, UnorderedMap.lookup_insert, Nat.add_right_cancel_iff]
    rw [List.getElem?_append] at level
    split at level
    next before =>
      rw [if_neg (Nat.ne_of_lt before)]
      exact ih level
    next behind =>
      obtain ⟨bound, rfl⟩ := List.getElem?_eq_some_iff.mp level
      simp only [List.length_singleton] at bound
      rw [if_pos (by omega)]
      simp

private theorem listed_inside (shardInfoVector : List ShardInfo) (metricVectors : List (List MetricValue))
    {domainMapping : List (List (List DomainId))} (once : ListsOnce domainMapping) {shard binId : DomainId}
    (listed : shard ∈ (new shardInfoVector metricVectors domainMapping).assignmentTree.children 1 binId) :
    binId < (new shardInfoVector metricVectors domainMapping).getDomainSize 1 := by
  cases found : (new shardInfoVector metricVectors domainMapping).assignmentTree.parentToChildMap.row 1 binId with
  | none => simp [SparseMappingTree.children, found] at listed
  | some children =>
    have recorded := ((records_new shardInfoVector metricVectors once).row _ _ _).mp found
    obtain ⟨below, rows, above, level, row⟩ := (mem_rowsOf _ _).mp recorded
    obtain rfl : 0 = below := Nat.succ.inj above
    rw [getDomainSize_new shardInfoVector metricVectors level]
    exact (List.getElem?_eq_some_iff.mp row).1

end Placed

namespace DrainConstraint
variable {ι : Type} {order : HashOrder} {state : SolvingState} {target : ι} {domainIds : List DomainId}
  {faultWeight : Int} {holds : MovementMap → Constraint → Prop}

/-- The placement search of a drain of bins alone. -/
abbrev drainSearch (state : SolvingState) (target : ι) (domainIds : List DomainId) (faultWeight : Int) : Descent MovementMap MovementMap :=
  placementSearch state [target] fun _ => (Constraint.Arguments.drain .after 1 domainIds faultWeight).weighs state

section Moves
variable (hierarchical : state.Hierarchical) (positive : 0 < faultWeight)
include hierarchical positive

theorem lowers_iff {moves : MovementMap} {shard nextBin : DomainId} (candidate : Candidate state moves shard nextBin) {binId : DomainId}
    (listed : shard ∈ state.assignmentTree.children 1 binId) :
    (drainSearch state target domainIds faultWeight).Lowers moves (.addMovement {} shard nextBin) ↔
      binId ∈ domainIds ∧ nextBin ∉ domainIds := by
  unfold Descent.Lowers drainSearch placementSearch
  simp only [List.map_singleton, List.sum_singleton, Constraint.Arguments.weighs_drain]
  rw [mul_lt_mul_iff_right₀ positive]
  rw [card_candidate domainIds hierarchical candidate listed, add_lt_iff_neg_left]
  by_cases inside : nextBin ∈ domainIds <;> by_cases drained : binId ∈ domainIds <;> simp [inside, drained]

/-- Only shards of the drained bins have been moved, and to bins that are not drained. -/
structure Draining (state : SolvingState) (domainIds : List DomainId) (moves : MovementMap) : Prop where
  taken : ∀ shard binId, moves.getNextBin shard = some binId →
    shard ∈ state.shardsUnder {} 1 domainIds ∧ binId ∉ domainIds ∧ binId < state.getDomainSize 1
  counted : moved moves + (state.shardsUnder moves 1 domainIds).card = (state.shardsUnder {} 1 domainIds).card

theorem Draining.step {moves movement : MovementMap} (draining : Draining state domainIds moves)
    (enabled : (drainSearch state target domainIds faultWeight).machine.enabled moves movement) :
    Draining state domainIds ((drainSearch state target domainIds faultWeight).machine.next moves movement) := by
  obtain ⟨⟨shard, nextBin, candidate, rfl⟩, lowers⟩ := enabled
  obtain ⟨binId, listed, _⟩ := candidate.listed
  rw [hierarchical.binDomain] at listed
  obtain ⟨drained, outside⟩ := (lowers_iff hierarchical positive candidate listed).mp lowers
  have fewer := card_candidate domainIds hierarchical candidate listed
  rw [if_neg outside, if_pos drained] at fewer
  have more := moved_candidate candidate
  change Draining state domainIds (moves.addMovements (.addMovement {} shard nextBin))
  constructor
  · intro other bin next
    rw [MovementMap.next_addMovements, MovementMap.next_addMovement] at next
    split at next
    next here =>
      cases next
      subst here
      refine ⟨Finset.mem_filter.mpr ⟨mem_shards hierarchical listed, binId, drained, ?_⟩, outside, hierarchical.binDomain ▸ candidate.inside⟩
      rw [nodeOver, MovementMap.next_empty, Option.none_or, hierarchical.parentOf_iff]
      exact listed
    next => exact draining.taken other bin next
  · have counted := draining.counted
    omega

private theorem draining_after {steps : List MovementMap} (runs : (drainSearch state target domainIds faultWeight).machine.Runs {} steps) :
    Draining state domainIds ((drainSearch state target domainIds faultWeight).machine.after {} steps) := by
  refine runs.invariant (fun moves movement draining enabled => draining.step hierarchical positive enabled) ⟨?_, Nat.zero_add _⟩
  intro shard binId impossible
  rw [MovementMap.next_empty] at impossible
  cases impossible

end Moves

def drainedBins (state : SolvingState) (domainIds : List DomainId) : Finset DomainId :=
  (Finset.range (state.getDomainSize 1)).filter (· ∈ domainIds)

/-- Where bins that are not drained are tried, no bin that is drained is tried in vain. -/
theorem not_vain (hierarchical : state.Hierarchical) (positive : 0 < faultWeight)
    (few : (drainedBins state domainIds).card ≤ min (state.getDomainSize 1 - 1) 50) {moves : MovementMap} {binId : DomainId}
    (drained : binId ∈ domainIds) (inside : binId < state.getDomainSize 1) :
    ¬ VainAt state (drainSearch state target domainIds faultWeight) moves binId := by
  rintro ⟨shard, member, tried, triedInside, enough, vain⟩
  obtain ⟨listed, unmoved⟩ := List.mem_filter.mp member
  rw [hierarchical.binDomain] at triedInside enough
  have within : tried ⊆ (drainedBins state domainIds).erase binId := by
    intro nextBin member
    obtain ⟨different, nextInside⟩ := Finset.mem_erase.mp (triedInside member)
    refine Finset.mem_erase.mpr ⟨different, Finset.mem_filter.mpr ⟨nextInside, ?_⟩⟩
    by_contra outside
    have candidate : Candidate state moves shard nextBin :=
      ⟨⟨binId, listed, different⟩, Option.isNone_iff_eq_none.mp unmoved, hierarchical.binDomain ▸ Finset.mem_range.mp nextInside⟩
    rw [hierarchical.binDomain] at listed
    exact vain nextBin member ((lowers_iff hierarchical positive candidate listed).mpr ⟨drained, outside⟩)
  have fewer := Finset.card_le_card within
  have member : binId ∈ drainedBins state domainIds := Finset.mem_filter.mpr ⟨Finset.mem_range.mpr inside, drained⟩
  have some := Finset.card_pos.mpr ⟨binId, member⟩
  rw [Finset.card_erase_of_mem member] at fewer
  omega

variable [DecidableEq ι]

/-- Wherever it returns, a search for a drain alone has taken out what it had iterations for. -/
private theorem drained (hierarchical : state.Hierarchical) (positive : 0 < faultWeight)
    (inside : ∀ shard binId, shard ∈ state.assignmentTree.children 1 binId → binId < state.getDomainSize 1)
    (few : (drainedBins state domainIds).card ≤ min (state.getDomainSize 1 - 1) 50)
    (weighs : Potential order state holds ((Constraint.Arguments.drain .after 1 domainIds faultWeight).weighs state))
    {world : World ι Constraint} (settled : world.binWeightInfo.clear = world.binWeightInfo) (begins : holds {} (world.objects target))
    {maxIterations : Nat} {draws : List Nat} {final : Search ι Constraint}
    (returned : (solve order state [target] maxIterations draws world).result = .ok final) :
    (∀ shard binId, final.committedMoves.getNextBin shard = some binId →
      shard ∈ state.shardsUnder {} 1 domainIds ∧ binId ∉ domainIds ∧ binId < state.getDomainSize 1) ∧
    moved final.committedMoves = min maxIterations (state.shardsUnder {} 1 domainIds).card ∧
    (state.shardsUnder final.committedMoves 1 domainIds).card = (state.shardsUnder {} 1 domainIds).card - maxIterations := by
  have each : ∀ constraint ∈ [target], Potential order state holds
      ((Constraint.Arguments.drain .after 1 domainIds faultWeight).weighs state) := fun _ _ => weighs
  have performs : Traced.Performs (drainSearch state target domainIds faultWeight).machine movesOf _ _ {}
      (solve order state [target] maxIterations draws world) :=
    solve_performs each settled (fun _ listed => List.mem_singleton.mp listed ▸ begins) maxIterations draws
  have around := performs.results final returned
  obtain ⟨taken, counted⟩ := draining_after hierarchical positive performs.runs
  have here := around.reached
  rw [← here] at around taken counted
  refine ⟨taken, ?_⟩
  have settles : Traced.Satisfies _ _ (solve order state [target] maxIterations draws world) :=
    iterate_settles maxIterations (start world draws)
  obtain ⟨bounded, stuck⟩ := settles.2 final returned
  have begun : moved (start world draws).committedMoves = 0 := rfl
  rw [begun, Nat.zero_add] at bounded stuck
  have emptied : moved final.committedMoves < maxIterations → (state.shardsUnder final.committedMoves 1 domainIds).card = 0 := by
    intro early
    rw [Finset.card_eq_zero, Finset.eq_empty_iff_forall_notMem]
    intro shard left
    obtain ⟨_, binId, drained, under⟩ := Finset.mem_filter.mp left
    rw [nodeOver] at under
    cases next : final.committedMoves.getNextBin shard with
    | some nextBin =>
      rw [next, Option.some_or] at under
      cases under
      exact (taken shard binId next).2.1 drained
    | none =>
      rw [next, Option.none_or, hierarchical.parentOf_iff] at under
      have bin := inside shard binId under
      have occupied : shardsInBin state final.committedMoves binId ≠ [] := by
        apply List.ne_nil_of_mem (a := shard)
        rw [shardsInBin, List.mem_filter, hierarchical.binDomain]
        exact ⟨under, by simp [next]⟩
      have vain := stuck_placement each around (stuck early binId (hierarchical.binDomain ▸ bin) occupied)
      exact not_vain hierarchical positive few drained bin vain
  by_cases early : moved final.committedMoves < maxIterations
  · have none := emptied early
    omega
  · omega

/-- The assumptions that a search for a drain of bins alone needs. -/
structure DrainsBins (order : HashOrder) (state : SolvingState) (target : ι) (domainIds : List DomainId) (faultWeight : Int)
    (world : World ι Constraint) : Prop where
  hierarchical : state.Hierarchical
  positive : 0 < faultWeight
  inside : ∀ shard binId, shard ∈ state.assignmentTree.children 1 binId → binId < state.getDomainSize 1
  few : (drainedBins state domainIds).card ≤ min (state.getDomainSize 1 - 1) 50
  begins : ∃ holds, Potential order state holds ((Constraint.Arguments.drain .after 1 domainIds faultWeight).weighs state) ∧
    holds {} (world.objects target) ∧ (world.objects target).HasBin
  settled : world.binWeightInfo.clear = world.binWeightInfo

/-- On fair draws the search returns. -/
theorem DrainsBins.runs {world : World ι Constraint} (drains : DrainsBins order state target domainIds faultWeight world)
    (maxIterations : Nat) {draws : Nat → Nat} (fair : Fair (state.getDomainSize 1) draws) :
    ∃ enough, ∀ count, enough ≤ count → ∃ final,
      (solve order state [target] maxIterations ((List.range count).map draws) world).result = .ok final ∧
      (∀ shard binId, final.committedMoves.getNextBin shard = some binId →
        shard ∈ state.shardsUnder {} 1 domainIds ∧ binId ∉ domainIds ∧ binId < state.getDomainSize 1) ∧
      moved final.committedMoves = min maxIterations (state.shardsUnder {} 1 domainIds).card ∧
      (state.shardsUnder final.committedMoves 1 domainIds).card = (state.shardsUnder {} 1 domainIds).card - maxIterations := by
  obtain ⟨hierarchical, positive, inside, few, ⟨holds, weighs, begins, hasBin⟩, settled⟩ := drains
  have hasBins : HasBins [target] world := by
    intro constraint listed
    rw [List.mem_singleton.mp listed]
    exact hasBin
  rw [← hierarchical.binDomain] at fair
  obtain ⟨enough, returns⟩ := fair.returns order hierarchical.movementMap maxIterations hasBins
  refine ⟨enough, ?_⟩
  intro count more
  obtain ⟨final, returned⟩ := returns count more
  exact ⟨final, returned, drained hierarchical positive inside few weighs settled begins returned⟩

end DrainConstraint

variable {ι : Type} [DecidableEq ι]

/-- A drain of bins does what it is for. If it is the only constraint, and the search tries
for a shard at least as many bins as are drained, then on every sequence of draws in which each bin
keeps coming up `solve` returns with as many shards out of the drained bins as there
were, or as it has iterations; no other shard is moved, and none into a drained bin. -/
theorem DrainConstraint.solve_drains (shardInfoVector : List ShardInfo) (metricVectors : List (List MetricValue))
    (domainMapping : List (List (List DomainId))) (once : ListsOnce domainMapping) {state : SolvingState}
    (built : state = (SolvingState.new shardInfoVector metricVectors domainMapping).withEmptyMovementMap)
    (small : state.shards.card < 2147483648) (domainIds : List DomainId)
    (hasBin : (state.assignmentTree.createPartialTree 1 domainIds).HasBin)
    (few : (drainedBins state domainIds).card ≤ min (state.getDomainSize 1 - 1) 50) (faultWeight : Int) (positive : 0 < faultWeight)
    (constructorOrder : HashOrder) (info : BinWeightInfo) (constraint : DrainConstraint) (weights : BinWeightInfo)
    (made : DrainConstraint.new constructorOrder state .after 1 domainIds faultWeight info = .ok (constraint, weights))
    (order : HashOrder) (target : ι) (world : World ι Constraint) (placed : world.objects target = .drain constraint)
    (settled : world.binWeightInfo.clear = world.binWeightInfo) (maxIterations : Nat) (draws : Nat → Nat)
    (fair : Fair (state.getDomainSize 1) draws) :
    ∃ enough, ∀ count, enough ≤ count → ∃ final,
      (solve order state [target] maxIterations ((List.range count).map draws) world).result = .ok final ∧
      (∀ shard binId, final.committedMoves.getNextBin shard = some binId →
        shard ∈ state.shardsUnder {} 1 domainIds ∧ binId ∉ domainIds ∧ binId < state.getDomainSize 1) ∧
      moved final.committedMoves = min maxIterations (state.shardsUnder {} 1 domainIds).card ∧
      (state.shardsUnder final.committedMoves 1 domainIds).card = (state.shardsUnder {} 1 domainIds).card - maxIterations := by
  have hierarchical : state.Hierarchical := built ▸ hierarchical_new shardInfoVector metricVectors once
  have constructed : Constraint.new constructorOrder state info (.drain .after 1 domainIds faultWeight) =
      .ok (.drain constraint, weights) := by
    rw [Constraint.new, made]
    rfl
  have inside : ∀ shard binId, shard ∈ state.assignmentTree.children 1 binId → binId < state.getDomainSize 1 := by
    rw [built]
    exact fun shard binId listed => listed_inside shardInfoVector metricVectors once listed
  have drains : DrainsBins order state target domainIds faultWeight world := by
    refine ⟨hierarchical, positive, inside, few, ?_, settled⟩
    rw [placed]
    exact Constraint.Arguments.potential_drain order hierarchical small hasBin constructed
  exact drains.runs maxIterations fair

theorem DrainConstraint.solve_drains_twoBins :
    ∃ enough, ∀ count, enough ≤ count → ∃ final,
      (solve .insertion .twoBins [()] 5 ((List.range count).map id) drainedWorld).result = .ok final ∧ moved final.committedMoves = 3 ∧
      (SolvingState.twoBins.shardsUnder final.committedMoves 1 [0]).card = 0 := by
  obtain ⟨enough, drains⟩ := solve_drains [] [[5, 7, 9]] [[[0, 1, 2], []], [[0, 1]]] (by decide)
    (rfl : SolvingState.twoBins = _) (by decide +kernel) [0] (by decide +kernel) (by decide +kernel) 1 (by decide) .insertion .empty drainedBin.1 drainedBin.2
    (Checked.ok_get _ (by decide +kernel)) .insertion () drainedWorld rfl rfl 5 id (fair_id _)
  refine ⟨enough, ?_⟩
  intro count more
  obtain ⟨final, returned, _, some, none⟩ := drains count more
  have drained : (SolvingState.twoBins.shardsUnder {} 1 [0]).card = 3 := by decide +kernel
  rw [drained] at some none
  exact ⟨final, returned, some, none⟩

end ShardManager

import ShardManager.Proofs.Ledger
import ShardManager.Proofs.Loads

/-! The fault that a `MetricConstraint` records for a bin when it is constructed, beside
the exact one: where the 32-bit values on the way let them agree. -/

namespace ShardManager
open SparseMappingTree

private theorem toInt32_eq_iff_of_fits (value expected : Int) :
    toInt32 value = expected ↔ FitsInt32 expected ∧ 4294967296 ∣ value - expected := by
  constructor
  · rintro rfl
    refine ⟨toInt32_fits value, Int.ModEq.dvd ?_⟩
    rw [← toInt32_eq_iff, toInt32_toInt32]
  · rintro ⟨fits, divides⟩
    rw [← toInt32_of_fits fits, toInt32_eq_iff]
    exact (Int.modEq_iff_dvd.mpr divides).symm

namespace MetricConstraint

/-- The fault of a load without any rounding. -/
def exactFault (capacity faultWeight load : Int) : Int := max 0 (load - capacity) * faultWeight

/-- Where a fault is due, the load that is summed, kept in 32 bits, is above the capacity as
well, the product fits in 32 bits and is congruent to that of the load that is meant. Where
none is due, the load that is summed gives none, or one that is a multiple of `2 ^ 32`. -/
def FaultFits (capacity faultWeight summed load : Int) : Prop :=
  if capacity < load ∧ faultWeight ≠ 0 then
    capacity < toInt32 summed ∧ (load - capacity) * faultWeight < 2147483648 ∧ 4294967296 ∣ (summed - load) * faultWeight
  else toInt32 summed ≤ capacity ∨ 4294967296 ∣ (summed - capacity) * faultWeight

instance (capacity faultWeight summed load : Int) : Decidable (FaultFits capacity faultWeight summed load) := by
  unfold FaultFits
  infer_instance

variable {capacity faultWeight : Int}

private theorem exactFault_mono (nonneg : 0 ≤ faultWeight) {load more : Int} (less : load ≤ more) :
    exactFault capacity faultWeight load ≤ exactFault capacity faultWeight more :=
  Int.mul_le_mul_of_nonneg_right (max_le_max le_rfl (Int.sub_le_sub_right less capacity)) nonneg

private theorem dvd_toInt32_sub (summed : Int) (other : Int) :
    4294967296 ∣ (toInt32 summed - capacity) * faultWeight - other ↔ 4294967296 ∣ (summed - capacity) * faultWeight - other := by
  have wrapped : (4294967296 : Int) ∣ summed - toInt32 summed := by
    refine Int.ModEq.dvd ?_
    rw [← toInt32_eq_iff, toInt32_toInt32]
  have split : (summed - capacity) * faultWeight - other =
      (toInt32 summed - capacity) * faultWeight - other + (summed - toInt32 summed) * faultWeight := by ring
  rw [split, dvd_add_left (wrapped.mul_right faultWeight)]

/-- The fault of a 32-bit sum is the exact one exactly where the narrowing lets it be. -/
private theorem fault_eq_iff (nonneg : 0 ≤ faultWeight) (summed load : Int) :
    fault capacity faultWeight (toInt32 summed) = exactFault capacity faultWeight load ↔
      FaultFits capacity faultWeight summed load := by
  unfold fault exactFault FaultFits
  by_cases due : capacity < load ∧ faultWeight ≠ 0
  · have exceeds := due.1
    have positive : 0 < faultWeight := lt_of_le_of_ne nonneg (Ne.symm due.2)
    have owed : 0 < (load - capacity) * faultWeight := Int.mul_pos (Int.sub_pos_of_lt exceeds) positive
    have shifted : (summed - capacity) * faultWeight - (load - capacity) * faultWeight = (summed - load) * faultWeight := by ring
    rw [if_pos due, max_eq_right (Int.sub_nonneg_of_le (le_of_lt exceeds))]
    by_cases above : toInt32 summed > capacity
    · rw [if_pos above, toInt32_eq_iff_of_fits, dvd_toInt32_sub, shifted]
      have bounds : FitsInt32 ((load - capacity) * faultWeight) ↔ (load - capacity) * faultWeight < 2147483648 := by
        unfold FitsInt32
        omega
      rw [bounds]
      exact ⟨fun both => ⟨above, both⟩, And.right⟩
    · rw [if_neg above]
      exact iff_of_false (ne_of_lt owed) fun holds => above holds.1
  · have none : max 0 (load - capacity) * faultWeight = 0 := by
      by_cases exceeds : capacity < load
      · rw [not_not.mp fun weighs => due ⟨exceeds, weighs⟩, mul_zero]
      · rw [max_eq_left (by omega), zero_mul]
    rw [if_neg due, none]
    by_cases above : toInt32 summed > capacity
    · rw [if_pos above, toInt32_eq_iff_of_fits, dvd_toInt32_sub, sub_zero]
      have zero : FitsInt32 0 := by decide
      constructor
      · exact fun both => .inr both.2
      · rintro (below | divides)
        · exact absurd above (not_lt.mpr below)
        · exact ⟨zero, divides⟩
    · rw [if_neg above]
      exact iff_of_true rfl (.inl (not_lt.mp above))

end MetricConstraint

/-- A state with an empty movement map of its own, and the shards that one of its bins lists. -/
structure Places (state : SolvingState) (binId : DomainId) (shards : List DomainId) : Prop where
  built : ∃ shardInfoVector metricVectors domainMapping,
    state = (SolvingState.new shardInfoVector metricVectors domainMapping).withEmptyMovementMap
  listed : state.assignmentTree.children state.binDomain binId = shards
  occupied : shards ≠ []
  distinct : shards.Nodup

section OneBin
variable {state : SolvingState} {binId : DomainId} {shards : List DomainId}

theorem Places.domains (places : Places state binId shards) :
    state.shardDomain = 0 ∧ state.binDomain = 1 ∧ state.movementMap = some {} := by
  obtain ⟨_, _, _, rfl⟩ := places.built
  exact ⟨rfl, rfl, rfl⟩

/-- The part of a tree below a bin with shards has the row of the bin and no other. -/
private theorem partialTree_bin {tree : SparseMappingTree} (descends : Descends tree) (shardsAre : tree.shardDomain = 0)
    (binsAre : tree.binDomain = 1) (listed : tree.children 1 binId = shards) (occupied : shards ≠ []) (distinct : shards.Nodup) :
    Hierarchy (tree.createPartialTree 1 [binId]) ∧ (tree.createPartialTree 1 [binId]).children 1 binId = shards ∧
    ∀ node, (tree.createPartialTree 1 [binId]).Mapped node ↔ node = (1, binId) := by
  obtain ⟨_, nodes, _, copied, mem_nodes⟩ := createPartialTree_copies descends.acyclic 1 [binId]
  have isBin : ∀ node, node ∈ nodes ↔ node = (1, binId) := by
    intro node
    rw [mem_nodes]
    constructor
    · rintro ⟨below, mapped⟩
      rcases below.above descends with ⟨level, given⟩ | ⟨lower, _⟩
      · exact Prod.ext level (List.mem_singleton.mp given)
      · obtain ⟨childDomain, found⟩ := Option.isSome_iff_exists.mp mapped
        rw [descends _ _ found] at lower
        exact absurd lower (by simp)
    · rintro rfl
      refine ⟨.given (List.mem_singleton_self binId), Option.ne_none_iff_isSome.mp fun unmapped => ?_⟩
      rw [tree.children_of_unmapped unmapped] at listed
      exact occupied listed.symm
  have copies : Copies tree (tree.createPartialTree 1 [binId]) nodes := by
    refine copied ▸ copies_copyRows (fun node member => ((mem_nodes node).mp member).2) ?_
    intro domain child first second inFirst inSecond _ _
    have same := ((isBin _).mp inFirst).trans ((isBin _).mp inSecond).symm
    exact (Prod.ext_iff.mp same).2
  refine ⟨copies.hierarchy descends (by simp [shardsAre]) (by simp [binsAre]) fun node member => ?_, ?_, ?_⟩
  · rw [(isBin node).mp member]
    simp only
    rw [listed]
    exact distinct
  · rw [← listed]
    exact copies.children ((isBin (1, binId)).mpr rfl)
  · exact fun node => (copies.mapped_iff node).trans (isBin node)

theorem Places.part (places : Places state binId shards) :
    Hierarchy (state.assignmentTree.createPartialTree 1 [binId]) ∧
    (state.assignmentTree.createPartialTree 1 [binId]).children 1 binId = shards ∧
    ∀ node, (state.assignmentTree.createPartialTree 1 [binId]).Mapped node ↔ node = (1, binId) := by
  have listed := places.listed
  rw [places.domains.2.1] at listed
  obtain ⟨shardInfoVector, metricVectors, domainMapping, rfl⟩ := places.built
  obtain ⟨shardsAre, binsAre⟩ := SolvingState.new_domains shardInfoVector metricVectors domainMapping
  exact partialTree_bin (SolvingState.descends_new shardInfoVector metricVectors domainMapping) shardsAre binsAre listed
    places.occupied places.distinct

/-- Once a counter over bins is constructed, a bin with shards has the fault of their sum, kept
in 32 bits, and what has no row has none. -/
private theorem Counter.faults_constructed {weight : DomainId → Int} {counter : Counter} (additive : Additive state .after weight counter)
    (overBins : counter.domain = 1) (shardDomain : state.shardDomain = 0) (metrics : counter.metric = fun _ => none)
    (faults : counter.faults = fun _ => none) (order : HashOrder) {shardIds : List DomainId}
    (all : shardIds.Perm (counter.part.getAllDomainIds 0)) (info : BinWeightInfo) :
    (∀ binId, counter.part.children 1 binId ≠ [] → (counter.canaried order state [{}] shardIds info).1.committed.faults binId =
      some (counter.fault (toInt32 ((counter.part.children 1 binId).map weight).sum))) ∧
    ∀ binId, ¬ counter.part.Mapped (1, binId) → (counter.canaried order state [{}] shardIds info).1.committed.faults binId = none := by
  have hierarchy := additive.hierarchy
  have tallies := canaried_tallies order [{}] shardIds info hierarchy shardDomain additive.records additive.above
    (counter.tallies_empty metrics faults)
  have recorded : ∀ binId, (counter.canaried order state [{}] shardIds info).1.committed.faults binId =
      ((counter.canaried order state [{}] shardIds info).1.committed.metric (1, binId)).map counter.fault :=
    fun binId => overBins ▸ tallies.faults binId
  constructor
  · intro binId occupied
    have patched := canaried_patched order [{}] shardIds info hierarchy shardDomain additive.adds
    have entered := (entered_initial state hierarchy.grounded shardDomain all binId).mpr occupied
    have present := (canaried_bin order [{}] shardIds info hierarchy shardDomain binId).mpr (.inr entered)
    obtain ⟨value, found⟩ := Option.isSome_iff_exists.mp present
    have narrow := tallies.narrow (1, binId)
    have residue : ((((counter.canaried order state [{}] shardIds info).1.committed.metric (1, binId)).getD 0 : Int) : Residue) = _ :=
      patched.lowest binId
    have zero : counter.residues 0 binId = 0 := by simp [residues, metrics]
    rw [zero, zero_add, binChange_initial .after weight state hierarchy.grounded shardDomain all,
      List.sum_toFinset _ (hierarchy.nodup 1 binId)] at residue
    rw [found, Option.getD_some] at narrow residue
    have same : value = toInt32 ((counter.part.children 1 binId).map weight).sum :=
      eq_of_residue narrow (toInt32_fits _) (residue.trans (residue_toInt32 _).symm)
    rw [recorded, found, Option.map_some, same]
  · intro binId notMapped
    rw [recorded, tallies.unmapped _ notMapped, Option.map_none]

private theorem FaultMap.sum_single {map : FaultMap} {binId : DomainId} (others : ∀ other, other ≠ binId → map.get other = none) :
    FaultMap.sum map = (map.get binId).getD 0 :=
  finsum_eq_single _ binId fun other different => by rw [others other different]; rfl

variable (order : HashOrder) (metric : Metric) (capacity faultWeight : Int) (info : BinWeightInfo)

/-- What is recorded for the bin is the fault of the sum of the first metric, kept in 32 bits. -/
private theorem MetricConstraint.new_overBin (places : Places state binId shards) :
    ∃ constraint weights, new order state .after state.binDomain [binId] metric capacity faultWeight info = .ok (constraint, weights) ∧
      constraint.domainFaultMap.getFromCommittedMap binId =
        some (fault capacity faultWeight (toInt32 (shards.map (state.getShardMetric 0)).sum)) ∧
      weights.committedBinWeight binId =
        info.binWeight binId + fault capacity faultWeight (toInt32 (shards.map (state.getShardMetric 0)).sum) ∧
      weights.committedTotal = info.total + fault capacity faultWeight (toInt32 (shards.map (state.getShardMetric 0)).sum) := by
  obtain ⟨shardDomain, binDomain, movementMap⟩ := places.domains
  obtain ⟨hierarchy, children, mapped_iff⟩ := places.part
  rw [binDomain]
  obtain ⟨⟨constraint, weights⟩, made⟩ : ∃ result, new order state .after 1 [binId] metric capacity faultWeight info = .ok result := by
    rw [new, ExpressionTree.new_eq state (calculates state .after 1 metric capacity faultWeight)
      (state.assignmentTree.createPartialTree 1 [binId]) movementMap (resolves_unmoved _)]
    exact ⟨_, rfl⟩
  have constructed : Constraint.new order state info (.metric .after 1 [binId] metric capacity faultWeight) =
      .ok (.metric constraint, weights) := by
    rw [Constraint.new, made]
    rfl
  have additive : Additive state .after (state.getShardMetric 0) (newCounter state .after 1 [binId] capacity faultWeight) :=
    ⟨hierarchy, adds shardDomain binDomain .after 1 capacity faultWeight hierarchy, recordsValue .after 1 capacity faultWeight,
      by simp [newCounter]⟩
  have counted := (Constraint.counter_new movementMap (newCounter state .after 1 [binId] capacity faultWeight) rfl
    (resolves_unmoved _) constructed).1
  have all := order.ids_perm ((state.assignmentTree.createPartialTree 1 [binId]).getAllDomainIds state.shardDomain)
  rw [shardDomain] at counted all
  obtain ⟨present, absent⟩ := Counter.faults_constructed additive rfl shardDomain (funext fun _ => rfl) (funext fun _ => rfl) order
    all info
  have faults := congrArg Counter.faults (Option.some.inj counted)
  have recorded : constraint.domainFaultMap.getFromCommittedMap binId =
      some (fault capacity faultWeight (toInt32 (shards.map (state.getShardMetric 0)).sum)) := by
    have occupied : (newCounter state .after 1 [binId] capacity faultWeight).part.children 1 binId ≠ [] :=
      fun none => places.occupied (children.symm.trans none)
    rw [← children]
    exact (congrFun faults binId).trans (present binId occupied)
  have others : ∀ other, other ≠ binId → constraint.domainFaultMap.getFromCommittedMap other = none := by
    intro other different
    refine (congrFun faults other).trans (absent other fun mapped => different ?_)
    exact (Prod.ext_iff.mp ((mapped_iff (1, other)).mp mapped)).2
  have keeps : (Constraint.Arguments.metric .after 1 [binId] metric capacity faultWeight).KeepFaults := trivial
  obtain ⟨total, _, kept, cleared⟩ := (totalAccount state).new_share keeps constructed
  obtain ⟨bin, _⟩ := (binAccount state binId).new_share keeps constructed
  have shown : ∀ other, constraint.domainFaultMap.get other = constraint.domainFaultMap.getFromCommittedMap other := by
    intro other
    have same : constraint.domainFaultMap.clear = constraint.domainFaultMap := congrArg Constraint.domainFaultMap kept
    rw [← CommittableMap.get_clear, same]
  have share : FaultMap.sum constraint.domainFaultMap = fault capacity faultWeight (toInt32 (shards.map (state.getShardMetric 0)).sum) := by
    have single := FaultMap.sum_single fun other different => (shown other).trans (others other different)
    rw [single, shown, recorded, Option.getD_some]
  have ofBin : (if (1 : Domain) = state.binDomain then (constraint.domainFaultMap.get binId).getD 0 else 0) =
      fault capacity faultWeight (toInt32 (shards.map (state.getShardMetric 0)).sum) := by
    rw [if_pos binDomain.symm, shown, recorded, Option.getD_some]
  have domain : constraint.domain = 1 := congrArg Counter.domain (Option.some.inj counted)
  refine ⟨constraint, weights, made, recorded, ?_, ?_⟩
  · rw [← BinWeightInfo.binWeight_clear, cleared, ← ofBin, ← domain]
    exact bin
  · rw [← BinWeightInfo.total_clear, cleared, ← share]
    exact total

/-- Construction records the exact fault of a load for the bin, and adds it to the weights. -/
def MetricConstraint.RecordsExactly (order : HashOrder) (state : SolvingState) (binId : DomainId) (metric : Metric)
    (capacity faultWeight : Int) (info : BinWeightInfo) (load : Int) : Prop :=
  ∃ constraint weights, new order state .after state.binDomain [binId] metric capacity faultWeight info = .ok (constraint, weights) ∧
    constraint.domainFaultMap.getFromCommittedMap binId = some (exactFault capacity faultWeight load) ∧
    weights.committedBinWeight binId = info.binWeight binId + exactFault capacity faultWeight load ∧
    weights.committedTotal = info.total + exactFault capacity faultWeight load

private theorem MetricConstraint.recordsExactly_iff (places : Places state binId shards) {faultWeight : Int} (nonneg : 0 ≤ faultWeight)
    (load : Int) : RecordsExactly order state binId metric capacity faultWeight info load ↔
      FaultFits capacity faultWeight (shards.map (state.getShardMetric 0)).sum load := by
  obtain ⟨constraint, weights, made, recorded, bin, total⟩ := new_overBin order metric capacity faultWeight info places
  rw [← fault_eq_iff nonneg]
  constructor
  · rintro ⟨other, otherWeights, otherMade, exact, _⟩
    rw [made, Except.ok.injEq, Prod.mk.injEq] at otherMade
    rw [← otherMade.1, recorded, Option.some.injEq] at exact
    exact exact
  · intro same
    rw [same] at recorded bin total
    exact ⟨constraint, weights, made, recorded, bin, total⟩

/-- The fault of a bin is exact where the 32-bit values on the way let it be, and then a shard
that is added with a metric that is not negative does not lower it. -/
theorem MetricConstraint.exact_fault_iff (places : Places state binId shards) {faultWeight : Int} (nonneg : 0 ≤ faultWeight) :
    (RecordsExactly order state binId metric capacity faultWeight info (shards.map (state.getShardMetric metric)).sum ↔
      FaultFits capacity faultWeight (shards.map (state.getShardMetric 0)).sum (shards.map (state.getShardMetric metric)).sum) ∧
    ∀ (other : SolvingState) (extra : DomainId), Places other binId (shards ++ [extra]) →
      (∀ shard ∈ shards, other.getShardMetric metric shard = state.getShardMetric metric shard) →
      0 ≤ other.getShardMetric metric extra →
      FaultFits capacity faultWeight (shards.map (state.getShardMetric 0)).sum (shards.map (state.getShardMetric metric)).sum →
      FaultFits capacity faultWeight ((shards ++ [extra]).map (other.getShardMetric 0)).sum
        ((shards ++ [extra]).map (other.getShardMetric metric)).sum →
      ∃ load more, RecordsExactly order state binId metric capacity faultWeight info load ∧
        RecordsExactly order other binId metric capacity faultWeight info more ∧
        exactFault capacity faultWeight load ≤ exactFault capacity faultWeight more := by
  refine ⟨recordsExactly_iff order metric capacity info places nonneg _, ?_⟩
  intro other extra otherPlaces same more fits otherFits
  refine ⟨_, _, (recordsExactly_iff order metric capacity info places nonneg _).mpr fits,
    (recordsExactly_iff order metric capacity info otherPlaces nonneg _).mpr otherFits, exactFault_mono nonneg ?_⟩
  rw [List.map_append, List.sum_append, List.map_congr_left same]
  simpa using more

end OneBin

namespace MetricConstraint

def fullBin : SolvingState := (SolvingState.new [] [[2147483647]] [[[0]]]).withEmptyMovementMap

private theorem places_fullBin : Places fullBin 0 [0] := ⟨⟨_, _, _, rfl⟩, by decide, by simp, by simp⟩

def overfullBin : SolvingState := (SolvingState.new [] [[2147483647, 0]] [[[0, 1]]]).withEmptyMovementMap

private theorem places_overfullBin : Places overfullBin 0 ([0] ++ [1]) := ⟨⟨_, _, _, rfl⟩, by decide, by simp, by simp⟩

theorem exact_fault_fullBin :
    (RecordsExactly .insertion fullBin 0 0 7 1 .empty ([0].map (fullBin.getShardMetric 0)).sum ↔
      FaultFits 7 1 ([0].map (fullBin.getShardMetric 0)).sum ([0].map (fullBin.getShardMetric 0)).sum) ∧
    ∃ load more, RecordsExactly .insertion fullBin 0 0 7 1 .empty load ∧ RecordsExactly .insertion overfullBin 0 0 7 1 .empty more ∧
      exactFault 7 1 load ≤ exactFault 7 1 more := by
  obtain ⟨exact, mono⟩ := exact_fault_iff .insertion 0 7 .empty places_fullBin (show (0 : Int) ≤ 1 by decide)
  exact ⟨exact, mono overfullBin 1 places_overfullBin (by decide) (by decide) (by decide) (by decide)⟩

/-- A fault of 4294967294 is recorded as -2. -/
theorem narrowed_fault : ¬ RecordsExactly .insertion fullBin 0 0 0 2 .empty ([0].map (fullBin.getShardMetric 0)).sum := by
  rw [recordsExactly_iff .insertion 0 0 .empty places_fullBin (by decide)]
  decide

end MetricConstraint
end ShardManager

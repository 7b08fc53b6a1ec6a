import ShardManager.Lib.EventRun
import ShardManager.Proofs.Loads
import ShardManager.Proofs.Reassignment

/-! The loads that `MetricConstraint` keeps over bins, for every consistency, against the
sums over the shards that count. An update adds or takes off whole metrics, whether or
not a shard counted before, and what this leaves over is the same after any run. -/

namespace ShardManager
open SparseMappingTree IterativeLocalSearch

/-- The load of a bin by its definition: the sum over the distinct shards that count for it. -/
def definedLoad (state : SolvingState) (tree : SparseMappingTree) (consistency : MovementConsistency)
    (movementMaps : List MovementMapPtr) (binId : DomainId) : Except Fault Int := do
  let (_, children) ← tree.getChildren state.binDomain binId movementMaps
  children.dedup.foldlM (fun load child => do
    let counts ← shouldConsiderShard consistency movementMaps child binId
    pure (if counts then load + state.getShardMetric 0 child else load)) 0

namespace MetricConstraint

/-- The committed moves, and the constraint as the moves since its construction left it. -/
structure Progress where
  committedMoves : MovementMap
  constraint : MetricConstraint

/-- A move of a shard is canaried, and committed or not. -/
inductive Progress.Step (state : SolvingState) (before : Progress) : Progress → Prop
  | canary {order : HashOrder} {shard nextBin : DomainId} {info final : BinWeightInfo} {view : MetricConstraint}
      (candidate : Candidate state before.committedMoves shard nextBin)
      (canaried : before.constraint.canaryMoves order state (some before.committedMoves) (some (.addMovement {} shard nextBin)) info =
        .ok (view, final)) :
      Step state before ⟨before.committedMoves, view⟩
  | commit {order : HashOrder} {shard nextBin : DomainId} {info final : BinWeightInfo} {view : MetricConstraint}
      (candidate : Candidate state before.committedMoves shard nextBin)
      (canaried : before.constraint.canaryMoves order state (some before.committedMoves) (some (.addMovement {} shard nextBin)) info =
        .ok (view, final)) :
      Step state before ⟨before.committedMoves.addMovements (.addMovement {} shard nextBin), view.commitMoves⟩

end MetricConstraint

section Shares
variable (state : SolvingState) (consistency : MovementConsistency) (weight : DomainId → Int) (moves : MovementMap)
  (binId : DomainId)

def countsAfter (shard : DomainId) : Bool :=
  match moves.getNextBin shard with
  | none => shouldConsider consistency true false
  | some nextBin => shouldConsider consistency (decide (nextBin = binId)) true

/-- The sum over the shards that a bin lists or that move to it, and that count for it. -/
def countedLoad : Int :=
  ∑ shard ∈ state.shards with (shard ∈ state.assignmentTree.children 1 binId ∨ moves.getNextBin shard = some binId) ∧
    countsAfter consistency moves binId shard = true, weight shard

/-- Whether the metric of a shard is left over at a bin. -/
def leftOver (shard : DomainId) : Bool :=
  match consistency with
  | .before => shard ∈ state.assignmentTree.children 1 binId ∨ moves.getNextBin shard = some binId
  | .after => false
  | .both => shard ∈ state.assignmentTree.children 1 binId ∧ (moves.getNextBin shard).isSome
  | .during => shard ∈ state.assignmentTree.children 1 binId

/-- The metrics that updates leave over at a bin: they count what the constructor saw and
never take it back, and add what leaves once more. -/
def surplus : Int := ∑ shard ∈ state.shards with leftOver state consistency moves binId shard = true, weight shard

/-- What the updates have made of the metric of a shard. -/
def keptShare (shard : DomainId) : Int :=
  (if shard ∈ state.assignmentTree.children 1 binId then signed (shouldConsider consistency true false) (weight shard) +
      if (moves.getNextBin shard).isSome then signed (shouldConsider consistency false true) (weight shard) else 0
    else 0) +
  if moves.getNextBin shard = some binId then signed (shouldConsider consistency true true) (weight shard) else 0

def keptLoad : Int := ∑ shard ∈ state.shards, keptShare state consistency weight moves binId shard

variable {state consistency weight moves binId}

/-- What is kept differs from the load by what is left over. -/
private theorem keptLoad_eq (away : ∀ shard ∈ state.assignmentTree.children 1 binId, moves.getNextBin shard ≠ some binId) :
    keptLoad state consistency weight moves binId = countedLoad state consistency weight moves binId +
      (if consistency = .both then 1 else -1) * surplus state consistency weight moves binId := by
  rw [keptLoad, countedLoad, surplus, Finset.sum_filter, Finset.sum_filter, Finset.mul_sum, ← Finset.sum_add_distrib]
  refine Finset.sum_congr rfl fun shard _ => ?_
  have stays := away shard
  unfold keptShare countsAfter leftOver
  by_cases listed : shard ∈ state.assignmentTree.children 1 binId
  · cases next : moves.getNextBin shard with
    | none => cases consistency <;> simp [listed, signed, shouldConsider]
    | some nextBin =>
      have apart : nextBin ≠ binId := by
        rintro rfl
        exact stays listed next
      cases consistency <;> simp [listed, apart, signed, shouldConsider]
  · cases next : moves.getNextBin shard with
    | none => cases consistency <;> simp [listed]
    | some nextBin =>
      by_cases arrives : nextBin = binId <;> cases consistency <;> simp [listed, arrives, signed, shouldConsider]

section Candidate
variable {part : SparseMappingTree} {domain : Domain} {treeParents : List DomainId} {shard nextBin : DomainId}

/-- A candidate shifts what is kept as the update of the bin does. -/
private theorem keptLoad_candidate (hierarchical : state.Hierarchical) (candidate : Candidate state moves shard nextBin)
    (same : part.children 1 binId = state.assignmentTree.children 1 binId) (row : (part.parentToChildMap.row 1 binId).isSome) :
    keptLoad state consistency weight (moves.addMovements (.addMovement {} shard nextBin)) binId =
      keptLoad state consistency weight moves binId + shift consistency weight part shard nextBin binId := by
  obtain ⟨former, listed, different⟩ := candidate.listed
  rw [hierarchical.binDomain] at listed
  have present := SolvingState.mem_shards hierarchical listed
  have others : ∀ other ∈ state.shards.erase shard,
      keptShare state consistency weight (moves.addMovements (.addMovement {} shard nextBin)) binId other =
        keptShare state consistency weight moves binId other := by
    intro other member
    simp [keptShare, Finset.ne_of_mem_erase member]
  have own : keptShare state consistency weight (moves.addMovements (.addMovement {} shard nextBin)) binId shard =
      keptShare state consistency weight moves binId shard + shift consistency weight part shard nextBin binId := by
    simp only [keptShare, shift, same, row, candidate.unmoved, MovementMap.next_addMovements, MovementMap.next_addMovement]
    by_cases here : shard ∈ state.assignmentTree.children 1 binId
    · have home : ((1, binId) : Node) = (1, former) := hierarchical.hierarchy.unique rfl rfl here listed
      have away : nextBin ≠ binId := by
        cases home
        exact different
      simp [here, away, Ne.symm away]
    · by_cases arrives : nextBin = binId
      · simp [here, arrives]
      · simp [here, arrives, Ne.symm arrives]
  rw [keptLoad, keptLoad, ← Finset.add_sum_erase _ _ present, ← Finset.add_sum_erase _ _ present,
    Finset.sum_congr rfl others, own]
  ring

private theorem counted_candidate (unmoved : moves.getNextBin shard = none) (child : DomainId) :
    counted consistency [{}, moves, .addMovement {} shard nextBin] child binId =
      countsAfter consistency (moves.addMovements (.addMovement {} shard nextBin)) binId child := by
  rw [countsAfter, MovementMap.next_addMovements, MovementMap.next_addMovement, MovementMap.next_empty]
  by_cases same : child = shard
  · subst same
    by_cases here : nextBin = binId <;> simp [counted, scanMaps, unmoved, here]
  · cases moved : moves.getNextBin child with
    | none => simp [counted, scanMaps, moved, same]
    | some former => by_cases here : former = binId <;> simp [counted, scanMaps, moved, same, here]

private theorem foldl_counting {α : Type} (counts : α → Bool) (value : α → Int) (items : List α) (load : Int) :
    items.foldl (fun load item => if counts item then load + value item else load) load =
      load + ((items.filter counts).map value).sum := by
  induction items generalizing load with
  | nil => simp
  | cons item items ih =>
    rw [List.foldl_cons, ih, List.filter_cons]
    split
    · rw [List.map_cons, List.sum_cons, add_assoc]
    · rfl

/-- The load of a bin by its definition, in the canary view of a candidate. -/
private theorem definedLoad_eq (hierarchical : state.Hierarchical) (isPart : Part state.assignmentTree part domain treeParents)
    (valid : ValidReassignment state moves) (candidate : Candidate state moves shard nextBin)
    (row : (part.parentToChildMap.row 1 binId).isSome) :
    definedLoad state part consistency ([{}, moves, .addMovement {} shard nextBin].map some) binId =
      .ok (countedLoad state consistency (state.getShardMetric 0) (moves.addMovements (.addMovement {} shard nextBin)) binId) := by
  have bins := hierarchical.binDomain
  have inPart : part.Mapped (1, binId) := part.mapped_of_row row
  obtain ⟨childDomain, mapped⟩ := Option.isSome_iff_exists.mp inPart.1
  have members : ∀ child, child ∈ part.childNodes (1, binId) [{}, moves, .addMovement {} shard nextBin] ↔
      child ∈ state.assignmentTree.children 1 binId ∨
        (moves.addMovements (.addMovement {} shard nextBin)).getNextBin child = some binId := by
    intro child
    have children : part.children 1 binId = state.assignmentTree.children 1 binId := by
      rw [children_bin isPart, if_pos row]
    rw [← children]
    exact valid.mem_childNodes candidate isPart.hierarchy.bins binId child
  have present : ∀ child, child ∈ part.childNodes (1, binId) [{}, moves, .addMovement {} shard nextBin] → child ∈ state.shards := by
    intro child member
    obtain home | moved := (members child).mp member
    · exact SolvingState.mem_shards hierarchical home
    · obtain ⟨former, listed, _⟩ := (valid.add candidate).moved child binId moved
      rw [Listed, bins] at listed
      exact SolvingState.mem_shards hierarchical listed
  rw [definedLoad, bins, part.getChildren_eq (1, binId) _ mapped row, Checked.ok_bind]
  simp only
  have counting : ∀ load : Int, ∀ child ∈ (part.childNodes (1, binId) [{}, moves, .addMovement {} shard nextBin]).dedup,
      (do
        let counts ← shouldConsiderShard consistency ([{}, moves, .addMovement {} shard nextBin].map some) child binId
        pure (if counts then load + state.getShardMetric 0 child else load) : Except Fault Int) =
      .ok (if counted consistency [{}, moves, .addMovement {} shard nextBin] child binId then
        load + state.getShardMetric 0 child else load) := by
    intro load child _
    rw [shouldConsiderShard_eq, Checked.ok_bind]
    rfl
  rw [Checked.foldlM_ok 0 counting, foldl_counting, zero_add, ← List.sum_toFinset _ ((List.nodup_dedup _).filter _), countedLoad]
  refine congrArg Except.ok (Finset.sum_congr (Finset.ext fun child => ?_) fun _ _ => rfl)
  rw [List.mem_toFinset, List.mem_filter, List.mem_dedup, Finset.mem_filter, counted_candidate candidate.unmoved, members]
  exact ⟨fun counts => ⟨present child ((members child).mpr counts.1), counts⟩, And.right⟩

end Candidate

/-- The counter of a constraint over bins, as canaries and commits leave it. -/
structure KeepsLoad (state : SolvingState) (consistency : MovementConsistency) (weight : DomainId → Int) (first : Counter)
    (moves : MovementMap) (counter : Counter) : Prop where
  same : SameKind first counter
  tallies : counter.Tallies
  bins : ∀ binId, (counter.part.parentToChildMap.row 1 binId).isSome →
    counter.residues 0 binId = (keptLoad state consistency weight moves binId : Int)

section Counter
variable {first counter : Counter} {domain : Domain} {treeParents : List DomainId}

private theorem keptLoad_initial (hierarchical : state.Hierarchical) : keptLoad state consistency weight {} binId =
    ∑ shard ∈ (state.assignmentTree.children 1 binId).toFinset, signed (shouldConsider consistency true false) (weight shard) := by
  have inside : (state.assignmentTree.children 1 binId).toFinset ⊆ state.shards :=
    fun shard member => SolvingState.mem_shards hierarchical (List.mem_toFinset.mp member)
  rw [← Finset.inter_eq_right.mpr inside, ← Finset.filter_mem_eq_inter, Finset.sum_filter]
  refine Finset.sum_congr rfl fun shard _ => ?_
  simp [keptShare]

private theorem keepsLoad_new (order : HashOrder) (info : BinWeightInfo) (hierarchical : state.Hierarchical)
    (additive : Additive state consistency weight counter) (isPart : Part state.assignmentTree counter.part domain treeParents)
    (metrics : counter.metric = fun _ => none) (faults : counter.faults = fun _ => none) :
    KeepsLoad state consistency weight counter {} (counter.canaried order state [{}]
      (order.ids (counter.part.getAllDomainIds state.shardDomain)) info).1.committed := by
  have shards := hierarchical.shardDomain
  have empty := counter.tallies_empty metrics faults
  refine ⟨⟨rfl, rfl, rfl, rfl⟩,
    Counter.canaried_tallies order _ _ info additive.hierarchy shards additive.records additive.above empty, ?_⟩
  intro binId row
  have patched := Counter.canaried_patched order [{}] (order.ids (counter.part.getAllDomainIds state.shardDomain)) info
    additive.hierarchy shards additive.adds
  have zero : counter.residues 0 binId = 0 := by simp [Counter.residues, metrics]
  have row : (counter.part.parentToChildMap.row 1 binId).isSome := row
  rw [patched.lowest, zero, zero_add, shards,
    binChange_initial consistency weight state additive.hierarchy.grounded shards (order.ids_perm _), children_bin isPart,
    if_pos row, keptLoad_initial hierarchical]

/-- A candidate, once committed, keeps what its update makes of the loads. -/
theorem KeepsLoad.candidate (keeps : KeepsLoad state consistency weight first moves counter) (hierarchical : state.Hierarchical)
    (additive : Additive state consistency weight first) (isPart : Part state.assignmentTree first.part domain treeParents)
    {shard nextBin : DomainId} (candidate : Candidate state moves shard nextBin) (order : HashOrder) (info : BinWeightInfo) :
    KeepsLoad state consistency weight first (moves.addMovements (.addMovement {} shard nextBin))
      (counter.canaried order state [{}, moves, .addMovement {} shard nextBin] (order.ids [shard]) info).1.committed := by
  have shards := hierarchical.shardDomain
  have additive := keeps.same.additive additive
  refine ⟨keeps.same.canaried _ _ _ _,
    Counter.canaried_tallies order _ _ info additive.hierarchy shards additive.records additive.above keeps.tallies, ?_⟩
  intro binId row
  have row : (counter.part.parentToChildMap.row 1 binId).isSome := row
  have same : counter.part.children 1 binId = state.assignmentTree.children 1 binId := by
    rw [children_bin (keeps.same.part ▸ isPart), if_pos row]
  have patched := Counter.canaried_patched order [{}, moves, .addMovement {} shard nextBin] (order.ids [shard]) info
    additive.hierarchy shards additive.adds
  rw [patched.lowest, keeps.bins binId row, order.ids_singleton,
    binChange_moved consistency weight state candidate.moved additive.hierarchy.grounded shards,
    keptLoad_candidate hierarchical candidate same row]
  simp

theorem KeepsLoad.rejected {view : Counter} (keeps : KeepsLoad state consistency weight first moves counter)
    (same : SameKind counter view) (metrics : view.metric = counter.metric) (faults : view.faults = counter.faults) :
    KeepsLoad state consistency weight first moves view := by
  refine ⟨keeps.same.trans same, ?_, ?_⟩
  · rw [Counter.Tallies, same.part, same.domain, same.fault, metrics, faults]
    exact keeps.tallies
  · intro binId row
    rw [Counter.residues, metrics]
    exact keeps.bins binId (same.part ▸ row)

end Counter
end Shares

namespace MetricConstraint
variable {state : SolvingState} {consistency : MovementConsistency} {first counter : Counter} {treeParents : List DomainId}
  {constraint view : MetricConstraint} {moves : MovementMap} {shard nextBin : DomainId} {order : HashOrder}
  {info final : BinWeightInfo}

/-- What a canary makes of a constraint whose counter is known, before and after its commit. -/
private theorem canaried_keeps (hierarchical : state.Hierarchical) (additive : Additive state consistency (state.getShardMetric 0) first)
    (isPart : Part state.assignmentTree first.part 1 treeParents) (hasBin : first.part.HasBin)
    (found : (Constraint.metric constraint).counter state = some counter)
    (keeps : KeepsLoad state consistency (state.getShardMetric 0) first moves counter)
    (candidate : Candidate state moves shard nextBin)
    (canaried : constraint.canaryMoves order state (some moves) (some (.addMovement {} shard nextBin)) info = .ok (view, final)) :
    (∃ rejected, (Constraint.metric view).counter state = some rejected ∧
      KeepsLoad state consistency (state.getShardMetric 0) first moves rejected) ∧
    ∃ accepted, (Constraint.metric view.commitMoves).counter state = some accepted ∧
      KeepsLoad state consistency (state.getShardMetric 0) first (moves.addMovements (.addMovement {} shard nextBin)) accepted := by
  have lifted : ConstraintOps.canaryMoves order state (some moves) (some (.addMovement {} shard nextBin))
      (Constraint.metric constraint) info = .ok (.metric view, final) := by
    change Constraint.canaryMoves _ _ _ _ _ _ = _
    rw [Constraint.canaryMoves, canaried]
    rfl
  have viewed := (Constraint.counter_canaryMoves hierarchical.movementMap found (keeps.same.part ▸ hasBin) lifted).1
  have unchanged := (MetricConstraint.rollback_canaryMoves canaried).1
  cases found
  constructor
  · refine ⟨_, rfl, keeps.rejected (Option.some.inj viewed ▸ ⟨rfl, rfl, rfl, rfl⟩) ?_ ?_⟩
    · funext node
      have same := congrArg (fun constraint => constraint.expressionTree.metricsMap.get node) unchanged
      simp only [MetricConstraint.rollback, ExpressionTree.rollback, CommittableMap.get_clear] at same
      exact same
    · funext domainId
      have same := congrArg (fun constraint => constraint.domainFaultMap.get domainId) unchanged
      simp only [MetricConstraint.rollback, CommittableMap.get_clear] at same
      exact same
  · have committed : (Constraint.metric view.commitMoves).counter state = _ := Constraint.counter_commitMoves (.metric view)
    rw [viewed, Option.map_some] at committed
    exact ⟨_, committed, keeps.candidate hierarchical additive isPart candidate order info⟩

def Progress.Keeps (state : SolvingState) (consistency : MovementConsistency) (first : Counter) (progress : Progress) : Prop :=
  ValidReassignment state progress.committedMoves ∧ ∃ counter, (Constraint.metric progress.constraint).counter state = some counter ∧
    KeepsLoad state consistency (state.getShardMetric 0) first progress.committedMoves counter

theorem Progress.Step.keeps (hierarchical : state.Hierarchical)
    (additive : Additive state consistency (state.getShardMetric 0) first)
    (isPart : Part state.assignmentTree first.part 1 treeParents) (hasBin : first.part.HasBin) {before after : Progress}
    (held : before.Keeps state consistency first) (step : Step state before after) : after.Keeps state consistency first := by
  obtain ⟨valid, counter, found, keeps⟩ := held
  cases step with
  | canary candidate canaried =>
    exact ⟨valid, (canaried_keeps hierarchical additive isPart hasBin found keeps candidate canaried).1⟩
  | commit candidate canaried =>
    exact ⟨valid.add candidate, (canaried_keeps hierarchical additive isPart hasBin found keeps candidate canaried).2⟩

/-- What is left over of whole metrics decides whether a bin's value is its load. -/
private theorem keptLoad_iff {weight : DomainId → Int} {binId : DomainId} {value : Option Int} (narrow : FitsInt32 (value.getD 0))
    (kept : ((value.getD 0 : Int) : Residue) = (keptLoad state consistency weight moves binId : Int))
    (away : ∀ shard ∈ state.assignmentTree.children 1 binId, moves.getNextBin shard ≠ some binId)
    (fits : FitsInt32 (countedLoad state consistency weight moves binId)) :
    value.getD 0 = countedLoad state consistency weight moves binId ↔
      toInt32 (surplus state consistency weight moves binId) = 0 := by
  rw [keptLoad_eq away] at kept
  push_cast at kept
  have none : toInt32 (surplus state consistency weight moves binId) = 0 ↔
      ((surplus state consistency weight moves binId : Int) : Residue) = 0 := by
    have zero := toInt32_eq_iff_residue (surplus state consistency weight moves binId) 0
    rwa [toInt32_zero, Int.cast_zero] at zero
  rw [none]
  constructor
  · intro same
    rw [same, left_eq_add] at kept
    split at kept
    · simpa using kept
    · simpa using kept
  · intro none
    refine eq_of_residue narrow fits ?_
    rw [kept, none, mul_zero, add_zero]

/-- After every canary, the value of a listed bin is the sum over the shards that count
for it exactly if the metrics left over there add up to 0. -/
theorem canaried_load_iff (shardInfoVector : List ShardInfo) (metricVectors : List (List MetricValue))
    (domainMapping : List (List (List DomainId))) (once : SolvingState.ListsOnce domainMapping)
    (built : state = (SolvingState.new shardInfoVector metricVectors domainMapping).withEmptyMovementMap)
    (constructorOrder : HashOrder) (domainIds : List DomainId) (metric : Metric) (capacity faultWeight : Int)
    {start weights : BinWeightInfo}
    (made : MetricConstraint.new constructorOrder state consistency 1 domainIds metric capacity faultWeight start =
      .ok (constraint, weights))
    {progress : Progress} (reached : Reachable (· = ⟨{}, constraint⟩) (Progress.Step state) progress)
    (candidate : Candidate state progress.committedMoves shard nextBin)
    (canaried : progress.constraint.canaryMoves order state (some progress.committedMoves) (some (.addMovement {} shard nextBin)) info =
      .ok (view, final))
    {binId : DomainId} (listed : binId ∈ domainIds) :
    ∃ load, definedLoad state view.expressionTree.assignmentTree consistency
        ([{}, progress.committedMoves, .addMovement {} shard nextBin].map some) binId = .ok load ∧
      (FitsInt32 load → ((view.expressionTree.metricsMap.get (1, binId)).getD 0 = load ↔
        toInt32 (surplus state consistency (state.getShardMetric 0)
          (progress.committedMoves.addMovements (.addMovement {} shard nextBin)) binId) = 0)) := by
  have hierarchical : state.Hierarchical := built ▸ SolvingState.hierarchical_new shardInfoVector metricVectors once
  have isPart := createPartialTree_part hierarchical.hierarchy 1 domainIds
  -- the candidate's shard is listed by a bin, so the bins are mapped
  have mapped : (state.assignmentTree.getChildDomain 1).isSome := by
    obtain ⟨former, placed, _⟩ := candidate.listed
    rw [hierarchical.binDomain] at placed
    have parent := (hierarchical.hierarchy.parents 0 shard (1, former)).mpr ⟨rfl, placed⟩
    rw [(mapped_of_mem_staticParents _ parent).1]
    rfl
  have inPart : (state.assignmentTree.createPartialTree 1 domainIds).Mapped (1, binId) := (isPart.given binId).mpr ⟨listed, mapped⟩
  have hasBin : (state.assignmentTree.createPartialTree 1 domainIds).HasBin := by
    rw [HasBin, row_mapped, isPart.hierarchy.bins]
    exact inPart.1
  have additive := newCounter_additive domainIds hierarchical consistency capacity faultWeight Nat.one_ne_zero
  have keeps : progress.Keeps state consistency (newCounter state consistency 1 domainIds capacity faultWeight) := by
    refine reached.invariant ?_ fun before after held step => step.keeps hierarchical additive isPart hasBin held
    rintro _ rfl
    have constructed : Constraint.new constructorOrder state start
        (.metric consistency 1 domainIds metric capacity faultWeight) = .ok (.metric constraint, weights) := by
      rw [Constraint.new, made]
      rfl
    obtain ⟨found, _⟩ := Constraint.counter_new hierarchical.movementMap
      (newCounter state consistency 1 domainIds capacity faultWeight) rfl (hasBin.resolves _) constructed
    exact ⟨.empty, _, found,
      keepsLoad_new constructorOrder start hierarchical additive isPart (funext fun _ => rfl) (funext fun _ => rfl)⟩
  obtain ⟨valid, counter, found, held⟩ := keeps
  obtain ⟨accepted, committed, kept⟩ := (canaried_keeps hierarchical additive isPart hasBin found held candidate canaried).2
  cases committed
  have part : view.expressionTree.assignmentTree = state.assignmentTree.createPartialTree 1 domainIds := kept.same.part
  have bin : (((view.expressionTree.metricsMap.commit.getFromCommittedMap (1, binId)).getD 0 : Int) : Residue) = _ :=
    kept.bins binId (by rw [kept.same.part]; exact inPart.2)
  have narrow : FitsInt32 ((view.expressionTree.metricsMap.commit.getFromCommittedMap (1, binId)).getD 0) :=
    kept.tallies.narrow (1, binId)
  rw [CommittableMap.committed_commit] at bin narrow
  rw [part, definedLoad_eq hierarchical isPart valid candidate inPart.2]
  refine ⟨_, rfl, keptLoad_iff narrow bin ?_⟩
  intro other placed moved
  obtain ⟨former, elsewhere, different⟩ := (valid.add candidate).moved other binId moved
  rw [Listed, hierarchical.binDomain] at elsewhere
  have same : ((1, former) : Node) = (1, binId) := hierarchical.hierarchy.unique rfl rfl elsewhere placed
  exact different (congrArg Prod.snd same)

def stayingBin : MetricConstraint × BinWeightInfo :=
  (new .insertion .twoBins .before 1 [0] 0 10 1 .empty).toOption.get (by decide +kernel)

def leavingShard : MetricConstraint × BinWeightInfo :=
  (canaryMoves .insertion .twoBins (some {}) (some (.addMovement {} 0 1)) stayingBin.1 stayingBin.2.clear).toOption.get
    (by decide +kernel)

theorem canaried_load_twoBins :
    ∃ load, definedLoad .twoBins leavingShard.1.expressionTree.assignmentTree .before
        ([{}, {}, .addMovement {} 0 1].map some) 0 = .ok load ∧
      (FitsInt32 load → ((leavingShard.1.expressionTree.metricsMap.get (1, 0)).getD 0 = load ↔
        toInt32 (surplus .twoBins .before (SolvingState.twoBins.getShardMetric 0)
          (MovementMap.addMovements {} (.addMovement {} 0 1)) 0) = 0)) := by
  have made : new .insertion .twoBins .before 1 [0] 0 10 1 .empty = .ok (stayingBin.1, stayingBin.2) :=
    Checked.ok_get _ (by decide +kernel)
  have start : Reachable (· = ⟨{}, stayingBin.1⟩) (Progress.Step .twoBins) ⟨{}, stayingBin.1⟩ := .start rfl
  have candidate : Candidate .twoBins {} 0 1 := ⟨⟨0, by decide, by decide⟩, rfl, by decide⟩
  have canaried : canaryMoves .insertion .twoBins (some {}) (some (.addMovement {} 0 1)) stayingBin.1 stayingBin.2.clear =
      .ok (leavingShard.1, leavingShard.2) := Checked.ok_get _ (by decide +kernel)
  exact canaried_load_iff [] [[5, 7, 9]] [[[0, 1, 2], []], [[0, 1]]] (by decide) rfl .insertion [0] 0 10 1 made start candidate
    canaried (by simp)

/-- The shard that leaves is all that counts, but the shards that stay were taken off. -/
theorem staying_metrics_taken_off :
    definedLoad .twoBins leavingShard.1.expressionTree.assignmentTree .before ([{}, {}, .addMovement {} 0 1].map some) 0 =
      .ok 5 ∧
    leavingShard.1.expressionTree.metricsMap.get (1, 0) = some (-16) := by
  decide +kernel

end MetricConstraint
end ShardManager

import ShardManager.Proofs.Loads

/-! `MetricConstraint` with consistency `AFTER`: the loads it keeps by patching are
those recomputed from the initial assignment and the committed moves. -/

namespace ShardManager
open SparseMappingTree IterativeLocalSearch

/-- The committed version of a constraint over the given nodes shows the loads after
the moves, as far as they fit in 32 bits, and the faults these loads have. -/
structure MetricConstraint.ShowsLoads (state : SolvingState) (domain : Domain) (domainIds : List DomainId)
    (capacity faultWeight : Int) (moves : MovementMap) (constraint : MetricConstraint) : Prop where
  tree : constraint.expressionTree.assignmentTree = state.assignmentTree.createPartialTree domain domainIds
  values : ∀ node, (state.assignmentTree.createPartialTree domain domainIds).Contains node →
    FitsInt32 (state.load (state.getShardMetric 0) moves node) →
      (constraint.expressionTree.metricsMap.getFromCommittedMap node).getD 0 = state.load (state.getShardMetric 0) moves node
  faults : ∀ domainId ∈ domainIds, FitsInt32 (state.load (state.getShardMetric 0) moves (domain, domainId)) →
    (constraint.domainFaultMap.getFromCommittedMap domainId).getD 0 =
      fault capacity faultWeight (state.load (state.getShardMetric 0) moves (domain, domainId))

section Metric
variable {state : SolvingState} {domain : Domain} {domainIds : List DomainId} {capacity faultWeight : Int}

private theorem showsLoads_of_tracks (hierarchical : state.Hierarchical)
    (hasBin : (state.assignmentTree.createPartialTree domain domainIds).HasBin) (positive : 0 ≤ capacity)
    {moves : MovementMap} {constraint : Constraint}
    (tracks : TracksCounter state (MetricConstraint.newCounter state .after domain domainIds capacity faultWeight)
      (CountsLoad state (state.getShardMetric 0)) moves constraint) {kept : MetricConstraint} (isMetric : constraint = .metric kept) :
    kept.ShowsLoads state domain domainIds capacity faultWeight moves := by
  subst isMetric
  obtain ⟨counter, found, same, counts⟩ := tracks
  have isPart : Part state.assignmentTree counter.part domain domainIds :=
    same.part ▸ createPartialTree_part hierarchical.hierarchy domain domainIds
  have hasBin : counter.part.HasBin := same.part ▸ hasBin
  have inPart : counter.part = state.assignmentTree.createPartialTree domain domainIds := same.part
  have faults := counts.tallies.faults
  rw [same.domain, same.fault] at faults
  cases found
  refine ⟨inPart, ?_, ?_⟩
  · intro node contains fits
    exact counts.value hierarchical isPart (.inl (isPart.hasBin hasBin)) (inPart ▸ contains) fits
  · intro domainId listed fits
    have value := counts.value_listed hierarchical isPart (.inl (isPart.hasBin hasBin)) listed fits
    have recorded := faults domainId
    change kept.domainFaultMap.getFromCommittedMap domainId = _ at recorded
    rw [recorded]
    change ((Counter.metric _ (domain, domainId)).map _).getD 0 = _
    cases found : Counter.metric _ (domain, domainId) with
    | none =>
      rw [found] at value
      rw [← value]
      have empty : ¬ (0 : Int) > capacity := by omega
      simp [MetricConstraint.fault, empty]
    | some val =>
      rw [found] at value
      rw [← value]
      rfl

private theorem tracks_metric (order : HashOrder) :
    Tracks order state fun _ constraint => ∃ kept, constraint = Constraint.metric kept where
  accepted := by
    rintro moves shard nextBin _ info after final _ ⟨kept, rfl⟩ canaried
    obtain ⟨⟨result, weights⟩, _, finished⟩ := Checked.bind_ok canaried
    cases finished
    exact ⟨result.commitMoves, rfl⟩
  again := by
    rintro moves object ⟨kept, isMetric⟩
    exact ⟨kept.commitMoves, congrArg ConstraintOps.commitMoves isMetric⟩

end Metric

variable {ι : Type} [DecidableEq ι]

/-- Loads are never recomputed. After construction and after every commit of a run,
whatever the draws and the other constraints, they are what recomputing them gives. -/
theorem MetricConstraint.solve_recomputes (shardInfoVector : List ShardInfo) (metricVectors : List (List MetricValue))
    (domainMapping : List (List (List DomainId))) (once : SolvingState.ListsOnce domainMapping) {state : SolvingState}
    (built : state = (SolvingState.new shardInfoVector metricVectors domainMapping).withEmptyMovementMap)
    (domain : Domain) (domainIds : List DomainId) (metric : Metric) (capacity faultWeight : Int) (positive : 0 ≤ capacity)
    (hasBin : (state.assignmentTree.createPartialTree domain domainIds).HasBin) (constructorOrder : HashOrder)
    (info : BinWeightInfo) (constraint : MetricConstraint) (weights : BinWeightInfo)
    (made : MetricConstraint.new constructorOrder state .after domain domainIds metric capacity faultWeight info =
      .ok (constraint, weights))
    (order : HashOrder) (constraints : List ι) (target : ι) (listed : target ∈ constraints) (world : World ι Constraint)
    (placed : world.objects target = .metric constraint) (maxIterations : Nat) (draws : List Nat) :
    constraint.ShowsLoads state domain domainIds capacity faultWeight {} ∧
    ∀ before movement after,
      .committed before movement after ∈ (solve order state constraints maxIterations draws world).events →
        ∃ current, after.world.objects target = .metric current ∧
          current.ShowsLoads state domain domainIds capacity faultWeight after.committedMoves := by
  have hierarchical : state.Hierarchical := built ▸ SolvingState.hierarchical_new shardInfoVector metricVectors once
  have additive := newCounter_additive domainIds hierarchical .after capacity faultWeight (domain_ne_zero hierarchical hasBin)
  have isPart := createPartialTree_part hierarchical.hierarchy domain domainIds
  have start : TracksCounter state (newCounter state .after domain domainIds capacity faultWeight)
      (CountsLoad state (state.getShardMetric 0)) {} (.metric constraint) := by
    have constructed : Constraint.new constructorOrder state info
        (.metric .after domain domainIds metric capacity faultWeight) = .ok (.metric constraint, weights) := by
      rw [Constraint.new, made]
      rfl
    obtain ⟨found, _⟩ := Constraint.counter_new hierarchical.movementMap
      (newCounter state .after domain domainIds capacity faultWeight) rfl (hasBin.resolves _) constructed
    exact ⟨_, found, SameKind.canaried ⟨rfl, rfl, rfl, rfl⟩ _ _ _ _,
      countsLoad_new constructorOrder info hierarchical additive isPart (funext fun _ => rfl) (funext fun _ => rfl)⟩
  refine ⟨showsLoads_of_tracks hierarchical hasBin positive start rfl, ?_⟩
  intro before movement after happened
  have tracks := (tracks_load order hierarchical additive isPart hasBin).and (tracks_metric order)
  obtain ⟨held, current, isMetric⟩ := tracks.solve listed ⟨placed ▸ start, constraint, placed⟩ happened
  exact ⟨current, isMetric, showsLoads_of_tracks hierarchical hasBin positive held isMetric⟩

namespace MetricConstraint

def heavyRack : MetricConstraint × BinWeightInfo :=
  (new .insertion .twoBins .after 2 [0] 0 10 1 drainedBin.2).toOption.get (by decide +kernel)

def heavyWorld : World Bool Constraint := ⟨fun isMetric => if isMetric then .metric heavyRack.1 else .drain drainedBin.1, heavyRack.2⟩

theorem solve_recomputes_twoBins :
    heavyRack.1.ShowsLoads .twoBins 2 [0] 10 1 {} ∧
    ∀ before movement after,
      .committed before movement after ∈ (solve .insertion .twoBins [true, false] 2 [0, 1, 0, 1] heavyWorld).events →
        ∃ current, after.world.objects true = .metric current ∧
          current.ShowsLoads .twoBins 2 [0] 10 1 after.committedMoves :=
  solve_recomputes [] [[5, 7, 9]] [[[0, 1, 2], []], [[0, 1]]] (by decide) rfl 2 [0] 0 10 1 (by decide)
    (by decide +kernel) .insertion drainedBin.2 heavyRack.1
    heavyRack.2 (Checked.ok_get _ (by decide +kernel)) .insertion [true, false] true (by simp) heavyWorld rfl 2 [0, 1, 0, 1]

end MetricConstraint
end ShardManager

import ShardManager.Proofs.FailedSearch
import ShardManager.Proofs.Neutral

/-! What readers see after a search of a bin that finds nothing: the canaries of the
candidate it evaluated last. -/

namespace ShardManager

namespace Constraint

private theorem identical_iff_views (first second : Constraint) : first.Identical second ↔ first.views = second.views := by
  have views : ∀ constraint : Constraint, constraint.views = (constraint.metrics, constraint.domainFaultMap.get) := by
    intro constraint
    cases constraint <;> rfl
  rw [views, views, Prod.mk.injEq]
  exact ⟨fun same => ⟨same.metrics, same.faults⟩, fun same => ⟨same.1, same.2⟩⟩

end Constraint

namespace IterativeLocalSearch
variable {ι : Type} [DecidableEq ι] {constraints : List ι}

/-- No canary of the weights is pending, and none of a constraint shows. -/
structure NoCanaries (constraints : List ι) (world : World ι Constraint) : Prop where
  weights : world.binWeightInfo.clear = world.binWeightInfo
  objects : ∀ constraint ∈ constraints, (LawfulConstraint.rollback (world.objects constraint)).Identical (world.objects constraint)

private theorem moved_of_mem_rejectedMoves {order : HashOrder} {state : SolvingState} {committedMoves : MovementMap} {binId : DomainId}
    {draws : List Nat} {movement : MovementMap}
    (member : movement ∈ rejectedMoves order state committedMoves binId draws) : movement.getAllMovements.keys ≠ [] := by
  have drawn : ∀ (numBins : Nat) (shards : List DomainId) (iterations : Nat) (draws : List Nat),
      movement ∈ drawnMoves order numBins binId shards iterations draws → movement.getAllMovements.keys ≠ [] := by
    intro numBins shards iterations
    induction iterations with
    | zero =>
      intro draws member
      cases member
    | succ iterations ih =>
      intro draws member
      cases draws with
      | nil => cases member
      | cons draw draws =>
        rw [drawnMoves] at member
        split at member
        · cases member
        · rcases List.mem_append.mp member with here | later
          · obtain ⟨nextBin, _, rfl⟩ := List.mem_map.mp here
            exact List.cons_ne_nil _ _
          · exact ih _ later
  rw [rejectedMoves] at member
  split at member
  · cases member
  · exact drawn _ _ _ _ member

/-- A failed search restores what readers see exactly if it evaluated no candidate, or
the last one moves its shard neutrally. -/
theorem failed_search_views (shardInfoVector : List ShardInfo) (metricVectors : List (List MetricValue))
    (domainMapping : List (List (List DomainId))) {state : SolvingState}
    (built : state = (SolvingState.new shardInfoVector metricVectors domainMapping).withEmptyMovementMap) (order : HashOrder)
    (constraints : List ι) (binId : DomainId) (search after : Search ι Constraint)
    (constructed : EachBuilt state constraints search.world) (settled : NoCanaries constraints search.world)
    (failed : (getMovementForBin order state constraints binId search).result = .ok (none, after)) :
    after.world.views = search.world.views ↔
      ∀ last, (rejectedMoves order state search.committedMoves binId search.draws).getLast? = some last →
        Neutral state constraints search.world search.committedMoves last := by
  have numbered : state.Numbered := built ▸ SolvingState.numbered_new shardInfoVector metricVectors domainMapping
  have evaluated := getMovementForBin_failed failed
  unfold LastEvaluated at evaluated
  cases last : (rejectedMoves order state search.committedMoves binId search.draws).getLast? with
  | none =>
    rw [last] at evaluated
    simp [evaluated]
  | some candidate =>
    rw [last] at evaluated
    have moves := moved_of_mem_rejectedMoves (List.mem_of_getLast? last)
    have kept := evaluate_keeps evaluated
    have views : after.world.views = search.world.views ↔
        after.world.binWeightInfo.totalWeight.get = search.world.binWeightInfo.totalWeight.committedVal ∧
        (∀ binId, after.world.binWeightInfo.binWeightMap.get binId = search.world.binWeightInfo.binWeightMap.getFromCommittedMap binId) ∧
        ∀ constraint ∈ constraints, (after.world.objects constraint).Identical
          (LawfulConstraint.rollback (search.world.objects constraint)) := by
      have total : search.world.binWeightInfo.totalWeight.get = search.world.binWeightInfo.totalWeight.committedVal := by
        rw [← settled.weights]
        rfl
      have bins : ∀ binId, search.world.binWeightInfo.binWeightMap.get binId =
          search.world.binWeightInfo.binWeightMap.getFromCommittedMap binId := by
        intro binId
        rw [← settled.weights]
        exact CommittableMap.get_clear _ binId
      rw [World.views, World.views, Prod.mk.injEq, Prod.mk.injEq, total, funext_iff, funext_iff]
      refine and_congr_right fun _ => and_congr (forall_congr' fun binId => by rw [bins]) ?_
      refine forall_congr' fun constraint => ?_
      by_cases member : constraint ∈ constraints
      · rw [forall_prop_of_true member, Constraint.identical_iff_views,
          (Constraint.identical_iff_views _ _).mp (settled.objects constraint member)]
      · rw [kept.others constraint member]
        exact iff_of_true rfl fun listed => absurd listed member
    rw [views, constructed.evaluate_neutral_iff numbered moves evaluated]
    exact ⟨fun neutral _ found => by cases found; exact neutral, fun neutral => neutral candidate rfl⟩

def weightless : SolvingState := (SolvingState.new [] [[0, 0, 0]] [[[0, 1], [2]], [[0, 1]]]).withEmptyMovementMap

def weightlessArguments : Bool → Constraint.Arguments
  | true => .metric .after 1 [0, 1] 0 10 1
  | false => .loadBalancing 1 [0, 1] 0 5 id

def weightlessCapacity : Constraint × BinWeightInfo :=
  (Constraint.new .insertion weightless .empty (weightlessArguments true)).toOption.get (by decide +kernel)

def weightlessBalance : Constraint × BinWeightInfo :=
  (Constraint.new .insertion weightless weightlessCapacity.2 (weightlessArguments false)).toOption.get (by decide +kernel)

def weightlessSearch : Search Bool Constraint :=
  start ⟨fun isCapacity => if isCapacity then weightlessCapacity.1 else weightlessBalance.1, weightlessBalance.2⟩
    [0, 1, 0, 1, 0, 1, 0, 1, 0, 1, 0, 1, 0, 1, 0, 1, 0, 1, 0, 1]

private theorem weightless_made (isCapacity : Bool) : ∃ info weights,
    Constraint.new .insertion weightless info (weightlessArguments isCapacity) =
      .ok (weightlessSearch.world.objects isCapacity, weights) := by
  cases isCapacity with
  | true => exact ⟨.empty, _, Checked.ok_get _ (by decide +kernel)⟩
  | false => exact ⟨weightlessCapacity.2, _, Checked.ok_get _ (by decide +kernel)⟩

theorem failed_search_views_weightless :
    rejectedMoves .insertion weightless {} 0 weightlessSearch.draws = List.replicate 10 (.addMovement {} 0 1) ∧
    ∃ after, (getMovementForBin .insertion weightless [true, false] 0 weightlessSearch).result = .ok (none, after) ∧
      after.world.views = weightlessSearch.world.views := by
  have rejected : rejectedMoves .insertion weightless {} 0 weightlessSearch.draws = List.replicate 10 (.addMovement {} 0 1) := rfl
  refine ⟨rejected, _, rfl, ?_⟩
  have built : EachBuilt weightless [true, false] weightlessSearch.world := by
    intro isCapacity _
    obtain ⟨_, _, made⟩ := weightless_made isCapacity
    exact ⟨_, (Constraint.Built.new rfl made).1⟩
  have settled : NoCanaries [true, false] weightlessSearch.world := by
    refine ⟨rfl, fun isCapacity _ => ?_⟩
    obtain ⟨_, _, made⟩ := weightless_made isCapacity
    exact (Constraint.Built.new rfl made).2.2.symm
  refine (failed_search_views [] [[0, 0, 0]] [[[0, 1], [2]], [[0, 1]]] (rfl : weightless = _) .insertion [true, false] 0
    weightlessSearch _ built settled rfl).mpr ?_
  intro last found
  rw [show weightlessSearch.committedMoves = {} from rfl, rejected] at found
  cases found
  decide +kernel

def rejectingSearch : Search Unit Constraint :=
  start ⟨fun _ => .drain drainedEmptyBin.1, drainedEmptyBin.2⟩ [0, 1, 0, 1, 0, 1, 0, 1, 0, 1, 0, 1, 0, 1, 0, 1, 0, 1, 0, 1]

/-- The failed search shows a weight of 1 where nothing was committed. -/
theorem failed_search_changes_views :
    rejectingSearch.world.binWeightInfo.clear = rejectingSearch.world.binWeightInfo ∧
    ∃ after, (getMovementForBin .insertion .twoBins [()] 0 rejectingSearch).result = .ok (none, after) ∧
      rejectingSearch.world.binWeightInfo.total = 0 ∧ after.world.binWeightInfo.total = 1 ∧
      after.world.views ≠ rejectingSearch.world.views := by
  refine ⟨rfl, _, rfl, rfl, rfl, ?_⟩
  intro same
  exact absurd (congrArg Prod.fst same) (by decide +kernel)

end IterativeLocalSearch
end ShardManager

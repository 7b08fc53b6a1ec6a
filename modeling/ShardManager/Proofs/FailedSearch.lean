import ShardManager.Proofs.Rollback

/-! A search of a bin that finds nothing returns with the canaries of the
candidate it evaluated last. -/

namespace ShardManager

/-- What `get` returns for the metrics and the faults of a constraint. -/
def Constraint.views : Constraint → List (Node → Option Int) × (DomainId → Option Int)
  | .metric constraint => ([constraint.expressionTree.metricsMap.get], constraint.domainFaultMap.get)
  | .drain constraint => ([constraint.expressionTree.metricsMap.get], constraint.domainFaultMap.get)
  | .loadBalancing constraint =>
    ([constraint.minExpressionTree.metricsMap.get, constraint.maxExpressionTree.metricsMap.get],
      constraint.domainFaultMap.get)

/-- What `get` returns for the total, the bin weights and every constraint. -/
def World.views {ι : Type} (world : World ι Constraint) :
    Option Int × (DomainId → Option Int) × (ι → List (Node → Option Int) × (DomainId → Option Int)) :=
  (world.binWeightInfo.totalWeight.get, world.binWeightInfo.binWeightMap.get, fun constraint =>
    (world.objects constraint).views)

namespace IterativeLocalSearch
variable {ι C : Type} [DecidableEq ι] [ConstraintOps C] (order : HashOrder) (state : SolvingState) (constraints : List ι)

/-- The moves `tryShards` puts to the test if it rejects them all. -/
def drawnMoves (numBins : Nat) (binId : DomainId) (shardsInBin : List DomainId) : Nat → List Nat → List MovementMap
  | 0, _ => []
  | _ + 1, [] => []
  | iterations + 1, draw :: draws =>
    match drawBins numBins binId draws ∅ with
    | none => []
    | some (binSet, draws) =>
      (order.ids binSet.keys).map (MovementMap.addMovement {} (shardsInBin.getD (draw % shardsInBin.length) 0)) ++
        drawnMoves numBins binId shardsInBin iterations draws

/-- The moves `getMovementForBin` puts to the test if it rejects them all. -/
def rejectedMoves (committedMoves : MovementMap) (binId : DomainId) (draws : List Nat) : List MovementMap :=
  let shardsInBin := shardsInBin state committedMoves binId
  if shardsInBin.length = 0 then []
  else drawnMoves order (state.getDomainSize state.binDomain) binId shardsInBin 10 draws

/-- Without candidates nothing happened; otherwise the last one was evaluated, and
the others left no trace. -/
def LastEvaluated (committedMoves : MovementMap) (candidates : List MovementMap) (before after : World ι C) : Prop :=
  match candidates.getLast? with
  | none => after = before
  | some last => evaluate order state constraints committedMoves last before = .ok after

variable {order state constraints} [LawfulConstraint C] {committedMoves : MovementMap}

theorem LastEvaluated.keeps {candidates : List MovementMap} {before after : World ι C}
    (last : LastEvaluated order state constraints committedMoves candidates before after) :
    SameCommitted constraints after before := by
  unfold LastEvaluated at last
  split at last
  · rw [last]
    exact .refl before
  · exact evaluate_keeps last

theorem LastEvaluated.append {first second : List MovementMap} {before middle after : World ι C}
    (left : LastEvaluated order state constraints committedMoves first before middle)
    (right : LastEvaluated order state constraints committedMoves second middle after) :
    LastEvaluated order state constraints committedMoves (first ++ second) before after := by
  have kept := left.keeps
  unfold LastEvaluated at right ⊢
  rw [List.getLast?_append]
  cases last : second.getLast? with
  | none =>
    rw [last] at right
    cases right
    exact left
  | some candidate =>
    rw [last] at right
    exact kept.evaluate.symm.trans right

omit [DecidableEq ι] [ConstraintOps C] [LawfulConstraint C] in
private theorem checked_ok {α : Type} {result : Except Fault α} {value : α}
    (done : (checked result : Run ι C α).result = .ok value) : result = .ok value := by
  cases result with
  | error fault => cases done
  | ok found =>
    cases done
    rfl

private theorem tryNextBins_failed {shard : DomainId} {binSet : List DomainId} {search after : Search ι C}
    (failed : (tryNextBins order state constraints shard binSet search).result = .ok (none, after)) :
    after.draws = search.draws ∧ after.committedMoves = search.committedMoves ∧
    LastEvaluated order state constraints search.committedMoves (binSet.map (MovementMap.addMovement {} shard))
      search.world after.world := by
  induction binSet generalizing search with
  | nil =>
    cases failed
    exact ⟨rfl, rfl, rfl⟩
  | cons nextBin binSet ih =>
    obtain ⟨world, evaluated, failed⟩ := Traced.result_bind failed
    obtain ⟨_, _, failed⟩ := Traced.result_bind failed
    simp only at failed
    split at failed
    · cases failed
    · obtain ⟨draws, moves, last⟩ := ih failed
      have first : LastEvaluated order state constraints search.committedMoves [.addMovement {} shard nextBin]
          search.world world := checked_ok evaluated
      exact ⟨draws, moves, first.append last⟩

private theorem tryShards_failed {numBins : Nat} {binId : DomainId} {shards : List DomainId} {iterations : Nat}
    {search after : Search ι C}
    (failed : (tryShards order state constraints numBins binId shards iterations search).result = .ok (none, after)) :
    LastEvaluated order state constraints search.committedMoves
      (drawnMoves order numBins binId shards iterations search.draws) search.world after.world := by
  induction iterations generalizing search with
  | zero =>
    cases failed
    rfl
  | succ iterations ih =>
    rw [tryShards] at failed
    split at failed
    · cases failed
    next draw draws drawn =>
      simp only at failed
      split at failed
      · cases failed
      next binSet rest filled =>
        obtain ⟨⟨movement, middle⟩, tried, failed⟩ := Traced.result_bind failed
        cases movement with
        | some movement => cases failed
        | none =>
          obtain ⟨sameDraws, sameMoves, first⟩ := tryNextBins_failed tried
          have last := ih failed
          rw [sameDraws, sameMoves] at last
          rw [drawn, drawnMoves, filled]
          exact first.append last

/-- The world a failed search leaves is that of the last candidate, evaluated as
if it had been the only one. -/
theorem getMovementForBin_failed {binId : DomainId} {search after : Search ι C}
    (failed : (getMovementForBin order state constraints binId search).result = .ok (none, after)) :
    LastEvaluated order state constraints search.committedMoves
      (rejectedMoves order state search.committedMoves binId search.draws) search.world after.world := by
  rw [getMovementForBin] at failed
  simp only [rejectedMoves] at failed ⊢
  split at failed
  next empty =>
    cases failed
    rw [if_pos empty]
    rfl
  next occupied =>
    rw [if_neg occupied]
    exact tryShards_failed failed

/-- A drain of the bin without shards: every move into it raises the weight. -/
def drainedEmptyBin : DrainConstraint × BinWeightInfo :=
  (DrainConstraint.new .insertion .twoBins .after 1 [1] 1 .empty).toOption.get (by decide +kernel)

end IterativeLocalSearch
end ShardManager

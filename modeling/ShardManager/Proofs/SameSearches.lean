import ShardManager.Lib.LockStep
import ShardManager.Proofs.SumOfParts

/-! Searches that go the same way. Where every candidate adds as much to the weights of one
world of constraints as to those of another, `solve` tries and commits the same moves
over both: the order of the constraints, and how nodes are divided among them, do not show. -/

namespace ShardManager
open IterativeLocalSearch

/-- What a run shows of its moves, weights and draws. -/
inductive Seen where
  | iteration (committedMoves : MovementMap) (currentWeight : Int) (draws : List Nat) (binWeight : DomainId → Int)
  | passed (binId : DomainId)
  | evaluated (committedMoves canariedMoves : MovementMap) (total : Int)
  | committed (movement committedMoves : MovementMap) (currentWeight : Int)

section Seen
variable {ι κ C D : Type}

def Event.seen : Event ι C → Seen
  | .iteration search => .iteration search.committedMoves search.currentWeight search.draws search.world.binWeightInfo.binWeight
  | .passed binId => .passed binId
  | .evaluated committedMoves canariedMoves world => .evaluated committedMoves canariedMoves world.binWeightInfo.total
  | .committed _ movement after => .committed movement after.committedMoves after.currentWeight

def Search.seen (search : Search ι C) : MovementMap × Int × List Nat := (search.committedMoves, search.currentWeight, search.draws)

/-- The runs stop alike or return the same moves, and show the same on the way. -/
structure SameRun (run : Run ι C (Search ι C)) (twin : Run κ D (Search κ D)) : Prop where
  events : run.events.map Event.seen = twin.events.map Event.seen
  result : run.result.map Search.seen = twin.result.map Search.seen

end Seen

namespace IterativeLocalSearch
variable {ι κ C D : Type} [DecidableEq ι] [DecidableEq κ] [ConstraintOps C] [ConstraintOps D]

/-- Worlds that are alike evaluate each candidate to the same weights, and stay alike
whether it is committed or not. -/
structure Tandem (order otherOrder : HashOrder) (state : SolvingState) (constraints : List ι) (others : List κ)
    (alike : World ι C → World κ D → Prop) : Prop where
  sameIds : otherOrder.ids = order.ids
  evaluated : ∀ world twin committedMoves canariedMoves, alike world twin → ∃ after twinAfter,
    evaluate order state constraints committedMoves canariedMoves world = .ok after ∧
    evaluate otherOrder state others committedMoves canariedMoves twin = .ok twinAfter ∧
    alike after twinAfter ∧ after.binWeightInfo.total = twinAfter.binWeightInfo.total ∧
    alike (commitAll constraints after) (commitAll others twinAfter) ∧
    SameWeights (commitAll constraints after).binWeightInfo (commitAll others twinAfter).binWeightInfo

/-- Searches that have come equally far in worlds that are alike. -/
structure Twins (alike : World ι C → World κ D → Prop) (search : Search ι C) (twin : Search κ D) : Prop where
  alike : alike search.world twin.world
  seen : search.seen = twin.seen

/-- Searches that look for a move find none, or the same and commit it alike. -/
inductive Found (constraints : List ι) (others : List κ) (alike : World ι C → World κ D → Prop) :
    Option MovementMap × Search ι C → Option MovementMap × Search κ D → Prop where
  | nothing {search : Search ι C} {twin : Search κ D} (twins : Twins alike search twin) :
      Found constraints others alike (none, search) (none, twin)
  | movement {movement : MovementMap} {search : Search ι C} {twin : Search κ D} (seen : search.seen = twin.seen)
      (commits : alike (commitAll constraints search.world) (commitAll others twin.world))
      (weights : SameWeights (commitAll constraints search.world).binWeightInfo (commitAll others twin.world).binWeightInfo) :
      Found constraints others alike (some movement, search) (some movement, twin)

abbrev SeenAlike (happened : Event ι C) (elsewhere : Event κ D) : Prop := happened.seen = elsewhere.seen

private theorem hottestBins_congr (state : SolvingState) {info other : BinWeightInfo} (same : info.binWeight = other.binWeight) :
    hottestBins state info = hottestBins state other := by
  have pairs : ∀ info : BinWeightInfo, hottestBins state info =
      (((List.range (state.getDomainSize state.binDomain)).map fun binId => (toInt32 (info.binWeight binId), binId)).insertionSort
        hotter).map Prod.snd := fun _ => rfl
  rw [pairs, pairs, same]

section Tandem
variable {order otherOrder : HashOrder} {state : SolvingState} {constraints : List ι} {others : List κ}
  {alike : World ι C → World κ D → Prop} (tandem : Tandem order otherOrder state constraints others alike)
include tandem

theorem Tandem.tryNextBins (shard : DomainId) (binSet : List DomainId) {search : Search ι C} {twin : Search κ D}
    (twins : Twins alike search twin) :
    Traced.InStep SeenAlike (Found constraints others alike) (tryNextBins order state constraints shard binSet search)
      (tryNextBins otherOrder state others shard binSet twin) := by
  induction binSet generalizing search twin with
  | nil => exact Traced.inStep_pure (.nothing twins)
  | cons nextBin binSet ih =>
    obtain ⟨world, committedMoves, currentWeight, draws⟩ := search
    obtain ⟨twinWorld, _, _, _⟩ := twin
    obtain ⟨together, seen⟩ := twins
    cases seen
    obtain ⟨after, twinAfter, evaluated, otherwise, still, total, commits, weights⟩ :=
      tandem.evaluated world twinWorld committedMoves (.addMovement {} shard nextBin) together
    rw [IterativeLocalSearch.tryNextBins, IterativeLocalSearch.tryNextBins]
    simp only [evaluated, otherwise]
    have found : Traced.InStep SeenAlike (fun value elsewhere => after = value ∧ twinAfter = elsewhere)
        (checked (.ok after) : Run ι C (World ι C)) (checked (.ok twinAfter) : Run κ D (World κ D)) := Traced.inStep_pure ⟨rfl, rfl⟩
    refine Traced.inStep_bind found ?_
    rintro _ _ ⟨rfl, rfl⟩
    refine Traced.inStep_bind (Traced.inStep_tell (congrArg (Seen.evaluated committedMoves _) total)) ?_
    intro _ _ _
    have same : after.binWeightInfo.totalWeight.get.getD 0 = twinAfter.binWeightInfo.totalWeight.get.getD 0 := total
    rw [same]
    split
    next => exact Traced.inStep_pure (.movement rfl commits weights)
    next => exact ih ⟨still, rfl⟩

theorem Tandem.tryShards (numBins : Nat) (binId : DomainId) (shards : List DomainId) (iterations : Nat) {search : Search ι C}
    {twin : Search κ D} (twins : Twins alike search twin) :
    Traced.InStep SeenAlike (Found constraints others alike) (tryShards order state constraints numBins binId shards iterations search)
      (tryShards otherOrder state others numBins binId shards iterations twin) := by
  induction iterations generalizing search twin with
  | zero => exact Traced.inStep_pure (.nothing twins)
  | succ iterations ih =>
    obtain ⟨world, committedMoves, currentWeight, draws⟩ := search
    obtain ⟨twinWorld, _, _, _⟩ := twin
    obtain ⟨together, seen⟩ := twins
    cases seen
    rw [IterativeLocalSearch.tryShards, IterativeLocalSearch.tryShards, tandem.sameIds]
    cases draws with
    | nil => exact Traced.inStep_error _
    | cons draw draws =>
      simp only
      split
      next => exact Traced.inStep_error _
      next binSet rest _ =>
        refine Traced.inStep_bind (tandem.tryNextBins _ _ ⟨together, rfl⟩) ?_
        intro _ _ found
        cases found with
        | nothing twins => exact ih twins
        | movement seen commits weights => exact Traced.inStep_pure (.movement seen commits weights)

theorem Tandem.tryBins (binWeights : List DomainId) {search : Search ι C} {twin : Search κ D} (twins : Twins alike search twin) :
    Traced.InStep SeenAlike (Found constraints others alike) (tryBins order state constraints binWeights search)
      (tryBins otherOrder state others binWeights twin) := by
  induction binWeights generalizing search twin with
  | nil => exact Traced.inStep_pure (.nothing twins)
  | cons binId binWeights ih =>
    refine Traced.inStep_bind (Traced.inStep_tell rfl) ?_
    intro _ _ _
    have forBin : Traced.InStep SeenAlike (Found constraints others alike) (getMovementForBin order state constraints binId search)
        (getMovementForBin otherOrder state others binId twin) := by
      have sameMoves : search.committedMoves = twin.committedMoves := congrArg Prod.fst twins.seen
      rw [IterativeLocalSearch.getMovementForBin, IterativeLocalSearch.getMovementForBin]
      simp only [sameMoves]
      split
      next => exact Traced.inStep_pure (.nothing twins)
      next => exact tandem.tryShards _ _ _ 10 twins
    refine Traced.inStep_bind forBin ?_
    intro _ _ found
    cases found with
    | nothing twins => exact ih twins
    | movement seen commits weights => exact Traced.inStep_pure (.movement seen commits weights)

theorem Tandem.iterate (iterations : Nat) {search : Search ι C} {twin : Search κ D} (twins : Twins alike search twin)
    (weights : SameWeights search.world.binWeightInfo twin.world.binWeightInfo) :
    Traced.InStep SeenAlike (Twins alike) (iterate order state constraints iterations search)
      (iterate otherOrder state others iterations twin) := by
  induction iterations generalizing search twin with
  | zero => exact Traced.inStep_pure twins
  | succ iterations ih =>
    rw [IterativeLocalSearch.iterate, IterativeLocalSearch.iterate, hottestBins_congr state (funext weights.bins)]
    obtain ⟨world, committedMoves, currentWeight, draws⟩ := search
    obtain ⟨twinWorld, _, _, _⟩ := twin
    obtain ⟨together, seen⟩ := twins
    cases seen
    refine Traced.inStep_bind (Traced.inStep_tell (congrArg (Seen.iteration committedMoves currentWeight draws) (funext weights.bins))) ?_
    intro _ _ _
    refine Traced.inStep_bind (tandem.tryBins _ ⟨together, rfl⟩) ?_
    intro _ _ found
    cases found with
    | nothing twins => exact Traced.inStep_pure twins
    | movement seen commits weights =>
      simp only [Search.seen, Prod.mk.injEq] at seen
      obtain ⟨moves, weight, rest⟩ := seen
      refine Traced.inStep_bind (Traced.inStep_tell ?_) ?_
      · simp only [SeenAlike, Event.seen, moves, weight]
      · intro _ _ _
        refine ih ⟨commits, ?_⟩ weights
        simp only [Search.seen, moves, weight, rest]

theorem Tandem.solve (maxIterations : Nat) (draws : List Nat) {world : World ι C} {twin : World κ D} (together : alike world twin)
    (weights : SameWeights world.binWeightInfo twin.binWeightInfo) :
    SameRun (solve order state constraints maxIterations draws world) (solve otherOrder state others maxIterations draws twin) := by
  have total : world.binWeightInfo.totalWeight.get.getD 0 = twin.binWeightInfo.totalWeight.get.getD 0 := weights.total
  have twins : Twins alike (start world draws) (start twin draws) := by
    refine ⟨together, ?_⟩
    simp only [Search.seen, start, total]
  have inStep := tandem.iterate maxIterations twins weights
  exact ⟨inStep.shows fun _ _ same => same, inStep.returns fun _ _ twins => twins.seen⟩

end Tandem

section Instances
variable {state : SolvingState} {order otherOrder : HashOrder}

theorem Alike.tandem {arguments : ι → Constraint.Arguments} {constraints others : List ι} (hierarchical : state.Hierarchical)
    (distinct : constraints.Nodup) (hasBin : ∀ constraint ∈ constraints, ((arguments constraint).tree state).HasBin)
    (reordered : constraints.Perm others) (sameIds : otherOrder.ids = order.ids) :
    Tandem order otherOrder state constraints others (Alike state arguments constraints) where
  sameIds := sameIds
  evaluated := by
    intro world twin committedMoves canariedMoves alike
    obtain ⟨after, evaluated⟩ := evaluate_defined order hierarchical.movementMap committedMoves canariedMoves world
      fun constraint member => (alike.built constraint member).hasBin (hasBin constraint member)
    obtain ⟨twinAfter, otherwise⟩ := evaluate_defined otherOrder hierarchical.movementMap committedMoves canariedMoves twin
      fun constraint member =>
        have listed := reordered.mem_iff.mpr member
        (alike.otherBuilt constraint listed).hasBin (hasBin constraint listed)
    have identical := alike.evaluated hierarchical hasBin reordered (.refl _) (.refl _) evaluated otherwise
    have kept := alike.kept reordered evaluated otherwise
    refine ⟨after, twinAfter, evaluated, otherwise, kept, identical.total, kept.committed_all distinct reordered identical, ?_, ?_⟩
    · rw [(commitAll_shown after).1, (commitAll_shown twinAfter).1, identical.total]
    · intro binId
      rw [(commitAll_shown after).2, (commitAll_shown twinAfter).2, identical.bins]

/-- A search does not depend on the order in which its constraints are constructed, evaluated
and committed, nor on the traversals of nodes: over the same draws, and with the
destinations of a shard tried in the same order, it shows the same from its first event to its result. -/
theorem solve_reordered (shardInfoVector : List ShardInfo) (metricVectors : List (List MetricValue))
    (domainMapping : List (List (List DomainId))) (once : SolvingState.ListsOnce domainMapping) {state : SolvingState}
    (built : state = (SolvingState.new shardInfoVector metricVectors domainMapping).withEmptyMovementMap)
    (arguments : ι → Constraint.Arguments) {constraints others : List ι} (distinct : constraints.Nodup)
    (reordered : constraints.Perm others) (hasBin : ∀ constraint ∈ constraints, ((arguments constraint).tree state).HasBin)
    (order otherOrder : HashOrder) (sameIds : otherOrder.ids = order.ids) (world : World ι Constraint) :
    ∃ made otherMade, constructEach order state arguments constraints world = .ok made ∧
      constructEach otherOrder state arguments others world = .ok otherMade ∧
      ∀ maxIterations draws, SameRun (solve order state constraints maxIterations draws made)
        (solve otherOrder state others maxIterations draws otherMade) := by
  have hierarchical : state.Hierarchical := built ▸ SolvingState.hierarchical_new shardInfoVector metricVectors once
  have otherHasBin : ∀ constraint ∈ others, ((arguments constraint).tree state).HasBin :=
    fun constraint member => hasBin constraint (reordered.mem_iff.mpr member)
  obtain ⟨made, called, constructed⟩ := constructEach_constructed hierarchical hasBin order world
  obtain ⟨otherMade, otherCalled, otherwise⟩ := constructEach_constructed hierarchical otherHasBin otherOrder world
  obtain ⟨identical, alike⟩ := constructed.alike hierarchical hasBin reordered otherwise
  refine ⟨made, otherMade, called, otherCalled, ?_⟩
  intro maxIterations draws
  have tandem : Tandem order otherOrder state constraints others (Alike state arguments constraints) :=
    Alike.tandem hierarchical distinct hasBin reordered sameIds
  exact tandem.solve maxIterations draws alike ⟨identical.total, identical.bins⟩

def reversedNodes : HashOrder where
  ids keys := keys
  nodes keys := keys.reverse
  ids_perm := List.Perm.refl
  nodes_perm keys := List.reverse_perm keys

theorem solve_reordered_fullBins :
    ∃ made otherMade,
      constructEach .insertion LoadBalancingConstraint.fullBins mixedArguments [0, 1, 2] ⟨fun _ => .drain drainedBin.1, .empty⟩ =
        .ok made ∧
      constructEach reversedNodes LoadBalancingConstraint.fullBins mixedArguments [2, 0, 1] ⟨fun _ => .drain drainedBin.1, .empty⟩ =
        .ok otherMade ∧
      ∀ maxIterations draws, SameRun (solve .insertion LoadBalancingConstraint.fullBins [0, 1, 2] maxIterations draws made)
        (solve reversedNodes LoadBalancingConstraint.fullBins [2, 0, 1] maxIterations draws otherMade) := by
  have hasBin : ∀ constraint ∈ [0, 1, 2], ((mixedArguments constraint).tree LoadBalancingConstraint.fullBins).HasBin := by
    intro constraint _
    fin_cases constraint <;> decide +kernel
  have reordered : [(0 : Fin 3), 1, 2].Perm [2, 0, 1] := by decide
  exact solve_reordered [] [[5, 7, 9]] [[[0, 1], [2]], [[0, 1]]] (by decide) rfl mixedArguments (by decide) reordered hasBin .insertion
    reversedNodes rfl ⟨fun _ => .drain drainedBin.1, .empty⟩

theorem Divided.tandem {domainIds : List DomainId} {parts : List ι} {ids : ι → List DomainId} (hierarchical : state.Hierarchical)
    (division : Division domainIds parts ids) (sameIds : otherOrder.ids = order.ids) :
    Tandem order otherOrder state [()] parts (Divided state domainIds parts ids) where
  sameIds := sameIds
  evaluated := by
    intro whole pieces committedMoves canariedMoves divided
    have cleared := divided.clear
    obtain ⟨_, hasBin, counted⟩ := division.counted cleared.partOf
    obtain ⟨after, updated⟩ := updateWeights_defined order hierarchical.movementMap committedMoves canariedMoves
      ⟨whole.objects, whole.binWeightInfo.clear⟩ fun _ _ => hasBin
    obtain ⟨piecesAfter, otherwise⟩ := updateWeights_defined otherOrder hierarchical.movementMap committedMoves canariedMoves
      ⟨pieces.objects, pieces.binWeightInfo.clear⟩ fun part member => (counted part member).2.1
    have still := cleared.canaried hierarchical division (.refl _) (.refl _) updated otherwise
    have committed := still.commit division
    exact ⟨after, piecesAfter, updated, otherwise, still, still.weights.total, committed, committed.weights⟩

/-- Nodes may be divided among constraints without a search showing it: over the same draws,
the search for one constraint and the search for constraints over disjoint parts of its
nodes, which may repeat them, try and commit the same moves. -/
theorem solve_divided (shardInfoVector : List ShardInfo) (metricVectors : List (List MetricValue))
    (domainMapping : List (List (List DomainId))) (once : SolvingState.ListsOnce domainMapping) {state : SolvingState}
    (built : state = (SolvingState.new shardInfoVector metricVectors domainMapping).withEmptyMovementMap)
    (arguments : Constraint.Arguments) (keepFaults : arguments.KeepFaults) {domainIds : List DomainId} {parts : List ι}
    {ids : ι → List DomainId} (division : Division domainIds parts ids)
    (partsHaveBins : ∀ part ∈ parts, ((arguments.onIds (ids part)).tree state).HasBin)
    (order otherOrder : HashOrder) (sameIds : otherOrder.ids = order.ids) (object : Constraint) (objects : ι → Constraint)
    (info : BinWeightInfo) :
    ∃ made madePieces, constructEach order state (fun _ => arguments.onIds domainIds) [()] ⟨fun _ => object, info⟩ = .ok made ∧
      constructEach otherOrder state (fun part => arguments.onIds (ids part)) parts ⟨objects, info⟩ = .ok madePieces ∧
      ∀ maxIterations draws, SameRun (solve order state [()] maxIterations draws made)
        (solve otherOrder state parts maxIterations draws madePieces) := by
  have hierarchical : state.Hierarchical := built ▸ SolvingState.hierarchical_new shardInfoVector metricVectors once
  obtain ⟨first, member⟩ := List.exists_mem_of_ne_nil parts division.nonempty
  have hasBin := hasBin_mono hierarchical arguments (division.part_subset member) (partsHaveBins first member)
  obtain ⟨made, called, constructed⟩ := constructEach_constructed hierarchical (fun constraint (_ : constraint ∈ [()]) => hasBin) order
    ⟨fun _ => object, info⟩
  obtain ⟨madePieces, otherCalled, otherwise⟩ := constructEach_constructed hierarchical partsHaveBins otherOrder ⟨objects, info⟩
  have divided := Divided.constructed hierarchical division keepFaults hasBin partsHaveBins ⟨rfl, fun _ => rfl⟩ constructed otherwise
  refine ⟨made, madePieces, called, otherCalled, ?_⟩
  intro maxIterations draws
  have tandem : Tandem order otherOrder state [()] parts (Divided state domainIds parts ids) :=
    Divided.tandem hierarchical division sameIds
  exact tandem.solve maxIterations draws divided divided.weights

/-- A drain of both bins, one of them listed twice, and drains of one bin each. -/
theorem solve_divided_twoRacks :
    ∃ made madePieces,
      constructEach .insertion twoRacks (fun _ : Unit => .drain .before 1 [0, 1, 0] 1) [()] ⟨fun _ => .drain drainedBin.1, .empty⟩ =
        .ok made ∧
      constructEach reversedNodes twoRacks (fun isFirst : Bool => .drain .before 1 (if isFirst then [0] else [1]) 1) [true, false]
        ⟨fun _ => .drain drainedBin.1, .empty⟩ = .ok madePieces ∧
      ∀ maxIterations draws, SameRun (solve .insertion twoRacks [()] maxIterations draws made)
        (solve reversedNodes twoRacks [true, false] maxIterations draws madePieces) := by
  have division : Division [0, 1, 0] [true, false] fun isFirst => if isFirst then [0] else [1] := by
    refine ⟨by decide, by decide, ?_, ?_⟩
    · intro domainId
      simp [or_comm]
    · intro part _ other _ different
      cases part <;> cases other <;> simp_all
  exact solve_divided [] [[5, 7, 9]] [[[0, 1], [2]], [[0], [1]]] (by decide) rfl (.drain .before 1 [] 1) trivial division (by decide +kernel)
    .insertion reversedNodes rfl (.drain drainedBin.1) (fun _ => .drain drainedBin.1) .empty

end Instances
end IterativeLocalSearch
end ShardManager

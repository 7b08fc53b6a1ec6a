import ShardManager.Proofs.SearchRuns
import ShardManager.Proofs.Surcharge

/-! Whether the search unassigns a shard. Bin 0 stands for no bin, but it is drawn
like every other bin: nothing but the faults of the constraints keeps shards out of it. -/

namespace ShardManager
open IterativeLocalSearch

/-- A search without the draws that are left to it. -/
structure Standing (ι : Type) where
  world : World ι Constraint
  committedMoves : MovementMap
  currentWeight : Int

def Search.standing {ι : Type} (search : Search ι Constraint) : Standing ι :=
  ⟨search.world, search.committedMoves, search.currentWeight⟩

/-- The moves take a shard from a bin other than `kDefaultBin` to `kDefaultBin`. -/
def Unassigns (state : SolvingState) (moves : MovementMap) : Prop :=
  ∃ shard binId, moves.getNextBin shard = some kDefaultBin ∧ shard ∈ state.assignmentTree.children state.binDomain binId ∧
    binId ≠ kDefaultBin

variable {ι : Type} [DecidableEq ι] (order : HashOrder) (state : SolvingState) (constraints : List ι)

namespace Standing

/-- The moves that the search evaluates. -/
def Tries (standing : Standing ι) (canariedMoves : MovementMap) : Prop :=
  ∃ shard nextBin, Candidate state standing.committedMoves shard nextBin ∧ canariedMoves = .addMovement {} shard nextBin

/-- A candidate is evaluated, and committed at once if it lowers the weight. -/
def perform (standing : Standing ι) (canariedMoves : MovementMap) : Except Fault (Standing ι) := do
  let world ← evaluate order state constraints standing.committedMoves canariedMoves standing.world
  let newWeight := world.binWeightInfo.total
  pure (if newWeight < standing.currentWeight then
      ⟨commitAll constraints world, standing.committedMoves.addMovements canariedMoves, newWeight⟩
    else { standing with world })

def machine : Machine (Standing ι) MovementMap := .ofSteps (Tries state) (perform order state constraints)

/-- If the candidate takes a shard from a real bin to `kDefaultBin`, the committed total and the
faults that the move adds to it are no less than the current weight. -/
def Outweighed (standing : Standing ι) (canariedMoves : MovementMap) : Prop :=
  Unassigns state canariedMoves →
    standing.currentWeight ≤ totalFor state constraints standing.world standing.committedMoves canariedMoves

def Assigned (standing : Standing ι) : Prop := ¬ Unassigns state standing.committedMoves

variable {order state constraints} {standing after : Standing ι} {canariedMoves : MovementMap}

omit [DecidableEq ι] in
private theorem unassigns_addMovements {moves newMovements : MovementMap} (unassigns : Unassigns state (moves.addMovements newMovements)) :
    Unassigns state newMovements ∨ Unassigns state moves := by
  obtain ⟨shard, binId, sent, listed, real⟩ := unassigns
  rw [MovementMap.next_addMovements] at sent
  cases fresh : newMovements.getNextBin shard with
  | some nextBin =>
    rw [fresh] at sent
    exact .inl ⟨shard, binId, fresh.trans sent, listed, real⟩
  | none =>
    rw [fresh] at sent
    exact .inr ⟨shard, binId, sent, listed, real⟩

private theorem unassigns_new {moves newMovements : MovementMap} (unassigns : Unassigns state newMovements) :
    Unassigns state (moves.addMovements newMovements) := by
  obtain ⟨shard, binId, sent, listed, real⟩ := unassigns
  exact ⟨shard, binId, by rw [MovementMap.next_addMovements, sent, Option.some_or], listed, real⟩

theorem performed (enabled : (machine order state constraints).enabled standing canariedMoves) :
    Tries state standing canariedMoves ∧ ∃ world,
      evaluate order state constraints standing.committedMoves canariedMoves standing.world = .ok world ∧
      (machine order state constraints).next standing canariedMoves =
        if world.binWeightInfo.total < standing.currentWeight then
          ⟨commitAll constraints world, standing.committedMoves.addMovements canariedMoves, world.binWeightInfo.total⟩
        else { standing with world } := by
  obtain ⟨tries, ok⟩ := enabled
  refine ⟨tries, ?_⟩
  rw [perform] at ok
  change ∃ world, _ ∧ (perform order state constraints standing canariedMoves).toOption.getD standing = _
  rw [perform]
  cases evaluated : evaluate order state constraints standing.committedMoves canariedMoves standing.world with
  | error fault =>
    rw [evaluated] at ok
    cases ok
  | ok world => exact ⟨world, rfl, rfl⟩

theorem leads {world : World ι Constraint} (tries : Tries state standing canariedMoves)
    (evaluated : evaluate order state constraints standing.committedMoves canariedMoves standing.world = .ok world)
    (reached : (if world.binWeightInfo.total < standing.currentWeight then
        ⟨commitAll constraints world, standing.committedMoves.addMovements canariedMoves, world.binWeightInfo.total⟩
      else { standing with world }) = after) :
    (machine order state constraints).Leads standing [canariedMoves] (· = after) := by
  have done : perform order state constraints standing canariedMoves = .ok after := by
    rw [perform, evaluated, ← reached]
    rfl
  refine ⟨⟨⟨tries, ?_⟩, trivial⟩, ?_⟩
  · rw [done]
    rfl
  · change (perform order state constraints standing canariedMoves).toOption.getD standing = after
    rw [done]
    rfl

private theorem next_built (built : EachBuilt state constraints standing.world)
    (enabled : (machine order state constraints).enabled standing canariedMoves) :
    EachBuilt state constraints ((machine order state constraints).next standing canariedMoves).world := by
  obtain ⟨_, world, evaluated, next⟩ := performed enabled
  have still := built.sameCommitted (evaluate_keeps evaluated)
  rw [next]
  split
  · exact still.commitAll
  · exact still

/-- A step unassigns a shard exactly if its candidate does and the faults do not outweigh it. -/
private theorem next_assigned_iff (numbered : state.Numbered) (built : EachBuilt state constraints standing.world)
    (assigned : standing.Assigned state) (enabled : (machine order state constraints).enabled standing canariedMoves) :
    ((machine order state constraints).next standing canariedMoves).Assigned state ↔
      Outweighed state constraints standing canariedMoves := by
  obtain ⟨⟨shard, nextBin, _, rfl⟩, world, evaluated, next⟩ := performed enabled
  have moves : (MovementMap.addMovement {} shard nextBin).getAllMovements.keys ≠ [] := List.cons_ne_nil shard []
  have total := built.evaluate_total numbered moves evaluated
  rw [next]
  by_cases lower : world.binWeightInfo.total < standing.currentWeight
  · rw [if_pos lower]
    constructor
    · intro kept unassigns
      exact absurd (unassigns_new unassigns) kept
    · intro outweighed unassigned
      rcases unassigns_addMovements unassigned with fresh | before
      · exact absurd lower (not_lt.mpr (total ▸ outweighed fresh))
      · exact assigned before
  · rw [if_neg lower]
    refine iff_of_true assigned fun _ => ?_
    rw [← total]
    exact not_lt.mp lower

private theorem next_unassigned (unassigned : ¬ standing.Assigned state)
    (enabled : (machine order state constraints).enabled standing canariedMoves) :
    ¬ ((machine order state constraints).next standing canariedMoves).Assigned state := by
  obtain ⟨⟨shard, nextBin, candidate, rfl⟩, world, _, next⟩ := performed enabled
  rw [next]
  split
  · obtain ⟨gone, binId, sent, listed, real⟩ := not_not.mp unassigned
    have other : gone ≠ shard := by
      rintro rfl
      rw [candidate.unmoved] at sent
      cases sent
    refine not_not.mpr ⟨gone, binId, ?_, listed, real⟩
    rw [MovementMap.next_addMovements, MovementMap.next_addMovement, if_neg other]
    exact sent
  · exact unassigned

end Standing

def triedMoves : Event ι Constraint → List MovementMap
  | .iteration _ => []
  | .passed _ => []
  | .evaluated _ canariedMoves _ => [canariedMoves]
  | .committed _ _ _ => []

private theorem candidates_run : RunRule order state constraints (Standing.machine order state constraints) triedMoves
    (fun (search : Search ι Constraint) standing => standing = search.standing)
    (fun movement search standing => standing = (commitMovement constraints movement search).standing) (fun _ _ => True) where
  draws _ _ _ holds := holds
  exhausted _ := trivial
  passed _ _ _ holds := ⟨trivial, holds⟩
  noted _ _ holds := ⟨trivial, holds⟩
  failed _ _ _ _ _ _ _ _ := trivial
  rejected := by
    rintro search shard nextBin world _ rfl candidate evaluated higher
    exact Standing.leads ⟨shard, nextBin, candidate, rfl⟩ evaluated (if_neg higher)
  accepted := by
    rintro search shard nextBin world _ rfl candidate evaluated lower
    exact Standing.leads ⟨shard, nextBin, candidate, rfl⟩ evaluated (if_pos lower)
  committed _ _ _ _ holds := ⟨trivial, holds⟩

/-- In a run of `solve` no shard is taken from a bin other than `kDefaultBin` to
`kDefaultBin`, in any state and in the map that is returned, exactly if the faults of the
constraints outweigh every candidate that would do so. -/
theorem solve_unassigns_iff (shardInfoVector : List ShardInfo) (metricVectors : List (List MetricValue))
    (domainMapping : List (List (List DomainId))) {state : SolvingState}
    (built : state = (SolvingState.new shardInfoVector metricVectors domainMapping).withEmptyMovementMap) (order : HashOrder)
    (constraints : List ι) (world : World ι Constraint) (constructed : EachBuilt state constraints world) (maxIterations : Nat)
    (draws : List Nat) :
    let searched := solve order state constraints maxIterations draws world
    let begins := (start world draws).standing
    let tried := searched.events.flatMap triedMoves
    (Standing.machine order state constraints).Runs begins tried ∧
    ((Standing.machine order state constraints).Always (Standing.Assigned state) begins tried ↔
      (Standing.machine order state constraints).EachStep (Standing.Outweighed state constraints) begins tried) ∧
    ∀ final, searched.result = .ok final →
      (¬ Unassigns state final.committedMoves ↔
        (Standing.machine order state constraints).EachStep (Standing.Outweighed state constraints) begins tried) := by
  have numbered : state.Numbered := built ▸ SolvingState.numbered_new shardInfoVector metricVectors domainMapping
  intro searched begins tried
  have performs := (candidates_run order state constraints).iterate maxIterations (start world draws) begins rfl
  have runs : (Standing.machine order state constraints).Runs begins tried := performs.runs
  have empty : begins.Assigned state := by
    rintro ⟨shard, binId, sent, _⟩
    cases sent
  have exact : (Standing.machine order state constraints).Always (Standing.Assigned state) begins tried ↔
      (Standing.machine order state constraints).EachStep (Standing.Outweighed state constraints) begins tried :=
    runs.always_iff (fun _ _ built enabled => Standing.next_built built enabled)
      (fun _ _ built assigned enabled => Standing.next_assigned_iff numbered built assigned enabled) constructed empty
  refine ⟨runs, exact, ?_⟩
  intro final returned
  have last : (Standing.machine order state constraints).after begins tried = final.standing :=
    performs.results final returned
  rw [← exact, runs.always_iff_after fun _ _ unassigned enabled => Standing.next_unassigned unassigned enabled, last]
  rfl

def assignedShards : SolvingState := (SolvingState.new [] [[5, 7, 9]] [[[], [0, 1, 2]]]).withEmptyMovementMap

def overloaded : MetricConstraint × BinWeightInfo :=
  (MetricConstraint.new .insertion assignedShards .after 1 [1] 0 10 1 .empty).toOption.get (by decide +kernel)

def overloadedWorld : World Unit Constraint := ⟨fun _ => .metric overloaded.1, overloaded.2⟩

def overloadedRun : Run Unit Constraint (Search Unit Constraint) :=
  solve .insertion assignedShards [()] 1 [0, 0] overloadedWorld

theorem overload_unassigned :
    ∃ final, overloadedRun.result = .ok final ∧ final.committedMoves.getNextBin 0 = some kDefaultBin ∧
      Unassigns assignedShards final.committedMoves := by
  have returned := Checked.ok_get overloadedRun.result (by decide +kernel)
  have sent : (overloadedRun.result.toOption.get (by decide +kernel)).committedMoves.getNextBin 0 = some kDefaultBin := by
    decide +kernel
  exact ⟨_, returned, sent, 0, 1, sent, by decide +kernel, by decide⟩

def guardedShards : SolvingState := (SolvingState.new [] [[5, 7, 9]] [[[], [0, 1, 2], []]]).withEmptyMovementMap

def guardOfDefault : DrainConstraint × BinWeightInfo :=
  (DrainConstraint.new .insertion guardedShards .after 1 [0] 100 .empty).toOption.get (by decide +kernel)

def guardedCapacity : MetricConstraint × BinWeightInfo :=
  (MetricConstraint.new .insertion guardedShards .after 1 [1] 0 10 1 guardOfDefault.2).toOption.get (by decide +kernel)

def guardedWorld : World Bool Constraint :=
  ⟨fun isDrain => if isDrain then .drain guardOfDefault.1 else .metric guardedCapacity.1, guardedCapacity.2⟩

private theorem guardedWorld_built : EachBuilt guardedShards [true, false] guardedWorld := by
  intro isDrain _
  cases isDrain with
  | true => exact ⟨.drain .after 1 [0] 100, rfl⟩
  | false => exact ⟨.metric .after 1 [1] 0 10 1, rfl⟩

/-- The first candidate takes shard 0 to bin 0 and is outweighed, the second one takes it to bin 2. -/
theorem solve_unassigns_iff_guarded :
    let searched := solve .insertion guardedShards [true, false] 1 [0, 2, 0] guardedWorld
    searched.events.flatMap triedMoves = [.addMovement {} 0 kDefaultBin, .addMovement {} 0 2] ∧
    Unassigns guardedShards (.addMovement {} 0 kDefaultBin) ∧
    ∃ final, searched.result = .ok final ∧ final.committedMoves.getNextBin 0 = some 2 ∧
      ¬ Unassigns guardedShards final.committedMoves := by
  intro searched
  have tried : searched.events.flatMap triedMoves = [.addMovement {} 0 kDefaultBin, .addMovement {} 0 2] := rfl
  have returned := Checked.ok_get searched.result (by decide +kernel)
  have sent : (searched.result.toOption.get (by decide +kernel)).committedMoves.getNextBin 0 = some 2 := by decide +kernel
  refine ⟨tried, ⟨0, 1, rfl, by decide +kernel, by decide⟩, _, returned, sent, ?_⟩
  obtain ⟨_, _, returns⟩ := solve_unassigns_iff [] [[5, 7, 9]] [[[], [0, 1, 2], []]] (rfl : guardedShards = _) .insertion [true, false]
    guardedWorld guardedWorld_built 1 [0, 2, 0]
  refine (returns _ returned).mpr ?_
  rw [tried, Machine.eachStep_cons, Machine.eachStep_cons]
  refine ⟨fun _ => by decide +kernel, ?_, Machine.eachStep_nil⟩
  rintro ⟨shard, _, gone, _⟩
  rw [MovementMap.next_addMovement] at gone
  split at gone <;> cases gone

end ShardManager

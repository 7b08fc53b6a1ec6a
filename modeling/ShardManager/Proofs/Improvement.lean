import ShardManager.Proofs.Rollback

/-! The search commits strict improvements only, and the weight it keeps beside
the state is the committed weight of the state at the top of every iteration. -/

namespace ShardManager.IterativeLocalSearch
open BinWeightInfo

variable {ι C : Type} [DecidableEq ι] [ConstraintOps C] (order : HashOrder) (state : SolvingState) (constraints : List ι)

/-- A commit of the search: the move is the one candidate returned, and what is
committed is its evaluation as the first candidate of the iteration. -/
structure Improvement (before : Search ι C) (movement : MovementMap) (after : Search ι C) : Prop where
  candidate : ∃ shard nextBin, Candidate state before.committedMoves shard nextBin ∧
    movement = .addMovement {} shard nextBin
  moves : after.committedMoves = before.committedMoves.addMovements movement
  evaluated : ∃ world, evaluate order state constraints before.committedMoves movement before.world = .ok world ∧
    after.world = commitAll constraints world ∧
    after.world.binWeightInfo.committedTotal = world.binWeightInfo.total ∧
    ∀ binId, after.world.binWeightInfo.committedBinWeight binId = world.binWeightInfo.binWeight binId
  lower : after.world.binWeightInfo.committedTotal < before.world.binWeightInfo.committedTotal

variable {order state constraints}

theorem commitAll_weights (world : World ι C) (nonempty : constraints ≠ []) :
    (commitAll constraints world).binWeightInfo.committedTotal = world.binWeightInfo.total ∧
    ∀ binId, (commitAll constraints world).binWeightInfo.committedBinWeight binId = world.binWeightInfo.binWeight binId := by
  induction constraints generalizing world with
  | nil => exact absurd rfl nonempty
  | cons constraint constraints ih =>
    cases constraints with
    | nil => exact ⟨committedTotal_commit _, committedBinWeight_commit _⟩
    | cons second constraints =>
      obtain ⟨total, bins⟩ := ih (commit world constraint) (by simp)
      exact ⟨total.trans (total_commit _), fun binId => (bins binId).trans (binWeight_commit _ binId)⟩

theorem commitAll_shown (world : World ι C) :
    (commitAll constraints world).binWeightInfo.total = world.binWeightInfo.total ∧
    ∀ binId, (commitAll constraints world).binWeightInfo.binWeight binId = world.binWeightInfo.binWeight binId := by
  induction constraints generalizing world with
  | nil => exact ⟨rfl, fun _ => rfl⟩
  | cons constraint constraints ih =>
    obtain ⟨total, bins⟩ := ih (commit world constraint)
    exact ⟨total.trans (total_commit _), fun binId => (bins binId).trans (binWeight_commit _ binId)⟩

private theorem evaluate_nil {committedMoves canariedMoves : MovementMap} {world after : World ι C}
    (evaluated : evaluate order state [] committedMoves canariedMoves world = .ok after) :
    after.binWeightInfo.total = world.binWeightInfo.committedTotal := by
  cases evaluated
  exact total_clear _

/-- What the search knows at the top of an iteration, for the weight it entered with. -/
structure AtTop (entry : Int) (top : Search ι C) : Prop where
  current : top.currentWeight = top.world.binWeightInfo.committedTotal
  progress : top.committedMoves.getAllMovements.keys = [] ∧ top.world.binWeightInfo.committedTotal = entry ∨
    top.committedMoves.getAllMovements.keys ≠ [] ∧ top.world.binWeightInfo.committedTotal < entry

variable [LawfulConstraint C]

/-- Between two commits only canaries change. -/
structure Searching (constraints : List ι) (top search : Search ι C) : Prop where
  committed : SameCommitted constraints search.world top.world
  moves : search.committedMoves = top.committedMoves
  weight : search.currentWeight = top.currentWeight

omit [DecidableEq ι] in
theorem Searching.committedTotal {top search : Search ι C} (searching : Searching constraints top search) :
    search.world.binWeightInfo.committedTotal = top.world.binWeightInfo.committedTotal :=
  congrArg BinWeightInfo.total searching.committed.weights

/-- The rule for one iteration: the accepted candidate has the evaluation it
would have had as the first. -/
theorem improvement_rule (top : Search ι C) (onEvent : Event ι C → Prop)
    (quiet : ∀ committedMoves canariedMoves world, onEvent (.evaluated committedMoves canariedMoves world)) :
    EvaluationRule order state constraints (Searching constraints top)
      (fun movement search => ∃ shard nextBin, Candidate state top.committedMoves shard nextBin ∧
        movement = .addMovement {} shard nextBin ∧
        evaluate order state constraints top.committedMoves movement top.world = .ok search.world ∧
        search.world.binWeightInfo.total < top.currentWeight ∧
        search.currentWeight = search.world.binWeightInfo.total)
      onEvent where
  draws _ _ searching := ⟨searching.committed, searching.moves, searching.weight⟩
  evaluated _ _ _ _ _ _ _ := quiet _ _ _
  rejected _ _ _ _ searching _ evaluated _ :=
    ⟨(evaluate_keeps evaluated).trans searching.committed, searching.moves, searching.weight⟩
  accepted search shard nextBin world searching candidate evaluated lower := by
    rw [searching.committed.evaluate, searching.moves] at evaluated
    exact ⟨shard, nextBin, searching.moves ▸ candidate, rfl, evaluated, searching.weight ▸ lower, rfl⟩

omit [LawfulConstraint C] in
/-- The commit that follows an accepted candidate is an improvement and leads to
the top of the next iteration. -/
theorem improvement_commit {entry : Int} {top search : Search ι C} {movement : MovementMap} (holds : AtTop entry top)
    (accepted : ∃ shard nextBin, Candidate state top.committedMoves shard nextBin ∧
      movement = .addMovement {} shard nextBin ∧
      evaluate order state constraints top.committedMoves movement top.world = .ok search.world ∧
      search.world.binWeightInfo.total < top.currentWeight ∧
      search.currentWeight = search.world.binWeightInfo.total)
    (sameMoves : search.committedMoves = top.committedMoves) :
    Improvement order state constraints top movement (commitMovement constraints movement search) ∧
    AtTop entry (commitMovement constraints movement search) := by
  obtain ⟨shard, nextBin, candidate, rfl, evaluated, lower, weight⟩ := accepted
  have nonempty : constraints ≠ [] := by
    rintro rfl
    rw [evaluate_nil evaluated, holds.current] at lower
    exact lt_irrefl _ lower
  obtain ⟨total, bins⟩ := commitAll_weights search.world nonempty
  rw [holds.current, ← total] at lower
  refine ⟨⟨⟨shard, nextBin, candidate, rfl⟩, by rw [← sameMoves]; rfl, ⟨search.world, evaluated, rfl, total, bins⟩, lower⟩,
    weight.trans total.symm, .inr ⟨?_, ?_⟩⟩
  · have moved : ((commitMovement constraints (.addMovement {} shard nextBin) search).committedMoves).getNextBin shard =
        some nextBin := by simp [commitMovement]
    intro none
    have member := (UnorderedMap.mem_keys_iff _ _).mpr ⟨nextBin, moved⟩
    rw [MovementMap.getAllMovements] at none
    simp [none] at member
  · rcases holds.progress with ⟨_, same⟩ | ⟨_, less⟩
    · exact lt_of_lt_of_eq lower same
    · exact lt_trans lower less

/-- Each commit of `solve` is a strict improvement, the weight `solve` carries is
the committed one at the top of each iteration, and the weight on return is lower
than at entry unless nothing was moved. -/
theorem solve_improves (order : HashOrder) (state : SolvingState) (constraints : List ι) (maxIterations : Nat)
    (draws : List Nat) (world : World ι Constraint) (settled : world.binWeightInfo.clear = world.binWeightInfo) :
    (∀ top, .iteration top ∈ (solve order state constraints maxIterations draws world).events →
      top.currentWeight = top.world.binWeightInfo.committedTotal) ∧
    (∀ before movement after,
      .committed before movement after ∈ (solve order state constraints maxIterations draws world).events →
        Improvement order state constraints before movement after) ∧
    ∀ final, (solve order state constraints maxIterations draws world).result = .ok final →
      final.world.binWeightInfo.committedTotal ≤ world.binWeightInfo.committedTotal ∧
      (final.world.binWeightInfo.committedTotal = world.binWeightInfo.committedTotal ↔
        final.committedMoves.getAllMovements.keys = []) := by
  let entry := world.binWeightInfo.committedTotal
  let onEvent : Event ι Constraint → Prop := fun
    | .iteration top => top.currentWeight = top.world.binWeightInfo.committedTotal
    | .passed _ => True
    | .evaluated _ _ _ => True
    | .committed before movement after => Improvement order state constraints before movement after
  let onReturn : Search ι Constraint → Prop := fun final => ∃ top, AtTop entry top ∧ Searching constraints top final
  have run : Traced.Satisfies onEvent onReturn (solve order state constraints maxIterations draws world) := by
    refine iterate_satisfies (AtTop entry) onReturn (fun _ => trivial) ?_ (fun search holds => ⟨search, holds, .refl _, rfl, rfl⟩)
      maxIterations _ ⟨?_, .inl ⟨rfl, rfl⟩⟩
    · intro top holds
      refine ⟨holds.current, _, _, improvement_rule top onEvent (fun _ _ _ => trivial), ⟨.refl _, rfl, rfl⟩,
        fun search searching => ⟨top, holds, searching⟩, ?_⟩
      intro movement search accepted sameMoves
      exact improvement_commit holds accepted sameMoves
    · change world.binWeightInfo.total = world.binWeightInfo.committedTotal
      rw [← settled, total_clear, committedTotal_clear]
  refine ⟨fun top member => run.1 _ member, fun before movement after member => run.1 _ member, ?_⟩
  intro final done
  obtain ⟨top, holds, searching⟩ := run.2 final done
  rw [searching.committedTotal, searching.moves]
  rcases holds.progress with ⟨unmoved, same⟩ | ⟨moved, less⟩
  · exact ⟨le_of_eq same, fun _ => unmoved, fun _ => same⟩
  · exact ⟨le_of_lt less, fun same => absurd same (ne_of_lt less), fun unmoved => absurd unmoved moved⟩

theorem solve_improves_twoBins :
    (∀ top, .iteration top ∈ drainedRun.events → top.currentWeight = top.world.binWeightInfo.committedTotal) ∧
    (∀ before movement after, .committed before movement after ∈ drainedRun.events →
      Improvement .insertion .twoBins [()] before movement after) ∧
    ∀ final, drainedRun.result = .ok final →
      final.world.binWeightInfo.committedTotal ≤ drainedWorld.binWeightInfo.committedTotal ∧
      (final.world.binWeightInfo.committedTotal = drainedWorld.binWeightInfo.committedTotal ↔
        final.committedMoves.getAllMovements.keys = []) :=
  solve_improves .insertion .twoBins [()] 2 [0, 1, 0, 1] drainedWorld rfl

end ShardManager.IterativeLocalSearch

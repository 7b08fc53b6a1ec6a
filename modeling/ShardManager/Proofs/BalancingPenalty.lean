import ShardManager.Proofs.Reweighed
import ShardManager.Proofs.SearchRuns

/-! What a search makes of load balancing. Nothing records what a `LoadBalancingConstraint`
has added to the weights before, so a candidate is never lighter for it: a search over such constraints
alone moves nothing, and beside others they only speak against moves. -/

namespace ShardManager
open IterativeLocalSearch

namespace LoadBalancingConstraint

/-- No fault is recorded, and no excess weighs less than 0. -/
structure Penalizes (constraint : LoadBalancingConstraint) : Prop where
  unset : constraint.domainFaultMap = .empty
  room : 0 ≤ constraint.maxDelta
  weighs : ∀ excess, 0 ≤ excess → 0 ≤ constraint.faultWeightMultiplier excess

variable {constraint after : LoadBalancingConstraint} {order : HashOrder} {state : SolvingState}

theorem Penalizes.nodeWeight (penalizes : constraint.Penalizes) (minMetric : Int) (domainId : DomainId) :
    0 ≤ constraint.nodeWeight minMetric domainId := by
  unfold LoadBalancingConstraint.nodeWeight
  generalize (constraint.maxExpressionTree.metricsMap.get (constraint.domain, domainId)).getD 0 = maxMetric
  have room := penalizes.room
  obtain ⟨_, high⟩ := toInt32_fits |toInt32 (maxMetric - minMetric)|
  simp only
  split
  next above =>
    rw [toInt32_of_fits]
    · exact penalizes.weighs _ (by omega)
    · constructor <;> omega
  next => exact le_rfl

theorem Penalizes.canaryMoves (penalizes : constraint.Penalizes) {committedMoves canariedMoves : MovementMapPtr} {info final : BinWeightInfo}
    (canaried : constraint.canaryMoves order state committedMoves canariedMoves info = .ok (after, final)) :
    after.Penalizes ∧ info.total ≤ final.total := by
  unfold LoadBalancingConstraint.canaryMoves at canaried
  obtain ⟨⟨minTree, visited⟩, _, canaried⟩ := Checked.bind_ok canaried
  obtain ⟨⟨maxTree, updated⟩, _, canaried⟩ := Checked.bind_ok canaried
  cases canaried
  have unset : constraint.domainFaultMap.clear = .empty := by
    rw [penalizes.unset]
    rfl
  refine ⟨⟨unset, penalizes.room, penalizes.weighs⟩, ?_⟩
  have still : LoadBalancingConstraint.Penalizes { constraint with
      minExpressionTree := minTree, maxExpressionTree := maxTree, domainUpdatedSet := updated
      domainFaultMap := constraint.domainFaultMap.clear } := ⟨unset, penalizes.room, penalizes.weighs⟩
  rw [(updateWeights_adds order _ info fun binId => by simp only [unset]; rfl).1]
  exact le_add_of_nonneg_right (Finset.sum_nonneg fun binId _ => still.nodeWeight _ binId)

theorem Penalizes.commitMoves (penalizes : constraint.Penalizes) : constraint.commitMoves.Penalizes := by
  refine ⟨?_, penalizes.room, penalizes.weighs⟩
  change constraint.domainFaultMap.commit = .empty
  rw [penalizes.unset]
  rfl

end LoadBalancingConstraint

namespace Constraint
variable {constraint after : Constraint} {order : HashOrder} {state : SolvingState}

def Arguments.isLoadBalancing : Arguments → Bool
  | .loadBalancing .. => true
  | _ => false

def Penalizes : Constraint → Prop
  | .loadBalancing constraint => constraint.Penalizes
  | _ => False

/-- Arguments of load balancing whose weights are not negative. -/
def Arguments.Penalizes : Arguments → Prop
  | .loadBalancing _ _ _ maxDelta faultWeightMultiplier => 0 ≤ maxDelta ∧ ∀ excess, 0 ≤ excess → 0 ≤ faultWeightMultiplier excess
  | _ => False

theorem Penalizes.canaryMoves (penalizes : constraint.Penalizes) {committedMoves canariedMoves : MovementMapPtr} {info final : BinWeightInfo}
    (canaried : constraint.canaryMoves order state committedMoves canariedMoves info = .ok (after, final)) :
    after.Penalizes ∧ info.total ≤ final.total := by
  cases constraint with
  | metric constraint => exact penalizes.elim
  | drain constraint => exact penalizes.elim
  | loadBalancing constraint =>
    obtain ⟨⟨object, weights⟩, changed, canaried⟩ := Checked.bind_ok canaried
    cases canaried
    exact LoadBalancingConstraint.Penalizes.canaryMoves penalizes changed

theorem Penalizes.commitMoves (penalizes : constraint.Penalizes) : constraint.commitMoves.Penalizes := by
  cases constraint with
  | metric constraint => exact penalizes.elim
  | drain constraint => exact penalizes.elim
  | loadBalancing constraint => exact LoadBalancingConstraint.Penalizes.commitMoves penalizes

theorem Penalizes.added (penalizes : constraint.Penalizes) (committedMoves canariedMoves : MovementMap) :
    0 ≤ (constraint.added order state committedMoves canariedMoves).total := by
  unfold Constraint.added
  split
  next info canaried => exact (penalizes.canaryMoves canaried).2
  next => exact le_rfl

theorem Arguments.Penalizes.new {arguments : Arguments} (penalizes : arguments.Penalizes) {info weights : BinWeightInfo}
    (made : Constraint.new order state info arguments = .ok (constraint, weights)) : constraint.Penalizes := by
  cases arguments with
  | metric => exact penalizes.elim
  | drain => exact penalizes.elim
  | loadBalancing domain domainIds metric maxDelta faultWeightMultiplier =>
    obtain ⟨⟨object, more⟩, constructed, made⟩ := Checked.bind_ok made
    cases made
    unfold LoadBalancingConstraint.new at constructed
    obtain ⟨⟨minTree, visited⟩, _, constructed⟩ := Checked.bind_ok constructed
    obtain ⟨⟨maxTree, updated⟩, _, constructed⟩ := Checked.bind_ok constructed
    cases constructed
    exact ⟨rfl, penalizes.1, penalizes.2⟩

private theorem penalizes_tracks (order : HashOrder) (state : SolvingState) :
    Tracks order state fun _ (constraint : Constraint) => constraint.Penalizes where
  accepted _ _ _ _ _ _ _ _ penalizes canaried := (penalizes.canaryMoves canaried).1.commitMoves
  again _ _ penalizes := penalizes.commitMoves

end Constraint

namespace LoadBalancingConstraint
variable {ι : Type} [DecidableEq ι] {order : HashOrder} {state : SolvingState} {constraints : List ι}

/-- The top of an iteration over constraints of which some penalize. -/
structure PenalizedTop (penalizing : ι → Bool) (constraints : List ι) (entry : Int) (top : Search ι Constraint) : Prop where
  atTop : AtTop entry top
  penalizes : ∀ constraint ∈ constraints, penalizing constraint = true → (top.world.objects constraint).Penalizes
  unmoved : (∀ constraint ∈ constraints, penalizing constraint = true) → top.committedMoves = {}

/-- What the others add is less than nothing where a move is an improvement. -/
private theorem PenalizedTop.others_lower {penalizing : ι → Bool} {entry : Int}
    {before after : Search ι Constraint} {movement : MovementMap} (penalized : PenalizedTop penalizing constraints entry before)
    (improvement : Improvement order state constraints before movement after) :
    ((constraints.filter fun constraint => !penalizing constraint).map fun constraint =>
      ((before.world.objects constraint).added order state before.committedMoves movement).total).sum < 0 := by
  obtain ⟨world, evaluated, committed, _⟩ := improvement.evaluated
  have step : CommitStep order state constraints before movement after :=
    ⟨improvement.candidate, improvement.moves, world, evaluated, committed⟩
  have total := (step.added).1
  have lower := improvement.lower
  have parts := ((List.filter_append_perm penalizing constraints).map fun constraint =>
    ((before.world.objects constraint).added order state before.committedMoves movement).total).sum_eq
  rw [List.map_append, List.sum_append] at parts
  have penalty : 0 ≤ ((constraints.filter penalizing).map fun constraint =>
      ((before.world.objects constraint).added order state before.committedMoves movement).total).sum := by
    apply List.sum_nonneg
    intro value member
    obtain ⟨constraint, kept, rfl⟩ := List.mem_map.mp member
    obtain ⟨listed, penalizing⟩ := List.mem_filter.mp kept
    exact (penalized.penalizes constraint listed penalizing).added _ _
  omega

theorem PenalizedTop.commit {penalizing : ι → Bool} {entry : Int} {top search : Search ι Constraint}
    {movement : MovementMap} (penalized : PenalizedTop penalizing constraints entry top)
    (improvement : Improvement order state constraints top movement (commitMovement constraints movement search))
    (again : AtTop entry (commitMovement constraints movement search)) :
    PenalizedTop penalizing constraints entry (commitMovement constraints movement search) where
  atTop := again
  penalizes constraint listed penalizing := by
    obtain ⟨world, evaluated, committed, _⟩ := improvement.evaluated
    have step : CommitStep order state constraints top movement (commitMovement constraints movement search) :=
      ⟨improvement.candidate, improvement.moves, world, evaluated, committed⟩
    exact (Constraint.penalizes_tracks order state).step listed step (penalized.penalizes constraint listed penalizing)
  unmoved all := by
    have lower := penalized.others_lower improvement
    have none : (constraints.filter fun constraint => !penalizing constraint) = [] := by
      rw [List.filter_eq_nil_iff]
      intro constraint listed
      simp [all constraint listed]
    rw [none] at lower
    exact absurd lower (lt_irrefl 0)

/-- Load balancing never speaks for a move. Each commit of a search lowers what the other
constraints weigh, whatever load balancing adds; and where all constraints balance loads, nothing is
moved at all. -/
theorem solve_penalizes (order : HashOrder) (state : SolvingState) (constraints : List ι)
    (arguments : ι → Constraint.Arguments)
    (penalizes : ∀ constraint ∈ constraints, (arguments constraint).isLoadBalancing = true → (arguments constraint).Penalizes)
    (world : World ι Constraint)
    (made : ∀ constraint ∈ constraints, ∃ constructorOrder info weights,
      Constraint.new constructorOrder state info (arguments constraint) = .ok (world.objects constraint, weights))
    (settled : world.binWeightInfo.clear = world.binWeightInfo) (maxIterations : Nat) (draws : List Nat) :
    let run := solve order state constraints maxIterations draws world
    (∀ before movement after, .committed before movement after ∈ run.events →
      ((constraints.filter fun constraint => !(arguments constraint).isLoadBalancing).map fun constraint =>
        ((before.world.objects constraint).added order state before.committedMoves movement).total).sum < 0) ∧
    ((∀ constraint ∈ constraints, (arguments constraint).isLoadBalancing = true) → ∀ final, run.result = .ok final →
      final.committedMoves = {} ∧ final.currentWeight = world.binWeightInfo.total) := by
  let penalizing : ι → Bool := fun constraint => (arguments constraint).isLoadBalancing
  let entry := world.binWeightInfo.committedTotal
  let onEvent : Event ι Constraint → Prop := fun event => ∀ before movement after, event = .committed before movement after →
    PenalizedTop penalizing constraints entry before ∧ Improvement order state constraints before movement after
  have total : world.binWeightInfo.total = entry := by
    rw [← settled, BinWeightInfo.total_clear]
  have begins : PenalizedTop penalizing constraints entry (start world draws) := by
    refine ⟨⟨total, .inl ⟨rfl, rfl⟩⟩, ?_, fun _ => rfl⟩
    intro constraint listed balances
    obtain ⟨_, _, _, constructed⟩ := made constraint listed
    exact (penalizes constraint listed balances).new constructed
  have run : Traced.Satisfies onEvent
      (fun final => ∃ top, PenalizedTop penalizing constraints entry top ∧ Searching constraints top final)
      (solve order state constraints maxIterations draws world) := by
    refine iterate_satisfies (PenalizedTop penalizing constraints entry) _ (by simp [onEvent]) ?_
      (fun search holds => ⟨search, holds, .refl _, rfl, rfl⟩) maxIterations _ begins
    intro top holds
    refine ⟨by simp [onEvent], _, _, improvement_rule top onEvent (by simp [onEvent]), ⟨.refl _, rfl, rfl⟩,
      fun search searching => ⟨top, holds, searching⟩, ?_⟩
    intro movement search accepted sameMoves
    obtain ⟨improvement, again⟩ := improvement_commit holds.atTop accepted sameMoves
    refine ⟨?_, holds.commit improvement again⟩
    intro before moved after happened
    cases happened
    exact ⟨holds, improvement⟩
  refine ⟨?_, ?_⟩
  · intro before movement after happened
    obtain ⟨penalized, improvement⟩ := run.1 _ happened before movement after rfl
    exact penalized.others_lower improvement
  · intro all final returned
    obtain ⟨top, holds, searching⟩ := run.2 final returned
    have unmoved := holds.unmoved all
    refine ⟨searching.moves.trans unmoved, ?_⟩
    rw [searching.weight, holds.atTop.current, total]
    obtain ⟨_, same⟩ | ⟨moved, _⟩ := holds.atTop.progress
    · exact same
    · rw [unmoved] at moved
      exact absurd rfl moved

def balancedArguments (isBalance : Bool) : Constraint.Arguments :=
  if isBalance then .loadBalancing 1 [0, 1] 0 0 (integerMultiplier 2) else .drain .after 1 [0] 100

/-- Beside a drain, and on its own, where the loads are 12 and 9. -/
theorem solve_penalizes_fullBins :
    (∀ before movement after,
      .committed before movement after ∈ (solve .insertion fullBins [true, false] 3 [0, 1, 0, 1] (balancedWorld strict)).events →
        ((before.world.objects false).added .insertion fullBins before.committedMoves movement).total < 0) ∧
    ∃ final, (solve .insertion fullBins [true] 3 (List.range 200) (balancedWorld strict)).result = .ok final ∧
      final.committedMoves = {} ∧ final.currentWeight = strict.2.total := by
  have penalizes : ∀ constraint : Bool, (balancedArguments constraint).isLoadBalancing = true → (balancedArguments constraint).Penalizes := by
    intro constraint balances
    cases constraint with
    | true => exact ⟨le_rfl, fun excess more => roundDouble_nonneg (Int.mul_nonneg more (by decide))⟩
    | false => cases balances
  have made : ∀ constraint : Bool, ∃ constructorOrder info weights,
      Constraint.new constructorOrder fullBins info (balancedArguments constraint) =
        .ok ((balancedWorld strict).objects constraint, weights) := by
    intro constraint
    cases constraint with
    | true => exact ⟨.insertion, drainedFirst.2, strict.2, rfl⟩
    | false => exact ⟨.insertion, .empty, drainedFirst.2, rfl⟩
  have both := solve_penalizes .insertion fullBins [true, false] balancedArguments (fun constraint _ => penalizes constraint)
    (balancedWorld strict) (fun constraint _ => made constraint) rfl 3 [0, 1, 0, 1]
  have alone := solve_penalizes .insertion fullBins [true] balancedArguments (fun constraint _ => penalizes constraint)
    (balancedWorld strict) (fun constraint _ => made constraint) rfl 3 (List.range 200)
  have returned := Checked.ok_get (solve .insertion fullBins [true] 3 (List.range 200) (balancedWorld strict)).result (by decide +kernel)
  refine ⟨?_, _, returned, alone.2 (by decide) _ returned⟩
  intro before movement after happened
  simpa [balancedArguments, Constraint.Arguments.isLoadBalancing] using both.1 before movement after happened

end LoadBalancingConstraint
end ShardManager

import ShardManager.Proofs.Reordered
import ShardManager.Proofs.Reweighed

/-! Worlds of constraints in any order: constructed in different orders, over hash
containers traversed differently, they show the same, and keep showing the same
through every evaluation and every commit. -/

namespace ShardManager
open LoadBalancingConstraint (fullBins)

namespace Constraint
variable {state : SolvingState} {arguments : Arguments} {constraint : Constraint}

/-- What a constructor adds to the weights, told from weights of 0. -/
def Arguments.added (state : SolvingState) (arguments : Arguments) : BinWeightInfo :=
  match Constraint.new .insertion state .empty arguments with
  | .ok (_, info) => info
  | .error _ => .empty

private theorem sameChange_empty {info final otherFinal : BinWeightInfo} (change : SameChange info final .empty otherFinal) :
    final.total = info.total + otherFinal.total ∧ ∀ binId, final.binWeight binId = info.binWeight binId + otherFinal.binWeight binId := by
  obtain ⟨total, bins, own, others⟩ := change
  have none : ∀ binId, BinWeightInfo.empty.binWeight binId = 0 := fun binId => by
    simp [BinWeightInfo.binWeight, BinWeightInfo.empty]
  refine ⟨?_, fun binId => ?_⟩
  · rw [own.total, others.total]
    exact congrArg (info.total + ·) (zero_add total).symm
  · rw [own.bins, others.bins, none, zero_add]

theorem new_added (hierarchical : state.Hierarchical) (hasBin : (arguments.tree state).HasBin) {order : HashOrder}
    {info : BinWeightInfo} {made : Constraint × BinWeightInfo} (called : new order state info arguments = .ok made) :
    made.2.total = info.total + (arguments.added state).total ∧
      ∀ binId, made.2.binWeight binId = info.binWeight binId + (arguments.added state).binWeight binId := by
  obtain ⟨started, first, _⟩ := new_defined .insertion state hierarchical.movementMap .empty arguments
  have same := (identical_new hierarchical hasBin called first).2
  rw [Arguments.added, first]
  exact sameChange_empty same

variable (order otherOrder : HashOrder) {first second : Constraint}
  {committedMoves canariedMoves otherCommitted otherCanaried : MovementMap}

private theorem added_same (hierarchical : state.Hierarchical) (hasBin : (arguments.tree state).HasBin)
    (built : Built state arguments first) (otherBuilt : Built state arguments second)
    (identical : Identical (LawfulConstraint.rollback first) (LawfulConstraint.rollback second))
    (sameCommitted : SameMoves committedMoves otherCommitted) (sameCanaried : SameMoves canariedMoves otherCanaried) :
    (first.added order state committedMoves canariedMoves).total =
        (second.added otherOrder state otherCommitted otherCanaried).total ∧
      ∀ binId, (first.added order state committedMoves canariedMoves).binWeight binId =
        (second.added otherOrder state otherCommitted otherCanaried).binWeight binId := by
  obtain ⟨after, canaried⟩ := canaryMoves_defined order hierarchical.movementMap committedMoves canariedMoves first .empty
    (built.hasBin hasBin)
  obtain ⟨otherAfter, otherwise⟩ := canaryMoves_defined otherOrder hierarchical.movementMap otherCommitted otherCanaried second .empty
    (otherBuilt.hasBin hasBin)
  obtain ⟨total, bins, own, others⟩ :=
    (identical.canaried hierarchical hasBin built otherBuilt sameCommitted sameCanaried canaried otherwise).2
  change first.canaryMoves order state _ _ _ = _ at canaried
  change second.canaryMoves otherOrder state _ _ _ = _ at otherwise
  rw [added, added, canaried, otherwise]
  exact ⟨own.total.trans others.total.symm, fun binId => (own.bins binId).trans (others.bins binId).symm⟩

end Constraint

namespace IterativeLocalSearch
variable {ι : Type} [DecidableEq ι]

/-- The constructor of one constraint, on the weights that the constructors before it left. -/
def construct (order : HashOrder) (state : SolvingState) (arguments : ι → Constraint.Arguments) (world : World ι Constraint)
    (constraint : ι) : Except Fault (World ι Constraint) := do
  let (object, info) ← Constraint.new order state world.binWeightInfo (arguments constraint)
  pure ⟨Function.update world.objects constraint object, info⟩

def constructEach (order : HashOrder) (state : SolvingState) (arguments : ι → Constraint.Arguments) (constraints : List ι)
    (world : World ι Constraint) : Except Fault (World ι Constraint) :=
  constraints.foldlM (construct order state arguments) world

def rolledBack (world : World ι Constraint) : World ι Constraint :=
  ⟨fun constraint => LawfulConstraint.rollback (world.objects constraint), world.binWeightInfo.clear⟩

/-- The worlds show the same metrics, faults and weights. -/
structure Identical (constraints : List ι) (first second : World ι Constraint) : Prop where
  objects : ∀ constraint ∈ constraints, (first.objects constraint).Identical (second.objects constraint)
  total : first.binWeightInfo.total = second.binWeightInfo.total
  bins : ∀ binId, first.binWeightInfo.binWeight binId = second.binWeightInfo.binWeight binId

/-- The worlds have the constraints of the arguments, and have committed the same. -/
structure Alike (state : SolvingState) (arguments : ι → Constraint.Arguments) (constraints : List ι)
    (first second : World ι Constraint) : Prop where
  built : ∀ constraint ∈ constraints, (first.objects constraint).Built state (arguments constraint)
  otherBuilt : ∀ constraint ∈ constraints, (second.objects constraint).Built state (arguments constraint)
  committed : Identical constraints (rolledBack first) (rolledBack second)

/-- What calling the constructors does to a world. -/
structure Constructed (state : SolvingState) (arguments : ι → Constraint.Arguments) (constraints : List ι)
    (world after : World ι Constraint) : Prop where
  made : ∀ constraint ∈ constraints, ∃ order info made, Constraint.new order state info (arguments constraint) = .ok made ∧
    after.objects constraint = made.1
  others : ∀ constraint, constraint ∉ constraints → after.objects constraint = world.objects constraint
  cleared : constraints ≠ [] → after.binWeightInfo.clear = after.binWeightInfo
  idle : constraints = [] → after = world
  total : after.binWeightInfo.total = world.binWeightInfo.total +
    (constraints.map fun constraint => ((arguments constraint).added state).total).sum
  bins : ∀ binId, after.binWeightInfo.binWeight binId = world.binWeightInfo.binWeight binId +
    (constraints.map fun constraint => ((arguments constraint).added state).binWeight binId).sum

section Orders
variable {state : SolvingState} {arguments : ι → Constraint.Arguments} {constraints others : List ι}
  {world other after otherAfter : World ι Constraint}

theorem constructEach_constructed (hierarchical : state.Hierarchical)
    (hasBin : ∀ constraint ∈ constraints, ((arguments constraint).tree state).HasBin) (order : HashOrder)
    (world : World ι Constraint) :
    ∃ after, constructEach order state arguments constraints world = .ok after ∧
      Constructed state arguments constraints world after := by
  induction constraints generalizing world with
  | nil => exact ⟨world, rfl, by simp, by simp, by simp, by simp, by simp, by simp⟩
  | cons constraint constraints ih =>
    obtain ⟨made, called, _⟩ :=
      Constraint.new_defined order state hierarchical.movementMap world.binWeightInfo (arguments constraint)
    obtain ⟨after, rest, constructed⟩ := ih (fun other member => hasBin other (by simp [member]))
      ⟨Function.update world.objects constraint made.1, made.2⟩
    obtain ⟨total, bins⟩ := Constraint.new_added hierarchical (hasBin constraint (by simp)) called
    refine ⟨after, ?_, ?_, ?_, ?_, by simp, ?_, ?_⟩
    · rw [constructEach, List.foldlM_cons, construct, called]
      exact rest
    · intro other member
      by_cases later : other ∈ constraints
      · exact constructed.made other later
      · obtain rfl := (List.mem_cons.mp member).resolve_right later
        exact ⟨order, _, made, called, by simp [constructed.others other later]⟩
    · intro other absent
      obtain ⟨different, later⟩ := not_or.mp (List.mem_cons.not.mp absent)
      simp [constructed.others other later, different]
    · intro _
      by_cases last : constraints = []
      · rw [constructed.idle last]
        exact (Constraint.Built.new hierarchical.movementMap called).2.1
      · exact constructed.cleared last
    · rw [constructed.total, total, List.map_cons, List.sum_cons, add_assoc]
    · intro binId
      rw [constructed.bins, bins, List.map_cons, List.sum_cons, add_assoc]

omit [DecidableEq ι] in
/-- Constructed in two orders on the same weights, the worlds show and have committed the same. -/
theorem Constructed.alike (hierarchical : state.Hierarchical)
    (hasBin : ∀ constraint ∈ constraints, ((arguments constraint).tree state).HasBin) (reordered : constraints.Perm others)
    (constructed : Constructed state arguments constraints world after)
    (otherwise : Constructed state arguments others world otherAfter) :
    Identical constraints after otherAfter ∧ Alike state arguments constraints after otherAfter := by
  have objects : ∀ constraint ∈ constraints,
      (after.objects constraint).Built state (arguments constraint) ∧
      (otherAfter.objects constraint).Built state (arguments constraint) ∧
      (after.objects constraint).Identical (otherAfter.objects constraint) ∧
      (LawfulConstraint.rollback (after.objects constraint)).Identical
        (LawfulConstraint.rollback (otherAfter.objects constraint)) := by
    intro constraint member
    obtain ⟨_, _, made, called, same⟩ := constructed.made constraint member
    obtain ⟨_, _, otherMade, otherCalled, otherSame⟩ := otherwise.made constraint (reordered.mem_iff.mp member)
    obtain ⟨built, _, committed⟩ := Constraint.Built.new hierarchical.movementMap called
    obtain ⟨otherBuilt, _, otherCommitted⟩ := Constraint.Built.new hierarchical.movementMap otherCalled
    have shown := (Constraint.identical_new hierarchical (hasBin constraint member) called otherCalled).1
    rw [same, otherSame]
    exact ⟨built, otherBuilt, shown, committed.symm.trans (shown.trans otherCommitted)⟩
  have total : after.binWeightInfo.total = otherAfter.binWeightInfo.total := by
    rw [constructed.total, otherwise.total, (reordered.map _).sum_eq]
  have bins : ∀ binId, after.binWeightInfo.binWeight binId = otherAfter.binWeightInfo.binWeight binId := by
    intro binId
    rw [constructed.bins, otherwise.bins, (reordered.map _).sum_eq]
  have committed : after.binWeightInfo.clear.total = otherAfter.binWeightInfo.clear.total ∧
      ∀ binId, after.binWeightInfo.clear.binWeight binId = otherAfter.binWeightInfo.clear.binWeight binId := by
    have none := nil_iff_of_perm reordered
    by_cases idle : constraints = []
    · rw [constructed.idle idle, otherwise.idle (none.mp idle)]
      exact ⟨rfl, fun _ => rfl⟩
    · rw [constructed.cleared idle, otherwise.cleared fun other => idle (none.mpr other)]
      exact ⟨total, bins⟩
  exact ⟨⟨fun constraint member => (objects constraint member).2.2.1, total, bins⟩,
    fun constraint member => (objects constraint member).1, fun constraint member => (objects constraint member).2.1,
    fun constraint member => (objects constraint member).2.2.2, committed.1, committed.2⟩

variable {order otherOrder : HashOrder} {committedMoves canariedMoves otherCommitted otherCanaried : MovementMap}

/-- Worlds that have committed the same show the same after the same moves. -/
theorem Alike.evaluated (hierarchical : state.Hierarchical)
    (hasBin : ∀ constraint ∈ constraints, ((arguments constraint).tree state).HasBin) (reordered : constraints.Perm others)
    (alike : Alike state arguments constraints world other) (sameCommitted : SameMoves committedMoves otherCommitted)
    (sameCanaried : SameMoves canariedMoves otherCanaried)
    (evaluated : evaluate order state constraints committedMoves canariedMoves world = .ok after)
    (otherwise : evaluate otherOrder state others otherCommitted otherCanaried other = .ok otherAfter) :
    Identical constraints after otherAfter := by
  have added := fun constraint member =>
    Constraint.added_same order otherOrder hierarchical (hasBin constraint member) (alike.built constraint member)
      (alike.otherBuilt constraint member) (alike.committed.objects constraint member) sameCommitted sameCanaried
  obtain ⟨total, bins⟩ := evaluate_added evaluated
  obtain ⟨otherTotal, otherBins⟩ := evaluate_added otherwise
  constructor
  · intro constraint member
    obtain ⟨_, _, canaried⟩ := evaluate_target evaluated member
    obtain ⟨_, _, otherCanaried⟩ := evaluate_target otherwise (reordered.mem_iff.mp member)
    exact ((alike.committed.objects constraint member).canaried hierarchical (hasBin constraint member) (alike.built constraint member)
      (alike.otherBuilt constraint member) sameCommitted sameCanaried canaried otherCanaried).1
  · have committed : world.binWeightInfo.committedTotal = other.binWeightInfo.committedTotal := alike.committed.total
    rw [total, otherTotal, committed, List.map_congr_left fun constraint member => (added constraint member).1,
      (reordered.map _).sum_eq]
  · intro binId
    have committed : world.binWeightInfo.committedBinWeight binId = other.binWeightInfo.committedBinWeight binId := by
      rw [← BinWeightInfo.binWeight_clear, ← BinWeightInfo.binWeight_clear]
      exact alike.committed.bins binId
    rw [bins, otherBins, committed, List.map_congr_left fun constraint member => (added constraint member).2 binId,
      (reordered.map _).sum_eq]

/-- Evaluating only writes canaries. -/
theorem Alike.kept (reordered : constraints.Perm others) (alike : Alike state arguments constraints world other)
    (evaluated : evaluate order state constraints committedMoves canariedMoves world = .ok after)
    (otherwise : evaluate otherOrder state others otherCommitted otherCanaried other = .ok otherAfter) :
    Alike state arguments constraints after otherAfter := by
  have same := evaluate_keeps evaluated
  have otherSame := evaluate_keeps otherwise
  refine ⟨?_, ?_, ?_, ?_, ?_⟩
  · intro constraint member
    rw [Constraint.Built, ← Constraint.bare_rollback, same.listed constraint member, Constraint.bare_rollback]
    exact alike.built constraint member
  · intro constraint member
    rw [Constraint.Built, ← Constraint.bare_rollback, otherSame.listed constraint (reordered.mem_iff.mp member),
      Constraint.bare_rollback]
    exact alike.otherBuilt constraint member
  · intro constraint member
    change Constraint.Identical (LawfulConstraint.rollback _) (LawfulConstraint.rollback _)
    rw [same.listed constraint member, otherSame.listed constraint (reordered.mem_iff.mp member)]
    exact alike.committed.objects constraint member
  · change after.binWeightInfo.clear.total = otherAfter.binWeightInfo.clear.total
    rw [same.weights, otherSame.weights]
    exact alike.committed.total
  · intro binId
    change after.binWeightInfo.clear.binWeight binId = otherAfter.binWeightInfo.clear.binWeight binId
    rw [same.weights, otherSame.weights]
    exact alike.committed.bins binId

/-- What is shown the same is committed the same. -/
theorem Alike.committed_all (distinct : constraints.Nodup) (reordered : constraints.Perm others)
    (alike : Alike state arguments constraints world other) (identical : Identical constraints world other) :
    Alike state arguments constraints (commitAll constraints world) (commitAll others other) := by
  have once : ∀ constraint ∈ constraints, (commitAll constraints world).objects constraint = (world.objects constraint).commitMoves ∧
      (commitAll others other).objects constraint = (other.objects constraint).commitMoves := by
    intro constraint member
    rw [commitAll_target, commitAll_target, ← reordered.count_eq, List.count_eq_one_of_mem distinct member]
    exact ⟨rfl, rfl⟩
  have weights : (rolledBack (commitAll constraints world)).binWeightInfo.total =
        (rolledBack (commitAll others other)).binWeightInfo.total ∧
      ∀ binId, (rolledBack (commitAll constraints world)).binWeightInfo.binWeight binId =
        (rolledBack (commitAll others other)).binWeightInfo.binWeight binId := by
    have none := nil_iff_of_perm reordered
    by_cases idle : constraints = []
    · rw [idle, none.mp idle]
      exact ⟨alike.committed.total, alike.committed.bins⟩
    · obtain ⟨total, bins⟩ := commitAll_weights world idle
      obtain ⟨otherTotal, otherBins⟩ := commitAll_weights other fun empty => idle (none.mpr empty)
      simp only [rolledBack, BinWeightInfo.total_clear, BinWeightInfo.binWeight_clear, total, bins, otherTotal, otherBins]
      exact ⟨identical.total, identical.bins⟩
  refine ⟨?_, ?_, ?_, ?_, ?_⟩
  · intro constraint member
    rw [(once constraint member).1]
    exact (Constraint.bare_commitMoves _).trans (alike.built constraint member)
  · intro constraint member
    rw [(once constraint member).2]
    exact (Constraint.bare_commitMoves _).trans (alike.otherBuilt constraint member)
  · intro constraint member
    change Constraint.Identical (LawfulConstraint.rollback _) (LawfulConstraint.rollback _)
    rw [(once constraint member).1, (once constraint member).2]
    exact (Constraint.identical_commitMoves _).2.trans
      ((identical.objects constraint member).trans (Constraint.identical_commitMoves _).2.symm)
  · exact weights.1
  · exact weights.2

end Orders

/-- Neither the traversals of hash containers nor the order of the constraints shows in the
metrics, the faults and the weights: not after construction, and after canaries of any
moves on any committed state not either. -/
theorem order_irrelevant (shardInfoVector : List ShardInfo) (metricVectors : List (List MetricValue))
    (domainMapping : List (List (List DomainId))) (once : SolvingState.ListsOnce domainMapping) {state : SolvingState}
    (built : state = (SolvingState.new shardInfoVector metricVectors domainMapping).withEmptyMovementMap)
    (arguments : ι → Constraint.Arguments) {constraints others : List ι} (distinct : constraints.Nodup)
    (reordered : constraints.Perm others) (hasBin : ∀ constraint ∈ constraints, ((arguments constraint).tree state).HasBin)
    (order otherOrder : HashOrder) :
    (∀ world : World ι Constraint, ∃ after otherAfter,
      constructEach order state arguments constraints world = .ok after ∧
      constructEach otherOrder state arguments others world = .ok otherAfter ∧
      Identical constraints after otherAfter ∧ Alike state arguments constraints after otherAfter) ∧
    ∀ world other : World ι Constraint, Alike state arguments constraints world other →
      ∀ committedMoves otherCommitted canariedMoves otherCanaried : MovementMap,
        SameMoves committedMoves otherCommitted → SameMoves canariedMoves otherCanaried → ∃ after otherAfter,
          evaluate order state constraints committedMoves canariedMoves world = .ok after ∧
          evaluate otherOrder state others otherCommitted otherCanaried other = .ok otherAfter ∧
          Identical constraints after otherAfter ∧ Alike state arguments constraints after otherAfter ∧
          Alike state arguments constraints (commitAll constraints after) (commitAll others otherAfter) := by
  have hierarchical : state.Hierarchical := built ▸ SolvingState.hierarchical_new shardInfoVector metricVectors once
  have otherHasBin : ∀ constraint ∈ others, ((arguments constraint).tree state).HasBin :=
    fun constraint member => hasBin constraint (reordered.mem_iff.mpr member)
  constructor
  · intro world
    obtain ⟨after, called, constructed⟩ := constructEach_constructed hierarchical hasBin order world
    obtain ⟨otherAfter, otherCalled, otherwise⟩ := constructEach_constructed hierarchical otherHasBin otherOrder world
    exact ⟨after, otherAfter, called, otherCalled, constructed.alike hierarchical hasBin reordered otherwise⟩
  · intro world other alike committedMoves otherCommitted canariedMoves otherCanaried sameCommitted sameCanaried
    obtain ⟨after, evaluated⟩ := evaluate_defined order hierarchical.movementMap committedMoves canariedMoves world
      fun constraint member => (alike.built constraint member).hasBin (hasBin constraint member)
    obtain ⟨otherAfter, otherwise⟩ := evaluate_defined otherOrder hierarchical.movementMap otherCommitted otherCanaried other
      fun constraint member =>
        (alike.otherBuilt constraint (reordered.mem_iff.mpr member)).hasBin (otherHasBin constraint member)
    have identical := alike.evaluated hierarchical hasBin reordered sameCommitted sameCanaried evaluated otherwise
    have kept := alike.kept reordered evaluated otherwise
    exact ⟨after, otherAfter, evaluated, otherwise, identical, kept, kept.committed_all distinct reordered identical⟩

def mixedArguments : Fin 3 → Constraint.Arguments
  | 0 => .metric .after 2 [0] 0 10 1
  | 1 => .drain .before 1 [0, 1] 1
  | 2 => .loadBalancing 1 [0, 1] 0 10 (LoadBalancingConstraint.integerMultiplier 2)

theorem order_irrelevant_fullBins :
    (∀ world : World (Fin 3) Constraint, ∃ after otherAfter,
      constructEach .insertion fullBins mixedArguments [0, 1, 2] world = .ok after ∧
      constructEach ⟨List.reverse, List.reverse, List.reverse_perm, List.reverse_perm⟩ fullBins mixedArguments [2, 0, 1] world =
        .ok otherAfter ∧
      Identical [0, 1, 2] after otherAfter ∧ Alike fullBins mixedArguments [0, 1, 2] after otherAfter) ∧
    ∀ world other : World (Fin 3) Constraint, Alike fullBins mixedArguments [0, 1, 2] world other →
      ∀ committedMoves otherCommitted canariedMoves otherCanaried : MovementMap,
        SameMoves committedMoves otherCommitted → SameMoves canariedMoves otherCanaried → ∃ after otherAfter,
          evaluate .insertion fullBins [0, 1, 2] committedMoves canariedMoves world = .ok after ∧
          evaluate ⟨List.reverse, List.reverse, List.reverse_perm, List.reverse_perm⟩ fullBins [2, 0, 1] otherCommitted
            otherCanaried other = .ok otherAfter ∧
          Identical [0, 1, 2] after otherAfter ∧ Alike fullBins mixedArguments [0, 1, 2] after otherAfter ∧
          Alike fullBins mixedArguments [0, 1, 2] (commitAll [0, 1, 2] after) (commitAll [2, 0, 1] otherAfter) := by
  refine order_irrelevant [] [[5, 7, 9]] [[[0, 1], [2]], [[0, 1]]] (by decide) rfl mixedArguments (by decide) (by decide) ?_ _ _
  intro constraint _
  fin_cases constraint <;> decide +kernel

end IterativeLocalSearch
end ShardManager

import ShardManager.Proofs.SearchRules

/-! The constructor of `SolvingState` leaves its movement map null. The pointer is
followed for every shard that is evaluated, and only then. -/

namespace ShardManager
open IterativeLocalSearch

/-- What a client does with a state: construct constraints on it, evaluate moves
on one of them, search. Constructed constraints are numbered from 0. -/
inductive Call where
  | construct (arguments : Constraint.Arguments)
  | canaryMoves (constraint : Nat) (committedMoves canariedMoves : MovementMap)
  | solve (constraints : List Nat) (maxIterations : Nat) (draws : List Nat)

structure Session where
  world : World Nat Constraint
  constructed : Nat

variable (order : HashOrder) (state : SolvingState)

def Session.perform (session : Session) : Call → Except Stop Session
  | .construct arguments => do
    let (constraint, info) ← (Constraint.new order state session.world.binWeightInfo arguments).mapError .fault
    pure ⟨⟨Function.update session.world.objects session.constructed constraint, info⟩, session.constructed + 1⟩
  | .canaryMoves constraint committedMoves canariedMoves => do
    let (object, info) ← ((session.world.objects constraint).canaryMoves order state (some committedMoves)
      (some canariedMoves) session.world.binWeightInfo).mapError .fault
    pure { session with world := ⟨Function.update session.world.objects constraint object, info⟩ }
  | .solve constraints maxIterations draws => do
    let final ← (IterativeLocalSearch.solve order state constraints maxIterations draws session.world).result
    pure { session with world := final.world }

def Session.run (session : Session) (calls : List Call) : Except Stop Session :=
  calls.foldlM (Session.perform order state) session

/-- The tree that the constructor builds for its arguments. -/
def Constraint.Arguments.tree : Constraint.Arguments → SparseMappingTree
  | .metric _ domain domainIds _ _ _ => state.assignmentTree.createPartialTree domain domainIds
  | .drain _ domain domainIds _ => state.assignmentTree.createPartialTree domain domainIds
  | .loadBalancing domain domainIds _ _ _ => LoadBalancingConstraint.partialTree state domain domainIds

/-- No shard is evaluated: the tree lists none, none is moved, or the search has
no constraints, no iterations, no second bin or no shard to move. -/
def Call.Shardless : Call → Prop
  | .construct arguments => (arguments.tree state).getAllDomainIds state.shardDomain = []
  | .canaryMoves _ _ canariedMoves => canariedMoves.getAllMovements.keys = []
  | .solve constraints maxIterations _ =>
    constraints = [] ∨ maxIterations = 0 ∨ state.getDomainSize state.binDomain ≤ 1 ∨
      ∀ binId < state.getDomainSize state.binDomain, state.assignmentTree.children state.binDomain binId = []

namespace ExpressionTree
variable {σ : Type} (calcMetricFunc : CalcMetricFunc σ)

private theorem update_nil (tree : ExpressionTree) (movementMaps : List MovementMapPtr) (context : σ) :
    tree.update order state calcMetricFunc movementMaps [] context = .ok (tree, context) := by
  have none : order.nodes (∅ : UpdateMap).keys = [] := List.perm_nil.mp (order.nodes_perm [])
  rw [update, shardParents, List.foldlM_nil, pure_bind, SparseMappingTree.maxDepth, propagateChanges, none,
    List.foldlM_nil, pure_bind]
  rfl

theorem ids_nil (keys : List DomainId) : order.ids keys = [] ↔ keys = [] := by
  constructor
  · intro empty
    exact List.nil_perm.mp (empty ▸ order.ids_perm keys)
  · rintro rfl
    exact List.perm_nil.mp (order.ids_perm [])

private theorem new_nil (tree : SparseMappingTree) (context : σ) (shardless : tree.getAllDomainIds state.shardDomain = []) :
    ExpressionTree.new order state calcMetricFunc tree context = .ok (⟨tree, .empty⟩, context) := by
  rw [ExpressionTree.new, (ids_nil order _).mpr shardless, update_nil]

/-- The first shard makes `getParents` follow the null pointer. -/
theorem new_null (tree : SparseMappingTree) (context : σ) (missing : state.movementMap = none)
    (domains : tree.shardDomain = state.shardDomain) (shards : tree.getAllDomainIds state.shardDomain ≠ []) :
    ExpressionTree.new order state calcMetricFunc tree context = .error .nullMovementMap := by
  rw [ExpressionTree.new, missing]
  cases ids : order.ids (tree.getAllDomainIds state.shardDomain) with
  | nil => exact absurd ((ids_nil order _).mp ids) shards
  | cons shardId shardIds =>
    rw [update, shardParents, List.foldlM_cons, SparseMappingTree.getParents, if_pos domains.symm, List.foldlM_cons]
    rfl

end ExpressionTree

namespace IterativeLocalSearch
variable {ι C : Type} [DecidableEq ι] [ConstraintOps C] {order : HashOrder} {state : SolvingState} {constraints : List ι}

def Unfaulted {α : Type} (run : Run ι C α) : Prop := ∀ fault, run.result ≠ .error (.fault fault)

omit [DecidableEq ι] [ConstraintOps C] in
theorem Unfaulted.bind {α β : Type} {first : Run ι C α} {next : α → Run ι C β} (start : Unfaulted first)
    (rest : ∀ value, first.result = .ok value → Unfaulted (next value)) : Unfaulted (first >>= next) := by
  intro fault stopped
  rcases Traced.result_bind_error stopped with early | ⟨value, done, late⟩
  · exact start fault early
  · exact rest value done fault late

omit [DecidableEq ι] [ConstraintOps C] in
private theorem unfaulted_ok {α : Type} {run : Run ι C α} {value : α} (done : run.result = .ok value) : Unfaulted run := by
  intro fault stopped
  rw [done] at stopped
  cases stopped

private theorem tryNextBins_unfaulted (shard : DomainId) (binSet : List DomainId) (search : Search ι C)
    (idle : constraints = [] ∨ binSet = []) :
    Unfaulted (tryNextBins order state constraints shard binSet search) := by
  induction binSet generalizing search with
  | nil => exact unfaulted_ok rfl
  | cons nextBin binSet ih =>
    obtain rfl | impossible := idle
    · refine Unfaulted.bind (unfaulted_ok rfl) ?_
      intro world _
      refine Unfaulted.bind (unfaulted_ok rfl) ?_
      intro _ _
      simp only
      split
      · exact unfaulted_ok rfl
      · exact ih _ (.inl rfl)
    · cases impossible

private theorem tryShards_unfaulted (numBins : Nat) (binId : DomainId) (shards : List DomainId) (iterations : Nat) (search : Search ι C)
    (idle : constraints = [] ∨ numBins ≤ 1) :
    Unfaulted (tryShards order state constraints numBins binId shards iterations search) := by
  induction iterations generalizing search with
  | zero => exact unfaulted_ok rfl
  | succ iterations ih =>
    rw [tryShards]
    split
    · rintro _ ⟨⟩
    next draw draws _ =>
      simp only
      split
      · rintro _ ⟨⟩
      next binSet rest filled =>
        have none : constraints = [] ∨ order.ids binSet.keys = [] := by
          refine idle.imp id fun few => ?_
          have alone : drawBins numBins binId draws ∅ = some (∅, draws) := by
            unfold drawBins
            rw [if_neg (by omega)]
          rw [alone] at filled
          cases filled
          exact List.perm_nil.mp (order.ids_perm [])
        refine Unfaulted.bind (tryNextBins_unfaulted _ _ _ none) ?_
        rintro ⟨movement, after⟩ _
        cases movement with
        | some movement => exact unfaulted_ok rfl
        | none => exact ih after

private theorem getMovementForBin_unfaulted (binId : DomainId) (search : Search ι C)
    (idle : constraints = [] ∨ state.getDomainSize state.binDomain ≤ 1 ∨
      state.assignmentTree.children state.binDomain binId = []) :
    Unfaulted (getMovementForBin order state constraints binId search) := by
  rw [getMovementForBin]
  split
  · exact unfaulted_ok rfl
  next occupied =>
    apply tryShards_unfaulted
    rcases idle with none | single | empty
    · exact .inl none
    · exact .inr single
    · exact absurd (by simp [shardsInBin, empty]) occupied

private theorem tryBins_unfaulted (binWeights : List DomainId) (search : Search ι C)
    (idle : constraints = [] ∨ state.getDomainSize state.binDomain ≤ 1 ∨
      ∀ binId ∈ binWeights, state.assignmentTree.children state.binDomain binId = []) :
    Unfaulted (tryBins order state constraints binWeights search) := by
  induction binWeights generalizing search with
  | nil => exact unfaulted_ok rfl
  | cons binId binWeights ih =>
    refine Unfaulted.bind (unfaulted_ok rfl) ?_
    intro _ _
    refine Unfaulted.bind (getMovementForBin_unfaulted binId search ?_) ?_
    · exact idle.imp id (Or.imp id fun empty => empty binId (by simp))
    · rintro ⟨movement, after⟩ _
      cases movement with
      | some movement => exact unfaulted_ok rfl
      | none => exact ih after (idle.imp id (Or.imp id fun empty bin member => empty bin (by simp [member])))

private theorem mem_hottestBins {info : BinWeightInfo} {binId : DomainId} (member : binId ∈ hottestBins state info) :
    binId < state.getDomainSize state.binDomain := by
  obtain ⟨entry, sorted, rfl⟩ := List.mem_map.mp member
  rw [List.mem_insertionSort] at sorted
  obtain ⟨bin, inside, rfl⟩ := List.mem_map.mp sorted
  exact List.mem_range.mp inside

variable (order) in
private theorem iterate_unfaulted (iterations : Nat) (search : Search ι C)
    (idle : constraints = [] ∨ iterations = 0 ∨ state.getDomainSize state.binDomain ≤ 1 ∨
      ∀ binId < state.getDomainSize state.binDomain, state.assignmentTree.children state.binDomain binId = []) :
    Unfaulted (iterate order state constraints iterations search) := by
  induction iterations generalizing search with
  | zero => exact unfaulted_ok rfl
  | succ iterations ih =>
    have quiet : constraints = [] ∨ state.getDomainSize state.binDomain ≤ 1 ∨
        ∀ binId < state.getDomainSize state.binDomain, state.assignmentTree.children state.binDomain binId = [] := by
      simpa using idle
    refine Unfaulted.bind (unfaulted_ok rfl) ?_
    intro _ _
    refine Unfaulted.bind (tryBins_unfaulted _ _ ?_) ?_
    · exact quiet.imp id (Or.imp id fun empty binId member => empty binId (mem_hottestBins member))
    · rintro ⟨movement, after⟩ _
      cases movement with
      | none => exact unfaulted_ok rfl
      | some movement =>
        refine Unfaulted.bind (unfaulted_ok rfl) ?_
        intro _ _
        exact ih _ (quiet.imp id .inr)

end IterativeLocalSearch

variable {state}

private theorem Constraint.new_shardless (arguments : Constraint.Arguments) (info : BinWeightInfo)
    (shardless : (arguments.tree state).getAllDomainIds state.shardDomain = []) :
    ∃ made, Constraint.new order state info arguments = .ok made := by
  cases arguments with
  | metric consistency domain domainIds metric capacity faultWeight =>
    rw [Constraint.Arguments.tree] at shardless
    rw [Constraint.new, MetricConstraint.new, ExpressionTree.new_nil _ _ _ _ _ shardless]
    exact ⟨_, rfl⟩
  | drain consistency domain domainIds faultWeight =>
    rw [Constraint.Arguments.tree] at shardless
    rw [Constraint.new, DrainConstraint.new, ExpressionTree.new_nil _ _ _ _ _ shardless]
    exact ⟨_, rfl⟩
  | loadBalancing domain domainIds metric maxDelta faultWeightMultiplier =>
    rw [Constraint.Arguments.tree] at shardless
    rw [Constraint.new, LoadBalancingConstraint.new, ExpressionTree.new_nil _ _ _ _ _ shardless, Checked.ok_bind]
    simp only
    rw [ExpressionTree.new_nil _ _ _ _ _ shardless]
    exact ⟨_, rfl⟩

theorem Constraint.new_null (arguments : Constraint.Arguments) (info : BinWeightInfo) (missing : state.movementMap = none)
    (domains : state.assignmentTree.shardDomain = state.shardDomain)
    (shards : (arguments.tree state).getAllDomainIds state.shardDomain ≠ []) :
    Constraint.new order state info arguments = .error .nullMovementMap := by
  cases arguments with
  | metric consistency domain domainIds metric capacity faultWeight =>
    rw [Constraint.Arguments.tree] at shards
    rw [Constraint.new, MetricConstraint.new, ExpressionTree.new_null _ _ _ _ _ missing (by simpa) shards]
    rfl
  | drain consistency domain domainIds faultWeight =>
    rw [Constraint.Arguments.tree] at shards
    rw [Constraint.new, DrainConstraint.new, ExpressionTree.new_null _ _ _ _ _ missing (by simpa) shards]
    rfl
  | loadBalancing domain domainIds metric maxDelta faultWeightMultiplier =>
    rw [Constraint.Arguments.tree] at shards
    have same : (LoadBalancingConstraint.partialTree state domain domainIds).shardDomain = state.shardDomain := by
      simpa [LoadBalancingConstraint.partialTree]
    rw [Constraint.new, LoadBalancingConstraint.new, ExpressionTree.new_null _ _ _ _ _ missing same shards]
    rfl

variable (state) in
theorem ExpressionTree.canaryMoves_nil {σ : Type} (calcMetricFunc : CalcMetricFunc σ) (tree : ExpressionTree)
    (committedMoves : MovementMap) {canariedMoves : MovementMap} (shardless : canariedMoves.getAllMovements.keys = []) (context : σ) :
    tree.canaryMoves order state calcMetricFunc (some committedMoves) (some canariedMoves) context =
      .ok ({ tree with metricsMap := tree.metricsMap.clear }, context) := by
  rw [ExpressionTree.canaryMoves, SparseMappingTree.deref, Checked.ok_bind]
  simp only
  rw [shardless, (ExpressionTree.ids_nil order []).mpr rfl, ExpressionTree.update_nil]

variable (state) in
theorem Constraint.canaryMoves_shardless (constraint : Constraint) (committedMoves canariedMoves : MovementMap)
    (info : BinWeightInfo) (shardless : canariedMoves.getAllMovements.keys = []) :
    ∃ after, constraint.canaryMoves order state (some committedMoves) (some canariedMoves) info = .ok after := by
  have canaried : ∀ {σ : Type} (calcMetricFunc : CalcMetricFunc σ) (tree : ExpressionTree) (context : σ),
      tree.canaryMoves order state calcMetricFunc (some committedMoves) (some canariedMoves) context =
        .ok ({ tree with metricsMap := tree.metricsMap.clear }, context) := fun calcMetricFunc tree context =>
    tree.canaryMoves_nil order state calcMetricFunc committedMoves shardless context
  cases constraint with
  | metric constraint =>
    rw [Constraint.canaryMoves, MetricConstraint.canaryMoves, canaried]
    exact ⟨_, rfl⟩
  | drain constraint =>
    rw [Constraint.canaryMoves, DrainConstraint.canaryMoves, canaried]
    exact ⟨_, rfl⟩
  | loadBalancing constraint =>
    rw [Constraint.canaryMoves, LoadBalancingConstraint.canaryMoves, canaried, Checked.ok_bind]
    simp only
    rw [canaried]
    exact ⟨_, rfl⟩

private theorem Session.perform_shardless (session : Session) (call : Call) (shardless : call.Shardless state) (fault : Fault) :
    session.perform order state call ≠ .error (.fault fault) := by
  cases call with
  | construct arguments =>
    obtain ⟨made, constructed⟩ := Constraint.new_shardless order arguments session.world.binWeightInfo shardless
    rw [Session.perform, constructed]
    rintro ⟨⟩
  | canaryMoves constraint committedMoves canariedMoves =>
    obtain ⟨after, canaried⟩ := Constraint.canaryMoves_shardless order state
      (session.world.objects constraint) committedMoves canariedMoves session.world.binWeightInfo shardless
    rw [Session.perform, canaried]
    rintro ⟨⟩
  | solve constraints maxIterations draws =>
    have searched := iterate_unfaulted order maxIterations (start session.world draws) shardless fault
    rw [Session.perform, solve]
    cases result : (iterate order state constraints maxIterations (start session.world draws)).result with
    | ok final => rintro ⟨⟩
    | error stop =>
      rintro ⟨⟩
      exact searched result

/-- Calls that evaluate no shard, in any number and order, follow no null pointer;
a constructor does as soon as its tree lists a shard. -/
theorem run_shardless (order : HashOrder) (shardInfoVector : List ShardInfo) (metricVectors : List (List MetricValue))
    (domainMapping : List (List (List DomainId))) :
    (∀ (session : Session) (calls : List Call),
      (∀ call ∈ calls, call.Shardless (SolvingState.new shardInfoVector metricVectors domainMapping)) →
        session.run order (SolvingState.new shardInfoVector metricVectors domainMapping) calls ≠
          .error (.fault .nullMovementMap)) ∧
    ∀ (session : Session) (arguments : Constraint.Arguments),
      session.perform order (SolvingState.new shardInfoVector metricVectors domainMapping) (.construct arguments) =
          .error (.fault .nullMovementMap) ↔
        ¬ (Call.construct arguments).Shardless (SolvingState.new shardInfoVector metricVectors domainMapping) := by
  constructor
  · intro session calls shardless
    induction calls generalizing session with
    | nil => rintro ⟨⟩
    | cons call calls ih =>
      have first := session.perform_shardless order call (shardless call (by simp)) .nullMovementMap
      rw [Session.run, List.foldlM_cons]
      cases performed : session.perform order (SolvingState.new shardInfoVector metricVectors domainMapping) call with
      | error stop =>
        rintro ⟨⟩
        exact first performed
      | ok after => exact ih after fun later member => shardless later (by simp [member])
  · intro session arguments
    constructor
    · intro null shardless
      exact session.perform_shardless order (.construct arguments) shardless .nullMovementMap null
    · intro shards
      have domains := (SolvingState.new_domains shardInfoVector metricVectors domainMapping).1
      rw [Session.perform, Constraint.new_null order arguments session.world.binWeightInfo rfl domains shards]
      rfl

theorem run_shardless_twoBins :
    Session.run .insertion (SolvingState.new [] [[5, 7, 9]] [[[0, 1, 2], []], [[0, 1]]])
        ⟨⟨fun _ => .drain drainedBin.1, .empty⟩, 0⟩ [.construct (.drain .after 1 [1] 1), .canaryMoves 0 {} {}] ≠
      .error (.fault .nullMovementMap) := by
  refine (run_shardless .insertion [] [[5, 7, 9]] [[[0, 1, 2], []], [[0, 1]]]).1 _ _ ?_
  intro call member
  simp only [List.mem_cons, List.not_mem_nil, or_false] at member
  rcases member with rfl | rfl <;> rfl

theorem new_follows_null :
    Session.run .insertion (SolvingState.new [] [[5, 7, 9]] [[[0, 1, 2], []], [[0, 1]]])
        ⟨⟨fun _ => .drain drainedBin.1, .empty⟩, 0⟩ [.construct (.metric .after 1 [0, 1] 0 10 1)] =
      .error (.fault .nullMovementMap) := rfl

end ShardManager

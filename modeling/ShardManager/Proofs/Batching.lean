import ShardManager.Proofs.FailedSearch
import ShardManager.Proofs.Ledger
import ShardManager.Proofs.Recomputed

/-! Moves of different shards may be committed one batch after another or all at
once: what the constraints keep and what they add to the weights is the same. -/

namespace ShardManager
open SparseMappingTree IterativeLocalSearch

namespace MovementMap

def Apart (first second : MovementMap) : Prop :=
  ∀ shard, (first.getNextBin shard).isSome → second.getNextBin shard = none

theorem mem_moves (moves : MovementMap) (shard : DomainId) :
    shard ∈ moves.getAllMovements.keys ↔ (moves.getNextBin shard).isSome := by
  rw [UnorderedMap.mem_keys_iff, Option.isSome_iff_exists]
  rfl

theorem Apart.symm {first second : MovementMap} (apart : first.Apart second) : second.Apart first := by
  intro shard moved
  cases next : first.getNextBin shard with
  | none => rfl
  | some nextBin =>
    rw [apart shard (by rw [next]; rfl)] at moved
    cases moved

/-- A sum over the moves of a union. -/
private theorem sum_union {first second : MovementMap} (apart : first.Apart second) (f : DomainId → DomainId → Int) :
    ((first.addMovements second).getAllMovements.keys.map fun shard =>
        f shard (((first.addMovements second).getNextBin shard).getD 0)).sum =
      (first.getAllMovements.keys.map fun shard => f shard ((first.getNextBin shard).getD 0)).sum +
        (second.getAllMovements.keys.map fun shard => f shard ((second.getNextBin shard).getD 0)).sum := by
  have union : (first.addMovements second).getAllMovements.keys.toFinset =
      first.getAllMovements.keys.toFinset ∪ second.getAllMovements.keys.toFinset := by
    ext shard
    simp only [List.mem_toFinset, Finset.mem_union, mem_moves, next_addMovements, Option.isSome_or, Bool.or_eq_true]
    exact or_comm
  have disjoint : Disjoint first.getAllMovements.keys.toFinset second.getAllMovements.keys.toFinset := by
    rw [Finset.disjoint_left]
    intro shard inFirst inSecond
    rw [List.mem_toFinset, mem_moves] at inFirst inSecond
    rw [apart shard inFirst] at inSecond
    cases inSecond
  rw [← List.sum_toFinset _ (AList.keys_nodup _), ← List.sum_toFinset _ (AList.keys_nodup _),
    ← List.sum_toFinset _ (AList.keys_nodup _), union, Finset.sum_union disjoint]
  congr 1
  · refine Finset.sum_congr rfl fun shard member => ?_
    rw [List.mem_toFinset, mem_moves] at member
    rw [next_addMovements, apart shard member, Option.none_or]
  · refine Finset.sum_congr rfl fun shard member => ?_
    rw [List.mem_toFinset, mem_moves] at member
    obtain ⟨nextBin, next⟩ := Option.isSome_iff_exists.mp member
    rw [next_addMovements, next, Option.some_or]

end MovementMap

namespace Counter
variable {state : SolvingState} {consistency : MovementConsistency} {weight : DomainId → Int} {counter : Counter}

/-- Canary the moves on top of the committed ones, and commit. -/
def moved (order : HashOrder) (state : SolvingState) (committedMoves canariedMoves : MovementMap) (counter : Counter)
    (info : BinWeightInfo) : Counter :=
  (counter.canaried order state [{}, committedMoves, canariedMoves] (order.ids canariedMoves.getAllMovements.keys)
    info).1.committed

theorem sameKind_moved (order : HashOrder) (state : SolvingState) (committedMoves canariedMoves : MovementMap) (counter : Counter)
    (info : BinWeightInfo) : SameKind counter (counter.moved order state committedMoves canariedMoves info) :=
  ⟨rfl, rfl, rfl, rfl⟩

/-- What moves of shards that have not moved before add to the bins. -/
def moveChange (consistency : MovementConsistency) (weight : DomainId → Int) (part : SparseMappingTree) (moves : MovementMap)
    (binId : DomainId) : Int :=
  (moves.getAllMovements.keys.map fun shard =>
    shift consistency weight part shard ((moves.getNextBin shard).getD 0) binId).sum

def Enters (part : SparseMappingTree) (moves : MovementMap) (binId : DomainId) : Prop :=
  ∃ shard nextBin, moves.getNextBin shard = some nextBin ∧
    (shard ∈ part.children 1 binId ∨ nextBin = binId ∧ (part.parentToChildMap.row 1 binId).isSome)

section Moved
variable (order : HashOrder) {committedMoves canariedMoves : MovementMap} (info : BinWeightInfo)
  (unmoved : canariedMoves.Apart committedMoves)
include unmoved

private theorem moved_shards (shard : DomainId) (member : shard ∈ order.ids canariedMoves.getAllMovements.keys) :
    committedMoves.getNextBin shard = none ∧ (canariedMoves.getNextBin shard).isSome := by
  have moved := (MovementMap.mem_moves canariedMoves shard).mp ((order.ids_perm _).mem_iff.mp member)
  exact ⟨unmoved shard moved, moved⟩

theorem moved_residues (shards : state.shardDomain = 0) (additive : Additive state consistency weight counter) (level : Nat)
    (domainId : DomainId) :
    (counter.moved order state committedMoves canariedMoves info).residues level domainId =
      counter.residues level domainId + rollup (childrenAt counter.part)
        (fun binId => ((moveChange consistency weight counter.part canariedMoves binId : Int) : Residue)) level domainId := by
  have patched := canaried_patched order [{}, committedMoves, canariedMoves]
    (order.ids canariedMoves.getAllMovements.keys) info additive.hierarchy shards additive.adds
  rw [moved, patched.eq]
  refine congrArg (counter.residues level domainId + ·) ?_
  refine congrFun (congrArg (fun lowest => rollup (childrenAt counter.part) lowest level) (funext fun binId => ?_)) domainId
  rw [binChange_moved consistency weight state (moved_shards order unmoved) additive.hierarchy.grounded shards, moveChange,
    ((order.ids_perm _).map _).sum_eq]

theorem moved_bin (shards : state.shardDomain = 0) (hierarchy : Hierarchy counter.part) (binId : DomainId) :
    ((counter.moved order state committedMoves canariedMoves info).metric (1, binId)).isSome ↔
      (counter.metric (1, binId)).isSome ∨ Enters counter.part canariedMoves binId := by
  rw [moved, canaried_bin order _ _ info hierarchy shards, entered_moved state (moved_shards order unmoved) hierarchy.grounded shards]
  refine or_congr_right ⟨?_, ?_⟩
  · rintro ⟨shard, member, entered⟩
    obtain ⟨nextBin, next⟩ := Option.isSome_iff_exists.mp (moved_shards order unmoved shard member).2
    rw [next, Option.some.injEq] at entered
    exact ⟨shard, nextBin, next, entered⟩
  · rintro ⟨shard, nextBin, next, entered⟩
    refine ⟨shard, (order.ids_perm _).mem_iff.mpr ((MovementMap.mem_moves _ _).mpr (by rw [next]; rfl)), ?_⟩
    rw [next, Option.some.injEq]
    exact entered

end Moved

theorem Tallies.values {first second : Counter} (same : SameKind first second) (hierarchy : Hierarchy first.part)
    (left : first.Tallies) (right : second.Tallies)
    (residues : ∀ level domainId, second.residues level domainId = first.residues level domainId) (node : Node) :
    (second.metric node).getD 0 = (first.metric node).getD 0 := by
  unfold Tallies at left right
  rw [same.part, same.domain, same.fault] at right
  obtain ⟨domain, domainId⟩ := node
  cases domain with
  | zero =>
    have notMapped := hierarchy.shards_unmapped domainId
    rw [right.unmapped _ notMapped, left.unmapped _ notMapped]
  | succ level => exact eq_of_residue (right.narrow _) (left.narrow _) (residues level domainId)

/-- A counter is determined by the residues of its values and the bins that have one. -/
theorem Tallies.ext {first second : Counter} (same : SameKind first second) (hierarchy : Hierarchy first.part)
    (left : first.Tallies) (right : second.Tallies)
    (residues : ∀ level domainId, second.residues level domainId = first.residues level domainId)
    (bins : ∀ binId, (second.metric (1, binId)).isSome ↔ (first.metric (1, binId)).isSome) :
    second.metric = first.metric ∧ second.faults = first.faults := by
  have values := left.values same hierarchy right residues
  unfold Tallies at left right
  rw [same.part, same.domain, same.fault] at right
  have present : ∀ level domainId,
      (second.metric (level + 1, domainId)).isSome ↔ (first.metric (level + 1, domainId)).isSome := by
    intro level
    induction level with
    | zero => exact bins
    | succ level ih =>
      intro domainId
      rw [right.present, left.present]
      exact exists_congr fun child => and_congr_right fun _ => ih child
  have metrics : second.metric = first.metric := by
    funext node
    have some : (second.metric node).isSome ↔ (first.metric node).isSome := by
      obtain ⟨domain, domainId⟩ := node
      cases domain with
      | zero =>
        have notMapped := hierarchy.shards_unmapped domainId
        rw [right.unmapped _ notMapped, left.unmapped _ notMapped]
      | succ level => exact present level domainId
    have value := values node
    cases there : second.metric node with
    | none =>
      rw [there] at some
      exact (Option.not_isSome_iff_eq_none.mp fun isSome => by simpa using some.mpr isSome).symm
    | some val =>
      rw [there] at some value
      obtain ⟨other, found⟩ := Option.isSome_iff_exists.mp (some.mp rfl)
      rw [found] at value ⊢
      exact congrArg Option.some value
  refine ⟨metrics, funext fun domainId => ?_⟩
  rw [right.faults, left.faults, metrics]

variable {committedMoves first second : MovementMap}

theorem moved_tallies (order : HashOrder) (info : BinWeightInfo) (shards : state.shardDomain = 0)
    (additive : Additive state consistency weight counter) (tallies : counter.Tallies) :
    (counter.moved order state committedMoves first info).Tallies :=
  canaried_tallies order _ _ info additive.hierarchy shards additive.records additive.above tallies

/-- Two batches one after the other, or both at once. -/
private theorem moved_moved (firstOrder secondOrder bothOrder : HashOrder) (firstInfo secondInfo bothInfo : BinWeightInfo)
    (shards : state.shardDomain = 0) (additive : Additive state consistency weight counter) (tallies : counter.Tallies)
    (apart : first.Apart second) (firstUnmoved : first.Apart committedMoves) (secondUnmoved : second.Apart committedMoves) :
    let sequential := (counter.moved firstOrder state committedMoves first firstInfo).moved secondOrder state
      (committedMoves.addMovements first) second secondInfo
    let batch := counter.moved bothOrder state committedMoves (first.addMovements second) bothInfo
    batch.metric = sequential.metric ∧ batch.faults = sequential.faults := by
  intro sequential batch
  have laterUnmoved : second.Apart (committedMoves.addMovements first) := by
    intro shard moved
    rw [MovementMap.next_addMovements, apart.symm shard moved, secondUnmoved shard moved]
    rfl
  have bothUnmoved : (first.addMovements second).Apart committedMoves := by
    intro shard moved
    rw [MovementMap.next_addMovements, Option.isSome_or, Bool.or_eq_true] at moved
    rcases moved with bySecond | byFirst
    · exact secondUnmoved shard bySecond
    · exact firstUnmoved shard byFirst
  have sameMiddle := sameKind_moved firstOrder state committedMoves first counter firstInfo
  have middle := sameMiddle.additive additive
  have sameSequential := sameMiddle.trans (sameKind_moved secondOrder state (committedMoves.addMovements first) second _ secondInfo)
  have same := sameSequential.symm.trans
    (sameKind_moved bothOrder state committedMoves (first.addMovements second) counter bothInfo)
  have firstTallies : (counter.moved firstOrder state committedMoves first firstInfo).Tallies :=
    moved_tallies firstOrder firstInfo shards additive tallies
  have change : ∀ binId, moveChange consistency weight counter.part (first.addMovements second) binId =
      moveChange consistency weight counter.part first binId + moveChange consistency weight counter.part second binId :=
    fun binId => MovementMap.sum_union apart fun shard nextBin => shift consistency weight counter.part shard nextBin binId
  refine Tallies.ext same (sameSequential.additive additive).hierarchy
    (moved_tallies secondOrder secondInfo shards middle firstTallies) (moved_tallies bothOrder bothInfo shards additive tallies)
    ?_ ?_
  · intro level domainId
    rw [moved_residues bothOrder bothInfo bothUnmoved shards additive,
      moved_residues secondOrder secondInfo laterUnmoved shards middle,
      moved_residues firstOrder firstInfo firstUnmoved shards additive]
    change _ = _ + rollup (childrenAt counter.part) (fun binId => ((moveChange consistency weight counter.part second binId :
      Int) : Residue)) level domainId
    rw [add_assoc, ← rollup_add]
    simp only [change, Int.cast_add]
  · intro binId
    rw [moved_bin bothOrder bothInfo bothUnmoved shards additive.hierarchy,
      moved_bin secondOrder secondInfo laterUnmoved shards middle.hierarchy,
      moved_bin firstOrder firstInfo firstUnmoved shards additive.hierarchy, or_assoc]
    refine or_congr_right ⟨?_, ?_⟩
    · rintro ⟨shard, nextBin, next, entered⟩
      rw [MovementMap.next_addMovements, Option.or_eq_some_iff] at next
      rcases next with bySecond | ⟨_, byFirst⟩
      · exact .inr ⟨shard, nextBin, bySecond, entered⟩
      · exact .inl ⟨shard, nextBin, byFirst, entered⟩
    · rintro (⟨shard, nextBin, byFirst, entered⟩ | ⟨shard, nextBin, bySecond, entered⟩)
      · refine ⟨shard, nextBin, ?_, entered⟩
        rw [MovementMap.next_addMovements, apart shard (by rw [byFirst]; rfl), Option.none_or, byFirst]
      · refine ⟨shard, nextBin, ?_, entered⟩
        rw [MovementMap.next_addMovements, bySecond, Option.some_or]

end Counter

namespace Constraint
variable {state : SolvingState}

/-- The part of the hierarchy that the constructor evaluates. -/
def Arguments.partialTree (state : SolvingState) : Arguments → SparseMappingTree
  | .metric _ domain domainIds _ _ _ => state.assignmentTree.createPartialTree domain domainIds
  | .drain _ domain domainIds _ => state.assignmentTree.createPartialTree domain domainIds
  | .loadBalancing domain domainIds _ _ _ => state.assignmentTree.createPartialTree domain domainIds

/-- Limits over any domain and drains over bins. -/
def Arguments.Sums (state : SolvingState) : Arguments → Prop
  | .metric .. => True
  | .drain _ domain _ _ => domain = state.binDomain
  | .loadBalancing .. => False

theorem Arguments.additive (hierarchical : state.Hierarchical) {arguments : Arguments} (sums : arguments.Sums state)
    (hasBin : (arguments.partialTree state).HasBin) :
    ∃ first consistency weight, arguments.counter state = some first ∧ first.part = arguments.partialTree state ∧
      Additive state consistency weight first ∧ first.Tallies := by
  cases arguments with
  | metric consistency domain domainIds metric capacity faultWeight =>
    exact ⟨_, consistency, _, rfl, rfl,
      MetricConstraint.newCounter_additive _ hierarchical consistency capacity faultWeight
        (domain_ne_zero hierarchical hasBin), tally_empty _ _ _⟩
  | drain consistency domain domainIds faultWeight =>
    obtain rfl : domain = 1 := sums.trans hierarchical.binDomain
    exact ⟨_, consistency, _, rfl, rfl, DrainConstraint.newCounter_additive hierarchical consistency faultWeight,
      tally_empty _ _ _⟩
  | loadBalancing domain domainIds metric maxDelta faultWeightMultiplier => cases sums

theorem keepsFaults_of_counter {constraint : Constraint} {counter : Counter} (found : constraint.counter state = some counter) :
    constraint.KeepsFaults ∧ constraint.domain = counter.domain ∧ constraint.domainFaultMap = counter.domainFaultMap := by
  cases constraint with
  | metric constraint => cases found; exact ⟨trivial, rfl, rfl⟩
  | drain constraint => cases found; exact ⟨trivial, rfl, rfl⟩
  | loadBalancing constraint => cases found

private theorem views_commitMoves {constraint : Constraint} {counter : Counter} (found : constraint.counter state = some counter) :
    (ConstraintOps.commitMoves constraint).views = ([counter.committed.metric], counter.committed.faults) := by
  have metrics : counter.expressionTree.metricsMap.commit.get = counter.committed.metric := by
    funext node
    rw [CommittableMap.get_commit, Counter.metric_committed]
  have faults : counter.domainFaultMap.commit.get = counter.committed.faults := by
    funext domainId
    rw [CommittableMap.get_commit, Counter.faults_committed]
  rw [← metrics, ← faults]
  cases constraint with
  | metric constraint => cases found; rfl
  | drain constraint => cases found; rfl
  | loadBalancing constraint => cases found

private theorem shareOf_congr {first second : Constraint} {firstCounter secondCounter : Counter}
    (firstFound : first.counter state = some firstCounter) (secondFound : second.counter state = some secondCounter)
    (sameDomain : secondCounter.domain = firstCounter.domain)
    (sameFaults : secondCounter.domainFaultMap.get = firstCounter.domainFaultMap.get) :
    (totalAccount state).shareOf second = (totalAccount state).shareOf first ∧
    ∀ binId, (binAccount state binId).shareOf second = (binAccount state binId).shareOf first := by
  obtain ⟨firstKeeps, firstDomain, firstFaults⟩ := keepsFaults_of_counter firstFound
  obtain ⟨secondKeeps, secondDomain, secondFaults⟩ := keepsFaults_of_counter secondFound
  refine IterativeLocalSearch.shareOf_same secondKeeps firstKeeps ?_ ?_
  · rw [firstDomain, secondDomain, sameDomain]
  · rw [firstFaults, secondFaults, sameFaults]

/-- Two batches change a weight by what the share of the constraint changes, and so
does one. -/
private theorem weight_batch {firstOrder secondOrder bothOrder : HashOrder} {account : Account state}
    {committedMoves firstMoves secondMoves bothMoves laterMoves : MovementMapPtr} {constraint first second both : Constraint}
    {info firstInfo secondInfo bothInfo : BinWeightInfo} (keepsFaults : constraint.KeepsFaults) (firstKeeps : first.KeepsFaults)
    (canariedFirst : ConstraintOps.canaryMoves firstOrder state committedMoves firstMoves constraint info.clear =
      .ok (first, firstInfo))
    (canariedSecond : ConstraintOps.canaryMoves secondOrder state laterMoves secondMoves (ConstraintOps.commitMoves first)
      firstInfo.commit.clear = .ok (second, secondInfo))
    (canariedBoth : ConstraintOps.canaryMoves bothOrder state committedMoves bothMoves constraint info.clear =
      .ok (both, bothInfo)) (sameShare : account.shareOf both = account.shareOf second) :
    account.weight bothInfo = account.weight secondInfo := by
  have committedKeeps : (ConstraintOps.commitMoves first : Constraint).KeepsFaults := by
    cases first with
    | loadBalancing _ => exact firstKeeps
    | _ => trivial
  have byFirst := account.canaryMoves_share keepsFaults canariedFirst
  have bySecond := account.canaryMoves_share committedKeeps canariedSecond
  have byBoth := account.canaryMoves_share keepsFaults canariedBoth
  have between : account.weight firstInfo.commit.clear = account.weight firstInfo := account.weight_commit firstInfo
  rw [between, (account.commitMoves_share first).2] at bySecond
  omega

theorem hasBin_of_counter {constraint : Constraint} {counter : Counter} (found : constraint.counter state = some counter)
    (hasBin : counter.part.HasBin) : constraint.HasBin := by
  cases constraint with
  | metric constraint => cases found; exact hasBin
  | drain constraint => cases found; exact hasBin
  | loadBalancing constraint => cases found

private theorem tracks_tallies (order : HashOrder) (hierarchical : state.Hierarchical) {first : Counter}
    {consistency : MovementConsistency} {weight : DomainId → Int} (additive : Additive state consistency weight first)
    (hasBin : first.part.HasBin) : Tracks order state (TracksCounter state first fun _ counter => counter.Tallies) := by
  refine tracks_counter order hierarchical.movementMap hasBin ?_ ?_
  · intro moves shard nextBin counter info _ same tallies
    have additive := same.additive additive
    exact Counter.canaried_tallies order _ _ info additive.hierarchy hierarchical.shardDomain additive.records additive.above
      tallies
  · intro moves counter other same metrics faults tallies
    rw [Counter.Tallies, same.part, same.domain, same.fault, metrics, faults]
    exact tallies

end Constraint

variable {ι : Type} [DecidableEq ι]

/-- A state of a run without pending canaries: its start, and what a commit leaves. -/
def IterativeLocalSearch.CommittedState (order : HashOrder) (state : SolvingState) (constraints : List ι) (maxIterations : Nat)
    (draws : List Nat) (world : World ι Constraint) (search : Search ι Constraint) : Prop :=
  search = start world draws ∨
    ∃ before movement, .committed before movement search ∈ (solve order state constraints maxIterations draws world).events

/-- From any committed state of a run, committing two sets of new moves one after the
other leaves the metrics, faults and weights that committing their union leaves. -/
theorem Constraint.canaryMoves_batch (shardInfoVector : List ShardInfo) (metricVectors : List (List MetricValue))
    (domainMapping : List (List (List DomainId))) (once : SolvingState.ListsOnce domainMapping) {state : SolvingState}
    (built : state = (SolvingState.new shardInfoVector metricVectors domainMapping).withEmptyMovementMap)
    (arguments : Arguments) (sums : arguments.Sums state) (hasBin : (arguments.partialTree state).HasBin)
    (constructorOrder : HashOrder) (info : BinWeightInfo) (constraint : Constraint) (weights : BinWeightInfo)
    (made : Constraint.new constructorOrder state info arguments = .ok (constraint, weights))
    (order : HashOrder) (constraints : List ι) (target : ι) (listed : target ∈ constraints) (world : World ι Constraint)
    (placed : world.objects target = constraint) (maxIterations : Nat) (draws : List Nat) (search : Search ι Constraint)
    (reached : CommittedState order state constraints maxIterations draws world search) (first second : MovementMap)
    (apart : first.Apart second) (firstUnmoved : first.Apart search.committedMoves)
    (secondUnmoved : second.Apart search.committedMoves) (firstOrder secondOrder bothOrder : HashOrder) :
    ∃ firstObject firstInfo secondObject secondInfo bothObject bothInfo,
      ConstraintOps.canaryMoves firstOrder state (some search.committedMoves) (some first) (search.world.objects target)
        search.world.binWeightInfo.clear = .ok (firstObject, firstInfo) ∧
      ConstraintOps.canaryMoves secondOrder state (some (search.committedMoves.addMovements first)) (some second)
        (ConstraintOps.commitMoves firstObject) firstInfo.commit.clear = .ok (secondObject, secondInfo) ∧
      ConstraintOps.canaryMoves bothOrder state (some search.committedMoves) (some (first.addMovements second))
        (search.world.objects target) search.world.binWeightInfo.clear = .ok (bothObject, bothInfo) ∧
      (ConstraintOps.commitMoves bothObject : Constraint).views = (ConstraintOps.commitMoves secondObject : Constraint).views ∧
      bothInfo.commit.total = secondInfo.commit.total ∧
      ∀ binId, bothInfo.commit.binWeight binId = secondInfo.commit.binWeight binId := by
  have hierarchical : state.Hierarchical := built ▸ SolvingState.hierarchical_new shardInfoVector metricVectors once
  have present := hierarchical.movementMap
  obtain ⟨counter, consistency, weight, argumentsFound, part, additive, tallies⟩ :=
    Arguments.additive hierarchical sums hasBin
  have hasBin : counter.part.HasBin := part ▸ hasBin
  have start : TracksCounter state counter (fun _ counter => counter.Tallies) {} constraint := by
    obtain ⟨found, _⟩ := Constraint.counter_new present counter argumentsFound (hasBin.resolves _) made
    exact ⟨_, found, SameKind.canaried ⟨rfl, rfl, rfl, rfl⟩ _ _ _ _,
      Counter.canaried_tallies constructorOrder _ _ info additive.hierarchy hierarchical.shardDomain additive.records
        additive.above tallies⟩
  have tracked : TracksCounter state counter (fun _ counter => counter.Tallies) search.committedMoves
      (search.world.objects target) := by
    rcases reached with rfl | ⟨before, movement, happened⟩
    · exact placed ▸ start
    · exact (tracks_tallies order hierarchical additive hasBin).solve listed (placed ▸ start) happened
  obtain ⟨current, found, same, tallies⟩ := tracked
  have additive := same.additive additive
  have hasBin : current.part.HasBin := same.part ▸ hasBin
  obtain ⟨⟨firstObject, firstInfo⟩, canariedFirst⟩ := Constraint.canaryMoves_defined firstOrder present
    search.committedMoves first (search.world.objects target) search.world.binWeightInfo.clear (hasBin_of_counter found hasBin)
  obtain ⟨firstFound, _⟩ := counter_canaryMoves present found hasBin canariedFirst
  have committedFound : (ConstraintOps.commitMoves firstObject).counter state =
    (firstObject.counter state).map Counter.committed := counter_commitMoves firstObject
  rw [firstFound, Option.map_some] at committedFound
  obtain ⟨⟨secondObject, secondInfo⟩, canariedSecond⟩ := Constraint.canaryMoves_defined secondOrder present
    (search.committedMoves.addMovements first) second (ConstraintOps.commitMoves firstObject) firstInfo.commit.clear
    (hasBin_of_counter committedFound hasBin)
  obtain ⟨secondFound, _⟩ := counter_canaryMoves present committedFound hasBin canariedSecond
  obtain ⟨⟨bothObject, bothInfo⟩, canariedBoth⟩ := Constraint.canaryMoves_defined bothOrder present
    search.committedMoves (first.addMovements second) (search.world.objects target) search.world.binWeightInfo.clear
    (hasBin_of_counter found hasBin)
  obtain ⟨bothFound, _⟩ := counter_canaryMoves present found hasBin canariedBoth
  obtain ⟨metrics, faults⟩ := Counter.moved_moved firstOrder secondOrder bothOrder search.world.binWeightInfo.clear
    firstInfo.commit.clear search.world.binWeightInfo.clear hierarchical.shardDomain additive tallies apart firstUnmoved
    secondUnmoved
  have sameGet := faults
  rw [Counter.moved, Counter.moved, Counter.moved, Counter.faults_committed, Counter.faults_committed] at sameGet
  obtain ⟨sameTotal, sameBins⟩ := shareOf_congr secondFound bothFound rfl sameGet
  obtain ⟨keeps, _⟩ := keepsFaults_of_counter found
  obtain ⟨firstKeeps, _⟩ := keepsFaults_of_counter firstFound
  refine ⟨firstObject, firstInfo, secondObject, secondInfo, bothObject, bothInfo, canariedFirst, canariedSecond,
    canariedBoth, ?_, ?_, ?_⟩
  · rw [views_commitMoves bothFound, views_commitMoves secondFound]
    exact Prod.ext (congrArg (fun metric => [metric]) metrics) faults
  · rw [BinWeightInfo.total_commit, BinWeightInfo.total_commit]
    exact weight_batch keeps firstKeeps canariedFirst canariedSecond canariedBoth sameTotal
  · intro binId
    rw [BinWeightInfo.binWeight_commit, BinWeightInfo.binWeight_commit]
    exact weight_batch keeps firstKeeps canariedFirst canariedSecond canariedBoth (sameBins binId)

theorem Constraint.canaryMoves_batch_twoBins :
    ∃ firstObject firstInfo secondObject secondInfo bothObject bothInfo,
      ConstraintOps.canaryMoves .insertion .twoBins (some {}) (some (.addMovement {} 0 1)) (Constraint.drain drainedBin.1)
        drainedBin.2.clear = .ok (firstObject, firstInfo) ∧
      ConstraintOps.canaryMoves .insertion .twoBins (some (.addMovements {} (.addMovement {} 0 1))) (some (.addMovement {} 1 1))
        (ConstraintOps.commitMoves firstObject) firstInfo.commit.clear = .ok (secondObject, secondInfo) ∧
      ConstraintOps.canaryMoves .insertion .twoBins (some {})
        (some (.addMovements (.addMovement {} 0 1) (.addMovement {} 1 1))) (Constraint.drain drainedBin.1) drainedBin.2.clear =
          .ok (bothObject, bothInfo) ∧
      (ConstraintOps.commitMoves bothObject : Constraint).views = (ConstraintOps.commitMoves secondObject : Constraint).views ∧
      bothInfo.commit.total = secondInfo.commit.total ∧
      ∀ binId, bothInfo.commit.binWeight binId = secondInfo.commit.binWeight binId := by
  have made : Constraint.new .insertion .twoBins .empty (.drain .after 1 [0] 1) = .ok (.drain drainedBin.1, drainedBin.2) := by
    rw [Constraint.new, Checked.ok_get (DrainConstraint.new .insertion .twoBins .after 1 [0] 1 .empty) (by decide +kernel)]
    rfl
  have apart : (MovementMap.addMovement {} 0 1).Apart (.addMovement {} 1 1) := by
    intro shard moved
    rw [MovementMap.next_addMovement] at moved ⊢
    split at moved
    next same => rw [same]; rfl
    next => cases moved
  exact canaryMoves_batch [] [[5, 7, 9]] [[[0, 1, 2], []], [[0, 1]]] (by decide) rfl (.drain .after 1 [0] 1) rfl
    (by decide +kernel) .insertion .empty (.drain drainedBin.1) drainedBin.2 made .insertion [()] () (by simp) drainedWorld rfl 2
    [0, 1, 0, 1] (start drainedWorld [0, 1, 0, 1]) (.inl rfl) (.addMovement {} 0 1) (.addMovement {} 1 1) apart
    (fun _ _ => rfl) (fun _ _ => rfl) .insertion .insertion .insertion

end ShardManager

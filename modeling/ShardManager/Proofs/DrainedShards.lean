import ShardManager.Proofs.Batching
import ShardManager.Proofs.DrainCount

/-! What a `DrainConstraint` with consistency `AFTER` adds to the total weight over a
run: the number of shards under its nodes, where nothing below them leaves. -/

namespace ShardManager
open SparseMappingTree IterativeLocalSearch

/-- Where counting changed children counts shards: over bins, or over nodes whose
children start with at most one shard each and lose none. -/
structure DrainConstraint.Countable (state : SolvingState) (domain : Domain) (domainIds : List DomainId) (moves : MovementMap) :
    Prop where
  fits : ∀ domainId ∈ domainIds, (state.shardsUnder moves domain [domainId]).card < 2147483648
  sparse : domain = state.binDomain ∨ ∀ domainId ∈ domainIds, ∀ child ∈ state.assignmentTree.children domain domainId,
    (state.shardsUnder {} (domain - 1) [child]).card ≤ 1
  kept : domain = state.binDomain ∨ ∀ shard, (moves.getNextBin shard).isSome → shard ∉ state.shardsUnder {} domain domainIds

section Tracked
variable {state : SolvingState} {part : SparseMappingTree} {domain : Domain} {domainIds : List DomainId}

private theorem nodeOver_part (hierarchical : state.Hierarchical) (isPart : Part state.assignmentTree part domain domainIds)
    (moves : MovementMap) {shard : DomainId} (steps : Nat) {level : Nat} {domainId : DomainId} (reached : level + 1 + steps = domain)
    (mapped : part.Mapped (level + 1, domainId)) (under : state.nodeOver moves shard (level + 1) = some domainId) :
    ∃ top ∈ domainIds, state.nodeOver moves shard domain = some top := by
  induction steps generalizing level domainId with
  | zero =>
    obtain rfl : level + 1 = domain := by omega
    exact ⟨domainId, ((isPart.given domainId).mp mapped).1, under⟩
  | succ steps ih =>
    have less : level + 1 < domain := by omega
    obtain ⟨⟨parentLevel, parentId⟩, parentMapped, above, listed⟩ := isPart.below _ mapped less
    obtain rfl : parentLevel = level + 2 := above
    refine ih (by omega) parentMapped ?_
    change (state.nodeOver moves shard (level + 1)).bind (state.parentOf (level + 1)) = some parentId
    rw [under, Option.bind_some, hierarchical.parentOf_iff]
    exact listed

/-- The values at one level are summed from the numbers of shards. -/
def CountsShards (state : SolvingState) (level : Nat) (domainIds : List DomainId) (moves : MovementMap) (counter : Counter) : Prop :=
  counter.Tallies ∧ ((∀ domainId ∈ domainIds, ∀ child ∈ state.assignmentTree.children (level + 2) domainId,
      (state.shardsUnder {} (level + 1) [child]).card ≤ 1) →
    (∀ shard, (moves.getNextBin shard).isSome → shard ∉ state.shardsUnder {} (level + 2) domainIds) →
    ∀ domainId ∈ domainIds, counter.residues (level + 1) domainId =
      rollup (childrenAt counter.part) (fun binId => ((partLoad state (fun _ => 1) counter.part moves binId : Int) : Residue))
        (level + 1) domainId)

private theorem partLoad_nonneg (moves : MovementMap) (binId : DomainId) : 0 ≤ partLoad state (fun _ => 1) part moves binId := by
  unfold partLoad
  split
  · exact Finset.sum_nonneg fun _ _ => zero_le_one
  · exact le_rfl

private theorem rollup_partLoad_nonneg (moves : MovementMap) (level : Nat) (domainId : DomainId) :
    0 ≤ rollup (childrenAt part) (partLoad state (fun _ => 1) part moves) level domainId := by
  induction level generalizing domainId with
  | zero => exact partLoad_nonneg moves domainId
  | succ level ih => exact Finset.sum_nonneg fun child _ => ih child

variable {counter : Counter} (order : HashOrder) (info : BinWeightInfo)

def Counter.constructed (order : HashOrder) (state : SolvingState) (counter : Counter) (info : BinWeightInfo) : Counter :=
  (counter.canaried order state [{}] (order.ids (counter.part.getAllDomainIds state.shardDomain)) info).1.committed

/-- After construction the nodes with shards below them have a value. -/
private theorem present_initial (hierarchical : state.Hierarchical) (isPart : Part state.assignmentTree counter.part domain domainIds)
    (metrics : counter.metric = fun _ => none) (tallies : (counter.constructed order state info).Tallies) (level : Nat)
    (domainId : DomainId) : ((counter.constructed order state info).metric (level + 1, domainId)).isSome ↔
      0 < rollup (childrenAt counter.part) (partLoad state (fun _ => 1) counter.part {}) level domainId := by
  have shards := hierarchical.shardDomain
  induction level generalizing domainId with
  | zero =>
    change _ ↔ 0 < partLoad state (fun _ => 1) counter.part {} domainId
    have bin := Counter.canaried_bin order [{}] (order.ids (counter.part.getAllDomainIds state.shardDomain)) info isPart.hierarchy
      shards domainId
    have entered := entered_initial state isPart.hierarchy.grounded shards (order.ids_perm _) domainId
    rw [← shards] at entered
    rw [Counter.constructed, bin, metrics, entered, children_bin isPart, partLoad]
    split
    · rw [SolvingState.load_initial _ hierarchical]
      simp [Finset.card_pos]
    · simp
  | succ level ih =>
    have present := tallies.present level domainId
    rw [present, rollup]
    constructor
    · rintro ⟨child, listed, there⟩
      exact Finset.sum_pos' (fun other _ => rollup_partLoad_nonneg {} level other) ⟨child, listed, (ih child).mp there⟩
    · intro positive
      obtain ⟨child, listed, some⟩ := Finset.exists_ne_zero_of_sum_ne_zero positive.ne'
      have nonneg : 0 ≤ rollup (childrenAt counter.part) (partLoad state (fun _ => 1) counter.part {}) level child :=
        rollup_partLoad_nonneg {} level child
      exact ⟨child, listed, (ih child).mpr (lt_of_le_of_ne nonneg (Ne.symm some))⟩

/-- A node's children with shards are counted once each. -/
private theorem countsShards_new (hierarchical : state.Hierarchical) (isPart : Part state.assignmentTree counter.part domain domainIds)
    (hasBin : counter.part.HasBin)
    (records : RecordsValue counter.calculation state counter.domain counter.fault) (above : counter.domain ≠ 0)
    (adds : AddsShards counter.calculation .after (fun _ => 1) counter.part) (counts : CountsChanges counter.calculation)
    (metrics : counter.metric = fun _ => none) (faults : counter.faults = fun _ => none) (level : Nat) :
    CountsShards state level domainIds {} (counter.constructed order state info) := by
  have empty := counter.tallies_empty metrics faults
  have tallies : (counter.constructed order state info).Tallies :=
    Counter.canaried_tallies order _ _ info isPart.hierarchy hierarchical.shardDomain records above empty
  refine ⟨tallies, ?_⟩
  intro sparse _ domainId listed
  have counted := Counter.canaried_counted order [{}] (order.ids (counter.part.getAllDomainIds state.shardDomain)) info
    isPart.hierarchy hierarchical.shardDomain adds counts
  have zero : counter.residues (level + 1) domainId = 0 := by simp [Counter.residues, metrics]
  have one : ∀ child ∈ childrenAt counter.part level domainId,
      rollup (childrenAt counter.part) (partLoad state (fun _ => 1) counter.part {}) level child =
        if (counter.constructed order state info).metric (level + 1, child) ≠ counter.metric (level + 1, child) then 1 else 0 := by
    intro child member
    have inPart := List.mem_toFinset.mp member
    have parent : ((level + 2, domainId) : Node) ∈ counter.part.staticParents (level + 1) child :=
      (isPart.hierarchy.parents _ _ _).mpr ⟨rfl, inPart⟩
    have few : rollup (childrenAt counter.part) (partLoad state (fun _ => 1) counter.part {}) level child ≤ 1 := by
      rw [← load_part {} hierarchical isPart (.inl (isPart.hasBin hasBin)) (.inr ⟨_, parent⟩), SolvingState.load_count]
      rw [isPart.children _ (counter.part.mapped_of_mem_staticParents parent).2] at inPart
      exact_mod_cast sparse domainId listed child inPart
    have nonneg : 0 ≤ rollup (childrenAt counter.part) (partLoad state (fun _ => 1) counter.part {}) level child :=
      rollup_partLoad_nonneg {} level child
    have differs : (counter.constructed order state info).metric (level + 1, child) ≠ counter.metric (level + 1, child) ↔
        0 < rollup (childrenAt counter.part) (partLoad state (fun _ => 1) counter.part {}) level child := by
      rw [metrics, Option.ne_none_iff_isSome]
      exact present_initial order info hierarchical isPart metrics tallies level child
    by_cases there : 0 < rollup (childrenAt counter.part) (partLoad state (fun _ => 1) counter.part {}) level child
    · rw [if_pos (differs.mpr there)]
      omega
    · rw [if_neg fun different => there (differs.mp different)]
      omega
  have card : ((changedAmong counter.part counter.metric (counter.constructed order state info).metric level domainId).card : Int) =
      rollup (childrenAt counter.part) (partLoad state (fun _ => 1) counter.part {}) (level + 1) domainId := by
    rw [rollup, Finset.sum_congr rfl one, changedAmong, Finset.card_filter]
    push_cast
    rfl
  have value : (counter.constructed order state info).residues (level + 1) domainId =
      counter.residues (level + 1) domainId + _ := counted.above level domainId
  rw [value, zero, zero_add]
  change ((changedAmong counter.part counter.metric (counter.constructed order state info).metric level domainId).card : Residue) = _
  rw [← Int.cast_natCast, card]
  exact map_rollup (Int.castAddHom Residue) _ _ _

/-- A commit that takes no shard from below the nodes adds 1 at every level above its destination. -/
theorem CountsShards.accepted {moves : MovementMap} {level : Nat} (counts : CountsShards state level domainIds moves counter)
    (hierarchical : state.Hierarchical) (isPart : Part state.assignmentTree counter.part (level + 2) domainIds)
    (records : RecordsValue counter.calculation state counter.domain counter.fault) (above : counter.domain ≠ 0)
    (adds : AddsShards counter.calculation .after (fun _ => 1) counter.part) (changes : CountsChanges counter.calculation)
    {shard nextBin : DomainId} (candidate : Candidate state moves shard nextBin) :
    CountsShards state level domainIds (moves.addMovements (.addMovement {} shard nextBin))
      (counter.canaried order state [{}, moves, .addMovement {} shard nextBin] (order.ids [shard]) info).1.committed := by
  have shards := hierarchical.shardDomain
  refine ⟨Counter.canaried_tallies order _ _ info isPart.hierarchy shards records above counts.1, ?_⟩
  intro sparse kept domainId listed
  have keptBefore : ∀ other, (moves.getNextBin other).isSome → other ∉ state.shardsUnder {} (level + 2) domainIds := by
    intro other moved
    exact kept other (by rw [MovementMap.next_addMovements, Option.isSome_or, moved, Bool.or_true])
  have stays : ∀ binId, shard ∉ counter.part.children 1 binId := by
    intro binId inPart
    rw [children_bin isPart] at inPart
    split at inPart
    next row =>
      have inBin : state.nodeOver {} shard 1 = some binId := by
        rw [SolvingState.nodeOver, MovementMap.next_empty, Option.none_or, hierarchical.parentOf_iff]
        exact inPart
      obtain ⟨top, member, under⟩ := nodeOver_part hierarchical isPart {} (level + 1) (by omega)
        ((row_isSome (1, binId)).mp row) inBin
      refine kept shard (by simp) (Finset.mem_filter.mpr ⟨SolvingState.mem_shards hierarchical inPart, top, member, under⟩)
    next => cases inPart
  have arrives : ∀ binId, shift .after (fun _ => 1) counter.part shard nextBin binId = arrival counter.part nextBin binId := by
    intro binId
    rw [shift, if_neg (stays binId), arrival]
    by_cases here : binId = nextBin ∧ (counter.part.parentToChildMap.row 1 binId).isSome
    · simp [here, shouldConsider, signed]
    · simp [here]
  have counted := Counter.canaried_counted order [{}, moves, .addMovement {} shard nextBin] [shard] info isPart.hierarchy
    shards adds changes
  have change : ∀ binId, binChange .after (fun _ => 1) [{}, moves, .addMovement {} shard nextBin]
      ((ExpressionTree.entered state counter.part [{}, moves, .addMovement {} shard nextBin] [shard]).changedChildren (1, binId))
      binId = arrival counter.part nextBin binId := by
    intro binId
    rw [binChange_moved .after _ state candidate.moved isPart.hierarchy.grounded shards, ← arrives]
    simp
  have idle : ∀ binId, arrival counter.part nextBin binId = 0 →
      (ExpressionTree.entered state counter.part [{}, moves, .addMovement {} shard nextBin] [shard]).changedChildren (1, binId) =
        [] := by
    intro binId none
    by_contra occupied
    obtain ⟨other, member, inPart | ⟨next, row⟩⟩ := (entered_moved state candidate.moved isPart.hierarchy.grounded shards binId).mp occupied
    · exact stays binId (List.mem_singleton.mp member ▸ inPart)
    · rw [List.mem_singleton.mp member, MovementMap.next_addMovement, if_pos rfl, Option.some.injEq] at next
      rw [arrival, if_pos ⟨next.symm, row⟩] at none
      cases none
  obtain ⟨value, _⟩ := counted.arrives isPart.hierarchy change idle (level + 1) domainId
  rw [order.ids_singleton, value, counts.2 sparse keptBefore domainId listed]
  have sum : ∀ binId, partLoad state (fun _ => 1) counter.part (moves.addMovements (.addMovement {} shard nextBin)) binId =
      partLoad state (fun _ => 1) counter.part moves binId + arrival counter.part nextBin binId := by
    intro binId
    rw [shift_candidate hierarchical isPart candidate, arrives]
  rw [Counter.part_canaried]
  simp only [sum, Int.cast_add]
  rw [rollup_add]
  congr 1
  exact map_rollup (Int.castAddHom Residue) _ _ _

private theorem tracks_shards {first : Counter} {level : Nat} (hierarchical : state.Hierarchical)
    (isPart : Part state.assignmentTree first.part (level + 2) domainIds) (hasBin : first.part.HasBin)
    (records : RecordsValue first.calculation state first.domain first.fault) (above : first.domain ≠ 0)
    (adds : AddsShards first.calculation .after (fun _ => 1) first.part) (changes : CountsChanges first.calculation) :
    Tracks order state (TracksCounter state first (CountsShards state level domainIds)) := by
  refine tracks_counter order hierarchical.movementMap hasBin ?_ ?_
  · intro moves shard nextBin counter info candidate same counts
    obtain ⟨part, calculation, domain, fault⟩ := same
    exact counts.accepted order info hierarchical (part ▸ isPart) (by rw [calculation, domain, fault]; exact records)
      (domain ▸ above) (by rw [calculation, part]; exact adds) (by rw [calculation]; exact changes) candidate
  · intro moves counter other same metrics faults counts
    refine ⟨?_, ?_⟩
    · rw [Counter.Tallies, same.part, same.domain, same.fault, metrics, faults]
      exact counts.1
    · intro sparse kept domainId listed
      rw [Counter.residues, metrics, same.part]
      exact counts.2 sparse kept domainId listed

theorem DrainConstraint.sum_faults {faultWeight : Int} (tallies : counter.Tallies) (fault : counter.fault = fault faultWeight)
    (isPart : Part state.assignmentTree counter.part counter.domain domainIds) :
    ∑ᶠ domainId, (counter.faults domainId).getD 0 =
      faultWeight * ∑ domainId ∈ domainIds.toFinset, (counter.metric (counter.domain, domainId)).getD 0 := by
  have weighed : ∀ domainId, (counter.faults domainId).getD 0 =
      faultWeight * (counter.metric (counter.domain, domainId)).getD 0 := by
    intro domainId
    rw [tallies.faults, fault]
    cases counter.metric (counter.domain, domainId) with
    | none => simp
    | some val => exact mul_comm val faultWeight
  rw [Finset.mul_sum, ← Finset.sum_congr rfl fun domainId _ => weighed domainId]
  refine finsum_eq_sum_of_support_subset _ ?_
  intro domainId present
  rw [Finset.mem_coe, List.mem_toFinset]
  by_contra absent
  apply present
  have notMapped : ¬ counter.part.Mapped (counter.domain, domainId) := fun mapped =>
    absent ((isPart.given domainId).mp mapped).1
  change (counter.faults domainId).getD 0 = 0
  rw [weighed, tallies.unmapped _ notMapped]
  simp

end Tracked

namespace DrainConstraint
variable {state : SolvingState} {domain : Domain} {domainIds : List DomainId} {faultWeight : Int}

/-- The committed share of a drain weighs the shards under its nodes. -/
def WeighsShards (state : SolvingState) (domain : Domain) (domainIds : List DomainId) (faultWeight : Int) (moves : MovementMap)
    (constraint : Constraint) : Prop :=
  constraint.KeepsFaults ∧ (faultWeight = 0 ∨ Countable state domain domainIds moves →
    (totalAccount state).shareOf (LawfulConstraint.rollback constraint) =
      faultWeight * (state.shardsUnder moves domain domainIds).card)

private theorem weighsShards {first counter : Counter} {moves : MovementMap} {constraint : Constraint}
    (found : constraint.counter state = some counter) (same : SameKind first counter) (sameDomain : first.domain = domain)
    (fault : first.fault = fault faultWeight) (isPart : Part state.assignmentTree first.part domain domainIds)
    (tallies : counter.Tallies) (values : Countable state domain domainIds moves → ∀ domainId ∈ domainIds,
      (counter.metric (domain, domainId)).getD 0 = state.load (fun _ => 1) moves (domain, domainId)) :
    WeighsShards state domain domainIds faultWeight moves constraint := by
  obtain ⟨keepsFaults, _, faults⟩ := Constraint.keepsFaults_of_counter found
  refine ⟨keepsFaults, ?_⟩
  have counterDomain : counter.domain = domain := same.domain.trans sameDomain
  have counterPart : Part state.assignmentTree counter.part counter.domain domainIds := by
    rw [same.part, counterDomain]
    exact isPart
  have sum := sum_faults tallies (same.fault.trans fault) counterPart
  rw [counterDomain] at sum
  have share : (totalAccount state).shareOf (LawfulConstraint.rollback constraint) = _ :=
    (shareOf_total constraint keepsFaults).2
  rw [share, faults]
  intro condition
  refine sum.trans ?_
  rcases condition with rfl | countable
  · simp
  · rw [SolvingState.card_shardsUnder]
    exact congrArg (faultWeight * ·) (Finset.sum_congr rfl fun domainId member =>
      values countable domainId (List.mem_toFinset.mp member))

private theorem Countable.fits_load {moves : MovementMap} (countable : Countable state domain domainIds moves) {domainId : DomainId}
    (listed : domainId ∈ domainIds) : FitsInt32 (state.load (fun _ => 1) moves (domain, domainId)) := by
  have small := countable.fits domainId listed
  rw [SolvingState.load_count]
  simp only [FitsInt32]
  omega

variable (faultWeight) in
/-- Drains over bins sum loads, drains above them count changes; both weigh shards. -/
private theorem tracks_weighs (order : HashOrder) (hierarchical : state.Hierarchical)
    (hasBin : (state.assignmentTree.createPartialTree domain domainIds).HasBin) :
    ∃ holds, Tracks order state (TracksCounter state (newCounter state .after domain domainIds faultWeight) holds) ∧
      (∀ constructorOrder info, holds {}
        ((newCounter state .after domain domainIds faultWeight).constructed constructorOrder state info)) ∧
      ∀ moves constraint, TracksCounter state (newCounter state .after domain domainIds faultWeight) holds moves constraint →
        WeighsShards state domain domainIds faultWeight moves constraint := by
  have isPart := createPartialTree_part hierarchical.hierarchy domain domainIds
  have above := domain_ne_zero hierarchical hasBin
  match domain, isPart, hasBin, above with
  | 1, isPart, hasBin, _ =>
    have additive : Additive state .after (fun _ => 1) (newCounter state .after 1 domainIds faultWeight) :=
      newCounter_additive hierarchical .after faultWeight
    refine ⟨CountsLoad state fun _ => 1, tracks_load order hierarchical additive isPart hasBin, ?_, ?_⟩
    · intro constructorOrder info
      exact countsLoad_new constructorOrder info hierarchical additive isPart (funext fun _ => rfl) (funext fun _ => rfl)
    · rintro moves constraint ⟨counter, found, same, counts⟩
      refine weighsShards found same rfl rfl isPart counts.tallies ?_
      intro countable domainId listed
      have inPart : Part state.assignmentTree counter.part 1 domainIds := same.part ▸ isPart
      exact counts.value_listed hierarchical inPart (.inl (inPart.hasBin (same.part ▸ hasBin))) listed (countable.fits_load listed)
  | level + 2, isPart, hasBin, above =>
    let first := newCounter state .after (level + 2) domainIds faultWeight
    have isPart : Part state.assignmentTree first.part (level + 2) domainIds := isPart
    have records : RecordsValue first.calculation state first.domain first.fault := recordsValue .after (level + 2) faultWeight
    have adds : AddsShards first.calculation .after (fun _ => 1) first.part :=
      addsShards hierarchical.binDomain .after (level + 2) faultWeight first.part
    have changes : CountsChanges first.calculation := countsChanges hierarchical.binDomain .after (level + 2) faultWeight
    refine ⟨CountsShards state level domainIds,
      tracks_shards order hierarchical isPart hasBin records above adds changes, ?_, ?_⟩
    · intro constructorOrder info
      exact countsShards_new constructorOrder info hierarchical isPart hasBin records above adds changes
        (funext fun _ => rfl) (funext fun _ => rfl) level
    · rintro moves constraint ⟨counter, found, same, tallies, values⟩
      refine weighsShards found same rfl rfl isPart tallies ?_
      intro countable domainId listed
      have notBins : level + 2 ≠ state.binDomain := by
        rw [hierarchical.binDomain]
        simp
      have value := values (countable.sparse.resolve_left notBins) (countable.kept.resolve_left notBins) domainId listed
      have counterPart : Part state.assignmentTree counter.part (level + 2) domainIds := same.part ▸ isPart
      have counterBin : counter.part.HasBin := same.part ▸ hasBin
      rcases listed_cases (fun _ => 1) moves counterPart (.inl (counterPart.hasBin counterBin)) listed with mapped | ⟨notMapped, none⟩
      · exact tallies.value hierarchical counterPart (.inl (counterPart.hasBin counterBin)) value (.inl mapped) (countable.fits_load listed)
      · rw [tallies.unmapped _ notMapped, none]
        rfl

end DrainConstraint

variable {ι : Type} [DecidableEq ι]

/-- The contributions make up the total weight, and that of a drain is the number of
shards under its nodes in every state of a run in which they can be counted. -/
theorem DrainConstraint.solve_counts (shardInfoVector : List ShardInfo) (metricVectors : List (List MetricValue))
    (domainMapping : List (List (List DomainId))) (once : SolvingState.ListsOnce domainMapping) {state : SolvingState}
    (built : state = (SolvingState.new shardInfoVector metricVectors domainMapping).withEmptyMovementMap)
    (domain : Domain) (domainIds : List DomainId) (faultWeight : Int)
    (hasBin : (state.assignmentTree.createPartialTree domain domainIds).HasBin) (constructorOrder : HashOrder)
    (info : BinWeightInfo) (constraint : DrainConstraint) (weights : BinWeightInfo)
    (made : DrainConstraint.new constructorOrder state .after domain domainIds faultWeight info = .ok (constraint, weights))
    (order : HashOrder) (constraints : List ι) (target : ι) (listed : target ∈ constraints) (world : World ι Constraint)
    (placed : world.objects target = .drain constraint) (maxIterations : Nat) (draws : List Nat) :
    ∀ earlier later, history (solve order state constraints maxIterations draws world).events = earlier ++ later →
      (lastSearch (start world draws) earlier).world.binWeightInfo.committedTotal = world.binWeightInfo.committedTotal +
        (constraints.map fun other => contributed order state BinWeightInfo.total other earlier).sum ∧
      (faultWeight = 0 ∨ Countable state domain domainIds (lastSearch (start world draws) earlier).committedMoves →
        weights.total - info.total + contributed order state BinWeightInfo.total target earlier =
          faultWeight * (state.shardsUnder (lastSearch (start world draws) earlier).committedMoves domain domainIds).card) := by
  have hierarchical : state.Hierarchical := built ▸ SolvingState.hierarchical_new shardInfoVector metricVectors once
  intro earlier later split
  have follows : Follows (CommitStep order state constraints) (start world draws) earlier := by
    have whole : Follows (CommitStep order state constraints) (start world draws)
        (history (solve order state constraints maxIterations draws world).events) := solve_commits maxIterations draws world
    rw [split] at whole
    exact whole.before
  refine ⟨(follows_contributed follows).1, ?_⟩
  intro condition
  have constructed : Constraint.new constructorOrder state info (.drain .after domain domainIds faultWeight) =
      .ok (.drain constraint, weights) := by
    rw [Constraint.new, made]
    rfl
  obtain ⟨holds, tracks, begins, weighs⟩ := tracks_weighs faultWeight order hierarchical hasBin
  have placedCounter : TracksCounter state (newCounter state .after domain domainIds faultWeight) holds {} (.drain constraint) := by
    obtain ⟨found, _⟩ := Constraint.counter_new hierarchical.movementMap
      (newCounter state .after domain domainIds faultWeight) rfl (hasBin.resolves _) constructed
    exact ⟨_, found, SameKind.canaried ⟨rfl, rfl, rfl, rfl⟩ _ _ _ _, begins constructorOrder info⟩
  have held := follows.last (fun search => TracksCounter state (newCounter state .after domain domainIds faultWeight) holds
      search.committedMoves (search.world.objects target))
    (fun _ _ _ step held => tracks.step listed step held) (by rw [start, placed]; exact placedCounter)
  have share := (weighs _ _ held).2 condition
  have account := contributed_share (totalAccount state) listed follows (by rw [start, placed]; trivial)
  obtain ⟨added, clean⟩ : (totalAccount state).weight weights =
      (totalAccount state).weight info + (totalAccount state).shareOf (.drain constraint) ∧
      LawfulConstraint.rollback (Constraint.drain constraint) = .drain constraint := by
    have keepFaults : (Constraint.Arguments.drain .after domain domainIds faultWeight).KeepFaults := trivial
    obtain ⟨added, _, clean, _⟩ := Account.new_share keepFaults constructed
    exact ⟨added, clean⟩
  change (totalAccount state).weight weights - (totalAccount state).weight info +
    contributed order state (totalAccount state).weight target earlier = _
  rw [account, share, start, placed, clean, added]
  omega

namespace DrainConstraint

theorem solve_counts_twoBins :
    drainedBin.2.total - BinWeightInfo.empty.total +
        contributed .insertion .twoBins BinWeightInfo.total () (history drainedRun.events) =
      1 * (SolvingState.twoBins.shardsUnder
        (lastSearch (start drainedWorld [0, 1, 0, 1]) (history drainedRun.events)).committedMoves 1 [0]).card :=
  (solve_counts [] [[5, 7, 9]] [[[0, 1, 2], []], [[0, 1]]] (by decide) rfl 1 [0] 1 (by decide +kernel) .insertion .empty
    drainedBin.1 drainedBin.2 (Checked.ok_get _ (by decide +kernel)) .insertion [()] () (by simp) drainedWorld rfl 2 [0, 1, 0, 1]
    (history drainedRun.events) [] (List.append_nil _).symm).2 (.inr ⟨by decide +kernel, .inl rfl, .inl rfl⟩)

def drainedRack : DrainConstraint × BinWeightInfo :=
  (new .insertion .twoBins .after 2 [0] 1 .empty).toOption.get (by decide +kernel)

/-- Three shards in one bin are one changed child. -/
theorem drainedRack_undercounts :
    (SolvingState.twoBins.assignmentTree.createPartialTree 2 [0]).HasBin ∧
    new .insertion .twoBins .after 2 [0] 1 .empty = .ok drainedRack ∧
    drainedRack.2.total - BinWeightInfo.empty.total ≠ 1 * (SolvingState.twoBins.shardsUnder {} 2 [0]).card :=
  ⟨by decide +kernel, Checked.ok_get _ (by decide +kernel), by decide +kernel⟩

end DrainConstraint
end ShardManager

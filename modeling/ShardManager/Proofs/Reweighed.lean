import ShardManager.Proofs.LoadBalance

/-! Runs of `solve` with a `LoadBalancingConstraint` over bins: what each commit adds
for the bins it touches, and exactly when the sums are those of the current loads. -/

namespace ShardManager
open SparseMappingTree IterativeLocalSearch

namespace IterativeLocalSearch
variable {ι C : Type} {step : Search ι C → MovementMap → Search ι C → Prop}

theorem Follows.steps {search : Search ι C} {commits : List (Search ι C × MovementMap × Search ι C)}
    (follows : Follows step search commits) : ∀ commit ∈ commits, step commit.1 commit.2.1 commit.2.2 := by
  induction commits generalizing search with
  | nil => simp
  | cons commit commits ih =>
    intro other member
    rcases List.mem_cons.mp member with rfl | member
    · exact follows.2.1
    · exact ih follows.2.2 other member

/-- Adding up what the commits add gives a value of the search after every commit, if
and only if it does at first and every commit changes the value by what it adds. -/
private theorem Follows.sums_iff (value : Search ι C → Int) (delta : Search ι C × MovementMap × Search ι C → Int) {search : Search ι C}
    {commits : List (Search ι C × MovementMap × Search ι C)} (follows : Follows step search commits) (first : Int) :
    (∀ earlier later, commits = earlier ++ later →
      first + (earlier.map delta).sum = value (earlier.foldl (fun _ commit => commit.2.2) search)) ↔
    first = value search ∧ ∀ commit ∈ commits, value commit.2.2 = value commit.1 + delta commit := by
  induction commits generalizing search first with
  | nil =>
    constructor
    · intro sums
      exact ⟨by simpa using sums [] [] rfl, by simp⟩
    · rintro ⟨begins, _⟩ earlier later split
      obtain ⟨rfl, rfl⟩ := List.append_eq_nil_iff.mp split.symm
      simpa using begins
  | cons commit commits ih =>
    obtain ⟨before, movement, after⟩ := commit
    obtain ⟨rfl, _, rest⟩ := follows
    have later := ih rest (first + delta (before, movement, after))
    constructor
    · intro sums
      have begins : first = value before := by simpa using sums [] _ rfl
      obtain ⟨next, others⟩ := later.mp fun earlier later split => by
        have sum := sums ((before, movement, after) :: earlier) later (by rw [split]; rfl)
        rw [List.map_cons, List.sum_cons, ← add_assoc] at sum
        exact sum
      refine ⟨begins, fun commit member => ?_⟩
      rcases List.mem_cons.mp member with rfl | member
      · exact begins ▸ next.symm
      · exact others commit member
    · rintro ⟨begins, changes⟩ earlier last split
      have next : first + delta (before, movement, after) = value after := by
        rw [changes _ List.mem_cons_self, begins]
      cases earlier with
      | nil => simpa using begins
      | cons commit earlier =>
        obtain ⟨rfl, tail⟩ := List.cons_eq_cons.mp split
        have sum := later.mpr ⟨next, fun commit member => changes commit (List.mem_cons_of_mem _ member)⟩ earlier last tail
        rw [List.map_cons, List.sum_cons, ← add_assoc]
        exact sum

end IterativeLocalSearch

namespace LoadBalancingConstraint
section Commits
variable {state : SolvingState} {domainIds : List DomainId} {metric : Metric} {maxDelta multiplier : Int}
  {moves : MovementMap} {kept : LoadBalancingConstraint} {shard nextBin : DomainId}

private theorem touches_candidate (hierarchical : state.Hierarchical) (binId : DomainId) :
    Touches state (.addMovement {} shard nextBin) binId ↔ shard ∈ state.assignmentTree.children 1 binId ∨ nextBin = binId := by
  have single : (MovementMap.addMovement {} shard nextBin).getAllMovements.keys = [shard] := rfl
  rw [Touches, single, hierarchical.binDomain]
  simp

private theorem canaryMoves_candidate (hierarchical : state.Hierarchical) (overBins : OverBins state domainIds (partialTree state 1 domainIds))
    (shows : Shows state domainIds metric maxDelta multiplier moves kept.rollback) (order : HashOrder) (info : BinWeightInfo) :
    kept.canaryMoves order state (some moves) (some (.addMovement {} shard nextBin)) info =
      .ok (kept.canaried order state [{}, moves, .addMovement {} shard nextBin] [shard] info) := by
  have minTree : kept.minExpressionTree.assignmentTree = partialTree state 1 domainIds := shows.minTree
  have maxTree : kept.maxExpressionTree.assignmentTree = partialTree state 1 domainIds := shows.maxTree
  exact kept.canaryMoves_single hierarchical (minTree ▸ overBins.hasBin) (maxTree ▸ overBins.hasBin) moves shard nextBin order info

/-- A candidate adds the weights of the listed bins that it touches, as they are after it. -/
private theorem added_candidate (hierarchical : state.Hierarchical) (overBins : OverBins state domainIds (partialTree state 1 domainIds))
    (valid : ValidReassignment state moves) (candidate : Candidate state moves shard nextBin)
    (shows : Shows state domainIds metric maxDelta multiplier moves kept.rollback) (order : HashOrder) :
    let movement : MovementMap := .addMovement {} shard nextBin
    ((Constraint.loadBalancing kept).added order state moves movement).total = ∑ binId ∈ domainIds.toFinset,
      (if Touches state movement binId
        then touchedWeight state domainIds metric maxDelta multiplier (moves.addMovements movement) binId else 0) ∧
    ∀ binId ∈ domainIds, ((Constraint.loadBalancing kept).added order state moves movement).binWeight binId =
      if Touches state movement binId
        then touchedWeight state domainIds metric maxDelta multiplier (moves.addMovements movement) binId else 0 := by
  intro movement
  have entered : ∀ binId, (ExpressionTree.entered state (partialTree state 1 domainIds) [{}, moves, movement] [shard]).changedChildren
      (1, binId) ≠ [] ↔ binId ∈ domainIds ∧ Touches state movement binId := by
    intro binId
    rw [touches_candidate hierarchical]
    exact entered_candidate hierarchical overBins candidate binId
  have occupied : ∀ binId ∈ domainIds, Touches state movement binId →
      binId ∈ state.occupied domainIds (moves.addMovements movement) := by
    intro binId listed touches
    refine (SolvingState.mem_occupied hierarchical (valid.add candidate).agrees binId).mpr ⟨listed, ?_⟩
    rcases (touches_candidate hierarchical binId).mp touches with home | here
    · exact .inl (List.ne_nil_of_mem home)
    · exact .inr ⟨shard, by simp [here]⟩
  obtain ⟨total, bins⟩ := canaried_adds hierarchical overBins
    (shows_candidate hierarchical overBins valid candidate shows order .empty) entered occupied
  have added : (Constraint.loadBalancing kept).added order state moves movement =
      (kept.canaried order state [{}, moves, movement] [shard] .empty).2 := by
    rw [Constraint.added, Constraint.canaryMoves, canaryMoves_candidate hierarchical overBins shows]
    rfl
  have zero : BinWeightInfo.empty.total = 0 ∧ ∀ binId, BinWeightInfo.empty.binWeight binId = 0 :=
    ⟨rfl, fun binId => by simp [BinWeightInfo.binWeight, BinWeightInfo.empty]⟩
  rw [added]
  rw [zero.1, zero_add] at total
  simp only [zero.2, zero_add] at bins
  exact ⟨total, bins⟩

def Shown (state : SolvingState) (domainIds : List DomainId) (metric : Metric) (maxDelta multiplier : Int) (moves : MovementMap)
    (constraint : Constraint) : Prop :=
  ValidReassignment state moves ∧
    ∃ kept, constraint = .loadBalancing kept ∧ Shows state domainIds metric maxDelta multiplier moves kept.rollback

private theorem tracks_shown (hierarchical : state.Hierarchical) (overBins : OverBins state domainIds (partialTree state 1 domainIds))
    (order : HashOrder) : Tracks order state (Shown state domainIds metric maxDelta multiplier) where
  accepted := by
    rintro moves shard nextBin _ info after final candidate ⟨valid, kept, rfl, shows⟩ canaried
    change Constraint.canaryMoves _ _ _ _ _ _ = _ at canaried
    rw [Constraint.canaryMoves, canaryMoves_candidate hierarchical overBins shows, Checked.ok_bind] at canaried
    cases canaried
    exact ⟨valid.add candidate, _, rfl, (shows_candidate hierarchical overBins valid candidate shows order info).committed⟩
  again := by
    rintro moves object ⟨valid, kept, isBalancing, shows⟩
    cases object with
    | loadBalancing object =>
      cases isBalancing
      exact ⟨valid, _, rfl, shows.again⟩
    | _ => cases isBalancing

variable (state domainIds metric maxDelta multiplier) in
/-- What a commit adds to the weight of a listed bin. -/
def reweighed {ι : Type} (commit : Search ι Constraint × MovementMap × Search ι Constraint) (binId : DomainId) : Int :=
  if Touches state commit.2.1 binId
    then touchedWeight state domainIds metric maxDelta multiplier (commit.1.committedMoves.addMovements commit.2.1) binId else 0

variable {ι : Type} [DecidableEq ι] {order : HashOrder} {constraints : List ι} {target : ι}

/-- The contributions of a run are added up from its commits. -/
private theorem contributed_reweighed (hierarchical : state.Hierarchical)
    (overBins : OverBins state domainIds (partialTree state 1 domainIds)) (listed : target ∈ constraints)
    {search : Search ι Constraint} {commits : List (Search ι Constraint × MovementMap × Search ι Constraint)}
    (follows : Follows (CommitStep order state constraints) search commits)
    (shown : Shown state domainIds metric maxDelta multiplier search.committedMoves (search.world.objects target)) :
    contributed order state BinWeightInfo.total target commits = ∑ binId ∈ domainIds.toFinset,
      (commits.map fun commit => reweighed state domainIds metric maxDelta multiplier commit binId).sum ∧
    ∀ binId ∈ domainIds, contributed order state (·.binWeight binId) target commits =
      (commits.map fun commit => reweighed state domainIds metric maxDelta multiplier commit binId).sum := by
  induction commits generalizing search with
  | nil => simp [contributed]
  | cons commit commits ih =>
    obtain ⟨before, movement, after⟩ := commit
    obtain ⟨rfl, step, later⟩ := follows
    obtain ⟨restTotal, restBins⟩ := ih later ((tracks_shown hierarchical overBins order).step listed step shown)
    obtain ⟨valid, kept, placed, shows⟩ := shown
    obtain ⟨shard, nextBin, candidate, rfl⟩ := step.candidate
    obtain ⟨total, bins⟩ := added_candidate hierarchical overBins valid candidate shows order
    constructor
    · rw [contributed, List.map_cons, List.sum_cons, placed, total]
      refine (congrArg (_ + ·) restTotal).trans ?_
      rw [← Finset.sum_add_distrib]
      rfl
    · intro binId member
      rw [contributed, List.map_cons, List.sum_cons, placed, bins binId member]
      exact congrArg (_ + ·) (restBins binId member)

end Commits

section Conditions
variable (state : SolvingState) (domainIds : List DomainId) (metric : Metric) (maxDelta multiplier : Int)

/-- The shares are the terms of the listed bins, for the loads after the moves. -/
structure ShowsTerms (moves : MovementMap) (share : (BinWeightInfo → Int) → Int) : Prop where
  total : share BinWeightInfo.total = ∑ binId ∈ domainIds.toFinset, term state domainIds metric maxDelta multiplier moves binId
  bins : ∀ binId ∈ domainIds, share (·.binWeight binId) = term state domainIds metric maxDelta multiplier moves binId

/-- Without moves, bins that list shards have the weight of a touched bin, and bins that list none have no weight. -/
def StartsRight : Prop :=
  ∀ binId ∈ domainIds, term state domainIds metric maxDelta multiplier {} binId =
    if state.assignmentTree.children state.binDomain binId ≠ [] then touchedWeight state domainIds metric maxDelta multiplier {} binId
    else 0

/-- A move changes the terms of the bins that it touches by the weight of a touched bin, and no others. -/
def MovesRight (moves movement : MovementMap) : Prop :=
  ∀ binId ∈ domainIds, term state domainIds metric maxDelta multiplier (moves.addMovements movement) binId =
    term state domainIds metric maxDelta multiplier moves binId + if Touches state movement binId
      then touchedWeight state domainIds metric maxDelta multiplier (moves.addMovements movement) binId else 0

instance : Decidable (StartsRight state domainIds metric maxDelta multiplier) :=
  inferInstanceAs (Decidable (∀ binId ∈ domainIds, _))

instance (moves movement : MovementMap) : Decidable (MovesRight state domainIds metric maxDelta multiplier moves movement) :=
  inferInstanceAs (Decidable (∀ binId ∈ domainIds, _))

variable {state domainIds metric maxDelta multiplier}

private theorem showsTerms_iff {moves : MovementMap} {share : (BinWeightInfo → Int) → Int} {parts : DomainId → Int}
    (total : share BinWeightInfo.total = ∑ binId ∈ domainIds.toFinset, parts binId)
    (bins : ∀ binId ∈ domainIds, share (·.binWeight binId) = parts binId) :
    ShowsTerms state domainIds metric maxDelta multiplier moves share ↔
      ∀ binId ∈ domainIds, parts binId = term state domainIds metric maxDelta multiplier moves binId := by
  constructor
  · intro shows binId member
    rw [← bins binId member, shows.bins binId member]
  · intro terms
    constructor
    · rw [total]
      exact Finset.sum_congr rfl fun binId member => terms binId (List.mem_toFinset.mp member)
    · intro binId member
      rw [bins binId member, terms binId member]

variable (multiplier)

/-- Where every listed bin has shards and nothing overflows or is rounded, a touched bin is given its whole term. -/
theorem touchedWeight_eq_term {moves : MovementMap} (occupied : state.occupied domainIds moves = domainIds)
    (small : ∀ binId ∈ domainIds, FitsInt32 (state.load (state.getShardMetric metric) moves (state.binDomain, binId)))
    {binId : DomainId} (apart : FitsInt32 |state.load (state.getShardMetric metric) moves (state.binDomain, binId) -
      lowestLoad state domainIds metric moves|)
    (beyond : FitsInt32 (|state.load (state.getShardMetric metric) moves (state.binDomain, binId) -
      lowestLoad state domainIds metric moves| - maxDelta))
    (exact : (term state domainIds metric maxDelta multiplier moves binId).natAbs < 2 ^ 53) :
    touchedWeight state domainIds metric maxDelta multiplier moves binId = term state domainIds metric maxDelta multiplier moves binId := by
  have lowest : lowestOccupied state domainIds metric moves = lowestLoad state domainIds metric moves := by
    rw [lowestOccupied, lowestLoad, occupied, List.map_congr_left fun binId member => toInt32_of_fits (small binId member)]
  rw [term] at exact
  rw [touchedWeight, term, lowest]
  generalize state.load (state.getShardMetric metric) moves (state.binDomain, binId) -
    lowestLoad state domainIds metric moves = distance at apart beyond exact
  have fits : FitsInt32 distance := by
    obtain ⟨_, high⟩ := apart
    have upper := le_abs_self distance
    have lower := neg_abs_le distance
    exact ⟨by omega, by omega⟩
  rw [toInt32_of_fits fits, toInt32_of_fits apart, toInt32_of_fits beyond]
  split
  next far =>
    rw [max_eq_right (by omega)] at exact ⊢
    exact roundDouble_of_fits exact
  next near => rw [max_eq_left (by omega), zero_mul]

theorem movesRight_iff {moves movement : MovementMap} (whole : ∀ binId ∈ domainIds,
      touchedWeight state domainIds metric maxDelta multiplier (moves.addMovements movement) binId =
        term state domainIds metric maxDelta multiplier (moves.addMovements movement) binId) :
    MovesRight state domainIds metric maxDelta multiplier moves movement ↔ ∀ binId ∈ domainIds,
      if Touches state movement binId then term state domainIds metric maxDelta multiplier moves binId = 0
      else term state domainIds metric maxDelta multiplier (moves.addMovements movement) binId =
        term state domainIds metric maxDelta multiplier moves binId := by
  refine forall₂_congr fun binId member => ?_
  rw [whole binId member]
  split
  next touched => omega
  next => rw [add_zero]

end Conditions
end LoadBalancingConstraint

variable {ι : Type} [DecidableEq ι]

/-- The contributions make up the weights, and those of a `LoadBalancingConstraint` are the terms of
the current loads throughout a run if and only if they start right and every commit moves right. -/
theorem LoadBalancingConstraint.solve_terms_iff (shardInfoVector : List ShardInfo) (metricVectors : List (List MetricValue))
    (domainMapping : List (List (List DomainId))) (once : SolvingState.ListsOnce domainMapping) {state : SolvingState}
    (built : state = (SolvingState.new shardInfoVector metricVectors domainMapping).withEmptyMovementMap)
    (domainIds : List DomainId)
    (bins : ∃ binId ∈ domainIds, (state.assignmentTree.parentToChildMap.row state.binDomain binId).isSome)
    (metric : Metric) (maxDelta multiplier : Int) (constructorOrder : HashOrder) (info : BinWeightInfo)
    (constraint : LoadBalancingConstraint) (weights : BinWeightInfo)
    (made : new constructorOrder state state.binDomain domainIds metric maxDelta (integerMultiplier multiplier) info =
      .ok (constraint, weights))
    (order : HashOrder) (constraints : List ι) (target : ι) (listed : target ∈ constraints) (world : World ι Constraint)
    (placed : world.objects target = .loadBalancing constraint) (maxIterations : Nat) (draws : List Nat) :
    (∀ earlier later, history (solve order state constraints maxIterations draws world).events = earlier ++ later →
      (lastSearch (start world draws) earlier).world.binWeightInfo.committedTotal =
          world.binWeightInfo.committedTotal +
            (constraints.map fun other => contributed order state BinWeightInfo.total other earlier).sum ∧
        ∀ binId, (lastSearch (start world draws) earlier).world.binWeightInfo.committedBinWeight binId =
          world.binWeightInfo.committedBinWeight binId +
            (constraints.map fun other => contributed order state (·.binWeight binId) other earlier).sum) ∧
    ((∀ earlier later, history (solve order state constraints maxIterations draws world).events = earlier ++ later →
      ShowsTerms state domainIds metric maxDelta multiplier (lastSearch (start world draws) earlier).committedMoves
        fun weight => weight weights - weight info + contributed order state weight target earlier) ↔
    StartsRight state domainIds metric maxDelta multiplier ∧
      ∀ commit ∈ history (solve order state constraints maxIterations draws world).events,
        MovesRight state domainIds metric maxDelta multiplier commit.1.committedMoves commit.2.1) := by
  have hierarchical : state.Hierarchical := built ▸ SolvingState.hierarchical_new shardInfoVector metricVectors once
  rw [hierarchical.binDomain] at bins made
  obtain ⟨binId, member, row⟩ := bins
  have hasBin := createPartialTree_hasBin hierarchical.hierarchy member row
  have overBins := overBins_partialTree hierarchical hasBin
  obtain ⟨shows, newTotal, newBins⟩ := new_adds hierarchical hasBin made
  have whole : Follows (CommitStep order state constraints) (start world draws)
      (history (solve order state constraints maxIterations draws world).events) := solve_commits maxIterations draws world
  have before : ∀ earlier later, history (solve order state constraints maxIterations draws world).events = earlier ++ later →
      Follows (CommitStep order state constraints) (start world draws) earlier := by
    intro earlier later split
    rw [split] at whole
    exact whole.before
  refine ⟨fun earlier later split => follows_contributed (before earlier later split), ?_⟩
  have shown : Shown state domainIds metric maxDelta multiplier (start world draws).committedMoves
      ((start world draws).world.objects target) := by
    rw [start, placed]
    exact ⟨ValidReassignment.empty, constraint, rfl, shows⟩
  have sums := fun binId => whole.sums_iff
    (fun search => term state domainIds metric maxDelta multiplier search.committedMoves binId)
    (fun commit => reweighed state domainIds metric maxDelta multiplier commit binId)
    (if state.assignmentTree.children 1 binId ≠ [] then touchedWeight state domainIds metric maxDelta multiplier {} binId else 0)
  -- The constructor and the commits add bin by bin, so the terms can be compared bin by bin.
  have byBin : ∀ earlier later, history (solve order state constraints maxIterations draws world).events = earlier ++ later →
      (ShowsTerms state domainIds metric maxDelta multiplier (lastSearch (start world draws) earlier).committedMoves
          (fun weight => weight weights - weight info + contributed order state weight target earlier) ↔
        ∀ binId ∈ domainIds, (if state.assignmentTree.children 1 binId ≠ []
            then touchedWeight state domainIds metric maxDelta multiplier {} binId else 0) +
            (earlier.map fun commit => reweighed state domainIds metric maxDelta multiplier commit binId).sum =
          term state domainIds metric maxDelta multiplier (lastSearch (start world draws) earlier).committedMoves binId) := by
    intro earlier later split
    obtain ⟨total, bins⟩ := contributed_reweighed hierarchical overBins listed (before earlier later split) shown
    refine showsTerms_iff ?_ ?_
    · rw [newTotal, total, add_sub_cancel_left, ← Finset.sum_add_distrib]
    · intro binId member
      have added := newBins binId member
      change weights.binWeight binId - info.binWeight binId + contributed order state (·.binWeight binId) target earlier = _
      rw [added, bins binId member, add_sub_cancel_left]
  constructor
  · intro shows
    have both := fun binId member => (sums binId).mp fun earlier later split =>
      (byBin earlier later split).mp (shows earlier later split) binId member
    constructor
    · intro binId member
      rw [hierarchical.binDomain]
      exact (both binId member).1.symm
    · intro commit happened binId member
      have changes := (both binId member).2 commit happened
      rw [(whole.steps commit happened).moves] at changes
      exact changes
  · rintro ⟨starts, moves⟩ earlier later split
    refine (byBin earlier later split).mpr fun binId member => (sums binId).mpr ⟨?_, fun commit happened => ?_⟩ earlier later split
    · have begins := starts binId member
      rw [hierarchical.binDomain] at begins
      exact begins.symm
    · rw [(whole.steps commit happened).moves]
      exact moves commit happened binId member


namespace LoadBalancingConstraint

def fullBins : SolvingState := (SolvingState.new [] [[5, 7, 9]] [[[0, 1], [2]], [[0, 1]]]).withEmptyMovementMap

def drainedFirst : DrainConstraint × BinWeightInfo :=
  (DrainConstraint.new .insertion fullBins .after 1 [0] 100 .empty).toOption.get (by decide +kernel)

/-- Balances beside the drain, one with room for the moves it makes and one without. -/
def tolerant : LoadBalancingConstraint × BinWeightInfo :=
  (new .insertion fullBins 1 [0, 1] 0 10 (integerMultiplier 2) drainedFirst.2).toOption.get (by decide +kernel)

def strict : LoadBalancingConstraint × BinWeightInfo :=
  (new .insertion fullBins 1 [0, 1] 0 0 (integerMultiplier 2) drainedFirst.2).toOption.get (by decide +kernel)

def balancedWorld (balance : LoadBalancingConstraint × BinWeightInfo) : World Bool Constraint :=
  ⟨fun isBalance => if isBalance then .loadBalancing balance.1 else .drain drainedFirst.1, balance.2⟩

theorem solve_terms_fullBins :
    (history (solve .insertion fullBins [true, false] 3 [0, 1, 0, 1] (balancedWorld tolerant)).events).length = 2 ∧
    ∀ earlier later, history (solve .insertion fullBins [true, false] 3 [0, 1, 0, 1] (balancedWorld tolerant)).events =
        earlier ++ later →
      ShowsTerms fullBins [0, 1] 0 10 2 (lastSearch (start (balancedWorld tolerant) [0, 1, 0, 1]) earlier).committedMoves
        fun weight => weight tolerant.2 - weight drainedFirst.2 + contributed .insertion fullBins weight true earlier :=
  ⟨by decide +kernel, (solve_terms_iff [] [[5, 7, 9]] [[[0, 1], [2]], [[0, 1]]] (by decide) rfl [0, 1] ⟨0, by decide, by decide⟩ 0 10
    2 .insertion drainedFirst.2 tolerant.1 tolerant.2 (Checked.ok_get _ (by decide +kernel)) .insertion [true, false] true (by simp)
    (balancedWorld tolerant) rfl 3 [0, 1, 0, 1]).2.mpr ⟨by decide +kernel, by decide +kernel⟩⟩

/-- The loads 12 and 9 give the first bin the weight 6. After one move they are 7 and 14,
and the first bin still has it. -/
theorem strict_keeps_weight :
    SolvingState.ListsOnce [[[0, 1], [2]], [[0, 1]]] ∧
    new .insertion fullBins 1 [0, 1] 0 0 (integerMultiplier 2) drainedFirst.2 = .ok strict ∧
    ∃ commits, history (solve .insertion fullBins [true, false] 1 [0, 1] (balancedWorld strict)).events = commits ∧
      commits.length = 1 ∧
      strict.2.binWeight 0 - drainedFirst.2.binWeight 0 +
        contributed .insertion fullBins (·.binWeight 0) true commits = 6 ∧
      term fullBins [0, 1] 0 0 2 (lastSearch (start (balancedWorld strict) [0, 1]) commits).committedMoves 0 = 0 ∧
      ¬ ShowsTerms fullBins [0, 1] 0 0 2 (lastSearch (start (balancedWorld strict) [0, 1]) commits).committedMoves
        fun weight => weight strict.2 - weight drainedFirst.2 + contributed .insertion fullBins weight true commits := by
  refine ⟨by decide, Checked.ok_get _ (by decide +kernel), _, rfl, by decide +kernel, by decide +kernel, by decide +kernel, ?_⟩
  intro shows
  have first : strict.2.binWeight 0 - drainedFirst.2.binWeight 0 + contributed .insertion fullBins (·.binWeight 0) true _ =
    term fullBins [0, 1] 0 0 2 _ 0 := shows.bins 0 (by decide)
  exact absurd first (by decide +kernel)

end LoadBalancingConstraint
end ShardManager

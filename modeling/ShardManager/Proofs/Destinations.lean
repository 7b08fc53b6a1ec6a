import ShardManager.Proofs.Batching

/-! Moves of single shards, each canaried and committed on top of the moves before
it. A limit over bins ends with the loads of the last destinations as long as every
move is counted right; a shard that moves again, or to its own bin, is not. -/

namespace ShardManager
open SparseMappingTree

section Changes
variable {tree : SparseMappingTree} {committedMoves : MovementMap} {shard nextBin : DomainId}

/-- The bins that a move enters: the one that lists the shard, the one it was moved
to before, and the one it moves to. -/
private theorem count_single (hierarchy : Hierarchy tree) (binId : DomainId) :
    (tree.parentNodes 0 shard [{}, committedMoves, .addMovement {} shard nextBin]).count (1, binId) =
      ((if shard ∈ tree.children 1 binId then 1 else 0) +
        if committedMoves.getNextBin shard = some binId ∧ (tree.parentToChildMap.row 1 binId).isSome then 1 else 0) +
        if binId = nextBin ∧ (tree.parentToChildMap.row 1 binId).isSome then 1 else 0 := by
  have single : ∀ bin : DomainId, (([bin].filterMap fun parentBin =>
      if (tree.parentToChildMap.row tree.binDomain parentBin).isSome then some (tree.binDomain, parentBin) else none) :
        List Node).count (1, binId) = if binId = bin ∧ (tree.parentToChildMap.row 1 binId).isSome then 1 else 0 := by
    intro bin
    rw [hierarchy.bins]
    by_cases same : binId = bin
    · subst same
      by_cases row : (tree.parentToChildMap.row 1 binId).isSome <;> simp [row]
    · by_cases row : (tree.parentToChildMap.row 1 bin).isSome <;> simp [row, same, Ne.symm same]
  have movedBins : (tree.movedParents [{}, committedMoves, .addMovement {} shard nextBin] shard).count (1, binId) =
      (if committedMoves.getNextBin shard = some binId ∧ (tree.parentToChildMap.row 1 binId).isSome then 1 else 0) +
        if binId = nextBin ∧ (tree.parentToChildMap.row 1 binId).isSome then 1 else 0 := by
    have next : MovementMap.getNextBin (.addMovement {} shard nextBin) shard = some nextBin := by simp
    cases former : committedMoves.getNextBin shard with
    | none =>
      have bins : ([{}, committedMoves, .addMovement {} shard nextBin] : List MovementMap).filterMap
          (fun moves => moves.getNextBin shard) = [nextBin] := by
        simp only [List.filterMap_cons, MovementMap.next_empty, former, next, List.filterMap_nil]
      rw [movedParents, bins, single]
      simp
    | some former' =>
      have bins : ([{}, committedMoves, .addMovement {} shard nextBin] : List MovementMap).filterMap
          (fun moves => moves.getNextBin shard) = [former'] ++ [nextBin] := by
        simp only [List.filterMap_cons, MovementMap.next_empty, former, next, List.filterMap_nil, List.singleton_append]
      rw [movedParents, bins, List.filterMap_append, List.count_append, single, single]
      simp only [Option.some.injEq, eq_comm (a := former')]
  rw [parentNodes, hierarchy.shards, if_pos rfl, List.count_append, count_staticParents hierarchy.grounded, movedBins, Nat.add_assoc]

private theorem counted_single (binId : DomainId) :
    counted .after [{}, committedMoves, .addMovement {} shard nextBin] shard binId =
      decide ((∀ former, committedMoves.getNextBin shard = some former → former = binId) ∧ nextBin = binId) := by
  rw [Bool.eq_iff_iff, counted_after_iff, decide_eq_true_iff]
  cases former : committedMoves.getNextBin shard <;> simp [nextBins, List.filterMap_cons, former]

end Changes

/-- A move to be canaried and committed, with the order in which the hash containers
are traversed meanwhile. -/
structure Move where
  order : HashOrder
  shard : DomainId
  nextBin : DomainId

def Move.movement (move : Move) : MovementMap := .addMovement {} move.shard move.nextBin

section Loads
variable {state : SolvingState} (weight : DomainId → Int)

/-- The code counts the move right: the shard leaves its bin for the first time, or has
no weight, or is out of sight of the listed bins before and after. -/
def Move.CountsRight (state : SolvingState) (domainIds : List DomainId) (committedMoves : MovementMap) (move : Move) : Prop :=
  committedMoves.getNextBin move.shard = none ∧ move.shard ∉ state.assignmentTree.children state.binDomain move.nextBin ∨
  weight move.shard = 0 ∨
  (∀ binId ∈ domainIds, move.shard ∉ state.assignmentTree.children state.binDomain binId) ∧ move.nextBin ∉ domainIds

variable {weight} {part : SparseMappingTree} {domainIds : List DomainId}

/-- What a move that is counted right changes at the bins of a part is what it changes of their loads. -/
private theorem binChange_single (hierarchical : state.Hierarchical) (isPart : Part state.assignmentTree part 1 domainIds)
    {committedMoves : MovementMap} {move : Move} (listed : ∃ binId, move.shard ∈ state.assignmentTree.children 1 binId)
    (right : move.CountsRight weight state domainIds committedMoves) (binId : DomainId) :
    partLoad state weight part (committedMoves.addMovements move.movement) binId =
      partLoad state weight part committedMoves binId +
        binChange .after weight [{}, committedMoves, move.movement] ((ExpressionTree.entered state part
          [{}, committedMoves, move.movement] [move.shard]).changedChildren (1, binId)) binId := by
  obtain ⟨home, listed⟩ := listed
  have others : ∀ other, other ≠ move.shard →
      (committedMoves.addMovements move.movement).getNextBin other = committedMoves.getNextBin other := by
    intro other different
    simp [Move.movement, different]
  have rows : ∀ binId, (part.parentToChildMap.row 1 binId).isSome → binId ∈ domainIds := by
    intro binId row
    exact ((isPart.given binId).mp ((row_isSome (1, binId)).mp row)).1
  have arrives : ∀ binId, state.nodeOver (committedMoves.addMovements move.movement) move.shard 1 = some binId ↔
      move.nextBin = binId := by
    intro binId
    simp [SolvingState.nodeOver, Move.movement]
  have leaves : ∀ binId, state.nodeOver committedMoves move.shard 1 = some binId ↔
      committedMoves.getNextBin move.shard = some binId ∨
      committedMoves.getNextBin move.shard = none ∧ move.shard ∈ state.assignmentTree.children 1 binId := by
    intro binId
    simp [SolvingState.nodeOver, Option.or_eq_some_iff, hierarchical.parentOf_iff]
  rw [binChange_entered .after weight state hierarchical.shardDomain, List.map_singleton, List.sum_singleton, Move.movement,
    count_single isPart.hierarchy, counted_single, children_bin isPart, partLoad, partLoad, ← Move.movement]
  by_cases row : (part.parentToChildMap.row 1 binId).isSome
  · simp only [row, if_true, and_true, SolvingState.load_update weight (SolvingState.mem_shards hierarchical listed) others,
      arrives, leaves]
    rw [add_right_inj]
    rw [Move.CountsRight, hierarchical.binDomain] at right
    rcases right with ⟨unmoved, notHome⟩ | weightless | ⟨unlisted, outside⟩
    · by_cases here : move.nextBin = binId
      · subst here
        simp [unmoved, notHome, signed]
      · by_cases home : move.shard ∈ state.assignmentTree.children 1 binId <;> simp [unmoved, here, Ne.symm here, home, signed]
    · simp [weightless, signed]
    · have away : move.nextBin ≠ binId := fun same => outside (same ▸ rows binId row)
      have notHome := unlisted binId (rows binId row)
      by_cases former : committedMoves.getNextBin move.shard = some binId <;>
        simp [former, away, Ne.symm away, notHome, signed]
  · simp [row]

private theorem entered_single (hierarchy : Hierarchy part) (shards : state.shardDomain = 0) (committedMoves : MovementMap) (move : Move)
    (binId : DomainId) :
    (ExpressionTree.entered state part [{}, committedMoves, move.movement] [move.shard]).changedChildren (1, binId) ≠ [] ↔
      move.shard ∈ part.children 1 binId ∨
      (committedMoves.getNextBin move.shard = some binId ∨ binId = move.nextBin) ∧ (part.parentToChildMap.row 1 binId).isSome := by
  rw [ExpressionTree.changedChildren_entered, shards, List.flatMap_singleton, ne_eq, List.replicate_eq_nil_iff, Move.movement,
    count_single hierarchy]
  by_cases row : (part.parentToChildMap.row 1 binId).isSome
  · simp only [row, and_true]
    grind
  · simp [row]

/-- The bins that have a value: those with shards, initially or by their last move. -/
def Occupied (state : SolvingState) (part : SparseMappingTree) (moves : MovementMap) (binId : DomainId) : Prop :=
  (part.parentToChildMap.row 1 binId).isSome ∧
    (state.assignmentTree.children 1 binId ≠ [] ∨ ∃ shard, moves.getNextBin shard = some binId)

/-- What a limit over bins knows of the moves so far. Where a bin without load has no fault,
it does not matter which bins have a value. -/
structure ShowsMoves (state : SolvingState) (weight : DomainId → Int) (moves : MovementMap) (counter : Counter) : Prop where
  counts : CountsLoad state weight moves counter
  occupied : counter.fault 0 = 0 ∨ ∀ binId, (counter.metric (1, binId)).isSome ↔ Occupied state counter.part moves binId

/-- The bin that the shard was moved to before keeps a value of another origin. -/
def Move.LeavesValue (state : SolvingState) (domainIds : List DomainId) (committedMoves : MovementMap) (move : Move) : Prop :=
  ∀ former ∈ domainIds, committedMoves.getNextBin move.shard = some former → former = move.nextBin ∨
    state.assignmentTree.children state.binDomain former ≠ [] ∨
    ∃ other, other ≠ move.shard ∧ committedMoves.getNextBin other = some former

private theorem occupied_single (hierarchical : state.Hierarchical) (isPart : Part state.assignmentTree part 1 domainIds)
    {committedMoves : MovementMap} {move : Move} (leaves : move.LeavesValue state domainIds committedMoves) (binId : DomainId) :
    Occupied state part (committedMoves.addMovements move.movement) binId ↔
      Occupied state part committedMoves binId ∨ (ExpressionTree.entered state part
        [{}, committedMoves, move.movement] [move.shard]).changedChildren (1, binId) ≠ [] := by
  rw [entered_single isPart.hierarchy hierarchical.shardDomain, children_bin isPart]
  rw [Move.LeavesValue, hierarchical.binDomain] at leaves
  unfold Occupied
  by_cases row : (part.parentToChildMap.row 1 binId).isSome
  · have inside : binId ∈ domainIds := ((isPart.given binId).mp ((row_isSome (1, binId)).mp row)).1
    have next : ∀ shard, (committedMoves.addMovements move.movement).getNextBin shard = some binId ↔
        shard = move.shard ∧ move.nextBin = binId ∨ shard ≠ move.shard ∧ committedMoves.getNextBin shard = some binId := by
      intro shard
      by_cases same : shard = move.shard <;> simp [Move.movement, same]
    simp only [row, if_true, true_and, and_true, next]
    constructor
    · rintro (listed | ⟨shard, ⟨_, rfl⟩ | ⟨_, earlier⟩⟩)
      · exact .inl (.inl listed)
      · exact .inr (.inr (.inr rfl))
      · exact .inl (.inr ⟨shard, earlier⟩)
    · have again : committedMoves.getNextBin move.shard = some binId → state.assignmentTree.children 1 binId ≠ [] ∨
          ∃ shard, shard = move.shard ∧ move.nextBin = binId ∨
            shard ≠ move.shard ∧ committedMoves.getNextBin shard = some binId := by
        intro former
        rcases leaves binId inside former with same | listed | ⟨other, different, earlier⟩
        · exact .inr ⟨move.shard, .inl ⟨rfl, same.symm⟩⟩
        · exact .inl listed
        · exact .inr ⟨other, .inr ⟨different, earlier⟩⟩
      rintro ((listed | ⟨shard, earlier⟩) | listed | former | here)
      · exact .inl listed
      · by_cases same : shard = move.shard
        · exact again (same ▸ earlier)
        · exact .inr ⟨shard, .inr ⟨same, earlier⟩⟩
      · exact .inl (List.ne_nil_of_mem listed)
      · exact again former
      · exact .inr ⟨move.shard, .inl ⟨rfl, here.symm⟩⟩
  · simp [row]

theorem ShowsMoves.move {counter : Counter} {committedMoves : MovementMap} (shows : ShowsMoves state weight committedMoves counter)
    (hierarchical : state.Hierarchical) (additive : Additive state .after weight counter)
    (isPart : Part state.assignmentTree counter.part 1 domainIds) {move : Move}
    (listed : ∃ binId, move.shard ∈ state.assignmentTree.children 1 binId)
    (right : move.CountsRight weight state domainIds committedMoves)
    (leaves : counter.fault 0 = 0 ∨ move.LeavesValue state domainIds committedMoves) (info : BinWeightInfo) :
    ShowsMoves state weight (committedMoves.addMovements move.movement)
      (counter.moved move.order state committedMoves move.movement info) := by
  have shards := hierarchical.shardDomain
  have single : move.order.ids move.movement.getAllMovements.keys = [move.shard] :=
    move.order.ids_singleton move.shard
  rw [Counter.moved, single]
  refine ⟨⟨?_, ?_⟩, ?_⟩
  · exact Counter.canaried_tallies _ _ _ info additive.hierarchy shards additive.records additive.above shows.counts.tallies
  · intro level domainId
    have patched := Counter.canaried_patched move.order [{}, committedMoves, move.movement] [move.shard] info
      additive.hierarchy shards additive.adds
    rw [patched.rollup shows.counts.residues]
    refine congrFun (congrArg (fun lowest => rollup (childrenAt counter.part) lowest level) (funext fun binId => ?_)) domainId
    rw [Counter.part_canaried, binChange_single hierarchical isPart listed right]
    push_cast
    rfl
  · rcases shows.occupied with harmless | occupied
    · exact .inl harmless
    · rcases leaves with harmless | leaves
      · exact .inl harmless
      · refine .inr fun binId => ?_
        rw [Counter.canaried_bin move.order _ _ info additive.hierarchy shards, occupied, Counter.part_canaried,
          occupied_single hierarchical isPart leaves]

/-- Moves to other bins, none of them made before. -/
def MovementMap.Departures (state : SolvingState) (moves : MovementMap) : Prop :=
  ∀ shard nextBin, moves.getNextBin shard = some nextBin →
    (∃ binId, shard ∈ state.assignmentTree.children 1 binId) ∧ shard ∉ state.assignmentTree.children 1 nextBin

variable (weight) in
private theorem load_departures (hierarchical : state.Hierarchical) {moves : MovementMap} (departures : moves.Departures state)
    (binId : DomainId) :
    state.load weight moves (1, binId) = state.load weight {} (1, binId) +
      (moves.getAllMovements.keys.map fun shard => (if moves.getNextBin shard = some binId then weight shard else 0) -
        if shard ∈ state.assignmentTree.children 1 binId then weight shard else 0).sum := by
  have inside : moves.getAllMovements.keys.toFinset ⊆ state.shards := by
    intro shard member
    rw [List.mem_toFinset, MovementMap.mem_moves] at member
    obtain ⟨nextBin, next⟩ := Option.isSome_iff_exists.mp member
    obtain ⟨⟨home, listed⟩, _⟩ := departures shard nextBin next
    exact SolvingState.mem_shards hierarchical listed
  have moved : ∀ shard, (if state.nodeOver moves shard 1 = some binId then weight shard else 0) =
      (if state.nodeOver {} shard 1 = some binId then weight shard else 0) +
        if shard ∈ moves.getAllMovements.keys.toFinset then (if moves.getNextBin shard = some binId then weight shard else 0) -
          (if shard ∈ state.assignmentTree.children 1 binId then weight shard else 0) else 0 := by
    intro shard
    simp only [List.mem_toFinset, MovementMap.mem_moves]
    cases next : moves.getNextBin shard with
    | none =>
      have stays : state.nodeOver moves shard 1 = state.nodeOver {} shard 1 := by
        rw [SolvingState.nodeOver, next]
        rfl
      simp [stays]
    | some nextBin =>
      have arrives : state.nodeOver moves shard 1 = some binId ↔ nextBin = binId := by simp [SolvingState.nodeOver, next]
      have before : state.nodeOver {} shard 1 = some binId ↔ shard ∈ state.assignmentTree.children 1 binId :=
        hierarchical.parentOf_iff 0 shard binId
      simp only [arrives, before, Option.some.injEq, Option.isSome_some, if_true]
      omega
  simp only [SolvingState.load, Finset.sum_filter]
  rw [Finset.sum_congr rfl fun shard _ => moved shard, Finset.sum_add_distrib, Finset.sum_ite_mem,
    Finset.inter_eq_right.mpr inside, List.sum_toFinset _ (AList.keys_nodup _)]

private theorem moveChange_departures (hierarchical : state.Hierarchical) (isPart : Part state.assignmentTree part 1 domainIds)
    {moves : MovementMap} (departures : moves.Departures state) (binId : DomainId) :
    partLoad state weight part moves binId =
      partLoad state weight part {} binId + Counter.moveChange .after weight part moves binId := by
  unfold partLoad Counter.moveChange shift
  rw [children_bin isPart]
  by_cases row : (part.parentToChildMap.row 1 binId).isSome
  · simp only [row, if_true, and_true, load_departures weight hierarchical departures]
    congr 2
    refine List.map_congr_left fun shard member => ?_
    obtain ⟨nextBin, next⟩ := Option.isSome_iff_exists.mp ((MovementMap.mem_moves _ _).mp member)
    obtain ⟨_, away⟩ := departures shard nextBin next
    rw [next, Option.getD_some]
    by_cases here : nextBin = binId
    · subst here
      simp [away, shouldConsider, signed]
    · by_cases home : shard ∈ state.assignmentTree.children 1 binId <;>
        simp [here, Ne.symm here, home, shouldConsider, signed]
  · simp [row]

private theorem showsMoves_new (order : HashOrder) (info : BinWeightInfo) (hierarchical : state.Hierarchical) {counter : Counter}
    (additive : Additive state .after weight counter) (isPart : Part state.assignmentTree counter.part 1 domainIds)
    (metrics : counter.metric = fun _ => none) (faults : counter.faults = fun _ => none) :
    ShowsMoves state weight {} (counter.canaried order state [{}]
      (order.ids (counter.part.getAllDomainIds state.shardDomain)) info).1.committed := by
  refine ⟨countsLoad_new order info hierarchical additive isPart metrics faults, .inr fun binId => ?_⟩
  rw [Counter.canaried_bin order _ _ info additive.hierarchy hierarchical.shardDomain, metrics, hierarchical.shardDomain,
    entered_initial state additive.hierarchy.grounded hierarchical.shardDomain (order.ids_perm _), children_bin isPart,
    Counter.part_canaried, Occupied]
  by_cases row : (counter.part.parentToChildMap.row 1 binId).isSome <;> simp [row]

/-- Departures committed at once show where they lead. -/
theorem ShowsMoves.batch {counter : Counter} (shows : ShowsMoves state weight {} counter) (hierarchical : state.Hierarchical)
    (additive : Additive state .after weight counter) (isPart : Part state.assignmentTree counter.part 1 domainIds)
    {moves : MovementMap} (departures : moves.Departures state) (order : HashOrder) (info : BinWeightInfo) :
    ShowsMoves state weight moves (counter.moved order state {} moves info) := by
  have unmoved : moves.Apart {} := fun _ _ => rfl
  have shards := hierarchical.shardDomain
  refine ⟨⟨Counter.moved_tallies order info shards additive shows.counts.tallies, ?_⟩, ?_⟩
  · intro level domainId
    rw [Counter.moved_residues order info unmoved shards additive, shows.counts.residues, ← rollup_add]
    refine congrFun (congrArg (fun lowest => rollup (childrenAt counter.part) lowest level) (funext fun binId => ?_)) domainId
    change _ = ((partLoad state weight counter.part moves binId : Int) : Residue)
    rw [moveChange_departures hierarchical isPart departures]
    push_cast
    rfl
  · rcases shows.occupied with harmless | occupied
    · exact .inl harmless
    · refine .inr fun binId => ?_
      rw [Counter.moved_bin order info unmoved shards additive.hierarchy, occupied]
      change _ ↔ Occupied state counter.part moves binId
      unfold Counter.Enters Occupied
      rw [children_bin isPart]
      by_cases row : (counter.part.parentToChildMap.row 1 binId).isSome
      · simp only [row, if_true, true_and, and_true, MovementMap.next_empty]
        constructor
        · rintro ((listed | ⟨_, ⟨⟩⟩) | ⟨shard, nextBin, next, listed | rfl⟩)
          · exact .inl listed
          · exact .inl (List.ne_nil_of_mem listed)
          · exact .inr ⟨shard, next⟩
        · rintro (listed | ⟨shard, next⟩)
          · exact .inl (.inl listed)
          · exact .inr ⟨shard, binId, next, .inr rfl⟩
      · simp [row]

/-- Only the last destinations count, and only those that differ from the initial bin. -/
def MovementMap.Ends (state : SolvingState) (moves direct : MovementMap) : Prop :=
  ∀ shard nextBin, direct.getNextBin shard = some nextBin ↔
    moves.getNextBin shard = some nextBin ∧ shard ∉ state.assignmentTree.children state.binDomain nextBin

theorem ShowsMoves.ends {counter : Counter} {moves direct : MovementMap} (hierarchical : state.Hierarchical)
    (ends : moves.Ends state direct) (shows : ShowsMoves state weight direct counter) : ShowsMoves state weight moves counter := by
  rw [MovementMap.Ends, hierarchical.binDomain] at ends
  have sameBin : ∀ shard, state.nodeOver direct shard 1 = state.nodeOver moves shard 1 := by
    intro shard
    cases next : moves.getNextBin shard with
    | none =>
      have stays : direct.getNextBin shard = none := by
        cases found : direct.getNextBin shard with
        | none => rfl
        | some nextBin =>
          rw [((ends shard nextBin).mp found).1] at next
          cases next
      rw [SolvingState.nodeOver, SolvingState.nodeOver, stays, next]
    | some nextBin =>
      by_cases home : shard ∈ state.assignmentTree.children 1 nextBin
      · have stays : direct.getNextBin shard = none := by
          cases found : direct.getNextBin shard with
          | none => rfl
          | some other =>
            obtain ⟨same, away⟩ := (ends shard other).mp found
            rw [next, Option.some.injEq] at same
            exact absurd (same ▸ home) away
        rw [SolvingState.nodeOver, SolvingState.nodeOver, stays, next, Option.none_or, Option.some_or]
        exact (hierarchical.parentOf_iff 0 shard nextBin).mpr home
      · rw [SolvingState.nodeOver, SolvingState.nodeOver, next, (ends shard nextBin).mpr ⟨next, home⟩]
  have loads : partLoad state weight counter.part direct = partLoad state weight counter.part moves := by
    funext binId
    simp only [partLoad, SolvingState.load, sameBin]
  refine ⟨⟨shows.counts.tallies, ?_⟩, ?_⟩
  · intro level domainId
    rw [shows.counts.residues, loads]
  · refine shows.occupied.imp_right fun occupied binId => ?_
    rw [occupied]
    refine and_congr_right fun _ => ⟨?_, ?_⟩
    · exact Or.imp_right (Exists.imp fun shard next => ((ends shard binId).mp next).1)
    · rintro (listed | ⟨shard, next⟩)
      · exact .inl listed
      · by_cases home : shard ∈ state.assignmentTree.children 1 binId
        · exact .inl (List.ne_nil_of_mem home)
        · exact .inr ⟨shard, (ends shard binId).mpr ⟨next, home⟩⟩

/-- Counters that show the same moves show the same values. -/
theorem ShowsMoves.values {first second : Counter} {moves : MovementMap} (same : SameKind first second)
    (hierarchy : Hierarchy first.part) (left : ShowsMoves state weight moves first) (right : ShowsMoves state weight moves second) :
    (∀ node, (second.metric node).getD 0 = (first.metric node).getD 0) ∧
    ∀ domainId, (second.faults domainId).getD 0 = (first.faults domainId).getD 0 := by
  have residues : ∀ level domainId, second.residues level domainId = first.residues level domainId := by
    intro level domainId
    rw [right.counts.residues, left.counts.residues, same.part]
  have metrics := left.counts.tallies.values same hierarchy right.counts.tallies residues
  refine ⟨metrics, fun domainId => ?_⟩
  have harmless : first.fault 0 = 0 → (second.faults domainId).getD 0 = (first.faults domainId).getD 0 := by
    intro harmless
    have fault : ∀ value : Option Int, (value.map first.fault).getD 0 = first.fault (value.getD 0) := by
      intro value
      cases value with
      | none => exact harmless.symm
      | some val => rfl
    rw [right.counts.tallies.faults, left.counts.tallies.faults, same.fault, same.domain, fault, fault, metrics]
  rcases left.occupied with inFirst | first
  · exact harmless inFirst
  rcases right.occupied with inSecond | second
  · exact harmless (same.fault ▸ inSecond)
  have bins := fun binId => (second binId).trans ((same.part ▸ first binId).symm)
  rw [(left.counts.tallies.ext same hierarchy right.counts.tallies residues bins).2]

end Loads

/-- The moves of a list, the later ones overriding the earlier ones. -/
def committedAfter (committedMoves : MovementMap) (moves : List Move) : MovementMap :=
  moves.foldl (fun committedMoves move => committedMoves.addMovements move.movement) committedMoves

private theorem moved_committedAfter {committedMoves : MovementMap} {moves : List Move} {shard nextBin : DomainId}
    (moved : (committedAfter committedMoves moves).getNextBin shard = some nextBin) :
    committedMoves.getNextBin shard = some nextBin ∨ ∃ move ∈ moves, move.shard = shard := by
  induction moves generalizing committedMoves with
  | nil => exact .inl moved
  | cons move moves ih =>
    rcases ih moved with earlier | ⟨other, member, same⟩
    · by_cases here : move.shard = shard
      · exact .inr ⟨move, List.mem_cons_self, here⟩
      · rw [MovementMap.next_addMovements, Move.movement, MovementMap.next_addMovement, if_neg (Ne.symm here),
          MovementMap.next_empty, Option.none_or] at earlier
        exact .inl earlier
    · exact .inr ⟨other, List.mem_cons_of_mem _ member, same⟩

namespace MetricConstraint

def canaryCommit (order : HashOrder) (state : SolvingState) (committedMoves canariedMoves : MovementMap)
    (constraint : MetricConstraint) (info : BinWeightInfo) : Except Fault (MetricConstraint × BinWeightInfo) := do
  let (constraint, info) ← constraint.canaryMoves order state (some committedMoves) (some canariedMoves) info
  pure (constraint.commitMoves, info.commit)

def commitEach (state : SolvingState) : List Move → MovementMap → MetricConstraint → BinWeightInfo →
    Except Fault (MetricConstraint × BinWeightInfo)
  | [], _, constraint, info => .ok (constraint, info)
  | move :: moves, committedMoves, constraint, info => do
    let (constraint, info) ← constraint.canaryCommit move.order state committedMoves move.movement info
    commitEach state moves (committedMoves.addMovements move.movement) constraint info

/-- Committed metrics and faults, an absent one being 0 to every reader. -/
def SameValues (first second : MetricConstraint) : Prop :=
  (∀ node, (first.expressionTree.metricsMap.getFromCommittedMap node).getD 0 =
    (second.expressionTree.metricsMap.getFromCommittedMap node).getD 0) ∧
  ∀ domainId, (first.domainFaultMap.getFromCommittedMap domainId).getD 0 =
    (second.domainFaultMap.getFromCommittedMap domainId).getD 0

/-- The move is counted right, and no bin of a limit below 0 is left with a value it had not without the move. -/
def Steady (state : SolvingState) (domainIds : List DomainId) (capacity : Int) (committedMoves : MovementMap) (move : Move) : Prop :=
  move.CountsRight (state.getShardMetric 0) state domainIds committedMoves ∧
  (0 ≤ capacity ∨ move.LeavesValue state domainIds committedMoves)

section Runs
variable {state : SolvingState} {domainIds : List DomainId} {capacity faultWeight : Int}

private theorem fault_zero (positive : 0 ≤ capacity) : fault capacity faultWeight 0 = 0 := by
  have within : ¬ (0 : Int) > capacity := by omega
  simp [fault, within]

private theorem committed_counter {constraint : MetricConstraint} {counter : Counter}
    (found : (Constraint.metric constraint).counter state = some counter) :
    constraint.expressionTree.metricsMap.getFromCommittedMap = counter.metric ∧
    constraint.domainFaultMap.getFromCommittedMap = counter.faults := by
  cases found
  exact ⟨rfl, rfl⟩

private theorem counter_canaryCommit {own : MovementMap} (present : state.movementMap = some own) {constraint : MetricConstraint}
    {counter : Counter} (found : (Constraint.metric constraint).counter state = some counter) (hasBin : counter.part.HasBin)
    (order : HashOrder) (committedMoves canariedMoves : MovementMap) (info : BinWeightInfo) :
    ∃ after final, constraint.canaryCommit order state committedMoves canariedMoves info = .ok (after, final) ∧
      (Constraint.metric after).counter state = some (counter.canaried order state [own, committedMoves, canariedMoves]
        (order.ids canariedMoves.getAllMovements.keys) info).1.committed := by
  cases found
  rw [canaryCommit, canaryMoves_eq order present _ _ _ _ hasBin]
  exact ⟨_, _, rfl, rfl⟩

private theorem commitEach_shows (hierarchical : state.Hierarchical) {first : Counter}
    (fault : first.fault = fault capacity faultWeight) (additive : Additive state .after (state.getShardMetric 0) first)
    (isPart : Part state.assignmentTree first.part 1 domainIds) (hasBin : first.part.HasBin) {moves : List Move}
    {committedMoves : MovementMap} {constraint : MetricConstraint} {counter : Counter}
    (found : (Constraint.metric constraint).counter state = some counter) (same : SameKind first counter)
    (shows : ShowsMoves state (state.getShardMetric 0) committedMoves counter)
    (listed : ∀ move ∈ moves, ∃ binId, move.shard ∈ state.assignmentTree.children 1 binId)
    (steady : ∀ earlier move later, moves = earlier ++ move :: later →
      Steady state domainIds capacity (committedAfter committedMoves earlier) move) (info : BinWeightInfo) :
    ∃ last final lastCounter, commitEach state moves committedMoves constraint info = .ok (last, final) ∧
      (Constraint.metric last).counter state = some lastCounter ∧ SameKind first lastCounter ∧
      ShowsMoves state (state.getShardMetric 0) (committedAfter committedMoves moves) lastCounter := by
  induction moves generalizing committedMoves constraint counter info with
  | nil => exact ⟨constraint, info, counter, rfl, found, same, shows⟩
  | cons move moves ih =>
    obtain ⟨after, final, committed, afterFound⟩ := counter_canaryCommit hierarchical.movementMap found (same.part ▸ hasBin)
      move.order committedMoves move.movement info
    obtain ⟨right, leaves⟩ := steady [] move moves rfl
    have harmless : counter.fault 0 = 0 ∨ move.LeavesValue state domainIds committedMoves := by
      refine leaves.imp_left fun positive => ?_
      rw [same.fault, fault]
      exact fault_zero positive
    have next := shows.move hierarchical (same.additive additive) (same.part ▸ isPart) (listed move List.mem_cons_self) right
      harmless info
    obtain ⟨last, lastInfo, lastCounter, rest, lastFound, lastSame, lastShows⟩ := ih afterFound (same.canaried _ _ _ _) next
      (fun other member => listed other (List.mem_cons_of_mem _ member))
      (fun earlier other later split => steady (move :: earlier) other later (congrArg (move :: ·) split)) final
    refine ⟨last, lastInfo, lastCounter, ?_, lastFound, lastSame, lastShows⟩
    rw [commitEach, committed, Checked.ok_bind]
    exact rest

end Runs

/-- Loads depend on where the shards end up: as long as every move is steady, the
moves leave the metrics and faults that the last destinations leave at once. -/
theorem commitEach_direct (shardInfoVector : List ShardInfo) (metricVectors : List (List MetricValue))
    (domainMapping : List (List (List DomainId))) (once : SolvingState.ListsOnce domainMapping) {state : SolvingState}
    (built : state = (SolvingState.new shardInfoVector metricVectors domainMapping).withEmptyMovementMap)
    (domainIds : List DomainId) (nonempty : domainIds ≠ [])
    (bins : ∀ binId ∈ domainIds, (state.assignmentTree.parentToChildMap.row state.binDomain binId).isSome)
    (metric : Metric) (capacity faultWeight : Int) (constructorOrder : HashOrder) (info : BinWeightInfo)
    (constraint : MetricConstraint) (weights : BinWeightInfo)
    (made : new constructorOrder state .after state.binDomain domainIds metric capacity faultWeight info = .ok (constraint, weights))
    (moves : List Move) (listed : ∀ move ∈ moves, ∃ binId, move.shard ∈ state.assignmentTree.children state.binDomain binId)
    (steady : ∀ earlier move later, moves = earlier ++ move :: later →
      Steady state domainIds capacity (committedAfter {} earlier) move)
    (direct : MovementMap) (ends : (committedAfter {} moves).Ends state direct) (directOrder : HashOrder) :
    ∃ last lastInfo atOnce atOnceInfo, commitEach state moves {} constraint weights = .ok (last, lastInfo) ∧
      constraint.canaryCommit directOrder state {} direct weights = .ok (atOnce, atOnceInfo) ∧ SameValues last atOnce := by
  have hierarchical : state.Hierarchical := built ▸ SolvingState.hierarchical_new shardInfoVector metricVectors once
  rw [hierarchical.binDomain] at bins made listed
  have isPart := createPartialTree_part hierarchical.hierarchy 1 domainIds
  obtain ⟨binId, member⟩ := List.exists_mem_of_ne_nil domainIds nonempty
  have hasBin := createPartialTree_hasBin hierarchical.hierarchy member (bins binId member)
  have additive := newCounter_additive domainIds hierarchical .after capacity faultWeight (domain_ne_zero hierarchical hasBin)
  have constructed : Constraint.new constructorOrder state info (.metric .after 1 domainIds metric capacity faultWeight) =
      .ok (.metric constraint, weights) := by
    rw [Constraint.new, made]
    rfl
  obtain ⟨counter, found, same, shows⟩ : ∃ counter, (Constraint.metric constraint).counter state = some counter ∧
      SameKind (newCounter state .after 1 domainIds capacity faultWeight) counter ∧
      ShowsMoves state (state.getShardMetric 0) {} counter := by
    obtain ⟨found, _⟩ := Constraint.counter_new hierarchical.movementMap
      (newCounter state .after 1 domainIds capacity faultWeight) rfl (hasBin.resolves _) constructed
    exact ⟨_, found, SameKind.canaried ⟨rfl, rfl, rfl, rfl⟩ _ _ _ _,
      showsMoves_new constructorOrder info hierarchical additive isPart (funext fun _ => rfl) (funext fun _ => rfl)⟩
  have additiveThen := same.additive additive
  have partThen : Part state.assignmentTree counter.part 1 domainIds := same.part ▸ isPart
  obtain ⟨last, lastInfo, lastCounter, run, lastFound, lastSame, lastShows⟩ := commitEach_shows hierarchical rfl additive isPart
    hasBin found same shows listed steady weights
  obtain ⟨atOnce, atOnceInfo, committed, atOnceFound⟩ := counter_canaryCommit hierarchical.movementMap found
    (same.part ▸ hasBin) directOrder {} direct weights
  have departures : direct.Departures state := by
    intro shard nextBin next
    have ends := ends
    rw [MovementMap.Ends, hierarchical.binDomain] at ends
    obtain ⟨moved, away⟩ := (ends shard nextBin).mp next
    refine ⟨?_, away⟩
    rcases moved_committedAfter moved with ⟨⟨⟩⟩ | ⟨move, member, rfl⟩
    exact listed move member
  have atOnceShows := (shows.batch hierarchical additiveThen partThen departures directOrder weights).ends hierarchical ends
  have sameAtOnce := same.trans (Counter.sameKind_moved directOrder state {} direct counter weights)
  obtain ⟨metrics, faults⟩ := atOnceShows.values (sameAtOnce.symm.trans lastSame) partThen.hierarchy lastShows
  refine ⟨last, lastInfo, atOnce, atOnceInfo, run, committed, ?_⟩
  obtain ⟨lastMetrics, lastFaults⟩ := committed_counter lastFound
  obtain ⟨atOnceMetrics, atOnceFaults⟩ := committed_counter atOnceFound
  unfold SameValues
  rw [lastMetrics, lastFaults, atOnceMetrics, atOnceFaults]
  exact ⟨metrics, faults⟩

def bothBins : MetricConstraint × BinWeightInfo :=
  (new .insertion .twoBins .after 1 [0, 1] 0 10 1 .empty).toOption.get (by decide +kernel)

def twoShards : List Move := [⟨.insertion, 0, 1⟩, ⟨.insertion, 2, 1⟩]

theorem commitEach_direct_twoBins :
    ∃ last lastInfo atOnce atOnceInfo, commitEach .twoBins twoShards {} bothBins.1 bothBins.2 = .ok (last, lastInfo) ∧
      bothBins.1.canaryCommit .insertion .twoBins {} (.addMovement (.addMovement {} 2 1) 0 1) bothBins.2 =
        .ok (atOnce, atOnceInfo) ∧ SameValues last atOnce := by
  have ends : (committedAfter {} twoShards).Ends .twoBins (.addMovement (.addMovement {} 2 1) 0 1) := by
    intro shard nextBin
    rw [SolvingState.mem_twoBins]
    by_cases first : shard = 0 <;> by_cases second : shard = 2 <;>
      simp [committedAfter, twoShards, Move.movement, first, second]
    all_goals grind
  refine commitEach_direct [] [[5, 7, 9]] [[[0, 1, 2], []], [[0, 1]]] (by decide) rfl [0, 1] (by decide) (by decide) 0 10 1
    .insertion .empty bothBins.1 bothBins.2 (Checked.ok_get _ (by decide +kernel)) twoShards ?_ ?_ _ ends .insertion
  · intro move member
    rcases List.mem_cons.mp member with rfl | member
    · exact ⟨0, by decide⟩
    · rw [List.mem_singleton.mp member]
      exact ⟨0, by decide⟩
  · intro earlier move later split
    rcases earlier with _ | ⟨first, _ | ⟨second, earlier⟩⟩
    · cases split
      exact ⟨.inl (by decide), .inl (by decide)⟩
    · cases split
      exact ⟨.inl (by decide), .inl (by decide)⟩
    · cases earlier <;> cases split

def thereAndBack : List Move := [⟨.insertion, 0, 1⟩, ⟨.insertion, 0, 0⟩]

/-- The shard is back in its bin, and the load of the bin has gone down twice. -/
theorem back_differs :
    (committedAfter {} thereAndBack).Ends .twoBins {} ∧
    ∃ last lastInfo atOnce atOnceInfo, commitEach .twoBins thereAndBack {} bothBins.1 bothBins.2 = .ok (last, lastInfo) ∧
      bothBins.1.canaryCommit .insertion .twoBins {} {} bothBins.2 = .ok (atOnce, atOnceInfo) ∧ ¬ SameValues last atOnce := by
  refine ⟨?_, ?_⟩
  · intro shard nextBin
    constructor
    · rintro ⟨⟩
    · rintro ⟨moved, away⟩
      rw [SolvingState.mem_twoBins] at away
      by_cases same : shard = 0
      · simp only [committedAfter, thereAndBack, Move.movement, same, List.foldl_cons, List.foldl_nil,
          MovementMap.next_addMovements, MovementMap.next_addMovement, if_true, Option.some_or, Option.some.injEq] at moved
        exact absurd ⟨moved.symm, by rw [same]; decide⟩ away
      · simp [committedAfter, thereAndBack, Move.movement, same] at moved
  · have back := Checked.ok_get (commitEach .twoBins thereAndBack {} bothBins.1 bothBins.2) (by decide +kernel)
    have stay := Checked.ok_get (bothBins.1.canaryCommit .insertion .twoBins {} {} bothBins.2) (by decide +kernel)
    refine ⟨_, _, _, _, back, stay, fun same => ?_⟩
    exact absurd (same.1 (1, 0)) (by decide +kernel)

end MetricConstraint
end ShardManager

import ShardManager.Proofs.SearchRules

/-! What `solve` returns is a reassignment: it moves placed shards to other bins
of the domain, each shard once, whatever weights the constraints report. -/

namespace ShardManager.IterativeLocalSearch
open MovementMap

variable {ι C : Type} [DecidableEq ι] [ConstraintOps C] (order : HashOrder) (state : SolvingState) (constraints : List ι)

/-- The shards of a bin after the moves: those it lists that have not moved, and
those that have moved to it. -/
def applyMoves (moves : MovementMap) (binId : DomainId) : List DomainId :=
  (state.assignmentTree.children state.binDomain binId).filter (fun shard => (moves.getNextBin shard).isNone) ++
    (moves.getIncomingShards binId).keys

def Listed (shard binId : DomainId) : Prop := shard ∈ state.assignmentTree.children state.binDomain binId

structure ValidReassignment (moves : MovementMap) : Prop where
  moved : ∀ shard binId, moves.getNextBin shard = some binId → ∃ former, Listed state shard former ∧ former ≠ binId
  inside : ∀ shard binId, moves.getNextBin shard = some binId → binId < state.getDomainSize state.binDomain
  agrees : moves.Agrees

/-- The committed moves at every point at which the run is observed. -/
def ReachedMoves (run : Run ι C (Search ι C)) (moves : MovementMap) : Prop :=
  (∃ top, .iteration top ∈ run.events ∧ moves = top.committedMoves) ∨
  (∃ canariedMoves world, .evaluated moves canariedMoves world ∈ run.events) ∨
  (∃ before movement after, .committed before movement after ∈ run.events ∧ moves = after.committedMoves) ∨
  ∃ final, run.result = .ok final ∧ moves = final.committedMoves

def committedShards (run : Run ι C (Search ι C)) : List DomainId :=
  (history run.events).flatMap fun commit => commit.2.1.getAllMovements.keys

variable {state}

theorem ValidReassignment.empty : ValidReassignment state {} :=
  ⟨fun _ _ impossible => by simp at impossible, fun _ _ impossible => by simp at impossible, agrees_empty⟩

private theorem Candidate.moves_single {committedMoves : MovementMap} {shard nextBin : DomainId}
    (candidate : Candidate state committedMoves shard nextBin) (other : DomainId)
    (moved : (MovementMap.getNextBin (addMovement {} shard nextBin) other).isSome) :
    committedMoves.getNextBin other = none := by
  rw [next_addMovement] at moved
  split at moved
  next same => rw [same]; exact candidate.unmoved
  next => simp at moved

/-- Committing a candidate keeps the moves valid: its shard has not moved before,
so neither index loses an entry. -/
theorem ValidReassignment.add {committedMoves : MovementMap} (valid : ValidReassignment state committedMoves)
    {shard nextBin : DomainId} (candidate : Candidate state committedMoves shard nextBin) :
    ValidReassignment state (committedMoves.addMovements (addMovement {} shard nextBin)) := by
  have next : ∀ other binId, (committedMoves.addMovements (addMovement {} shard nextBin)).getNextBin other = some binId →
      other = shard ∧ nextBin = binId ∨ committedMoves.getNextBin other = some binId := by
    intro other binId moved
    rw [next_addMovements, next_addMovement] at moved
    split at moved
    next same => exact .inl ⟨same, by simpa using moved⟩
    next => exact .inr (by simpa using moved)
  obtain ⟨former, listed, different⟩ := candidate.listed
  refine ⟨?_, ?_, valid.agrees.addMovements candidate.moves_single⟩
  · intro other binId moved
    rcases next other binId moved with ⟨rfl, rfl⟩ | old
    · exact ⟨former, listed, fun same => different same.symm⟩
    · exact valid.moved other binId old
  · intro other binId moved
    rcases next other binId moved with ⟨_, rfl⟩ | old
    · exact candidate.inside
    · exact valid.inside other binId old

private theorem ValidReassignment.mem_applyMoves {moves : MovementMap} (valid : ValidReassignment state moves)
    (shard binId : DomainId) :
    shard ∈ applyMoves state moves binId ↔
      (moves.getNextBin shard = none ∧ Listed state shard binId) ∨ moves.getNextBin shard = some binId := by
  have incoming := valid.agrees shard binId
  simp only [applyMoves, List.mem_append, List.mem_filter, Option.isNone_iff_eq_none, ← AList.mem_keys, incoming, Listed]
  tauto

private theorem ValidReassignment.placed_once {moves : MovementMap} (valid : ValidReassignment state moves)
    (unique : ∀ shard first second, Listed state shard first → Listed state shard second → first = second)
    {shard former : DomainId} (listed : Listed state shard former) : ∃! binId, shard ∈ applyMoves state moves binId := by
  simp only [valid.mem_applyMoves]
  cases moved : moves.getNextBin shard with
  | none =>
    refine ⟨former, by simp [listed], ?_⟩
    intro other holds
    exact unique shard other former (by simpa using holds) listed
  | some binId =>
    refine ⟨binId, by simp, ?_⟩
    intro other holds
    simpa [eq_comm] using holds

theorem ValidReassignment.leaves_home {moves : MovementMap} (valid : ValidReassignment state moves)
    (unique : ∀ shard first second, Listed state shard first → Listed state shard second → first = second)
    {shard binId : DomainId} (home : Listed state shard binId) : moves.getNextBin shard ≠ some binId := by
  intro moved
  obtain ⟨former, listed, different⟩ := valid.moved shard binId moved
  exact different (unique shard former binId listed home)

section Candidate
variable {moves : MovementMap} {shard nextBin : DomainId} {tree : SparseMappingTree}

theorem ValidReassignment.mem_childNodes (valid : ValidReassignment state moves) (candidate : Candidate state moves shard nextBin)
    (bins : tree.binDomain = 1) (binId child : DomainId) :
    child ∈ tree.childNodes (1, binId) [{}, moves, addMovement {} shard nextBin] ↔
      child ∈ tree.children 1 binId ∨ (moves.addMovements (addMovement {} shard nextBin)).getNextBin child = some binId := by
  have incoming : child ∈ (moves.getIncomingShards binId).keys ↔ moves.getNextBin child = some binId :=
    AList.mem_keys.symm.trans (valid.agrees child binId)
  have arriving : child ∈ (getIncomingShards (addMovement {} shard nextBin) binId).keys ↔
      getNextBin (addMovement {} shard nextBin) child = some binId :=
    AList.mem_keys.symm.trans ((agrees_empty.addMovement nextBin rfl) child binId)
  have none : (getIncomingShards {} binId).keys = [] := rfl
  rw [SparseMappingTree.childNodes, bins, if_pos rfl]
  simp only [List.flatMap_cons, List.flatMap_nil, List.append_nil, List.mem_append, none, List.not_mem_nil, false_or,
    incoming, arriving, next_addMovements]
  by_cases same : child = shard
  · subst same
    simp [candidate.unmoved, or_comm]
  · simp [same, or_comm]

/-- It lists each of them once. -/
theorem ValidReassignment.nodup_childNodes (valid : ValidReassignment state moves) (candidate : Candidate state moves shard nextBin)
    (bins : tree.binDomain = 1) {binId : DomainId} (distinct : (tree.children 1 binId).Nodup)
    (away : ∀ child ∈ tree.children 1 binId,
      (moves.addMovements (addMovement {} shard nextBin)).getNextBin child ≠ some binId) :
    (tree.childNodes (1, binId) [{}, moves, addMovement {} shard nextBin]).Nodup := by
  have incoming : ∀ child, child ∈ (moves.getIncomingShards binId).keys → moves.getNextBin child = some binId :=
    fun child member => (valid.agrees child binId).mp (AList.mem_keys.mpr member)
  have arriving : ∀ child, child ∈ (getIncomingShards (addMovement {} shard nextBin) binId).keys →
      getNextBin (addMovement {} shard nextBin) child = some binId :=
    fun child member => ((agrees_empty.addMovement nextBin rfl) child binId).mp (AList.mem_keys.mpr member)
  have none : (getIncomingShards {} binId).keys = [] := rfl
  rw [SparseMappingTree.childNodes, bins, if_pos rfl]
  simp only [List.flatMap_cons, List.flatMap_nil, List.append_nil, none, List.nil_append]
  refine List.nodup_append.mpr ⟨List.nodup_append.mpr ⟨AList.keys_nodup _, AList.keys_nodup _, ?_⟩, distinct, ?_⟩
  · rintro child former _ next rfl
    have unmoved := candidate.moves_single child (by rw [arriving child next]; rfl)
    rw [incoming child former] at unmoved
    cases unmoved
  · rintro child moved _ home rfl
    refine away child home ?_
    rw [next_addMovements]
    obtain former | next := List.mem_append.mp moved
    · cases single : getNextBin (addMovement {} shard nextBin) child with
      | none => exact incoming child former
      | some bin =>
        have unmoved := candidate.moves_single child (by rw [single]; rfl)
        rw [incoming child former] at unmoved
        cases unmoved
    · rw [arriving child next]
      rfl

end Candidate

private theorem ValidReassignment.placed_before {moves : MovementMap} (valid : ValidReassignment state moves)
    {shard binId : DomainId} (placed : shard ∈ applyMoves state moves binId) : ∃ former, Listed state shard former := by
  rcases (valid.mem_applyMoves shard binId).mp placed with ⟨_, listed⟩ | moved
  · exact ⟨binId, listed⟩
  · obtain ⟨former, listed, _⟩ := valid.moved shard binId moved
    exact ⟨former, listed⟩

theorem ValidReassignment.nodup {moves : MovementMap} (valid : ValidReassignment state moves) {binId : DomainId}
    (distinct : (state.assignmentTree.children state.binDomain binId).Nodup) : (applyMoves state moves binId).Nodup := by
  refine List.nodup_append.mpr ⟨distinct.filter _, AList.keys_nodup _, ?_⟩
  intro shard stayed other arrived same
  subst same
  have moved := (valid.agrees shard binId).mp (AList.mem_keys.mpr arrived)
  simp [moved] at stayed

variable {order constraints}

/-- The candidate rule for any constraints at all: an iteration commits a
candidate with respect to the moves committed at its top. -/
theorem candidate_rule (committedMoves : MovementMap) (onEvent : Event ι C → Prop)
    (evaluated : ∀ canariedMoves world, onEvent (.evaluated committedMoves canariedMoves world)) :
    EvaluationRule order state constraints (fun search : Search ι C => search.committedMoves = committedMoves)
      (fun movement search => search.committedMoves = committedMoves ∧
        ∃ shard nextBin, Candidate state committedMoves shard nextBin ∧ movement = addMovement {} shard nextBin)
      onEvent where
  draws _ _ same := same
  evaluated _ _ _ world same _ _ := same ▸ evaluated _ world
  rejected _ _ _ _ same _ _ _ := same
  accepted _ shard nextBin _ same candidate _ _ := ⟨same, shard, nextBin, same ▸ candidate, rfl⟩

private theorem reached_valid (iterations : Nat) (search : Search ι C) (valid : ValidReassignment state search.committedMoves) (moves : MovementMap)
    (reached : ReachedMoves (iterate order state constraints iterations search) moves) : ValidReassignment state moves := by
  let onEvent : Event ι C → Prop := fun
    | .iteration top => ValidReassignment state top.committedMoves
    | .passed _ => True
    | .evaluated committedMoves _ _ => ValidReassignment state committedMoves
    | .committed _ _ after => ValidReassignment state after.committedMoves
  have run : Traced.Satisfies onEvent _ (iterate order state constraints iterations search) := iterate_satisfies
    (fun top => ValidReassignment state top.committedMoves) (fun final => ValidReassignment state final.committedMoves) (fun _ => trivial)
    (by
      intro top holds
      refine ⟨holds, _, _, candidate_rule top.committedMoves onEvent (fun _ _ => holds), rfl,
        fun _ same => by rw [same]; exact holds, ?_⟩
      rintro movement after ⟨same, shard, nextBin, candidate, rfl⟩ _
      have kept : ValidReassignment state (after.committedMoves.addMovements (addMovement {} shard nextBin)) := by
        rw [same]
        exact holds.add candidate
      exact ⟨kept, kept⟩)
    (fun _ holds => holds) iterations search valid
  rcases reached with ⟨top, member, rfl⟩ | ⟨canariedMoves, world, member⟩ | ⟨before, movement, after, member, rfl⟩ |
    ⟨final, done, rfl⟩
  · exact run.1 _ member
  · exact run.1 _ member
  · exact run.1 _ member
  · exact run.2 _ done

variable (state) in
omit [DecidableEq ι] [ConstraintOps C] in
private theorem follows_distinct (search : Search ι C) (commits : List (Search ι C × MovementMap × Search ι C))
    (follows : Follows (fun before movement after =>
      (∃ shard nextBin, Candidate state before.committedMoves shard nextBin ∧ movement = addMovement {} shard nextBin) ∧
      after.committedMoves = before.committedMoves.addMovements movement) search commits) :
    (commits.flatMap fun commit => commit.2.1.getAllMovements.keys).Nodup ∧
    ∀ shard ∈ commits.flatMap fun commit => commit.2.1.getAllMovements.keys, search.committedMoves.getNextBin shard = none := by
  induction commits generalizing search with
  | nil => simp
  | cons commit commits ih =>
    obtain ⟨before, movement, after⟩ := commit
    obtain ⟨rfl, ⟨⟨shard, nextBin, candidate, rfl⟩, same⟩, later⟩ := follows
    obtain ⟨distinct, fresh⟩ := ih after later
    have single : (addMovement {} shard nextBin).getAllMovements.keys = [shard] := rfl
    have apart : ∀ other ∈ commits.flatMap fun commit => commit.2.1.getAllMovements.keys,
        other ≠ shard ∧ before.committedMoves.getNextBin other = none := by
      intro other member
      have unmoved := fresh other member
      rw [same, next_addMovements, Option.or_eq_none_iff, next_addMovement] at unmoved
      refine ⟨?_, unmoved.2⟩
      rintro rfl
      simp at unmoved
    simp only [List.flatMap_cons, single, List.singleton_append, List.nodup_cons, List.mem_cons]
    refine ⟨⟨fun member => (apart shard member).1 rfl, distinct⟩, ?_⟩
    rintro other (rfl | member)
    · exact candidate.unmoved
    · exact (apart other member).2

/-- Whatever the constraints report, every set of moves `solve` reaches or returns
is valid, commits no shard twice, and puts every placed shard in exactly one bin. -/
theorem solve_reassigns (order : HashOrder) (state : SolvingState) (constraints : List ι)
    (unique : ∀ shard first second, Listed state shard first → Listed state shard second → first = second)
    (maxIterations : Nat) (draws : List Nat) (world : World ι C) :
    (committedShards (solve order state constraints maxIterations draws world)).Nodup ∧
    ∀ moves, ReachedMoves (solve order state constraints maxIterations draws world) moves →
      ValidReassignment state moves ∧
      (∀ shard former, Listed state shard former → ∃! binId, shard ∈ applyMoves state moves binId) ∧
      (∀ shard binId, shard ∈ applyMoves state moves binId → ∃ former, Listed state shard former) ∧
      ∀ binId, (state.assignmentTree.children state.binDomain binId).Nodup → (applyMoves state moves binId).Nodup := by
  constructor
  · refine (follows_distinct state (start world draws) _ (iterate_history ?_ maxIterations _)).1
    intro top
    refine ⟨_, _, candidate_rule top.committedMoves _ (by rintro _ _ _ _ _ ⟨⟩), rfl, ?_⟩
    rintro movement after ⟨same, chosen⟩ _
    exact ⟨chosen, by rw [← same]; rfl⟩
  · intro moves reached
    have valid := reached_valid maxIterations (start world draws) ValidReassignment.empty moves reached
    exact ⟨valid, fun _ _ listed => valid.placed_once unique listed, fun _ _ placed => valid.placed_before placed,
      fun _ distinct => valid.nodup distinct⟩

theorem solve_reassigns_twoBins :
    (committedShards drainedRun).Nodup ∧
    ∀ moves, ReachedMoves drainedRun moves →
      ValidReassignment .twoBins moves ∧
      (∀ shard former, Listed .twoBins shard former → ∃! binId, shard ∈ applyMoves .twoBins moves binId) ∧
      (∀ shard binId, shard ∈ applyMoves .twoBins moves binId → ∃ former, Listed .twoBins shard former) ∧
      ∀ binId, (SolvingState.twoBins.assignmentTree.children SolvingState.twoBins.binDomain binId).Nodup →
        (applyMoves .twoBins moves binId).Nodup := by
  refine solve_reassigns .insertion .twoBins [()] ?_ 2 [0, 1, 0, 1] drainedWorld
  intro shard first second inFirst inSecond
  rw [Listed, SolvingState.mem_twoBins] at inFirst inSecond
  rw [inFirst.1, inSecond.1]

end ShardManager.IterativeLocalSearch

import ShardManager.Placer.ExclusionConstraint
import ShardManager.Proofs.FutureBin
import ShardManager.Proofs.Ledger
import ShardManager.Proofs.Mappings

/-! The counts of an `ExclusionConstraint` after it has evaluated its shards and any
moves of them. A shard that has a bin to begin with is taken off where it is put, so
that its count falls below zero before it is raised. -/

namespace ShardManager
namespace ExclusionConstraint
open SparseMappingTree Function

/-- Maps in which the first that mentions the shard sends it to the bin. -/
structure CommittedMove where
  shardId : DomainId
  movementMaps : List MovementMap
  bin : DomainId
  moved : (nextBins movementMaps shardId).head? = some bin

section Run
variable {ShardRangeId : Type} [DecidableEq ShardRangeId] (getBinParentInDomain : DomainId → Domain → Option DomainId)
  (shardRangeId : DomainId → ShardRangeId) (state : SolvingState) (exclusionDomain : Domain) (faultWeight : Int)
  (assignmentTree : SparseMappingTree)

def evaluate (counts : RangeCounts ShardRangeId) (shardId : DomainId) (movementMaps : List MovementMap) :
    Traced Fault CountChange (RangeCounts ShardRangeId) := do
  let (_, counts) ← addBinCount getBinParentInDomain shardRangeId state exclusionDomain faultWeight assignmentTree
    (movementMaps.map some) (state.shardDomain, shardId) counts
  pure counts

def evaluateAll (shardIds : List DomainId) (movementMaps : List MovementMap) (moves : List CommittedMove) (info : BinWeightInfo) :
    Traced Fault CountChange (RangeCounts ShardRangeId) := do
  let counts ← shardIds.foldlM (fun counts shardId => evaluate getBinParentInDomain shardRangeId state exclusionDomain
    faultWeight assignmentTree counts shardId movementMaps) ⟨∅, info⟩
  moves.foldlM (fun counts move => evaluate getBinParentInDomain shardRangeId state exclusionDomain faultWeight assignmentTree
    counts move.shardId move.movementMaps) counts

def staticBin (shardId : DomainId) : DomainId :=
  match (assignmentTree.staticParents state.shardDomain shardId).find? fun parent => parent.1 = state.binDomain with
  | some parent => parent.2
  | none => kDefaultBin

def binAfter (moves : List CommittedMove) (shardId : DomainId) : DomainId :=
  match moves.find? fun move => move.shardId = shardId with
  | some move => move.bin
  | none => staticBin state assignmentTree shardId

/-- The count of every domain and range is that of the shards of the range with a bin
under the domain, and the added weight is that of the counts above 1. -/
structure Exact (shardIds : List DomainId) (moves : List CommittedMove) (info : BinWeightInfo) (counts : RangeCounts ShardRangeId) :
    Prop where
  replicas : ∀ domainId rangeId, count counts domainId rangeId = shardIds.countP fun shardId =>
    shardRangeId shardId = rangeId ∧ binAfter state assignmentTree moves shardId ≠ kDefaultBin ∧
      getBinParentInDomain (binAfter state assignmentTree moves shardId) exclusionDomain = some domainId
  weight : counts.binWeightInfo.total - info.total =
    faultWeight * ∑ᶠ cell : DomainId × ShardRangeId, (excess (count counts cell.1 cell.2) : Int)

/-- A count of unsigned type stays one. -/
def Unsigned (change : CountChange) : Prop := 0 ≤ (change.prevCount : Int) + change.count

end Run

section Evaluations
variable {ShardRangeId : Type} [DecidableEq ShardRangeId] {getBinParentInDomain : DomainId → Domain → Option DomainId}
  {shardRangeId : DomainId → ShardRangeId} {state : SolvingState} {exclusionDomain : Domain} {faultWeight : Int}
  {assignmentTree : SparseMappingTree} {counts : RangeCounts ShardRangeId} {onEvent : CountChange → Prop}
  {onResult : RangeCounts ShardRangeId → Prop}

private theorem getCurrentBin_static (shardId : DomainId) :
    getCurrentBin assignmentTree state.shardDomain shardId state.binDomain = .ok (staticBin state assignmentTree shardId) := by
  rw [getCurrentBin, getParents_nil, Checked.ok_bind, staticBin]
  cases (assignmentTree.staticParents state.shardDomain shardId).find? fun parent => parent.1 = state.binDomain <;> rfl

private theorem finishes_change {binId binParent : DomainId} (parent : getBinParentInDomain binId exclusionDomain = some binParent)
    (rangeId : ShardRangeId) (change : Int) :
    Traced.Finishes onEvent onResult
        (changeShardRangeCount getBinParentInDomain exclusionDomain faultWeight binId rangeId change counts) ↔
      onEvent ⟨count counts binParent rangeId, change⟩ ∧ onResult (changed faultWeight binParent rangeId change counts) := by
  rw [changeShardRangeCount, parent]
  dsimp only
  rw [Traced.finishes_bind, Traced.finishes_tell, Traced.finishes_pure]

/-- An evaluation takes the shard off its future bin if it has a current one, and then
puts it there. -/
private theorem finishes_evaluate {shardId futureBin : DomainId} {movementMaps : List MovementMap}
    (future : (nextBins movementMaps shardId).head?.getD (staticBin state assignmentTree shardId) = futureBin) :
    Traced.Finishes onEvent onResult
        (evaluate getBinParentInDomain shardRangeId state exclusionDomain faultWeight assignmentTree counts shardId movementMaps) ↔
      Traced.Finishes onEvent (fun counts => Traced.Finishes onEvent onResult
        (if futureBin ≠ kDefaultBin then
          changeShardRangeCount getBinParentInDomain exclusionDomain faultWeight futureBin (shardRangeId shardId) 1 counts
        else pure counts))
        (if staticBin state assignmentTree shardId ≠ kDefaultBin then
          changeShardRangeCount getBinParentInDomain exclusionDomain faultWeight futureBin (shardRangeId shardId) (-1) counts
        else pure counts) := by
  rw [evaluate, addBinCount, if_pos rfl, getCurrentBin_static,
    getFutureBin_of_current assignmentTree movementMaps shardId (getCurrentBin_static shardId), future]
  by_cases current : staticBin state assignmentTree shardId ≠ kDefaultBin
  · by_cases placed : futureBin ≠ kDefaultBin
    · simp only [if_pos current, if_pos placed, Traced.finishes_bind, Traced.finishes_lift_ok, Traced.finishes_pure]
    · simp only [if_pos current, if_neg placed, Traced.finishes_bind, Traced.finishes_lift_ok, Traced.finishes_pure]
  · by_cases placed : futureBin ≠ kDefaultBin
    · simp only [if_neg current, if_pos placed, Traced.finishes_bind, Traced.finishes_lift_ok, Traced.finishes_pure]
    · simp only [if_neg current, if_neg placed, Traced.finishes_bind, Traced.finishes_lift_ok, Traced.finishes_pure]

private theorem count_changed (binParent : DomainId) (rangeId : ShardRangeId) (change : Int) (domainId : DomainId) (other : ShardRangeId) :
    count (changed faultWeight binParent rangeId change counts) domainId other =
      if (domainId, other) = (binParent, rangeId) then toSizeT (count counts binParent rangeId + change)
      else count counts domainId other := by
  simp only [count, changed, UnorderedMap.lookup_insert, Prod.mk.injEq]
  by_cases here : domainId = binParent
  · subst here
    by_cases same : other = rangeId
    · subst same
      simp
    · simp [same]
  · simp [here]

private theorem finite_cells (counts : RangeCounts ShardRangeId) :
    (support fun cell : DomainId × ShardRangeId => (excess (count counts cell.1 cell.2) : Int)).Finite := by
  let row (domainId : DomainId) := (counts.shardRangeIdCount.lookup domainId).getD ∅
  have cells : (⋃ domainId ∈ counts.shardRangeIdCount.keys.toFinset,
      Set.image (Prod.mk domainId) ((row domainId).keys.toFinset : Set ShardRangeId)).Finite :=
    (Finset.finite_toSet _).biUnion fun _ _ => (Finset.finite_toSet _).image _
  refine cells.subset ?_
  rintro ⟨domainId, rangeId⟩ counted
  have listed : rangeId ∈ (row domainId).keys := by
    rw [UnorderedMap.mem_keys_iff]
    cases found : (row domainId).lookup rangeId with
    | none => exact absurd (by simp [count, row, found, excess]) counted
    | some value => exact ⟨value, rfl⟩
  have known : domainId ∈ counts.shardRangeIdCount.keys := by
    rw [UnorderedMap.mem_keys_iff]
    cases found : counts.shardRangeIdCount.lookup domainId with
    | none => simp [row, found] at listed
    | some value => exact ⟨value, rfl⟩
  exact Set.mem_biUnion (List.mem_toFinset.mpr known) ⟨rangeId, List.mem_toFinset.mpr listed, rfl⟩

private theorem excess_succ (count : Nat) :
    ∃ gain : Int, (gain = 0 ∨ gain = 1 ∨ gain = 2) ∧ (excess (count + 1) : Int) - excess count = gain := by
  refine ⟨_, ?_, rfl⟩
  unfold excess
  split <;> split <;> omega

private theorem total_raised (fits : FitsInt32 faultWeight) (binParent : DomainId) (rangeId : ShardRangeId)
    (room : count counts binParent rangeId + 1 < 18446744073709551616) :
    (changed faultWeight binParent rangeId 1 counts).binWeightInfo.total = counts.binWeightInfo.total +
      faultWeight * ((excess (count counts binParent rangeId + 1) : Int) - excess (count counts binParent rangeId)) := by
  have raised : toSizeT ((count counts binParent rangeId : Int) + 1) = count counts binParent rangeId + 1 :=
    toSizeT_natCast room
  obtain ⟨gain, small, gained⟩ := excess_succ (count counts binParent rangeId)
  obtain ⟨low, high⟩ := fits
  have delta : faultWeight * (excess (count counts binParent rangeId + 1) : Int) -
      faultWeight * (excess (count counts binParent rangeId) : Int) = faultWeight * gain := by
    rw [← Int.mul_sub, gained]
  have bounds : -9223372036854775808 ≤ faultWeight * gain ∧ faultWeight * gain < 9223372036854775808 := by
    rcases small with rfl | rfl | rfl <;> omega
  rw [changed, BinWeightInfo.total_addTotalWeight, raised, toInt64_sub_toSizeT, delta, gained]
  · exact delta ▸ bounds.1
  · exact delta ▸ bounds.2

private theorem count_raised {binParent : DomainId} {rangeId : ShardRangeId} (room : count counts binParent rangeId + 1 < 18446744073709551616)
    (domainId : DomainId) (other : ShardRangeId) :
    count (changed faultWeight binParent rangeId 1 counts) domainId other =
      if (domainId, other) = (binParent, rangeId) then count counts binParent rangeId + 1 else count counts domainId other := by
  have raised : toSizeT ((count counts binParent rangeId : Int) + 1) = count counts binParent rangeId + 1 :=
    toSizeT_natCast room
  rw [count_changed, raised]

private theorem sum_raised {binParent : DomainId} {rangeId : ShardRangeId} (room : count counts binParent rangeId + 1 < 18446744073709551616) :
    ∑ᶠ cell : DomainId × ShardRangeId,
        (excess (count (changed faultWeight binParent rangeId 1 counts) cell.1 cell.2) : Int) =
      ∑ᶠ cell : DomainId × ShardRangeId, (excess (count counts cell.1 cell.2) : Int) +
        ((excess (count counts binParent rangeId + 1) : Int) - excess (count counts binParent rangeId)) := by
  rw [finsum_changed (finite_cells counts) (binParent, rangeId)]
  · rw [count_raised room, if_pos rfl]
  · intro other different
    rw [count_raised room, if_neg different]

section Initial
variable (parents : ∀ binId, binId ≠ kDefaultBin → (getBinParentInDomain binId exclusionDomain).isSome)
include parents

private theorem finishes_still_iff {shardId : DomainId} {movementMaps : List MovementMap} (still : nextBins movementMaps shardId = [])
    (info : BinWeightInfo) :
    Traced.Finishes Unsigned onResult (evaluate getBinParentInDomain shardRangeId state exclusionDomain faultWeight
        assignmentTree ⟨∅, info⟩ shardId movementMaps) ↔
      staticBin state assignmentTree shardId = kDefaultBin ∧ onResult ⟨∅, info⟩ := by
  have future : (nextBins movementMaps shardId).head?.getD (staticBin state assignmentTree shardId) =
      staticBin state assignmentTree shardId := by
    rw [still]
    rfl
  rw [finishes_evaluate future]
  by_cases placed : staticBin state assignmentTree shardId ≠ kDefaultBin
  · obtain ⟨binParent, parent⟩ := Option.isSome_iff_exists.mp (parents _ placed)
    rw [if_pos placed, finishes_change parent]
    refine iff_of_false ?_ fun unplaced => placed unplaced.1
    rintro ⟨unsigned, _⟩
    have below : ¬ Unsigned ⟨0, -1⟩ := by simp [Unsigned]
    exact below unsigned
  · rw [if_neg placed, Traced.finishes_pure, if_neg placed, Traced.finishes_pure, and_iff_right (not_not.mp placed)]

private theorem finishes_initial_iff {shardIds : List DomainId} {movementMaps : List MovementMap}
    (still : ∀ shardId ∈ shardIds, nextBins movementMaps shardId = []) (info : BinWeightInfo) :
    Traced.Finishes Unsigned onResult (shardIds.foldlM (fun counts shardId => evaluate getBinParentInDomain shardRangeId
        state exclusionDomain faultWeight assignmentTree counts shardId movementMaps) ⟨∅, info⟩) ↔
      (∀ shardId ∈ shardIds, staticBin state assignmentTree shardId = kDefaultBin) ∧ onResult ⟨∅, info⟩ := by
  induction shardIds with
  | nil => simp [Traced.finishes_pure]
  | cons shardId shardIds ih =>
    rw [List.foldlM_cons, Traced.finishes_bind, finishes_still_iff parents (still shardId List.mem_cons_self),
      ih fun other member => still other (List.mem_cons_of_mem _ member), List.forall_mem_cons, and_assoc]

end Initial

end Evaluations

section Moves
variable {ShardRangeId : Type} [DecidableEq ShardRangeId] (getBinParentInDomain : DomainId → Domain → Option DomainId)
  (shardRangeId : DomainId → ShardRangeId) (state : SolvingState) (exclusionDomain : Domain) (faultWeight : Int)
  (assignmentTree : SparseMappingTree)

/-- What the moves so far have been counted for. -/
structure Counted (info : BinWeightInfo) (moves : List CommittedMove) (counts : RangeCounts ShardRangeId) : Prop where
  replicas : ∀ domainId rangeId, count counts domainId rangeId = moves.countP fun move =>
    shardRangeId move.shardId = rangeId ∧ move.bin ≠ kDefaultBin ∧ getBinParentInDomain move.bin exclusionDomain = some domainId
  weight : counts.binWeightInfo.total - info.total =
    faultWeight * ∑ᶠ cell : DomainId × ShardRangeId, (excess (count counts cell.1 cell.2) : Int)

variable {getBinParentInDomain shardRangeId state exclusionDomain faultWeight assignmentTree} {info : BinWeightInfo}
  {counts : RangeCounts ShardRangeId}

private theorem counted_nil : Counted getBinParentInDomain shardRangeId exclusionDomain faultWeight info [] ⟨∅, info⟩ where
  replicas _ _ := rfl
  weight := by
    have none : ∀ cell : DomainId × ShardRangeId, (excess (count (⟨∅, info⟩ : RangeCounts ShardRangeId) cell.1 cell.2) : Int) = 0 :=
      fun _ => rfl
    simp [none]

variable (parents : ∀ binId, binId ≠ kDefaultBin → (getBinParentInDomain binId exclusionDomain).isSome)
  (fits : FitsInt32 faultWeight)
include parents fits

theorem Counted.move {moves : List CommittedMove} {move : CommittedMove}
    (counted : Counted getBinParentInDomain shardRangeId exclusionDomain faultWeight info moves counts)
    (room : moves.length + 1 < 18446744073709551616) (unplaced : staticBin state assignmentTree move.shardId = kDefaultBin) :
    Traced.Finishes Unsigned (Counted getBinParentInDomain shardRangeId exclusionDomain faultWeight info (moves ++ [move]))
      (evaluate getBinParentInDomain shardRangeId state exclusionDomain faultWeight assignmentTree counts move.shardId
        move.movementMaps) := by
  have future : (nextBins move.movementMaps move.shardId).head?.getD (staticBin state assignmentTree move.shardId) = move.bin := by
    rw [move.moved]
    rfl
  rw [finishes_evaluate future, if_neg (not_not.mpr unplaced), Traced.finishes_pure]
  by_cases placed : move.bin ≠ kDefaultBin
  · obtain ⟨binParent, parent⟩ := Option.isSome_iff_exists.mp (parents _ placed)
    rw [if_pos placed, finishes_change parent]
    have small : count counts binParent (shardRangeId move.shardId) + 1 < 18446744073709551616 := by
      rw [counted.replicas]
      exact Nat.lt_of_le_of_lt (Nat.succ_le_succ List.countP_le_length) room
    refine ⟨?_, ?_, ?_⟩
    · exact Int.add_nonneg (Int.natCast_nonneg _) Int.one_nonneg
    · intro domainId rangeId
      rw [count_raised small, List.countP_append, List.countP_singleton, ← counted.replicas]
      by_cases same : (domainId, rangeId) = (binParent, shardRangeId move.shardId)
      · cases same
        rw [if_pos rfl, if_pos (by simp [placed, parent])]
      · rw [if_neg same, if_neg]
        · rfl
        · intro chosen
          obtain ⟨range, _, under⟩ := of_decide_eq_true chosen
          rw [parent] at under
          exact same (Prod.ext (Option.some.inj under).symm range.symm)
    · rw [total_raised fits _ _ small, sum_raised small, add_sub_right_comm, counted.weight, ← mul_add]
  · rw [if_neg placed, Traced.finishes_pure]
    refine ⟨fun domainId rangeId => ?_, counted.weight⟩
    rw [counted.replicas, List.countP_append, List.countP_singleton]
    simp [not_not.mp placed]

private theorem finishes_moves (info : BinWeightInfo) {moves : List CommittedMove} (room : moves.length < 18446744073709551616)
    (unplaced : ∀ move ∈ moves, staticBin state assignmentTree move.shardId = kDefaultBin) :
    Traced.Finishes Unsigned (Counted getBinParentInDomain shardRangeId exclusionDomain faultWeight info moves)
      (moves.foldlM (fun counts move => evaluate getBinParentInDomain shardRangeId state exclusionDomain faultWeight
        assignmentTree counts move.shardId move.movementMaps) ⟨∅, info⟩) := by
  refine Traced.finishes_foldlM (Counted getBinParentInDomain shardRangeId exclusionDomain faultWeight info) ?_ counted_nil
  intro handled move rest counts split counted
  refine counted.move parents fits ?_ (unplaced move (by simp [split]))
  rw [split, List.length_append, List.length_cons] at room
  omega

end Moves

section Bins
variable {state : SolvingState} {assignmentTree : SparseMappingTree} {shardIds : List DomainId} {moves : List CommittedMove}

private theorem binAfter_of_mem (once : (moves.map CommittedMove.shardId).Nodup) {move : CommittedMove} (member : move ∈ moves) :
    binAfter state assignmentTree moves move.shardId = move.bin := by
  unfold binAfter
  cases found : moves.find? fun other => other.shardId = move.shardId with
  | none => simpa using List.find?_eq_none.mp found move member
  | some other =>
    have same : other.shardId = move.shardId := by simpa using List.find?_some found
    rw [List.inj_on_of_nodup_map once (List.mem_of_find?_eq_some found) member same]

private theorem exists_move (unplaced : ∀ shardId ∈ shardIds, staticBin state assignmentTree shardId = kDefaultBin) {shardId : DomainId}
    (member : shardId ∈ shardIds) (placed : binAfter state assignmentTree moves shardId ≠ kDefaultBin) :
    ∃ move ∈ moves, move.shardId = shardId := by
  unfold binAfter at placed
  cases found : moves.find? fun move => move.shardId = shardId with
  | none =>
    rw [found] at placed
    exact absurd (unplaced shardId member) placed
  | some move => exact ⟨move, List.mem_of_find?_eq_some found, by simpa using List.find?_some found⟩

/-- Where no shard has a bin to begin with, those that have one later are those that move to it. -/
private theorem countP_moves (distinct : shardIds.Nodup) (once : (moves.map CommittedMove.shardId).Nodup)
    (constrained : ∀ move ∈ moves, move.shardId ∈ shardIds)
    (unplaced : ∀ shardId ∈ shardIds, staticBin state assignmentTree shardId = kDefaultBin)
    (chosen : DomainId → DomainId → Bool) (placed : ∀ shardId, chosen shardId kDefaultBin = false) :
    (moves.countP fun move => chosen move.shardId move.bin) =
      shardIds.countP fun shardId => chosen shardId (binAfter state assignmentTree moves shardId) := by
  have perm : ((moves.filter fun move => chosen move.shardId move.bin).map CommittedMove.shardId).Perm
      (shardIds.filter fun shardId => chosen shardId (binAfter state assignmentTree moves shardId)) := by
    refine (List.perm_ext_iff_of_nodup (once.sublist (List.filter_sublist.map _)) (distinct.filter _)).mpr fun shardId => ?_
    rw [List.mem_map, List.mem_filter]
    constructor
    · rintro ⟨move, member, rfl⟩
      obtain ⟨listed, counts⟩ := List.mem_filter.mp member
      exact ⟨constrained move listed, (binAfter_of_mem once listed).symm ▸ counts⟩
    · rintro ⟨member, counts⟩
      have away : binAfter state assignmentTree moves shardId ≠ kDefaultBin := by
        intro home
        rw [home, placed] at counts
        cases counts
      obtain ⟨move, listed, rfl⟩ := exists_move unplaced member away
      rw [binAfter_of_mem once listed] at counts
      exact ⟨move, List.mem_filter.mpr ⟨listed, counts⟩, rfl⟩
  rw [List.countP_eq_length_filter, List.countP_eq_length_filter, ← perm.length_eq, List.length_map]

private theorem length_moves_le (once : (moves.map CommittedMove.shardId).Nodup) (constrained : ∀ move ∈ moves, move.shardId ∈ shardIds) :
    moves.length ≤ shardIds.length := by
  have inside : moves.map CommittedMove.shardId ⊆ shardIds := by
    intro shardId member
    obtain ⟨move, listed, rfl⟩ := List.mem_map.mp member
    exact constrained move listed
  rw [← List.length_map (f := CommittedMove.shardId)]
  exact (once.subperm inside).length_le

end Bins

/-- After the shards and any moves of them, the counts and the weight are exact and no
count has fallen below zero if and only if no shard has a bin to begin with. -/
theorem finishes_exact_iff {ShardRangeId : Type} [DecidableEq ShardRangeId]
    (getBinParentInDomain : DomainId → Domain → Option DomainId) (shardRangeId : DomainId → ShardRangeId) (state : SolvingState)
    (exclusionDomain : Domain) (parents : ∀ binId, binId ≠ kDefaultBin → (getBinParentInDomain binId exclusionDomain).isSome)
    (faultWeight : Int) (fits : FitsInt32 faultWeight) (assignmentTree : SparseMappingTree) (shardIds : List DomainId)
    (distinct : shardIds.Nodup) (few : shardIds.length < 18446744073709551616) (movementMaps : List MovementMap)
    (still : ∀ shardId ∈ shardIds, nextBins movementMaps shardId = []) (moves : List CommittedMove)
    (once : (moves.map CommittedMove.shardId).Nodup) (constrained : ∀ move ∈ moves, move.shardId ∈ shardIds)
    (info : BinWeightInfo) :
    Traced.Finishes Unsigned
        (Exact getBinParentInDomain shardRangeId state exclusionDomain faultWeight assignmentTree shardIds moves info)
        (evaluateAll getBinParentInDomain shardRangeId state exclusionDomain faultWeight assignmentTree shardIds movementMaps
          moves info) ↔
      ∀ shardId ∈ shardIds, staticBin state assignmentTree shardId = kDefaultBin := by
  rw [evaluateAll, Traced.finishes_bind, finishes_initial_iff parents still]
  refine and_iff_left_of_imp fun unplaced => ?_
  have room : moves.length < 18446744073709551616 := Nat.lt_of_le_of_lt (length_moves_le once constrained) few
  have bins : ∀ move ∈ moves, staticBin state assignmentTree move.shardId = kDefaultBin :=
    fun move member => unplaced move.shardId (constrained move member)
  refine (finishes_moves parents fits info room bins).mono fun counts counted => ⟨fun domainId rangeId => ?_, counted.weight⟩
  rw [counted.replicas]
  exact countP_moves distinct once constrained unplaced (fun shardId binId => shardRangeId shardId = rangeId ∧
    binId ≠ kDefaultBin ∧ getBinParentInDomain binId exclusionDomain = some domainId) fun shardId => by simp

/-- Shard 5 goes to bin 1, as a candidate beside committed moves that do not mention it. -/
def toFirstBin : CommittedMove := ⟨5, [{}, {}, .addMovement {} 5 1], 1, by decide⟩

theorem finishes_exact_toFirstBin :
    Traced.Finishes Unsigned
      (Exact (fun _ _ => some 0) (fun shardId => shardId % 2) .twoBins 2 10 (.empty 0 1) [5, 6] [toFirstBin] .empty)
      (evaluateAll (fun _ _ => some 0) (fun shardId => shardId % 2) .twoBins 2 10 (.empty 0 1) [5, 6] [{}] [toFirstBin] .empty) :=
  (finishes_exact_iff (fun _ _ => some 0) (fun shardId => shardId % 2) .twoBins 2 (fun _ _ => rfl) 10 (by decide) (.empty 0 1)
    [5, 6] (by decide) (by decide) [{}] (by decide) [toFirstBin] (by decide) (by decide) .empty).mpr (by decide)

/-- Shard 5, which is in bin 1, is taken off a count of 0. -/
theorem not_finishes_exact_twoBins :
    ¬ Traced.Finishes Unsigned
      (Exact (fun _ _ => some 0) (fun shardId => shardId % 2) .twoBins 2 10 twoBins [5] [] .empty)
      (evaluateAll (fun _ _ => some 0) (fun shardId => shardId % 2) .twoBins 2 10 twoBins [5] [{}] [] .empty) := by
  rw [evaluateAll, Traced.finishes_bind, finishes_initial_iff (fun _ _ => rfl) (by decide)]
  rintro ⟨unplaced, _⟩
  exact absurd (unplaced 5 List.mem_cons_self) (by decide +kernel)

end ExclusionConstraint
end ShardManager

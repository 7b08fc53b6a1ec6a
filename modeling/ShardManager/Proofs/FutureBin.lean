import ShardManager.Proofs.Operators

/-! The bin that a shard ends up in, by the two computations of it: `getFutureBin`
takes the first movement map that mentions the shard, `shouldConsiderShard` rejects a
bin as soon as one map names another. -/

namespace ShardManager
open SparseMappingTree

/-- The maps that mention the shard name one bin. -/
def Agree (movementMaps : List MovementMap) (shardId : DomainId) : Prop :=
  ∀ first ∈ movementMaps, ∀ second ∈ movementMaps, ∀ firstBin secondBin,
    first.getNextBin shardId = some firstBin → second.getNextBin shardId = some secondBin → firstBin = secondBin

private theorem agree_iff (movementMaps : List MovementMap) (shardId : DomainId) :
    Agree movementMaps shardId ↔ ∀ first ∈ nextBins movementMaps shardId, ∀ second ∈ nextBins movementMaps shardId,
      first = second := by
  simp only [Agree, nextBins, List.mem_filterMap]
  constructor
  · rintro agree first ⟨firstMap, inMaps, firstMoved⟩ second ⟨secondMap, present, secondMoved⟩
    exact agree firstMap inMaps secondMap present first second firstMoved secondMoved
  · intro same firstMap inMaps secondMap present first second firstMoved secondMoved
    exact same first ⟨firstMap, inMaps, firstMoved⟩ second ⟨secondMap, present, secondMoved⟩

section Tree
variable (tree : SparseMappingTree) (movementMaps : List MovementMap) (shardId : DomainId)

private theorem getCurrentBin_eq {home : DomainId}
    (atHome : (tree.binDomain, home) ∈ tree.staticParents tree.shardDomain shardId) :
    getCurrentBin tree tree.shardDomain shardId tree.binDomain = .ok home := by
  have parents : tree.getParents tree.shardDomain shardId [] = .ok (tree.staticParents tree.shardDomain shardId) := by
    rw [getParents, if_pos rfl]
    rfl
  rw [getCurrentBin, parents, Checked.ok_bind]
  cases found : (tree.staticParents tree.shardDomain shardId).find? fun parent => parent.1 = tree.binDomain with
  | none => simpa using List.find?_eq_none.mp found _ atHome
  | some parent =>
    obtain ⟨parentDomain, parentId⟩ := parent
    have inBins : parentDomain = tree.binDomain := by simpa using List.find?_some found
    have recorded := (tree.mem_staticParents _ _ _).mp (List.mem_of_find?_eq_some found)
    rw [inBins, (tree.mem_staticParents _ _ _).mp atHome] at recorded
    cases recorded
    rfl

theorem getFutureBin_of_current {shardDomain binDomain : Domain} {home : DomainId}
    (current : getCurrentBin tree shardDomain shardId binDomain = .ok home) :
    getFutureBin tree shardDomain shardId binDomain (movementMaps.map some) =
      .ok ((nextBins movementMaps shardId).head?.getD home) := by
  induction movementMaps with
  | nil => exact current
  | cons movementMap movementMaps ih =>
    rw [List.map_cons, getFutureBin, deref, Checked.ok_bind, nextBins, List.filterMap_cons]
    cases movementMap.getNextBin shardId with
    | none => exact ih
    | some nextBin => rfl

private theorem getFutureBin_eq {home : DomainId}
    (atHome : (tree.binDomain, home) ∈ tree.staticParents tree.shardDomain shardId) :
    getFutureBin tree tree.shardDomain shardId tree.binDomain (movementMaps.map some) =
      .ok ((nextBins movementMaps shardId).head?.getD home) :=
  getFutureBin_of_current tree movementMaps shardId (getCurrentBin_eq tree shardId atHome)

private theorem mem_parentNodes_bin (binId : DomainId) :
    (tree.binDomain, binId) ∈ tree.parentNodes tree.shardDomain shardId movementMaps ↔
      (tree.binDomain, binId) ∈ tree.staticParents tree.shardDomain shardId ∨
      binId ∈ nextBins movementMaps shardId ∧ (tree.parentToChildMap.row tree.binDomain binId).isSome := by
  rw [parentNodes, if_pos rfl, List.mem_append]
  refine or_congr_right ?_
  rw [movedParents, List.mem_filterMap]
  constructor
  · rintro ⟨nextBin, named, chosen⟩
    split at chosen
    next row =>
      cases chosen
      exact ⟨named, row⟩
    next => cases chosen
  · rintro ⟨named, row⟩
    exact ⟨binId, named, if_pos row⟩

/-- Exactly one of the bins that `getParents` lists counts the shard, and it is the
bin that `getFutureBin` returns. -/
def OneFutureBin : Prop :=
  ∃ parents binId, tree.getParents tree.shardDomain shardId (movementMaps.map some) = .ok parents ∧
    (∀ other, (tree.binDomain, other) ∈ parents ∧
      shouldConsiderShard .after (movementMaps.map some) shardId other = .ok true ↔ other = binId) ∧
    getFutureBin tree tree.shardDomain shardId tree.binDomain (movementMaps.map some) = .ok binId

/-- The two computations agree on one bin if and only if the movement maps do. -/
theorem oneFutureBin_iff (oneBin : ∃! home, (tree.binDomain, home) ∈ tree.staticParents tree.shardDomain shardId)
    (destinations : ∀ movementMap ∈ movementMaps, ∀ binId, movementMap.getNextBin shardId = some binId →
      (tree.parentToChildMap.row tree.binDomain binId).isSome) :
    OneFutureBin tree movementMaps shardId ↔ Agree movementMaps shardId := by
  obtain ⟨home, atHome, only⟩ := oneBin
  have hasBin : tree.HasBin := by
    rw [HasBin, tree.row_mapped]
    exact (tree.mapped_of_mem_staticParents atHome).2.1
  have rows : ∀ binId ∈ nextBins movementMaps shardId, (tree.parentToChildMap.row tree.binDomain binId).isSome := by
    intro binId named
    obtain ⟨movementMap, inMaps, moved⟩ := List.mem_filterMap.mp named
    exact destinations movementMap inMaps binId moved
  have counts : ∀ other, ((tree.binDomain, other) ∈ tree.parentNodes tree.shardDomain shardId movementMaps ∧
      shouldConsiderShard .after (movementMaps.map some) shardId other = .ok true) ↔
        (other = home ∨ other ∈ nextBins movementMaps shardId) ∧ ∀ nextBin ∈ nextBins movementMaps shardId, nextBin = other := by
    intro other
    rw [shouldConsiderShard_eq, Except.ok.injEq, counted_after_iff, mem_parentNodes_bin]
    have static : (tree.binDomain, other) ∈ tree.staticParents tree.shardDomain shardId ↔ other = home :=
      ⟨only other, fun same => same ▸ atHome⟩
    rw [static, and_iff_left_of_imp (rows other)]
  have future := getFutureBin_eq tree movementMaps shardId atHome
  rw [agree_iff]
  constructor
  · rintro ⟨parents, binId, listed, unique, _⟩ first inFirst second inSecond
    rw [tree.getParents_eq _ _ _ hasBin, Except.ok.injEq] at listed
    subst listed
    have same := ((counts binId).mp ((unique binId).mpr rfl)).2
    exact (same first inFirst).trans (same second inSecond).symm
  · intro agree
    refine ⟨_, (nextBins movementMaps shardId).head?.getD home, tree.getParents_eq _ _ _ hasBin, ?_, future⟩
    intro other
    rw [counts other]
    cases named : nextBins movementMaps shardId with
    | nil => simp
    | cons first rest =>
      rw [named] at agree
      constructor
      · rintro ⟨_, same⟩
        exact (same first (by simp)).symm
      · rintro rfl
        exact ⟨.inr (by simp), fun nextBin member => agree nextBin member other (by simp)⟩

end Tree

private theorem oneBin_twoBins : ∃! home, (1, home) ∈ SolvingState.twoBins.assignmentTree.staticParents 0 0 := by
  have home : SolvingState.twoBins.assignmentTree.staticParents 0 0 = [(1, 0)] := by decide +kernel
  exact ⟨0, by simp [home], fun other listed => by simpa [home] using listed⟩

theorem oneFutureBin_twoBins :
    OneFutureBin SolvingState.twoBins.assignmentTree [{}, .addMovement {} 0 1, .addMovement {} 0 1] 0 ↔
      Agree [{}, .addMovement {} 0 1, .addMovement {} 0 1] 0 :=
  oneFutureBin_iff _ _ 0 oneBin_twoBins (by decide +kernel)

/-- A shard that one map sends away and another one back home counts for no bin. -/
theorem no_futureBin :
    (∃! home, (1, home) ∈ SolvingState.twoBins.assignmentTree.staticParents 0 0) ∧
    ¬ OneFutureBin SolvingState.twoBins.assignmentTree [{}, .addMovement {} 0 1, .addMovement {} 0 0] 0 := by
  refine ⟨oneBin_twoBins, ?_⟩
  rintro ⟨parents, binId, _, unique, _⟩
  have considered := ((unique binId).mpr rfl).2
  rw [shouldConsiderShard_eq _ [_, _, _], Except.ok.injEq, counted_after_iff] at considered
  have away := considered 1 (by decide +kernel)
  have back := considered 0 (by decide +kernel)
  exact absurd (away.trans back.symm) (by decide)

end ShardManager

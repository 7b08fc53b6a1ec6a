import ShardManager.Placer.Types

/-! `MovementMap.cpp`: pending moves of shards, indexed both ways. -/

namespace ShardManager

structure MovementMap where
  binToIncomingShardMap : UnorderedMap DomainId (UnorderedSet DomainId) := ∅
  shardToNextBinMap : UnorderedMap DomainId DomainId := ∅

/-- A `std::shared_ptr<MovementMap>`, which may be null. -/
abbrev MovementMapPtr := Option MovementMap

namespace MovementMap

def addMovement (map : MovementMap) (shardId binId : DomainId) : MovementMap where
  binToIncomingShardMap :=
    map.binToIncomingShardMap.insert binId (((map.binToIncomingShardMap.lookup binId).getD ∅).insert shardId ())
  shardToNextBinMap := map.shardToNextBinMap.insert shardId binId

def getNextBin (map : MovementMap) (shardId : DomainId) : Option DomainId := map.shardToNextBinMap.lookup shardId

def removeMovement (map : MovementMap) (shardId : DomainId) : MovementMap :=
  match map.getNextBin shardId with
  | some nextBin =>
    { binToIncomingShardMap :=
        map.binToIncomingShardMap.insert nextBin (((map.binToIncomingShardMap.lookup nextBin).getD ∅).erase shardId)
      shardToNextBinMap := map.shardToNextBinMap.erase shardId }
  | none => map

def clearMovements (_map : MovementMap) : MovementMap := {}

/-- The source's `operator[]` also leaves an empty set behind for an absent bin;
no operation tells an empty set from an absent one. -/
def getIncomingShards (map : MovementMap) (binId : DomainId) : UnorderedSet DomainId :=
  (map.binToIncomingShardMap.lookup binId).getD ∅

def getAllMovements (map : MovementMap) : UnorderedMap DomainId DomainId := map.shardToNextBinMap

def addMovements (map newMovements : MovementMap) : MovementMap :=
  newMovements.getAllMovements.entries.foldl (fun map movement => map.addMovement movement.1 movement.2) map

/-- The two indexes describe one relation. -/
def Agrees (map : MovementMap) : Prop :=
  ∀ shardId binId, shardId ∈ map.getIncomingShards binId ↔ map.getNextBin shardId = some binId

variable (map newMovements : MovementMap)

@[simp] theorem next_empty (shardId : DomainId) : ({} : MovementMap).getNextBin shardId = none := rfl

@[simp] theorem next_clear (shardId : DomainId) : map.clearMovements.getNextBin shardId = none := rfl

@[simp] theorem next_addMovement (shardId binId other : DomainId) :
    (map.addMovement shardId binId).getNextBin other = if other = shardId then some binId else map.getNextBin other :=
  UnorderedMap.lookup_insert _ _ _ _

theorem mem_incoming_addMovement (shardId binId other bin : DomainId) :
    other ∈ (map.addMovement shardId binId).getIncomingShards bin ↔
      bin = binId ∧ other = shardId ∨ other ∈ map.getIncomingShards bin := by
  simp only [addMovement, getIncomingShards, UnorderedMap.lookup_insert]
  by_cases same : bin = binId
  · subst same
    simp
  · simp [same]

private theorem foldl_addMovement_next (moves : List (Sigma fun _ : DomainId => DomainId)) :
    (moves.foldl (fun map move => map.addMovement move.1 move.2) map).shardToNextBinMap =
      moves.foldl (fun target move => target.insert move.1 move.2) map.shardToNextBinMap := by
  induction moves generalizing map with
  | nil => rfl
  | cons move moves ih => exact ih (map.addMovement move.1 move.2)

@[simp] theorem next_addMovements (shardId : DomainId) :
    (map.addMovements newMovements).getNextBin shardId = (newMovements.getNextBin shardId).or (map.getNextBin shardId) := by
  unfold getNextBin addMovements
  rw [foldl_addMovement_next]
  change (UnorderedMap.merge (fun binId _ => binId) newMovements.shardToNextBinMap map.shardToNextBinMap).lookup shardId = _
  rw [UnorderedMap.lookup_merge]
  cases newMovements.shardToNextBinMap.lookup shardId <;> rfl

theorem mem_incoming_addMovements (shardId bin : DomainId) :
    shardId ∈ (map.addMovements newMovements).getIncomingShards bin ↔
      newMovements.getNextBin shardId = some bin ∨ shardId ∈ map.getIncomingShards bin := by
  have loop : ∀ (moves : List (Sigma fun _ : DomainId => DomainId)) (map : MovementMap),
      shardId ∈ (moves.foldl (fun map move => map.addMovement move.1 move.2) map).getIncomingShards bin ↔
        (⟨shardId, bin⟩ : Sigma fun _ : DomainId => DomainId) ∈ moves ∨ shardId ∈ map.getIncomingShards bin := by
    intro moves
    induction moves with
    | nil => simp
    | cons move moves ih =>
      intro map
      obtain ⟨first, destination⟩ := move
      rw [List.foldl_cons, ih, mem_incoming_addMovement, List.mem_cons, Sigma.mk.injEq, heq_eq_eq]
      tauto
  rw [addMovements, loop, UnorderedMap.mem_entries_iff]
  rfl

theorem agrees_empty : Agrees {} := by
  intro shardId binId
  simp [getIncomingShards]

theorem Agrees.addMovement {map : MovementMap} (agrees : map.Agrees) {shardId : DomainId} (binId : DomainId)
    (unmoved : map.getNextBin shardId = none) : (map.addMovement shardId binId).Agrees := by
  intro other bin
  rw [mem_incoming_addMovement, next_addMovement, agrees]
  by_cases same : other = shardId
  · subst same
    simp [unmoved, eq_comm]
  · simp [same]

theorem Agrees.addMovements {map newMovements : MovementMap} (agrees : map.Agrees)
    (unmoved : ∀ shardId, (newMovements.getNextBin shardId).isSome → map.getNextBin shardId = none) :
    (map.addMovements newMovements).Agrees := by
  intro shardId bin
  rw [mem_incoming_addMovements, next_addMovements, agrees]
  cases moved : newMovements.getNextBin shardId with
  | none => simp
  | some destination => simp [unmoved shardId (by simp [moved])]

end MovementMap
end ShardManager

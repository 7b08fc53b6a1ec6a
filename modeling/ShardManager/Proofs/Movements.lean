import ShardManager.Lib.EventRun
import ShardManager.Placer.MovementMap

/-! The two indexes of a `MovementMap` over every sequence of its operations: when
they stay one relation. -/

namespace ShardManager
namespace MovementMap

inductive Operation where
  | addMovement (shardId binId : DomainId)
  | removeMovement (shardId : DomainId)
  | clearMovements
  | addMovements (newMovements : MovementMap)

def apply (map : MovementMap) : Operation → MovementMap
  | .addMovement shardId binId => map.addMovement shardId binId
  | .removeMovement shardId => map.removeMovement shardId
  | .clearMovements => map.clearMovements
  | .addMovements newMovements => map.addMovements newMovements

/-- A map may be given any operation at any time. -/
def machine : Machine MovementMap Operation where
  enabled _ _ := True
  next := apply

/-- The moves that an operation asks for. -/
def Asks (shardId binId : DomainId) : Operation → Prop
  | .addMovement shard bin => shardId = shard ∧ binId = bin
  | .addMovements newMovements => newMovements.getNextBin shardId = some binId
  | _ => False

/-- No shard is sent to one bin while it is on its way to another. -/
def KeepsDestinations (map : MovementMap) (operation : Operation) : Prop :=
  ∀ shardId binId, Asks shardId binId operation → ∀ pending, map.getNextBin shardId = some pending → pending = binId

/-- A shard is incoming to the bin it moves to, and to no second one. -/
structure OneRelation (map : MovementMap) : Prop where
  agrees : map.Agrees
  unique : ∀ shardId first second, shardId ∈ map.getIncomingShards first → shardId ∈ map.getIncomingShards second →
    first = second

/-- Merging moves lets the new ones win and keeps the others. -/
def Overrides (map : MovementMap) : Operation → Prop
  | .addMovements newMovements => ∀ shardId, (map.addMovements newMovements).getNextBin shardId =
    match newMovements.getNextBin shardId with
    | some binId => some binId
    | none => map.getNextBin shardId
  | _ => True

variable {map : MovementMap}

private theorem next_removeMovement (shardId other : DomainId) :
    (map.removeMovement shardId).getNextBin other = if other = shardId then none else map.getNextBin other := by
  unfold removeMovement
  split
  next => exact UnorderedMap.lookup_erase _ _ _
  next unmoved =>
    split
    next same => rw [same, unmoved]
    next => rfl

private theorem mem_incoming_removeMovement (shardId other bin : DomainId) :
    other ∈ (map.removeMovement shardId).getIncomingShards bin ↔
      other ∈ map.getIncomingShards bin ∧ ¬ (other = shardId ∧ map.getNextBin shardId = some bin) := by
  unfold removeMovement
  split
  next nextBin moved =>
    simp only [getIncomingShards, UnorderedMap.lookup_insert, moved, Option.some.injEq]
    by_cases here : bin = nextBin
    · subst here
      simp [and_comm]
    · simp [here, Ne.symm here]
  next unmoved => simp [unmoved]

private theorem Agrees.oneRelation (agrees : map.Agrees) : map.OneRelation := by
  refine ⟨agrees, fun shardId first second inFirst inSecond => ?_⟩
  have left := (agrees shardId first).mp inFirst
  rw [(agrees shardId second).mp inSecond, Option.some.injEq] at left
  exact left.symm

theorem Agrees.removeMovement (agrees : map.Agrees) (shardId : DomainId) : (map.removeMovement shardId).Agrees := by
  intro other bin
  rw [mem_incoming_removeMovement, next_removeMovement, agrees]
  by_cases same : other = shardId
  · subst same
    simp
  · simp [same]

/-- What an operation that only adds moves makes of the two indexes. -/
private theorem agrees_added_iff (agrees : map.Agrees) (asked : DomainId → DomainId → Prop) {after : MovementMap}
    (functional : ∀ shardId first second, asked shardId first → asked shardId second → first = second)
    (next : ∀ shardId binId, after.getNextBin shardId = some binId ↔
      asked shardId binId ∨ (∀ bin, ¬ asked shardId bin) ∧ map.getNextBin shardId = some binId)
    (incoming : ∀ shardId binId, shardId ∈ after.getIncomingShards binId ↔
      asked shardId binId ∨ shardId ∈ map.getIncomingShards binId) :
    after.Agrees ↔ ∀ shardId binId, asked shardId binId → ∀ pending, map.getNextBin shardId = some pending → pending = binId := by
  constructor
  · intro still shardId binId asks pending moved
    have stays := (incoming shardId pending).mpr (.inr ((agrees shardId pending).mpr moved))
    rcases (next shardId pending).mp ((still shardId pending).mp stays) with same | ⟨unasked, _⟩
    · exact functional shardId pending binId same asks
    · exact absurd asks (unasked binId)
  · intro kept shardId binId
    rw [incoming, next, agrees]
    constructor
    · rintro (asks | moved)
      · exact .inl asks
      · by_cases known : ∃ bin, asked shardId bin
        · obtain ⟨bin, asks⟩ := known
          exact .inl (kept shardId bin asks binId moved ▸ asks)
        · exact .inr ⟨not_exists.mp known, moved⟩
    · rintro (asks | ⟨_, moved⟩)
      · exact .inl asks
      · exact .inr moved

/-- An operation keeps the two indexes one relation exactly if it redirects no shard. -/
private theorem agrees_apply_iff (agrees : map.Agrees) (operation : Operation) :
    (map.apply operation).Agrees ↔ map.KeepsDestinations operation := by
  cases operation with
  | addMovement shard bin =>
    refine agrees_added_iff agrees (fun shardId binId => shardId = shard ∧ binId = bin) ?_ ?_ ?_
    · rintro shardId first second ⟨_, rfl⟩ ⟨_, rfl⟩
      rfl
    · intro shardId binId
      change (map.addMovement shard bin).getNextBin shardId = some binId ↔ _
      rw [next_addMovement]
      by_cases same : shardId = shard
      · simp [same, eq_comm]
      · simp [same]
    · intro shardId binId
      change shardId ∈ (map.addMovement shard bin).getIncomingShards binId ↔ _
      rw [mem_incoming_addMovement, and_comm]
  | removeMovement shardId => exact iff_of_true (agrees.removeMovement shardId) fun _ _ asks => asks.elim
  | clearMovements => exact iff_of_true agrees_empty fun _ _ asks => asks.elim
  | addMovements newMovements =>
    refine agrees_added_iff agrees (fun shardId binId => newMovements.getNextBin shardId = some binId) ?_ ?_ ?_
    · intro shardId first second toFirst toSecond
      rw [toFirst, Option.some.injEq] at toSecond
      exact toSecond
    · intro shardId binId
      change (map.addMovements newMovements).getNextBin shardId = some binId ↔ _
      rw [next_addMovements]
      cases newMovements.getNextBin shardId <;> simp
    · exact fun shardId binId => mem_incoming_addMovements map newMovements shardId binId

private theorem overrides_apply (operation : Operation) : map.Overrides operation := by
  cases operation with
  | addMovements newMovements =>
    intro shardId
    rw [next_addMovements]
    cases newMovements.getNextBin shardId <;> rfl
  | _ => trivial

/-- From an empty map on, the two indexes are one relation throughout exactly if no
operation redirects a shard that is on its way. -/
theorem one_relation_iff (operations : List Operation) :
    (machine.Always OneRelation {} operations ∧ machine.EachStep Overrides {} operations) ↔
      machine.EachStep KeepsDestinations {} operations := by
  have exact : machine.Always OneRelation {} operations ↔ machine.EachStep KeepsDestinations {} operations := by
    refine Machine.always_iff_eachStep (fun map operation one => ?_) agrees_empty.oneRelation
    rw [← agrees_apply_iff one.agrees]
    exact ⟨fun after => after.agrees, fun after => after.oneRelation⟩
  rw [exact]
  exact ⟨fun both => both.1, fun each => ⟨each, fun _ operation _ _ => overrides_apply operation⟩⟩

/-- A shard sent to a second bin stays incoming to the first. -/
theorem redirected_shard_incoming_twice :
    ¬ (machine.Always OneRelation {} [.addMovement 0 1, .addMovement 0 2] ∧
      machine.EachStep Overrides {} [.addMovement 0 1, .addMovement 0 2]) := by
  rintro ⟨always, _⟩
  have last := (always _ [] (List.append_nil _).symm).unique 0 1 2 (by decide) (by decide)
  exact absurd last (by decide)

end MovementMap
end ShardManager

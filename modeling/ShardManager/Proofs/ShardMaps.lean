import ShardManager.Psychopomp.SolvingManager

/-! The shards a manager gives to its services: a service keeps those of its first
population, whatever stages follow, and they cover the keys exactly if the numbers drawn
for them let them. -/

namespace ShardManager.Psychopomp
namespace SolvingManager

def drawsFor (svcId : ServiceId) : Stage → Option (Nat → UInt64)
  | .populateShardMap serviceIds randomGen => if svcId ∈ serviceIds then some (randomGen svcId) else none
  | _ => none

private theorem lookup_populateShards (randomGen : ServiceId → Nat → UInt64) (manager : SolvingManager) (service svcId : ServiceId) :
    (populateShards randomGen manager service).shardMappings.lookup svcId =
      (manager.shardMappings.lookup svcId).or (if svcId = service then some (newShardMapping (randomGen svcId)) else none) := by
  unfold populateShards
  cases known : manager.shardMappings.lookup service with
  | some mapping =>
    by_cases same : svcId = service
    · subst same
      simp [known]
    · simp [same]
  | none =>
    simp only [UnorderedMap.lookup_emplace, known, Option.getD_none]
    by_cases same : svcId = service
    · subst same
      simp [known]
    · simp [same]

theorem lookup_populateShardMap (serviceIds : UnorderedSet ServiceId) (randomGen : ServiceId → Nat → UInt64) (manager : SolvingManager)
    (svcId : ServiceId) :
    (manager.populateShardMap serviceIds randomGen).shardMappings.lookup svcId =
      (manager.shardMappings.lookup svcId).or (if svcId ∈ serviceIds then some (newShardMapping (randomGen svcId)) else none) := by
  have loop : ∀ (services : List ServiceId) (manager : SolvingManager),
      (services.foldl (populateShards randomGen) manager).shardMappings.lookup svcId =
        (manager.shardMappings.lookup svcId).or (if svcId ∈ services then some (newShardMapping (randomGen svcId)) else none) := by
    intro services
    induction services with
    | nil => simp
    | cons service services ih =>
      intro manager
      rw [List.foldl_cons, ih, lookup_populateShards, Option.or_assoc]
      congr 1
      by_cases same : svcId = service <;> simp [same]
  have populated := loop serviceIds.keys manager
  by_cases requested : svcId ∈ serviceIds
  · rw [if_pos requested]
    rwa [if_pos (AList.mem_keys.mp requested)] at populated
  · rw [if_neg requested]
    rwa [if_neg (mt AList.mem_keys.mpr requested)] at populated

private theorem createState_shardMappings {manager after : SolvingManager} {svcId : ServiceId} (created : manager.createState svcId = .ok after) :
    after.shardMappings = manager.shardMappings := by
  unfold createState at created
  simp only at created
  split at created
  · obtain ⟨nodeMapper, _, created⟩ := Checked.bind_ok created
    cases created
    rfl
  · cases created
    rfl

/-- Only `populateShardMap` changes the shards of a service, and only of one that has none. -/
private theorem lookup_next (manager : SolvingManager) (stage : Stage) (svcId : ServiceId) :
    (machine.next manager stage).shardMappings.lookup svcId =
      (manager.shardMappings.lookup svcId).or ((drawsFor svcId stage).map newShardMapping) := by
  cases stage with
  | updateAll serviceMappings => exact (Option.or_none).symm
  | populateServiceConfig serviceIds => exact (Option.or_none).symm
  | populateShardMap serviceIds randomGen =>
    refine (lookup_populateShardMap serviceIds randomGen manager svcId).trans ?_
    simp only [drawsFor]
    split <;> rfl
  | populateShardMetricsMap serviceIds => exact (Option.or_none).symm
  | createSolvingState serviceIds =>
    have kept : (machine.next manager (.createSolvingState serviceIds)).shardMappings = manager.shardMappings := by
      change ((manager.createSolvingState serviceIds).toOption.getD manager).shardMappings = _
      cases created : manager.createSolvingState serviceIds with
      | error fault => rfl
      | ok after =>
        refine Checked.foldlM_invariant (fun after => after.shardMappings = manager.shardMappings) ?_ rfl created
        intro current _ _ next same turn
        exact (createState_shardMappings turn).trans same
    rw [kept]
    exact (Option.or_none).symm

/-- Whatever stages a manager goes through, in any order, a service has the shards it
had before, or else those of the first stage that populated it. -/
theorem populated_once (manager : SolvingManager) (stages : List Stage) (svcId : ServiceId) :
    (machine.after manager stages).shardMappings.lookup svcId =
      (manager.shardMappings.lookup svcId).or ((stages.findSome? (drawsFor svcId)).map newShardMapping) := by
  induction stages generalizing manager with
  | nil => exact (Option.or_none).symm
  | cons stage stages ih =>
    rw [Machine.after_cons, ih, lookup_next, Option.or_assoc, List.findSome?_cons]
    cases drawsFor svcId stage <;> rfl

private theorem newServiceRanges_eq :
    newServiceRanges = (0, 92233720368547759) :: (List.range 100).map fun position =>
      (position * 92233720368547760, position * 92233720368547760 + 92233720368547759) := by decide +kernel

private theorem newServiceRange (position : Nat) :
    newServiceRanges[position]? =
      if position < 101 then
        some ((position - 1) * 92233720368547760, (position - 1) * 92233720368547760 + 92233720368547759)
      else none := by
  rw [newServiceRanges_eq]
  cases position with
  | zero => rfl
  | succ position =>
    rw [List.getElem?_cons_succ, List.getElem?_map]
    by_cases inside : position < 100
    · rw [List.getElem?_range inside, if_pos (by omega)]
      rfl
    · rw [List.getElem?_eq_none (by simpa using inside), if_neg (by omega)]
      rfl

variable {randomGen : Nat → UInt64}

/-- Under a number is the shard of the first range for which the number was drawn. -/
theorem lookup_newShardMapping (id : Nat) (shard : Shard) :
    (newShardMapping randomGen).lookup id = some shard ↔
      ∃ position range, newServiceRanges[position]? = some range ∧ (randomGen position).toNat = id ∧
        shard = newShard range (randomGen position) ∧ ∀ earlier < position, randomGen earlier ≠ randomGen position := by
  rw [newShardMapping, UnorderedMap.lookup_emplaceAll, AList.lookup_empty, Option.none_or, Option.map_eq_some_iff]
  generalize newServiceRanges = ranges
  constructor
  · rintro ⟨⟨range, position⟩, found, rfl⟩
    obtain ⟨drawn, index, inside, atIndex, before⟩ := List.find?_eq_some_iff_getElem.mp found
    rw [List.getElem_zipIdx, Nat.zero_add] at atIndex
    obtain ⟨rfl, rfl⟩ := Prod.mk.inj atIndex
    have inside : index < ranges.length := by rwa [List.length_zipIdx] at inside
    refine ⟨index, ranges[index], List.getElem?_eq_getElem inside, of_decide_eq_true drawn, rfl, ?_⟩
    intro earlier earlierThan sameNumber
    have other := before earlier earlierThan
    rw [List.getElem_zipIdx, Nat.zero_add] at other
    simp_all
  · rintro ⟨position, range, there, rfl, rfl, before⟩
    obtain ⟨inside, rfl⟩ := List.getElem?_eq_some_iff.mp there
    refine ⟨(ranges[position], position), List.find?_eq_some_iff_getElem.mpr ?_, rfl⟩
    refine ⟨decide_eq_true rfl, position, by rwa [List.length_zipIdx], by simp, ?_⟩
    intro earlier earlierThan
    simpa [UInt64.toNat_inj] using before earlier earlierThan

/-- The shard under the number is one that the key belongs to. -/
def Owns (shardMapping : ShardMapping) (id key : Nat) : Prop :=
  ∃ shard, shardMapping.lookup id = some shard ∧ shard.range.start ≤ key ∧ key ≤ shard.range.end

private theorem owns_iff (id key : Nat) :
    Owns (newShardMapping randomGen) id key ↔
      ∃ position < 101, position - 1 = key / 92233720368547760 ∧ (randomGen position).toNat = id ∧
        ∀ earlier < position, randomGen earlier ≠ randomGen position := by
  unfold Owns
  simp only [lookup_newShardMapping, newServiceRange]
  constructor
  · rintro ⟨shard, ⟨position, range, there, drawn, rfl, before⟩, starts, ends⟩
    obtain ⟨inside, same⟩ := Option.ite_none_right_eq_some.mp there
    obtain rfl := Option.some.inj same
    simp only [newShard] at starts ends
    exact ⟨position, inside, by omega, drawn, before⟩
  · intro ⟨position, inside, same, drawn, before⟩
    refine ⟨_, ⟨position, _, if_pos inside, drawn, rfl, before⟩, ?_⟩
    simp only [newShard]
    omega

private theorem covered_iff :
    (∀ key ≤ 9223372036854775807, ∃ id, Owns (newShardMapping randomGen) id key) ↔
      ∀ later < 101, 2 ≤ later → ∀ earlier < later, randomGen earlier ≠ randomGen later := by
  simp only [owns_iff]
  constructor
  · intro covered later inside afterFirst
    obtain ⟨_, position, _, same, _, before⟩ := covered ((later - 1) * 92233720368547760) (by omega)
    have same : position = later := by omega
    exact same ▸ before
  · intro fresh key keyInside
    by_cases first : key < 92233720368547760
    · exact ⟨_, 0, by omega, by omega, rfl, fun earlier impossible => absurd impossible (by omega)⟩
    · exact ⟨_, key / 92233720368547760 + 1, by omega, by omega, rfl, fresh _ (by omega) (by omega)⟩

/-- No key is left without a shard exactly if the numbers after the first two are new
ones, and no key has two exactly if, besides, the first two are the same: where all
numbers are different, the first range has two shards. -/
theorem partitioned_iff :
    ((∀ key ≤ 9223372036854775807, ∃ id, Owns (newShardMapping randomGen) id key) ↔
      ∀ later < 101, 2 ≤ later → ∀ earlier < later, randomGen earlier ≠ randomGen later) ∧
    ((∀ key ≤ 9223372036854775807, ∃! id, Owns (newShardMapping randomGen) id key) ↔
      randomGen 0 = randomGen 1 ∧ ∀ later < 101, 2 ≤ later → ∀ earlier < later, randomGen earlier ≠ randomGen later) := by
  refine ⟨covered_iff, ?_⟩
  constructor
  · intro partitioned
    refine ⟨?_, covered_iff.mp fun key inside => (partitioned key inside).exists⟩
    by_contra different
    have first : Owns (newShardMapping randomGen) (randomGen 0).toNat 0 :=
      (owns_iff _ _).mpr ⟨0, by omega, by omega, rfl, fun earlier impossible => absurd impossible (by omega)⟩
    have second : Owns (newShardMapping randomGen) (randomGen 1).toNat 0 := by
      refine (owns_iff _ _).mpr ⟨1, by omega, by omega, rfl, fun earlier before => ?_⟩
      obtain rfl : earlier = 0 := by omega
      exact different
    exact different (UInt64.toNat_inj.mp ((partitioned 0 (by omega)).unique first second))
  · intro ⟨twice, fresh⟩ key keyInside
    obtain ⟨id, owner⟩ := covered_iff.mpr fresh key keyInside
    refine ⟨id, owner, fun other owns => ?_⟩
    obtain ⟨position, _, here, rfl, before⟩ := (owns_iff _ _).mp owner
    obtain ⟨second, _, there, rfl, beforeSecond⟩ := (owns_iff _ _).mp owns
    have notSecond : position ≠ 1 := fun same => before 0 (by omega) (same ▸ twice)
    have notSecond' : second ≠ 1 := fun same => beforeSecond 0 (by omega) (same ▸ twice)
    rw [show second = position by omega]

end SolvingManager
end ShardManager.Psychopomp

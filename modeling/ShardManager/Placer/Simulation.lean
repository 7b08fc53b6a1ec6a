import ShardManager.Placer.SolvingState

/-! `RandomTreeGenerator.h`: assignments to test the placer with. The i-th number that a
distribution yields is given by a sequence of draws. -/

namespace ShardManager.Simulation

/-- The value of a distribution on `[low, high]`. -/
def dist (low high draw : Nat) : Nat := low + draw % (high - low + 1)

/-- The loop over the shards, which puts each into the bin that is found for it. -/
def mapShards (numBins numShards : Nat) (binOf : DomainId → DomainId) : List (List DomainId) :=
  (List.range numShards).foldl (fun binShardMapping shardId => binShardMapping.modify (binOf shardId) (· ++ [shardId]))
    (List.replicate (numBins + 1) [])

def startingBin (mapEmptyBin : Bool) : Nat := if mapEmptyBin then 0 else 1

def mapShardsToBinsRandom (numBins numShards : Nat) (mapEmptyBin : Bool) (draws : Nat → Nat) : List (List DomainId) :=
  mapShards numBins numShards fun shardId => dist (startingBin mapEmptyBin) numBins (draws shardId)

def mapShardsToBinsEmpty (numBins numShards : Nat) : List (List DomainId) :=
  mapShards numBins numShards fun _ => kDefaultBin

variable {numBins numShards : Nat} {binOf : DomainId → DomainId}

theorem dist_le {low high : Nat} (possible : low ≤ high) (draw : Nat) : dist low high draw ≤ high := by
  have drawn : draw % (high - low + 1) < high - low + 1 := Nat.mod_lt draw (Nat.succ_pos (high - low))
  unfold dist
  omega

private theorem mapShards_eq (numBins numShards : Nat) (binOf : DomainId → DomainId) :
    mapShards numBins numShards binOf =
      (List.range (numBins + 1)).map fun binId => (List.range numShards).filter (binOf · = binId) := by
  unfold mapShards
  induction numShards with
  | zero =>
    apply List.ext_getElem
    · simp
    · simp
  | succ numShards ih =>
    rw [List.range_succ, List.foldl_concat, ih]
    apply List.ext_getElem
    · simp
    · intro binId _ _
      rw [List.getElem_modify]
      by_cases here : binOf numShards = binId <;> simp [here]

theorem mem_mapShards {binId : DomainId} {row : List DomainId} (found : (mapShards numBins numShards binOf)[binId]? = some row)
    (shardId : DomainId) : shardId ∈ row ↔ shardId < numShards ∧ binOf shardId = binId := by
  rw [mapShards_eq, List.getElem?_map, Option.map_eq_some_iff] at found
  obtain ⟨_, here, rfl⟩ := found
  obtain ⟨_, rfl⟩ := List.getElem?_eq_some_iff.mp here
  simp

theorem length_mapShards : (mapShards numBins numShards binOf).length = numBins + 1 := by
  rw [mapShards_eq, List.length_map, List.length_range]

theorem mapShards_once : (mapShards numBins numShards binOf).flatten.Nodup := by
  rw [mapShards_eq, List.nodup_flatten]
  constructor
  · intro row member
    obtain ⟨binId, _, rfl⟩ := List.mem_map.mp member
    exact List.nodup_range.filter _
  · rw [List.pairwise_map]
    refine List.nodup_range.imp ?_
    intro first second different shardId inFirst inSecond
    have here := (List.mem_filter.mp inFirst).2
    have there := (List.mem_filter.mp inSecond).2
    exact different ((of_decide_eq_true here).symm.trans (of_decide_eq_true there))

end ShardManager.Simulation

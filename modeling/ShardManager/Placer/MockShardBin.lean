import ShardManager.Lib.UnorderedMap

/-! `MockShardBin.h`: a bin whose shards take a while to come up and to go away. -/

namespace ShardManager

/-- Nanoseconds of `system_clock`. -/
abbrev TimePoint := Int

def seconds (count : Int) : Int := count * 1000000000

/-- For each shard, when it is up and when it is gone. -/
abbrev ShardSchedule := UnorderedMap UInt32 (TimePoint × TimePoint)

structure MockShardBin where
  dropTime : Int
  addTime : Int
  shardSchedule : ShardSchedule

namespace MockShardBin

def new (dropTime addTime : Int) : MockShardBin := ⟨dropTime, addTime, ∅⟩

/-- `never` is what `from_time_t` makes of the largest `time_t`. The product with the
clock's ticks overflows, so that C++ leaves it open; it is -1 second where it wraps. -/
def addShard (never now : TimePoint) (bin : MockShardBin) (shardId : UInt32) : MockShardBin :=
  { bin with shardSchedule := bin.shardSchedule.insert shardId (now + seconds bin.addTime, never) }

/-- A shard without an entry gets one that starts at the epoch. -/
def dropShard (now : TimePoint) (bin : MockShardBin) (shardId : UInt32) : MockShardBin :=
  { bin with
    shardSchedule := bin.shardSchedule.insert shardId
      (((bin.shardSchedule.lookup shardId).getD (0, 0)).1, now + seconds bin.dropTime) }

/-- The body of the loop over the schedule, with the active shards and the schedule so far. -/
def visit (now : TimePoint) (found : List UInt32 × ShardSchedule) (entry : Sigma fun _ : UInt32 => TimePoint × TimePoint) :
    List UInt32 × ShardSchedule :=
  if entry.2.2 < now then (found.1, found.2.erase entry.1)
  else if entry.2.1 ≥ now then (found.1 ++ [entry.1], found.2)
  else found

def getActiveShards (now : TimePoint) (bin : MockShardBin) : List UInt32 × MockShardBin :=
  let found := bin.shardSchedule.entries.foldl (visit now) ([], bin.shardSchedule)
  (found.1, { bin with shardSchedule := found.2 })

private theorem visits_active (now : TimePoint) (entries : List (Sigma fun _ : UInt32 => TimePoint × TimePoint))
    (found : List UInt32 × ShardSchedule) :
    (entries.foldl (visit now) found).1 =
      found.1 ++ (entries.filter fun entry => now ≤ entry.2.2 ∧ now ≤ entry.2.1).map Sigma.fst := by
  induction entries generalizing found with
  | nil => exact (List.append_nil _).symm
  | cons entry entries ih =>
    rw [List.foldl_cons, ih, visit]
    split
    next gone => rw [List.filter_cons_of_neg (by grind)]
    next stays =>
      split
      next up => rw [List.filter_cons_of_pos (by grind), List.map_cons, List.append_assoc, List.singleton_append]
      next waits => rw [List.filter_cons_of_neg (by grind)]

private theorem lookup_visits (now : TimePoint) (entries : List (Sigma fun _ : UInt32 => TimePoint × TimePoint))
    (found : List UInt32 × ShardSchedule) (shardId : UInt32) :
    (entries.foldl (visit now) found).2.lookup shardId =
      if ∃ entry ∈ entries, entry.1 = shardId ∧ entry.2.2 < now then none else found.2.lookup shardId := by
  induction entries generalizing found with
  | nil => simp
  | cons entry entries ih =>
    rw [List.foldl_cons, ih, visit]
    by_cases gone : entry.2.2 < now
    · rw [if_pos gone, UnorderedMap.lookup_erase]
      by_cases same : shardId = entry.1
      · rw [if_pos same, ite_self, if_pos ⟨entry, List.mem_cons_self, same.symm, gone⟩]
      · rw [if_neg same]
        refine if_congr ?_ rfl rfl
        simp [Ne.symm same]
    · rw [if_neg gone]
      have kept : (if entry.2.1 ≥ now then (found.1 ++ [entry.1], found.2) else found).2 = found.2 := by split <;> rfl
      rw [kept]
      refine if_congr ?_ rfl rfl
      simp [gone]

variable {now : TimePoint} {bin : MockShardBin} {shardId : UInt32}

theorem mem_getActiveShards : shardId ∈ (bin.getActiveShards now).1 ↔
    ∃ times, bin.shardSchedule.lookup shardId = some times ∧ now ≤ times.2 ∧ now ≤ times.1 := by
  rw [getActiveShards, visits_active]
  simp only [List.nil_append, List.mem_map, List.mem_filter, decide_eq_true_eq]
  constructor
  · rintro ⟨⟨_, times⟩, ⟨listed, active⟩, rfl⟩
    exact ⟨times, (UnorderedMap.mem_entries_iff _ _ _).mp listed, active⟩
  · rintro ⟨times, found, active⟩
    exact ⟨⟨shardId, times⟩, ⟨(UnorderedMap.mem_entries_iff _ _ _).mpr found, active⟩, rfl⟩

theorem nodup_getActiveShards (now : TimePoint) (bin : MockShardBin) : (bin.getActiveShards now).1.Nodup := by
  rw [getActiveShards, visits_active]
  have keys : (bin.shardSchedule.entries.map Sigma.fst).Nodup := AList.keys_nodup _
  exact keys.sublist (List.Sublist.map _ List.filter_sublist)

theorem lookup_getActiveShards (now : TimePoint) (bin : MockShardBin) (shardId : UInt32) :
    (bin.getActiveShards now).2.shardSchedule.lookup shardId =
      (bin.shardSchedule.lookup shardId).filter fun times => now ≤ times.2 := by
  rw [getActiveShards, lookup_visits]
  cases found : bin.shardSchedule.lookup shardId with
  | none => rw [ite_self, Option.filter_none]
  | some times =>
    have entry : (∃ entry ∈ bin.shardSchedule.entries, entry.1 = shardId ∧ entry.2.2 < now) ↔ times.2 < now := by
      constructor
      · rintro ⟨⟨_, others⟩, listed, rfl, gone⟩
        rw [UnorderedMap.mem_entries_iff, found] at listed
        cases listed
        exact gone
      · intro gone
        exact ⟨⟨shardId, times⟩, (UnorderedMap.mem_entries_iff _ _ _).mpr found, rfl, gone⟩
    by_cases gone : times.2 < now
    · rw [if_pos (entry.mpr gone), Option.filter_some_neg (by grind)]
    · rw [if_neg fun listed => gone (entry.mp listed), Option.filter_some_pos (by grind)]

end MockShardBin
end ShardManager

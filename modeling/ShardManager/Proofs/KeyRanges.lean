import ShardManager.Psychopomp.SolvingManagerUtils
import Mathlib.Tactic.Ring

/-! The ranges `generateShardKeyRangeMap` returns never partition the keys: they are
one key longer than the quotient, and a counted loop repeats the first one. -/

namespace ShardManager.KeyRanges

theorem toUInt64_of_lt {value : Nat} (less : value < 18446744073709551616) : toUInt64 value = value := Nat.mod_eq_of_lt less

theorem toUInt64_lt (value : Nat) : toUInt64 value < 18446744073709551616 := Nat.mod_lt _ (by decide)

private theorem toUInt64_add {first second : Nat} (firstLess : first < 18446744073709551616) (secondLess : second < 18446744073709551616)
    (above : first ≤ toUInt64 (first + second)) : toUInt64 (first + second) = first + second := by
  unfold toUInt64 at *
  omega

/-- Where the last loop leaves no gap, it advances by one more than the quotient each time. -/
private theorem fillRanges_last {range «end» : Nat} (narrow : range < 18446744073709551616) {turns : Nat} {back : ShardKeyRange}
    {filled : List ShardKeyRange} (finished : fillRanges range «end» turns back = some filled)
    (ordered : ∀ one ∈ filled, one.1 ≤ one.2) (meets : (back :: filled).IsChain fun one next => next.1 = one.2 + 1) :
    ((back :: filled).getLast (List.cons_ne_nil _ _)).2 = back.2 + (range + 1) * filled.length := by
  induction turns generalizing back filled with
  | zero => cases finished
  | succ turns ih =>
    rw [fillRanges] at finished
    split at finished
    next =>
      simp only [Option.map_eq_some_iff] at finished
      obtain ⟨rest, finished, rfl⟩ := finished
      obtain ⟨next, later⟩ := List.isChain_cons_cons.mp meets
      simp only at next
      have inside := toUInt64_lt (back.2 + 1)
      rw [next] at inside
      have here : back.2 + 1 ≤ toUInt64 (back.2 + 1 + range) := by
        have first := ordered _ (List.mem_cons_self)
        rwa [next] at first
      have last := ih finished (fun one member => ordered one (List.mem_cons_of_mem _ member)) later
      rw [toUInt64_add inside narrow here] at last
      rw [List.getLast_cons (List.cons_ne_nil _ _), List.length_cons]
      simp only [next, toUInt64_add inside narrow here]
      rw [next] at last
      rw [last]
      ring
    next =>
      obtain rfl := Option.some.inj finished
      simp

/-- No returned list is a partition, whatever the keys and the number of shards. -/
theorem generateShardKeyRangeMap_not_partition (start «end» numShards : Nat) (nonempty : start < «end»)
    (keys : «end» < 18446744073709551616) (positive : 1 ≤ numShards) :
    ¬ ∃ turns ranges, generateShardKeyRangeMap turns start «end» numShards = some ranges ∧
      Partition start «end» numShards ranges := by
  rintro ⟨turns, ranges, returned, length, ordered, first, last, meets⟩
  have difference : toUInt64 («end» + 18446744073709551616 - start) = «end» - start := by
    unfold toUInt64
    omega
  unfold generateShardKeyRangeMap at returned
  generalize quotient : toUInt64 («end» + 18446744073709551616 - start) / numShards = range at returned
  rw [difference] at quotient
  have below : range ≤ «end» - start := quotient ▸ Nat.div_le_self _ _
  have exceeds : «end» - start < (range + 1) * numShards := by
    rw [← quotient, mul_comm]
    exact Nat.lt_mul_div_succ _ positive
  simp only at returned
  split at returned
  next =>
    cases returned
    cases first
  next =>
    simp only [Option.map_eq_some_iff] at returned
    obtain ⟨filled, finished, rfl⟩ := returned
    have firstOrdered : start ≤ toUInt64 (start + range + 1) := ordered (start, toUInt64 (start + range + 1)) (by simp)
    cases iterations : numShards % range with
    | succ count =>
      -- The counted loop starts with the range that is already there.
      rw [iterations, longerRanges] at meets
      have again : start = toUInt64 (start + range + 1) + 1 := (List.isChain_cons_cons.mp meets).1
      omega
    | zero =>
      simp only [iterations, longerRanges, List.getLastD_nil, List.singleton_append] at finished meets last length ordered
      have reached := fillRanges_last (by omega) finished
        (fun one member => ordered one (List.mem_cons_of_mem _ member)) meets
      rw [List.getLast?_eq_some_getLast (List.cons_ne_nil _ _), Option.map_some, Option.some.injEq, reached] at last
      rw [List.length_cons] at length
      by_cases wraps : start + range + 1 < 18446744073709551616
      · rw [toUInt64_of_lt wraps] at last
        have product : (range + 1) * numShards = range + 1 + (range + 1) * filled.length := by
          rw [← length]
          ring
        omega
      · have zero : toUInt64 (start + range + 1) = 0 := by
          unfold toUInt64
          omega
        simp only [zero] at last firstOrdered
        have none : filled.length = 0 := by
          by_contra more
          have large : range + 1 ≤ (range + 1) * filled.length := Nat.le_mul_of_pos_right _ (Nat.pos_of_ne_zero more)
          omega
        rw [none] at last
        omega

theorem generateShardKeyRangeMap_two : ¬ ∃ turns ranges, generateShardKeyRangeMap turns 0 1 1 = some ranges ∧
    Partition 0 1 1 ranges :=
  generateShardKeyRangeMap_not_partition 0 1 1 (by decide) (by decide) (by decide)

/-- The hundred ranges of a new service are a hundred and one, the first two equal. -/
theorem generateShardKeyRangeMap_newService :
    (generateShardKeyRangeMap 1 0 9223372036854775807 100).isSome ∧
    ¬ ∃ ranges, generateShardKeyRangeMap 1 0 9223372036854775807 100 = some ranges ∧
      Partition 0 9223372036854775807 100 ranges := by
  have length : (generateShardKeyRangeMap 1 0 9223372036854775807 100).map List.length = some 101 := by decide +kernel
  refine ⟨by decide +kernel, ?_⟩
  rintro ⟨ranges, returned, partition⟩
  rw [returned, Option.map_some, partition.length] at length
  cases length

end ShardManager.KeyRanges

import Mathlib.Data.List.Chain

/-! `SolvingManagerUtils.h`: the key ranges of a new service. Keys and counters are
64-bit unsigned: sums wrap around. -/

namespace ShardManager

/-- The value an integer has after conversion to `uint64_t` or `size_t`. -/
def toUInt64 (value : Nat) : Nat := value % 18446744073709551616

/-- A pair of `ShardKey`s, which are `uint64_t`. -/
abbrev ShardKeyRange := Nat × Nat

namespace KeyRanges

/-- The counted loop, with the iterations left. It pushes before it moves `start`. -/
def longerRanges (range : Nat) : Nat → Nat → List ShardKeyRange
  | 0, _ => []
  | iterations + 1, start =>
    (start, toUInt64 (start + range + 1)) :: longerRanges range iterations (toUInt64 (start + range + 2))

/-- `while (shardKeyRangeMap.back().second < end)`, given the last element; `none`
where the turns run out first. -/
def fillRanges (range «end» : Nat) : Nat → ShardKeyRange → Option (List ShardKeyRange)
  | 0, _ => none
  | turns + 1, back =>
    if back.2 < «end» then
      let next := (toUInt64 (back.2 + 1), toUInt64 (back.2 + 1 + range))
      (fillRanges range «end» turns next).map (next :: ·)
    else some []

/-- `none` while the turns given for the last loop leave it unfinished. The
parameters are 64-bit values; `end - start` wraps where `end` is less. -/
def generateShardKeyRangeMap (turns : Nat) (start «end» numShards : Nat) : Option (List ShardKeyRange) :=
  let range := toUInt64 («end» + 18446744073709551616 - start) / numShards
  if range ≤ 0 then some []
  else
    let first := (start, toUInt64 (start + range + 1))
    let longer := longerRanges range (numShards % range) start
    (fillRanges range «end» turns (longer.getLastD first)).map fun filled => first :: longer ++ filled

/-- So many inclusive ranges from one key to another, without gap or overlap. -/
structure Partition (start «end» numShards : Nat) (ranges : List ShardKeyRange) : Prop where
  length : ranges.length = numShards
  ordered : ∀ range ∈ ranges, range.1 ≤ range.2
  first : ranges.head?.map Prod.fst = some start
  last : ranges.getLast?.map Prod.snd = some «end»
  meets : ranges.IsChain fun range next => next.1 = range.2 + 1

end KeyRanges
end ShardManager

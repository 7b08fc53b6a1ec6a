import ShardManager.Lib.Traced
import ShardManager.Proofs.KeyRanges

/-! Where the key ranges end before the keys do. The last loop advances by a fixed
stride until it reaches the end of the range, or the keys wrap around. -/

namespace ShardManager.KeyRanges

/-- Computations that note the exact sums of keys. They stop where the turns run out. -/
abbrev Keyed (α : Type) := Traced Unit Nat α

def addKey (first second : Nat) : Keyed Nat := do
  Traced.tell (first + second)
  pure (toUInt64 (first + second))

def tracedLonger (range : Nat) : Nat → Nat → Keyed (List ShardKeyRange)
  | 0, _ => pure []
  | iterations + 1, start => do
    let sum ← addKey start range
    let second ← addKey sum 1
    let stride ← addKey range 2
    let next ← addKey start stride
    let longer ← tracedLonger range iterations next
    pure ((start, second) :: longer)

def tracedFill (range «end» : Nat) : Nat → ShardKeyRange → Keyed (List ShardKeyRange)
  | 0, _ => Traced.lift (.error ())
  | turns + 1, back =>
    if back.2 < «end» then do
      let first ← addKey back.2 1
      let sum ← addKey back.2 1
      let second ← addKey sum range
      let filled ← tracedFill range «end» turns (first, second)
      pure ((first, second) :: filled)
    else pure []

/-- The function, with the sums of keys as they are before they wrap around. -/
def tracedRanges (turns : Nat) (start «end» numShards : Nat) : Keyed (List ShardKeyRange) :=
  let range := toUInt64 («end» + 18446744073709551616 - start) / numShards
  if range ≤ 0 then pure []
  else do
    let sum ← addKey start range
    let second ← addKey sum 1
    let longer ← tracedLonger range (numShards % range) start
    let filled ← tracedFill range «end» turns (longer.getLastD (start, second))
    pure ((start, second) :: longer ++ filled)

section Results

private theorem addKey_bind_result {α : Type} (first second : Nat) (next : Nat → Keyed α) :
    (addKey first second >>= next).result = (next (toUInt64 (first + second))).result := rfl

private theorem toUInt64_toUInt64_add (first second : Nat) : toUInt64 (toUInt64 first + second) = toUInt64 (first + second) :=
  Nat.mod_add_mod first 18446744073709551616 second

private theorem toUInt64_add_toUInt64 (first second : Nat) : toUInt64 (first + toUInt64 second) = toUInt64 (first + second) :=
  Nat.add_mod_mod first second 18446744073709551616

private theorem tracedLonger_result (range iterations start : Nat) :
    (tracedLonger range iterations start).result = .ok (longerRanges range iterations start) := by
  induction iterations generalizing start with
  | zero => rfl
  | succ iterations ih =>
    rw [tracedLonger, longerRanges]
    simp only [addKey_bind_result, toUInt64_toUInt64_add, toUInt64_add_toUInt64]
    rw [Traced.result_bind_eq, ih]
    rfl

private theorem tracedFill_result (range «end» turns : Nat) (back : ShardKeyRange) :
    (tracedFill range «end» turns back).result.toOption = fillRanges range «end» turns back := by
  induction turns generalizing back with
  | zero => rfl
  | succ turns ih =>
    rw [tracedFill, fillRanges]
    split
    next =>
      simp only [addKey_bind_result, toUInt64_toUInt64_add]
      rw [Traced.result_bind_eq, ← ih]
      cases (tracedFill range «end» turns _).result <;> rfl
    next => rfl

private theorem tracedRanges_result (turns start «end» numShards : Nat) :
    (tracedRanges turns start «end» numShards).result.toOption = generateShardKeyRangeMap turns start «end» numShards := by
  rw [tracedRanges, generateShardKeyRangeMap]
  generalize toUInt64 («end» + 18446744073709551616 - start) / numShards = range
  simp only
  split
  next => rfl
  next =>
    simp only [addKey_bind_result, toUInt64_toUInt64_add]
    rw [Traced.result_bind_eq, tracedLonger_result]
    change ((tracedFill range «end» turns _ >>= _).result).toOption = _
    rw [Traced.result_bind_eq, ← tracedFill_result]
    cases (tracedFill range «end» turns _).result <;> rfl

end Results

def spaced (stride width start : Nat) : Nat → List ShardKeyRange
  | 0 => []
  | count + 1 => (start, start + width) :: spaced stride width (start + stride) count

/-- No sum of keys wraps around, and the result has a property. -/
abbrev Unwrapped {α : Type} (onResult : α → Prop) (run : Keyed α) : Prop :=
  Traced.Finishes (fun sum => sum < 18446744073709551616) onResult run

section Unwrapped
variable {α : Type} {onResult : α → Prop}

private theorem unwrapped_pure {value : α} : Unwrapped onResult (pure value) ↔ onResult value := Traced.finishes_pure

private theorem unwrapped_bind {β : Type} {first : Keyed β} {next : β → Keyed α} :
    Unwrapped onResult (first >>= next) ↔ Unwrapped (fun value => Unwrapped onResult (next value)) first :=
  Traced.finishes_bind

private theorem unwrapped_addKey {first second : Nat} {next : Nat → Keyed α} :
    Unwrapped onResult (addKey first second >>= next) ↔
      first + second < 18446744073709551616 ∧ Unwrapped onResult (next (first + second)) := by
  rw [unwrapped_bind, addKey, unwrapped_bind, Unwrapped, Traced.finishes_tell, unwrapped_pure]
  refine and_congr_right fun inside => ?_
  rw [toUInt64_of_lt inside]

private theorem unwrapped_longer {range iterations start : Nat} {onLonger : List ShardKeyRange → Prop}
    (inside : start < 18446744073709551616) :
    Unwrapped onLonger (tracedLonger range iterations start) ↔
      start + iterations * (range + 2) < 18446744073709551616 ∧ onLonger (spaced (range + 2) (range + 1) start iterations) := by
  induction iterations generalizing start onLonger with
  | zero =>
    rw [tracedLonger, unwrapped_pure, spaced, Nat.zero_mul]
    exact (and_iff_right inside).symm
  | succ iterations ih =>
    have moved : start + (iterations + 1) * (range + 2) = start + (range + 2) + iterations * (range + 2) := by ring
    rw [tracedLonger, spaced, moved]
    simp only [unwrapped_addKey]
    rw [unwrapped_bind]
    simp only [unwrapped_pure]
    constructor
    · rintro ⟨_, _, _, next, rest⟩
      exact (ih next).mp rest
    · rintro ⟨all, holds⟩
      have next : start + (range + 2) < 18446744073709551616 := by omega
      exact ⟨by omega, by omega, by omega, next, (ih next).mpr ⟨all, holds⟩⟩

/-- How many more ranges the last loop needs from a key to the end. -/
def turnsFrom (range «end» back : Nat) : Nat := («end» - back + range) / (range + 1)

private theorem turnsFrom_done {range «end» back : Nat} (done : «end» ≤ back) : turnsFrom range «end» back = 0 := by
  rw [turnsFrom, Nat.sub_eq_zero_of_le done, Nat.zero_add]
  exact Nat.div_eq_of_lt (Nat.lt_succ_self range)

private theorem turnsFrom_next {range «end» back : Nat} (before : back < «end») :
    turnsFrom range «end» back = turnsFrom range «end» (back + 1 + range) + 1 := by
  rw [turnsFrom, turnsFrom, ← Nat.add_div_right _ (Nat.succ_pos range)]
  rcases Nat.lt_or_ge (back + 1 + range) «end» with more | last
  · congr 1
    omega
  · have once : («end» - back + range) / (range + 1) = 1 := Nat.div_eq_of_lt_le (by omega) (by omega)
    rw [once, Nat.sub_eq_zero_of_le last, Nat.zero_add]
    exact (Nat.div_eq_of_lt_le (by omega) (by omega)).symm

private theorem unwrapped_fill {range «end» turns : Nat} (back : ShardKeyRange) {onFilled : List ShardKeyRange → Prop}
    (inside : back.2 < 18446744073709551616) :
    Unwrapped onFilled (tracedFill range «end» turns back) ↔
      turnsFrom range «end» back.2 < turns ∧
        back.2 + turnsFrom range «end» back.2 * (range + 1) < 18446744073709551616 ∧
        onFilled (spaced (range + 1) range (back.2 + 1) (turnsFrom range «end» back.2)) := by
  induction turns generalizing back onFilled with
  | zero => exact iff_of_false Traced.not_finishes_error fun holds => Nat.not_lt_zero _ holds.1
  | succ turns ih =>
    rw [tracedFill]
    split
    next before =>
      simp only [unwrapped_addKey]
      rw [unwrapped_bind]
      simp only [unwrapped_pure]
      rw [turnsFrom_next before, spaced]
      have rest := @ih (back.2 + 1, back.2 + 1 + range) fun filled => onFilled ((back.2 + 1, back.2 + 1 + range) :: filled)
      simp only at rest
      generalize turnsFrom range «end» (back.2 + 1 + range) = count at rest ⊢
      have moved : back.2 + (count + 1) * (range + 1) = back.2 + 1 + range + count * (range + 1) := by ring
      rw [moved]
      constructor
      · rintro ⟨_, _, next, finishes⟩
        obtain ⟨enough, all, holds⟩ := (rest next).mp finishes
        exact ⟨Nat.succ_lt_succ enough, all, holds⟩
      · rintro ⟨enough, all, holds⟩
        have next : back.2 + 1 + range < 18446744073709551616 := by omega
        exact ⟨by omega, by omega, next, (rest next).mpr ⟨Nat.lt_of_succ_lt_succ enough, all, holds⟩⟩
    next past =>
      rw [unwrapped_pure, turnsFrom_done (Nat.le_of_not_lt past), Nat.zero_mul]
      exact ⟨fun holds => ⟨Nat.succ_pos turns, inside, holds⟩, fun holds => holds.2.2⟩

end Unwrapped

private theorem spaced_ordered {stride width start count : Nat} : ∀ range ∈ spaced stride width start count, range.1 ≤ range.2 := by
  induction count generalizing start with
  | zero => rintro _ ⟨⟩
  | succ count ih =>
    intro range member
    rw [spaced] at member
    rcases List.mem_cons.mp member with rfl | later
    · exact Nat.le_add_right start width
    · exact ih range later

def countedKey (range iterations start : Nat) : Nat :=
  if iterations = 0 then start + range + 1 else start + iterations * (range + 2) - 1

private theorem spaced_last (range iterations start : Nat) (first : ShardKeyRange) :
    ((spaced (range + 2) (range + 1) start iterations).getLastD first).2 =
      if iterations = 0 then first.2 else start + iterations * (range + 2) - 1 := by
  induction iterations generalizing start first with
  | zero => rfl
  | succ iterations ih =>
    have moved : start + (iterations + 1) * (range + 2) = start + (range + 2) + iterations * (range + 2) := by ring
    rw [spaced, List.getLastD_cons, ih, if_neg (Nat.succ_ne_zero iterations), moved]
    split
    next none =>
      rw [none]
      omega
    next => rfl

/-- Neither the start after the counted loop nor the key that the last loop ends with is
past the last key there is. -/
structure HasRoom (range iterations start «end» : Nat) : Prop where
  counted : start + iterations * (range + 2) < 18446744073709551616
  filled : countedKey range iterations start + turnsFrom range «end» (countedKey range iterations start) * (range + 1) <
    18446744073709551616

theorem HasRoom.first {range iterations start «end» : Nat} (room : HasRoom range iterations start «end») :
    start + range + 1 < 18446744073709551616 := by
  obtain ⟨counted, filled⟩ := room
  rw [countedKey] at filled
  split at filled
  next => omega
  next some =>
    have once : range + 2 ≤ iterations * (range + 2) := Nat.le_mul_of_pos_left _ (Nat.pos_of_ne_zero some)
    omega

private theorem countedKey_lt {range iterations start : Nat} (first : start + range + 1 < 18446744073709551616)
    (counted : start + iterations * (range + 2) < 18446744073709551616) : countedKey range iterations start < 18446744073709551616 := by
  rw [countedKey]
  split <;> omega

/-- Where there are keys for the shards, both loops end exactly if there is room and the last loop has its turns. -/
private theorem unwrapped_ranges (turns : Nat) {start «end» numShards range : Nat} (inside : start < 18446744073709551616)
    (quotient : toUInt64 («end» + 18446744073709551616 - start) / numShards = range) (some : range ≠ 0) :
    Unwrapped (fun ranges => ∀ range ∈ ranges, range.1 ≤ range.2) (tracedRanges turns start «end» numShards) ↔
      HasRoom range (numShards % range) start «end» ∧
        turnsFrom range «end» (countedKey range (numShards % range) start) < turns := by
  simp only [tracedRanges, quotient]
  generalize numShards % range = iterations
  have back : ((spaced (range + 2) (range + 1) start iterations).getLastD (start, start + range + 1)).2 =
      countedKey range iterations start := spaced_last range iterations start _
  have ordered : ∀ count, ∀ one ∈ (start, start + range + 1) :: spaced (range + 2) (range + 1) start iterations ++
      spaced (range + 1) range (countedKey range iterations start + 1) count, one.1 ≤ one.2 := by
    intro count one member
    rcases List.mem_append.mp member with early | late
    · rcases List.mem_cons.mp early with rfl | counted
      · exact Nat.le_add_right start (range + 1)
      · exact spaced_ordered one counted
    · exact spaced_ordered one late
  rw [if_neg (Nat.not_le_of_gt (Nat.pos_of_ne_zero some))]
  simp only [unwrapped_addKey]
  rw [unwrapped_bind, unwrapped_longer inside, unwrapped_bind]
  constructor
  · rintro ⟨_, first, counted, finishes⟩
    rw [unwrapped_fill _ (back ▸ countedKey_lt first counted), back] at finishes
    exact ⟨⟨counted, finishes.2.1⟩, finishes.1⟩
  · rintro ⟨room, enough⟩
    have first := room.first
    refine ⟨by omega, first, room.counted, ?_⟩
    rw [unwrapped_fill _ (back ▸ countedKey_lt first room.counted), back, unwrapped_pure]
    exact ⟨enough, room.filled, ordered _⟩

/-- Both loops end, without a sum of keys that wraps around and with ranges that are in
order, exactly if there are more shards than keys or there is room for the ranges. -/
theorem generateShardKeyRangeMap_ends_iff (start «end» numShards : Nat) (ordered : start ≤ «end»)
    (keys : «end» < 18446744073709551616) (positive : 1 ≤ numShards) :
    (∀ turns, (tracedRanges turns start «end» numShards).result.toOption =
      generateShardKeyRangeMap turns start «end» numShards) ∧
    ((∃ turns, Unwrapped (fun ranges => ∀ range ∈ ranges, range.1 ≤ range.2) (tracedRanges turns start «end» numShards)) ↔
      «end» - start < numShards ∨
        HasRoom ((«end» - start) / numShards) (numShards % ((«end» - start) / numShards)) start «end») := by
  refine ⟨fun turns => tracedRanges_result turns start «end» numShards, ?_⟩
  have difference : toUInt64 («end» + 18446744073709551616 - start) = «end» - start := by
    unfold toUInt64
    omega
  have inside : start < 18446744073709551616 := by omega
  have few : («end» - start) / numShards = 0 ↔ «end» - start < numShards := Nat.div_eq_zero_iff_lt positive
  rw [← few]
  by_cases zero : («end» - start) / numShards = 0
  · refine iff_of_true ⟨0, ?_⟩ (.inl zero)
    simp only [tracedRanges, difference, zero]
    rw [if_pos (Nat.le_refl 0), unwrapped_pure]
    rintro _ ⟨⟩
  · have loops := fun turns => unwrapped_ranges turns inside (congrArg (· / numShards) difference) zero
    simp only [loops]
    constructor
    · rintro ⟨turns, room, _⟩
      exact .inr room
    · rintro (none | room)
      · exact absurd none zero
      · exact ⟨_, room, Nat.lt_succ_self _⟩

/-- The keys of a new service leave room for its ranges. -/
theorem generateShardKeyRangeMap_ends_newService :
    ∃ turns, Unwrapped (fun ranges => ∀ range ∈ ranges, range.1 ≤ range.2) (tracedRanges turns 0 9223372036854775807 100) := by
  refine (generateShardKeyRangeMap_ends_iff 0 9223372036854775807 100 (by decide) (by decide) (by decide)).2.mpr (.inr ?_)
  exact ⟨by decide, by decide +kernel⟩

private theorem fillRanges_even {turns : Nat} {back : ShardKeyRange} (even : back.2 % 2 = 0) (inside : back.2 < 18446744073709551616) :
    fillRanges 1 18446744073709551615 turns back = none := by
  induction turns generalizing back with
  | zero => rfl
  | succ turns ih =>
    have next : toUInt64 (back.2 + 1 + 1) % 2 = 0 := by
      unfold toUInt64
      omega
    rw [fillRanges, if_pos (by omega), Option.map_eq_none_iff]
    exact ih next (toUInt64_lt _)

/-- For the last two keys the last loop takes every second key, over and over. -/
theorem generateShardKeyRangeMap_endless :
    (∀ turns, generateShardKeyRangeMap turns 18446744073709551614 18446744073709551615 1 = none) ∧
    ¬ ∃ turns, Unwrapped (fun ranges => ∀ range ∈ ranges, range.1 ≤ range.2)
      (tracedRanges turns 18446744073709551614 18446744073709551615 1) := by
  have endless : ∀ turns, generateShardKeyRangeMap turns 18446744073709551614 18446744073709551615 1 = none := by
    intro turns
    have filling : fillRanges 1 18446744073709551615 turns (18446744073709551614, 0) = none := fillRanges_even rfl (by decide)
    change Option.map _ (fillRanges 1 18446744073709551615 turns (18446744073709551614, 0)) = none
    rw [filling]
    rfl
  refine ⟨endless, ?_⟩
  rintro ⟨turns, _, ranges, returned, _⟩
  have result := tracedRanges_result turns 18446744073709551614 18446744073709551615 1
  rw [returned, endless] at result
  cases result

end ShardManager.KeyRanges

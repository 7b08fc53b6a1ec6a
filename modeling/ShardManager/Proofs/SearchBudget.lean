import ShardManager.Lib.Budget
import ShardManager.Proofs.Reassignment
import Mathlib.Data.Finset.Card

/-! How long `solve` can take: what it evaluates is bounded by the bins and the shards
that are placed in them, and it ends on every sequence of draws in which each bin
keeps coming up, whatever weights the constraints report. -/

namespace ShardManager.IterativeLocalSearch
variable {ι C : Type} [DecidableEq ι] [ConstraintOps C] (order : HashOrder) (state : SolvingState) (constraints : List ι)

def placedShards (state : SolvingState) : List DomainId :=
  (((state.assignmentTree.parentToChildMap.lookup state.binDomain).getD ∅).entries.flatMap Sigma.snd).dedup

def unmovedShards (state : SolvingState) (moves : MovementMap) : List DomainId :=
  (placedShards state).filter fun shard => (moves.getNextBin shard).isNone

def candidatesPerShard (numBins : Nat) : Nat := min (numBins - 1) 50

def isEvaluated : Event ι C → Bool
  | .evaluated _ _ _ => true
  | _ => false

/-- After its first draw, a round of draws brings every bin up. -/
def BringsUpAll (numBins : Nat) (round : List Nat) : Prop :=
  round ≠ [] ∧ ∀ binId < numBins, ∃ draw ∈ round.tail, distr numBins draw = binId

/-- The draws begin with so many rounds, one after the other. -/
def Stocked (numBins : Nat) : Nat → List Nat → Prop
  | 0, _ => True
  | rounds + 1, draws => ∃ round rest, draws = round ++ rest ∧ BringsUpAll numBins round ∧ Stocked numBins rounds rest

section Draws
variable {numBins : Nat}

private theorem mem_placedShards {state : SolvingState} {shard binId : DomainId} (listed : Listed state shard binId) :
    shard ∈ placedShards state := by
  unfold Listed SparseMappingTree.children ChildRows.row at listed
  rw [placedShards, List.mem_dedup, List.mem_flatMap]
  cases rows : state.assignmentTree.parentToChildMap.lookup state.binDomain with
  | none => simp [rows] at listed
  | some rows' =>
    rw [rows, Option.bind_some] at listed
    cases row : rows'.lookup binId with
    | none => simp [row] at listed
    | some children =>
      rw [row] at listed
      exact ⟨⟨binId, children⟩, (UnorderedMap.mem_entries_iff _ _ _).mpr row, listed⟩

private theorem unmovedShards_commit {state : SolvingState} {committedMoves : MovementMap} {shard nextBin : DomainId}
    (candidate : Candidate state committedMoves shard nextBin) :
    (unmovedShards state (committedMoves.addMovements (.addMovement {} shard nextBin))).length <
      (unmovedShards state committedMoves).length := by
  obtain ⟨former, listed, _⟩ := candidate.listed
  have member : shard ∈ unmovedShards state committedMoves :=
    List.mem_filter.mpr ⟨mem_placedShards listed, by simp [candidate.unmoved]⟩
  have smaller : unmovedShards state (committedMoves.addMovements (.addMovement {} shard nextBin)) =
      (unmovedShards state committedMoves).filter (· ≠ shard) := by
    rw [unmovedShards, unmovedShards, List.filter_filter]
    apply List.filter_congr
    intro other _
    by_cases same : other = shard <;> simp [same]
  rw [smaller]
  exact List.length_filter_lt_length_iff_exists.mpr ⟨shard, member, by simp⟩

private theorem Stocked.prepend {rounds : Nat} {draws : List Nat} (stocked : Stocked numBins rounds draws) (before : List Nat) :
    Stocked numBins rounds (before ++ draws) := by
  cases rounds with
  | zero => trivial
  | succ rounds =>
    obtain ⟨round, rest, rfl, all, stocked⟩ := stocked
    refine ⟨before ++ round, rest, by rw [List.append_assoc], ⟨by simp [all.1], ?_⟩, stocked⟩
    intro binId inside
    obtain ⟨draw, member, drawn⟩ := all.2 binId inside
    refine ⟨draw, ?_, drawn⟩
    cases before with
    | nil => exact member
    | cons first before => exact List.mem_append_right before (List.mem_of_mem_tail member)

theorem Stocked.append {rounds : Nat} {draws : List Nat} (stocked : Stocked numBins rounds draws) (more : List Nat) :
    Stocked numBins rounds (draws ++ more) := by
  induction rounds generalizing draws with
  | zero => trivial
  | succ rounds ih =>
    obtain ⟨round, rest, rfl, all, stocked⟩ := stocked
    exact ⟨round, rest ++ more, by rw [List.append_assoc], all, ih stocked⟩

theorem Stocked.fewer {rounds more : Nat} {draws : List Nat} (stocked : Stocked numBins (rounds + more) draws) :
    Stocked numBins rounds draws := by
  induction rounds generalizing draws with
  | zero => trivial
  | succ rounds ih =>
    rw [Nat.succ_add_eq_add_succ, Nat.add_succ] at stocked
    obtain ⟨round, rest, rfl, all, stocked⟩ := stocked
    exact ⟨round, rest, rfl, all, ih stocked⟩

theorem drawBins_length {binId : DomainId} {draws rest : List Nat} {binSet final : UnorderedSet DomainId}
    (small : binSet.keys.length ≤ candidatesPerShard numBins) (filled : drawBins numBins binId draws binSet = some (final, rest)) :
    final.keys.length ≤ candidatesPerShard numBins := by
  unfold candidatesPerShard at small ⊢
  induction draws generalizing binSet with
  | nil =>
    rw [drawBins] at filled
    split at filled
    · cases filled
    · cases filled
      exact small
  | cons draw draws ih =>
    rw [drawBins] at filled
    split at filled
    next more =>
      simp only at filled
      split at filled
      next => exact ih small filled
      next =>
        apply ih _ filled
        have grows : (binSet.insert (distr numBins draw) ()).keys.length ≤ binSet.keys.length + 1 := by
          rw [AList.keys_insert, List.length_cons]
          exact Nat.succ_le_succ List.erase_sublist.length_le
        omega
    next =>
      cases filled
      exact small

/-- Draws in which every other bin is in the set or comes up fill the set, and those
behind them are left. -/
private theorem drawBins_filled (binId : DomainId) (covering more : List Nat) (binSet : UnorderedSet DomainId)
    (covers : ∀ bin < numBins, bin ≠ binId → bin ∈ binSet.keys ∨ ∃ draw ∈ covering, distr numBins draw = bin) :
    ∃ final rest, drawBins numBins binId (covering ++ more) binSet = some (final, rest ++ more) := by
  induction covering generalizing binSet with
  | nil =>
    have full : ((List.range numBins).erase binId).length ≤ binSet.keys.length := by
      apply List.Nodup.length_le_of_subset (List.nodup_range.erase binId)
      intro bin member
      obtain ⟨different, inside⟩ := List.nodup_range.mem_erase_iff.mp member
      obtain known | ⟨draw, impossible, _⟩ := covers bin (List.mem_range.mp inside) different
      · exact known
      · cases impossible
    have others : numBins - 1 ≤ ((List.range numBins).erase binId).length := by
      rw [List.length_erase, List.length_range]
      split <;> omega
    refine ⟨binSet, [], ?_⟩
    rw [List.nil_append, drawBins.eq_def]
    simp only
    rw [if_neg (by omega)]
  | cons draw covering ih =>
    rw [List.cons_append, drawBins]
    split
    next =>
      simp only
      split
      next same =>
        apply ih
        intro bin inside different
        obtain known | ⟨other, member, drawn⟩ := covers bin inside different
        · exact .inl known
        · rcases List.mem_cons.mp member with rfl | member
          · exact absurd (drawn.symm.trans same) different
          · exact .inr ⟨other, member, drawn⟩
      next =>
        apply ih
        intro bin inside different
        obtain known | ⟨other, member, drawn⟩ := covers bin inside different
        · exact .inl (by rw [← AList.mem_keys, AList.mem_insert, AList.mem_keys]; exact .inr known)
        · rcases List.mem_cons.mp member with rfl | member
          · exact .inl (by rw [← AList.mem_keys, AList.mem_insert]; exact .inl drawn.symm)
          · exact .inr ⟨other, member, drawn⟩
    next => exact ⟨binSet, draw :: covering, rfl⟩

private theorem not_stocked_nil {rounds : Nat} : ¬ Stocked numBins (rounds + 1) [] := by
  rintro ⟨round, rest, none, all, _⟩
  exact all.1 (List.append_eq_nil_iff.mp none.symm).1

theorem Stocked.turn {rounds draw : Nat} {draws : List Nat} (stocked : Stocked numBins (rounds + 1) (draw :: draws)) (binId : DomainId) :
    ∃ binSet rest, drawBins numBins binId draws ∅ = some (binSet, rest) ∧ Stocked numBins rounds rest := by
  obtain ⟨round, rest, split, ⟨some, all⟩, stocked⟩ := stocked
  obtain ⟨first, covering, rfl⟩ := List.exists_cons_of_ne_nil some
  obtain ⟨rfl, rfl⟩ := List.cons.inj split
  obtain ⟨binSet, left, filled⟩ := drawBins_filled binId covering rest ∅ fun bin inside _ => .inr (all bin inside)
  exact ⟨binSet, left ++ rest, filled, stocked.prepend left⟩

end Draws

/-- What one turn for a shard needs: a stop for want of draws is allowed, or draws that
are enough for one more turn leave enough for the others. -/
structure Supply (numBins : Nat) (enough : Nat → List Nat → Prop) (allowed : Stop → Prop) : Prop where
  faults : ∀ fault, allowed (.fault fault)
  fewer : ∀ turns more draws, enough (turns + more) draws → enough turns draws
  empty : ∀ turns, enough (turns + 1) [] → allowed .outOfDraws
  short : ∀ turns draw draws binId, enough (turns + 1) (draw :: draws) → drawBins numBins binId draws ∅ = none → allowed .outOfDraws
  turn : ∀ turns draw draws binId binSet rest, enough (turns + 1) (draw :: draws) →
    drawBins numBins binId draws ∅ = some (binSet, rest) → enough turns rest

private theorem supply_any (numBins : Nat) : Supply numBins (fun _ _ => True) (fun _ => True) := by
  constructor <;> simp

private theorem supply_stocked (numBins : Nat) : Supply numBins (Stocked numBins) (· ≠ .outOfDraws) where
  faults _ := by simp
  fewer _ _ _ stocked := stocked.fewer
  empty _ stocked := absurd stocked not_stocked_nil
  short _ _ _ binId stocked unfilled := by
    obtain ⟨binSet, rest, filled, _⟩ := stocked.turn binId
    rw [unfilled] at filled
    cases filled
  turn _ _ _ binId _ _ stocked filled := by
    obtain ⟨binSet, rest, same, left⟩ := stocked.turn binId
    rw [filled] at same
    cases same
    exact left

section Loops
variable {order state constraints} {numBins : Nat} {enough : Nat → List Nat → Prop} {allowed : Stop → Prop}

private theorem tryNextBins_within (faults : ∀ fault, allowed (.fault fault)) (shard : DomainId) (binSet : List DomainId) (search : Search ι C) :
    Traced.Within isEvaluated allowed binSet.length (fun outcome => outcome.2.draws = search.draws)
      (tryNextBins order state constraints shard binSet search) := by
  induction binSet generalizing search with
  | nil => exact Traced.within_pure rfl
  | cons nextBinId binSet ih =>
    rw [tryNextBins, List.length_cons]
    cases evaluated : evaluate order state constraints search.committedMoves (.addMovement {} shard nextBinId) search.world with
    | error fault => exact Traced.within_error (faults fault)
    | ok world =>
      have found : Traced.Within isEvaluated allowed 0 (fun value => world = value)
          (checked (.ok world) : Run ι C (World ι C)) := Traced.within_pure rfl
      refine (Traced.within_bind found ?_).mono (Nat.zero_add _).le fun _ same => same
      rintro _ rfl
      rw [Nat.add_comm]
      refine Traced.within_bind (Traced.within_tell fun _ => Nat.le_refl 1) ?_
      intro _ _
      simp only
      split
      next => exact Traced.within_pure rfl
      next => exact ih { search with world }

/-- Each turn evaluates the bins drawn for it. The supply lasts for the turns to come. -/
private theorem tryShards_within (supply : Supply numBins enough allowed) (binId : DomainId) (shards : List DomainId) (later : Nat)
    (iterations : Nat) (search : Search ι C) (stocked : enough (later + iterations) search.draws) :
    Traced.Within isEvaluated allowed (iterations * candidatesPerShard numBins) (fun outcome => enough later outcome.2.draws)
      (tryShards order state constraints numBins binId shards iterations search) := by
  induction iterations generalizing search with
  | zero => exact Traced.within_pure stocked
  | succ iterations ih =>
    rw [tryShards]
    split
    next none =>
      rw [none] at stocked
      exact Traced.within_error (supply.empty _ stocked)
    next draw draws split =>
      rw [split] at stocked
      simp only
      split
      next unfilled =>
        exact Traced.within_error (supply.short _ _ _ _ stocked unfilled)
      next binSet rest filled =>
        have few : (order.ids binSet.keys).length ≤ candidatesPerShard numBins := by
          rw [(order.ids_perm _).length_eq]
          exact drawBins_length (Nat.zero_le _) filled
        have left := supply.turn _ _ _ _ _ _ stocked filled
        rw [Nat.succ_mul, Nat.add_comm]
        refine Traced.within_bind ((tryNextBins_within supply.faults _ _ _).mono few fun _ same => same) ?_
        rintro ⟨movement, after⟩ same
        change after.draws = rest at same
        rw [← same] at left
        cases movement with
        | some movement => exact Traced.within_pure (supply.fewer _ _ _ left)
        | none => exact ih after left

private theorem tryBins_within (supply : Supply (state.getDomainSize state.binDomain) enough allowed) (later : Nat)
    (binWeights : List DomainId) (search : Search ι C) (stocked : enough (later + binWeights.length * 10) search.draws) :
    Traced.Within isEvaluated allowed (binWeights.length * 10 * candidatesPerShard (state.getDomainSize state.binDomain))
      (fun outcome => enough later outcome.2.draws) (tryBins order state constraints binWeights search) := by
  induction binWeights generalizing search with
  | nil => exact Traced.within_pure stocked
  | cons binId binWeights ih =>
    rw [List.length_cons, Nat.succ_mul, ← Nat.add_assoc] at stocked
    have forBin : Traced.Within isEvaluated allowed (10 * candidatesPerShard (state.getDomainSize state.binDomain))
        (fun outcome => enough (later + binWeights.length * 10) outcome.2.draws)
        (getMovementForBin order state constraints binId search) := by
      rw [getMovementForBin]
      split
      next =>
        exact Traced.within_pure (supply.fewer _ _ _ stocked)
      next => exact tryShards_within supply binId _ _ 10 search stocked
    rw [tryBins, List.length_cons, Nat.succ_mul, Nat.add_mul, Nat.add_comm, ← Nat.zero_add (10 * _ + _)]
    refine Traced.within_bind (Traced.within_tell (by simp [isEvaluated])) ?_
    intro _ _
    refine Traced.within_bind forBin ?_
    rintro ⟨movement, after⟩ left
    cases movement with
    | some movement => exact Traced.within_pure (supply.fewer _ _ _ left)
    | none => exact ih after left

end Loops

/-- The turns that may be left: every iteration but the last moves another shard, and
takes at most ten turns for each bin. -/
def turnsLeft (state : SolvingState) (iterations : Nat) (moves : MovementMap) : Nat :=
  min iterations ((unmovedShards state moves).length + 1) * (state.getDomainSize state.binDomain * 10)

section Iterations
variable {order state constraints} {enough : Nat → List Nat → Prop} {allowed : Stop → Prop}

private theorem turnsLeft_succ (iterations : Nat) (moves : MovementMap) :
    turnsLeft state (iterations + 1) moves =
      min iterations (unmovedShards state moves).length * (state.getDomainSize state.binDomain * 10) +
        state.getDomainSize state.binDomain * 10 := by
  unfold turnsLeft
  rw [Nat.add_min_add_right, Nat.succ_mul]

private theorem turnsLeft_commit (iterations : Nat) {moves : MovementMap} {shard nextBin : DomainId} (candidate : Candidate state moves shard nextBin) :
    turnsLeft state iterations (moves.addMovements (.addMovement {} shard nextBin)) ≤
      min iterations (unmovedShards state moves).length * (state.getDomainSize state.binDomain * 10) := by
  have fewer := unmovedShards_commit candidate
  exact Nat.mul_le_mul_right _ (by omega)

private theorem hottestBins_length (state : SolvingState) (info : BinWeightInfo) :
    (hottestBins state info).length = state.getDomainSize state.binDomain := by
  rw [hottestBins, List.length_map, List.length_insertionSort, List.length_map, List.length_range]

theorem tryBins_candidate (binWeights : List DomainId) (search : Search ι C) :
    Traced.Satisfies (fun _ => True)
      (fun outcome => outcome.2.committedMoves = search.committedMoves ∧
        ∀ movement, outcome.1 = some movement → ∃ shard nextBin, Candidate state search.committedMoves shard nextBin ∧
          movement = .addMovement {} shard nextBin)
      (tryBins order state constraints binWeights search) := by
  have rule : EvaluationRule order state constraints (fun now : Search ι C => now.committedMoves = search.committedMoves) _
      (fun _ => True) := candidate_rule search.committedMoves _ fun _ _ => trivial
  refine (rule.tryBins (fun _ => trivial) binWeights search rfl).mono (fun _ _ => trivial) ?_
  rintro ⟨movement, after⟩ ⟨outcome, same⟩
  refine ⟨same, ?_⟩
  rintro _ rfl
  exact outcome.2

private theorem iterate_within (supply : Supply (state.getDomainSize state.binDomain) enough allowed) (iterations : Nat) (search : Search ι C)
    (stocked : enough (turnsLeft state iterations search.committedMoves) search.draws) :
    Traced.Within isEvaluated allowed
      (turnsLeft state iterations search.committedMoves * candidatesPerShard (state.getDomainSize state.binDomain))
      (fun _ => True) (iterate order state constraints iterations search) := by
  induction iterations generalizing search with
  | zero => exact Traced.within_pure trivial
  | succ iterations ih =>
    rw [turnsLeft_succ] at stocked ⊢
    generalize remaining : min iterations (unmovedShards state search.committedMoves).length *
      (state.getDomainSize state.binDomain * 10) = later at stocked ⊢
    rw [← hottestBins_length state search.world.binWeightInfo] at stocked
    have bins : Traced.Within isEvaluated allowed _ _
        (tryBins order state constraints (hottestBins state search.world.binWeightInfo) search) :=
      tryBins_within supply later _ search stocked
    rw [hottestBins_length] at bins
    rw [IterativeLocalSearch.iterate, Nat.add_comm, Nat.add_mul, ← Nat.zero_add (_ + _)]
    refine Traced.within_bind (Traced.within_tell (by simp [isEvaluated])) ?_
    intro _ _
    refine Traced.within_bind (bins.and (tryBins_candidate _ search)) ?_
    rintro ⟨movement, after⟩ ⟨left, same, moved⟩
    cases movement with
    | none => exact Traced.within_pure trivial
    | some movement =>
      obtain ⟨shard, nextBin, candidate, rfl⟩ := moved movement rfl
      have fewer := turnsLeft_commit iterations candidate
      rw [remaining] at fewer
      obtain ⟨unused, split⟩ := Nat.exists_eq_add_of_le fewer
      change after.committedMoves = search.committedMoves at same
      rw [← same] at fewer split
      rw [← Nat.zero_add (later * _)]
      refine Traced.within_bind (Traced.within_tell (by simp [isEvaluated])) ?_
      intro _ _
      refine (ih (commitMovement constraints (.addMovement {} shard nextBin) after) ?_).mono
        (Nat.mul_le_mul_right _ fewer) fun _ holds => holds
      rw [split] at left
      exact supply.fewer _ _ _ left

end Iterations

/-- However many iterations are allowed, and whatever the constraints report, `solve`
evaluates at most fifty bins in each of ten turns for each bin, once for each placed
shard and once more. -/
theorem solve_evaluations (maxIterations : Nat) (draws : List Nat) (world : World ι C) :
    (solve order state constraints maxIterations draws world).events.countP isEvaluated ≤
      min maxIterations ((placedShards state).length + 1) * (state.getDomainSize state.binDomain * 10) *
        min (state.getDomainSize state.binDomain - 1) 50 := by
  have within : Traced.Within isEvaluated (fun _ => True) _ _ (solve order state constraints maxIterations draws world) :=
    iterate_within (supply_any _) maxIterations (start world draws) trivial
  have unmoved : unmovedShards state (start world draws).committedMoves = placedShards state := by
    rw [unmovedShards, List.filter_eq_self]
    exact fun _ _ => rfl
  rw [← unmoved]
  exact within.spent

section Fair
variable {numBins : Nat} {draws : Nat → Nat}

/-- Every bin comes up again and again. -/
def Fair (numBins : Nat) (draws : Nat → Nat) : Prop :=
  ∀ position, ∀ binId < numBins, ∃ later, position ≤ later ∧ distr numBins (draws later) = binId

theorem Fair.round (fair : Fair numBins draws) (position : Nat) :
    ∃ length, BringsUpAll numBins ((List.range length).map fun offset => draws (position + offset)) := by
  suffices bins : ∀ count ≤ numBins, ∃ length, ∀ binId < count, ∃ offset < length,
      distr numBins (draws (position + 1 + offset)) = binId by
    obtain ⟨length, all⟩ := bins numBins (Nat.le_refl numBins)
    refine ⟨length + 1, by simp [List.range_succ], ?_⟩
    intro binId inside
    obtain ⟨offset, early, drawn⟩ := all binId inside
    refine ⟨draws (position + 1 + offset), ?_, drawn⟩
    rw [List.range_succ_eq_map, List.map_cons, List.tail_cons, List.map_map]
    exact List.mem_map.mpr ⟨offset, List.mem_range.mpr early, by simp [Nat.add_assoc, Nat.add_comm 1]⟩
  intro count
  induction count with
  | zero => exact fun _ => ⟨0, by simp⟩
  | succ count ih =>
    intro inside
    obtain ⟨length, all⟩ := ih (by omega)
    obtain ⟨later, behind, drawn⟩ := fair (position + 1) count (by omega)
    refine ⟨max length (later - (position + 1) + 1), ?_⟩
    intro binId early
    rcases Nat.lt_succ_iff_lt_or_eq.mp early with before | rfl
    · obtain ⟨offset, first, drawn⟩ := all binId before
      exact ⟨offset, by omega, drawn⟩
    · exact ⟨later - (position + 1), by omega, by rw [Nat.add_sub_cancel' behind]; exact drawn⟩

theorem Fair.stocked (fair : Fair numBins draws) (rounds position : Nat) :
    ∃ length, Stocked numBins rounds ((List.range length).map fun offset => draws (position + offset)) := by
  induction rounds generalizing position with
  | zero => exact ⟨0, trivial⟩
  | succ rounds ih =>
    obtain ⟨first, all⟩ := fair.round position
    obtain ⟨length, stocked⟩ := ih (position + first)
    refine ⟨first + length, _, _, ?_, all, stocked⟩
    rw [List.range_add, List.map_append, List.map_map]
    simp [Function.comp_def, Nat.add_assoc]

theorem Fair.enough (fair : Fair numBins draws) (rounds : Nat) :
    ∃ enough, ∀ count, enough ≤ count → Stocked numBins rounds ((List.range count).map draws) := by
  obtain ⟨enough, stocked⟩ := fair.stocked rounds 0
  refine ⟨enough, ?_⟩
  intro count more
  obtain ⟨rest, rfl⟩ := Nat.exists_eq_add_of_le more
  rw [List.range_add, List.map_append]
  simp only [Nat.zero_add] at stocked
  exact stocked.append _

end Fair

/-- `solve` does not ask for another draw if there are rounds for all turns it may take. -/
theorem solve_stocked (maxIterations : Nat) (world : World ι C) {draws : List Nat}
    (stocked : Stocked (state.getDomainSize state.binDomain) (turnsLeft state maxIterations {}) draws) :
    (solve order state constraints maxIterations draws world).result ≠ .error .outOfDraws := by
  intro stopped
  have within : Traced.Within isEvaluated (· ≠ .outOfDraws) _ _ (solve order state constraints maxIterations draws world) :=
    iterate_within (supply_stocked _) maxIterations (start world draws) stocked
  exact within.stops _ stopped rfl

/-- On every sequence of draws in which each bin keeps coming up, `solve` ends: from
some number of draws on it does not ask for another one. -/
theorem solve_ends (maxIterations : Nat) (world : World ι C) (draws : Nat → Nat)
    (fair : Fair (state.getDomainSize state.binDomain) draws) :
    ∃ enough, ∀ count, enough ≤ count →
      (solve order state constraints maxIterations ((List.range count).map draws) world).result ≠ .error .outOfDraws := by
  obtain ⟨enough, stocked⟩ := fair.enough (turnsLeft state maxIterations {})
  exact ⟨enough, fun count more => solve_stocked order state constraints maxIterations world (stocked count more)⟩

theorem fair_id (numBins : Nat) : Fair numBins id := by
  intro position binId inside
  refine ⟨binId + numBins * position, ?_, ?_⟩
  · exact Nat.le_add_left_of_le (Nat.le_mul_of_pos_left position (by omega))
  · rw [distr, id, Nat.add_mul_mod_self_left, Nat.mod_eq_of_lt inside]

theorem solve_ends_drainedBin :
    ∃ enough, ∀ count, enough ≤ count →
      (solve .insertion .twoBins [()] 2 ((List.range count).map id) drainedWorld).result ≠ .error .outOfDraws :=
  solve_ends .insertion .twoBins [()] 2 drainedWorld id (fair_id _)

section Limits
variable {order state constraints}

/-- A later point of a search: it weighs no more, and no move has been taken back. -/
structure Improved (earlier later : Search ι C) : Prop where
  weight : later.currentWeight ≤ earlier.currentWeight
  moves : ∀ shard binId, earlier.committedMoves.getNextBin shard = some binId → later.committedMoves.getNextBin shard = some binId

omit [DecidableEq ι] [ConstraintOps C] in
theorem Improved.refl (search : Search ι C) : Improved search search := ⟨Int.le_refl _, fun _ _ moved => moved⟩

/-- The search only improves as its iterations go on. -/
private theorem iterate_improves (iterations : Nat) (earlier : Search ι C) :
    Traced.Satisfies (fun _ => True) (Improved earlier) (iterate order state constraints iterations earlier) := by
  refine iterate_satisfies (Improved earlier) (Improved earlier) (fun _ => trivial) ?_ (fun _ improved => improved) iterations earlier
    (.refl earlier)
  intro top improved
  refine ⟨trivial, fun search => search.committedMoves = top.committedMoves ∧ search.currentWeight = top.currentWeight,
    fun movement search => search.currentWeight ≤ top.currentWeight ∧
      ∃ shard nextBin, Candidate state top.committedMoves shard nextBin ∧ movement = .addMovement {} shard nextBin, ?_, ⟨rfl, rfl⟩, ?_, ?_⟩
  · constructor
    · exact fun _ _ same => same
    · exact fun _ _ _ _ _ _ _ => trivial
    · exact fun _ _ _ _ same _ _ _ => same
    · rintro search shard nextBin world ⟨moves, weight⟩ candidate _ lower
      exact ⟨weight ▸ Int.le_of_lt lower, shard, nextBin, moves ▸ candidate, rfl⟩
  · rintro search ⟨moves, weight⟩
    exact ⟨weight ▸ improved.weight, moves ▸ improved.moves⟩
  · rintro _ search ⟨lower, shard, nextBin, candidate, rfl⟩ same
    refine ⟨trivial, Int.le_trans lower improved.weight, ?_⟩
    intro other binId moved
    have before := improved.moves other binId moved
    rw [commitMovement, MovementMap.next_addMovements, MovementMap.next_addMovement, same]
    split
    next first =>
      rw [first, candidate.unmoved] at before
      cases before
    next => exact before

private theorem iterate_prolonged (fewer more : Nat) (search : Search ι C) :
    Traced.Prolongs Improved (iterate order state constraints fewer search) (iterate order state constraints (fewer + more) search) := by
  induction fewer generalizing search with
  | zero =>
    refine ⟨List.nil_prefix, ?_⟩
    rintro early late done finished
    cases done
    rw [Nat.zero_add] at finished
    exact (iterate_improves more search).2 late finished
  | succ fewer ih =>
    rw [Nat.succ_add, iterate, iterate]
    refine Traced.prolongs_bind fun _ _ => Traced.prolongs_bind ?_
    rintro ⟨movement, after⟩ _
    cases movement with
    | none => exact Traced.prolongs_refl Improved.refl _
    | some movement => exact Traced.prolongs_bind fun _ _ => ih _

end Limits

/-- `solve` can be given more iterations at no risk: with the same draws it does what
it does with fewer, and from there on only lowers the weight and adds moves. -/
theorem solve_prolonged (fewer more : Nat) (draws : List Nat) (world : World ι C) :
    Traced.Prolongs Improved (solve order state constraints fewer draws world)
      (solve order state constraints (fewer + more) draws world) :=
  iterate_prolonged fewer more (start world draws)

end ShardManager.IterativeLocalSearch

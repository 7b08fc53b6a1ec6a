import ShardManager.Proofs.FailedSearch
import ShardManager.Proofs.HottestFirst
import ShardManager.Proofs.Improvement
import ShardManager.Proofs.SearchBudget

/-! Why `solve` stops. If it has not made all the moves it may make, then every bin that
still has shards to move has one that was tried in vain: each of its destinations was
evaluated, and none of them lowers the weight. -/

namespace ShardManager.IterativeLocalSearch
variable {ι C : Type} [DecidableEq ι] [ConstraintOps C] (order : HashOrder) (state : SolvingState) (constraints : List ι)

/-- The move does not lower the weight. -/
def Useless (search : Search ι C) (shard nextBin : DomainId) : Prop :=
  ∃ world, evaluate order state constraints search.committedMoves (.addMovement {} shard nextBin) search.world = .ok world ∧
    search.currentWeight ≤ world.binWeightInfo.total

/-- One shard of the bin has been tried in vain: as many destinations as the search draws are useless for it. -/
def Stuck (search : Search ι C) (binId : DomainId) : Prop :=
  ∃ shard ∈ shardsInBin state search.committedMoves binId, ∃ tried ⊆ (Finset.range (state.getDomainSize state.binDomain)).erase binId,
    tried.card = min (state.getDomainSize state.binDomain - 1) 50 ∧
      ∀ nextBin ∈ tried, Useless order state constraints search shard nextBin

variable {order state constraints}

/-- The loop that draws the destinations ends when there are enough. -/
private theorem drawBins_enough {numBins : Nat} {binId : DomainId} {draws rest : List Nat} {binSet final : UnorderedSet DomainId}
    (filled : drawBins numBins binId draws binSet = some (final, rest)) : candidatesPerShard numBins ≤ final.keys.length := by
  unfold candidatesPerShard
  induction draws generalizing binSet with
  | nil =>
    rw [drawBins] at filled
    split at filled
    next => cases filled
    next full =>
      cases filled
      omega
  | cons draw draws ih =>
    rw [drawBins] at filled
    split at filled
    next =>
      simp only at filled
      split at filled
      next => exact ih filled
      next => exact ih filled
    next full =>
      cases filled
      omega

variable [LawfulConstraint C] {top : Search ι C}

omit [DecidableEq ι] in
theorem Searching.draws {search : Search ι C} (searching : Searching constraints top search) (draws : List Nat) :
    Searching constraints top { search with draws } := ⟨searching.committed, searching.moves, searching.weight⟩

/-- Destinations that the loop goes past are useless. -/
private theorem tryNextBins_useless (shard : DomainId) (binSet : List DomainId) (search : Search ι C)
    (searching : Searching constraints top search) :
    Traced.Satisfies (fun _ => True)
      (fun outcome => outcome.1 = none →
        Searching constraints top outcome.2 ∧ ∀ nextBin ∈ binSet, Useless order state constraints top shard nextBin)
      (tryNextBins order state constraints shard binSet search) := by
  induction binSet generalizing search with
  | nil => exact Traced.satisfies_pure fun _ => ⟨searching, by simp⟩
  | cons nextBin binSet ih =>
    refine Traced.satisfies_bind (checked_satisfies fun world done => done) ?_
    intro world done
    refine Traced.satisfies_bind (Traced.satisfies_tell trivial) ?_
    intro _ _
    simp only
    split
    next => exact Traced.satisfies_pure fun impossible => by cases impossible
    next higher =>
      have kept : Searching constraints top { search with world } :=
        ⟨(evaluate_keeps done).trans searching.committed, searching.moves, searching.weight⟩
      refine (ih { search with world } kept).mono (fun _ holds => holds) ?_
      intro outcome rest none
      obtain ⟨still, others⟩ := rest none
      refine ⟨still, List.forall_mem_cons.mpr ⟨?_, others⟩⟩
      rw [searching.committed.evaluate, searching.moves] at done
      rw [searching.weight] at higher
      exact ⟨world, done, not_lt.mp higher⟩

private theorem tryShards_stuck (binId : DomainId) (iterations : Nat) (search : Search ι C) (searching : Searching constraints top search)
    (occupied : (shardsInBin state top.committedMoves binId).length ≠ 0) :
    Traced.Satisfies (fun _ => True)
      (fun outcome => outcome.1 = none →
        Searching constraints top outcome.2 ∧ (0 < iterations → Stuck order state constraints top binId))
      (tryShards order state constraints (state.getDomainSize state.binDomain) binId (shardsInBin state top.committedMoves binId)
        iterations search) := by
  induction iterations generalizing search with
  | zero => exact Traced.satisfies_pure fun _ => ⟨searching, fun impossible => absurd impossible (Nat.lt_irrefl 0)⟩
  | succ iterations ih =>
    rw [tryShards]
    split
    · exact Traced.satisfies_lift (by simp)
    next draw draws _ =>
      simp only
      split
      · exact Traced.satisfies_lift (by simp)
      next binSet rest filled =>
        refine Traced.satisfies_bind (tryNextBins_useless _ _ { search with draws := rest } (searching.draws rest)) ?_
        rintro ⟨movement, after⟩ tried
        cases movement with
        | some movement => exact Traced.satisfies_pure fun impossible => by cases impossible
        | none =>
          obtain ⟨kept, useless⟩ := tried rfl
          refine (ih after kept).mono (fun _ holds => holds) ?_
          intro outcome later none
          refine ⟨(later none).1, fun _ => ?_⟩
          -- the first of the ten shards is enough
          have bound := Nat.mod_lt draw (Nat.pos_of_ne_zero occupied)
          refine ⟨(shardsInBin state top.committedMoves binId).getD (draw % (shardsInBin state top.committedMoves binId).length) 0,
            ?_, binSet.keys.toFinset, ?_, ?_, ?_⟩
          · rw [List.getD_eq_getElem?_getD, List.getElem?_eq_getElem bound, Option.getD_some]
            exact List.getElem_mem bound
          · intro nextBin member
            obtain ⟨inside, different⟩ := drawBins_inside (by simp) filled nextBin (List.mem_toFinset.mp member)
            exact Finset.mem_erase.mpr ⟨different, Finset.mem_range.mpr inside⟩
          · rw [List.toFinset_card_of_nodup binSet.keys_nodup]
            exact Nat.le_antisymm (drawBins_length (by simp) filled) (drawBins_enough filled)
          · intro nextBin member
            exact useless nextBin ((order.ids_perm _).mem_iff.mpr (List.mem_toFinset.mp member))

private theorem tryBins_stuck (binWeights : List DomainId) (search : Search ι C) (searching : Searching constraints top search) :
    Traced.Satisfies (fun _ => True)
      (fun outcome => outcome.1 = none →
        Searching constraints top outcome.2 ∧
          ∀ binId ∈ binWeights, shardsInBin state top.committedMoves binId ≠ [] → Stuck order state constraints top binId)
      (tryBins order state constraints binWeights search) := by
  induction binWeights generalizing search with
  | nil => exact Traced.satisfies_pure fun _ => ⟨searching, by simp⟩
  | cons binId binWeights ih =>
    have forBin : Traced.Satisfies (fun _ => True)
        (fun outcome => outcome.1 = none → Searching constraints top outcome.2 ∧
          (shardsInBin state top.committedMoves binId ≠ [] → Stuck order state constraints top binId))
        (getMovementForBin order state constraints binId search) := by
      rw [getMovementForBin, searching.moves]
      split
      next empty =>
        exact Traced.satisfies_pure fun _ => ⟨searching, fun occupied => absurd (List.eq_nil_of_length_eq_zero empty) occupied⟩
      next occupied =>
        refine (tryShards_stuck binId 10 search searching occupied).mono (fun _ holds => holds) ?_
        intro outcome tried none
        exact ⟨(tried none).1, fun _ => (tried none).2 (by decide)⟩
    refine Traced.satisfies_bind (Traced.satisfies_tell trivial) ?_
    intro _ _
    refine Traced.satisfies_bind forBin ?_
    rintro ⟨movement, after⟩ tried
    cases movement with
    | some movement => exact Traced.satisfies_pure fun impossible => by cases impossible
    | none =>
      obtain ⟨kept, stuck⟩ := tried rfl
      refine (ih after kept).mono (fun _ holds => holds) ?_
      intro outcome rest none
      exact ⟨(rest none).1, List.forall_mem_cons.mpr ⟨stuck, (rest none).2⟩⟩

theorem Searching.stuck {search : Search ι C} (searching : Searching constraints top search) {binId : DomainId}
    (stuck : Stuck order state constraints top binId) : Stuck order state constraints search binId := by
  obtain ⟨shard, member, tried, inside, enough, useless⟩ := stuck
  refine ⟨shard, searching.moves ▸ member, tried, inside, enough, ?_⟩
  intro nextBin drawn
  obtain ⟨world, evaluated, higher⟩ := useless nextBin drawn
  refine ⟨world, ?_, searching.weight ▸ higher⟩
  rw [searching.committed.evaluate, searching.moves]
  exact evaluated

def moved (moves : MovementMap) : Nat := moves.getAllMovements.keys.length

theorem moved_candidate {moves : MovementMap} {shard nextBin : DomainId} (candidate : Candidate state moves shard nextBin) :
    moved (moves.addMovements (.addMovement {} shard nextBin)) = moved moves + 1 := by
  change (moves.shardToNextBinMap.insert shard nextBin).keys.length = moves.shardToNextBinMap.keys.length + 1
  rw [AList.keys_insert, List.length_cons, List.erase_of_not_mem]
  intro member
  have unmoved := candidate.unmoved
  obtain ⟨binId, found⟩ := (UnorderedMap.mem_keys_iff _ _).mp member
  rw [MovementMap.getNextBin, found] at unmoved
  cases unmoved

theorem iterate_settles (iterations : Nat) (search : Search ι C) :
    Traced.Satisfies (fun _ => True)
      (fun final => moved final.committedMoves ≤ moved search.committedMoves + iterations ∧ (moved final.committedMoves < moved search.committedMoves + iterations →
        ∀ binId < state.getDomainSize state.binDomain, shardsInBin state final.committedMoves binId ≠ [] →
          Stuck order state constraints final binId))
      (iterate order state constraints iterations search) := by
  induction iterations generalizing search with
  | zero => exact Traced.satisfies_pure ⟨Nat.le_refl _, fun impossible => absurd impossible (Nat.lt_irrefl _)⟩
  | succ iterations ih =>
    refine Traced.satisfies_bind (Traced.satisfies_tell trivial) ?_
    intro _ _
    have found : Traced.Satisfies _ _ (tryBins order state constraints (hottestBins state search.world.binWeightInfo) search) :=
      tryBins_candidate _ search
    have failed : Traced.Satisfies _ _ (tryBins order state constraints (hottestBins state search.world.binWeightInfo) search) :=
      tryBins_stuck _ search ⟨.refl _, rfl, rfl⟩
    have both : Traced.Satisfies (fun _ => True) (fun outcome => _ ∧ _)
        (tryBins order state constraints (hottestBins state search.world.binWeightInfo) search) :=
      ⟨fun _ _ => trivial, fun outcome done => ⟨found.2 outcome done, failed.2 outcome done⟩⟩
    refine Traced.satisfies_bind both ?_
    rintro ⟨movement, after⟩ ⟨⟨same, candidates⟩, useless⟩
    cases movement with
    | none =>
      obtain ⟨searching, stuck⟩ := useless rfl
      have kept : moved after.committedMoves = moved search.committedMoves := congrArg moved same
      refine Traced.satisfies_pure ⟨by omega, fun _ binId inside occupied => searching.stuck ?_⟩
      exact stuck binId ((mem_hottestBins_iff _ _ _).mpr inside) (same ▸ occupied)
    | some movement =>
      obtain ⟨shard, nextBin, candidate, rfl⟩ := candidates movement rfl
      refine Traced.satisfies_bind (Traced.satisfies_tell trivial) ?_
      intro _ _
      have more : moved (commitMovement constraints (.addMovement {} shard nextBin) after).committedMoves =
          moved search.committedMoves + 1 := by
        rw [← moved_candidate candidate, ← same]
        rfl
      refine (ih (commitMovement constraints (.addMovement {} shard nextBin) after)).mono (fun _ holds => holds) ?_
      rw [more]
      intro final settled
      exact ⟨by omega, fun fewer => settled.2 (by omega)⟩

/-- `solve` returns early only where it is stuck: unless it made all the moves it was
allowed to, every bin that still has a shard to move has one that was tried in vain. -/
theorem solve_settles (order : HashOrder) (state : SolvingState) (constraints : List ι) (maxIterations : Nat) (draws : List Nat)
    (world : World ι Constraint) (final : Search ι Constraint)
    (returned : (solve order state constraints maxIterations draws world).result = .ok final) :
    moved final.committedMoves ≤ maxIterations ∧ (moved final.committedMoves < maxIterations →
      ∀ binId < state.getDomainSize state.binDomain, shardsInBin state final.committedMoves binId ≠ [] →
        Stuck order state constraints final binId) := by
  have settles : Traced.Satisfies _ _ (solve order state constraints maxIterations draws world) :=
    iterate_settles maxIterations (start world draws)
  obtain ⟨few, stuck⟩ := settles.2 final returned
  have none : moved (start world draws).committedMoves = 0 := rfl
  rw [none, Nat.zero_add] at few stuck
  exact ⟨few, stuck⟩

def emptyBinWorld : World Unit Constraint := ⟨fun _ => .drain drainedEmptyBin.1, drainedEmptyBin.2⟩

def vainRun : Run Unit Constraint (Search Unit Constraint) := solve .insertion .twoBins [()] 3 (List.replicate 20 1) emptyBinWorld

theorem solve_settles_emptyBin :
    ∃ final, vainRun.result = .ok final ∧ moved final.committedMoves = 0 ∧ Stuck .insertion .twoBins [()] final 0 := by
  have ran : vainRun.result.toOption.map (fun final => (moved final.committedMoves, shardsInBin .twoBins final.committedMoves 0)) =
      some (0, [0, 1, 2]) := by decide +kernel
  cases returned : vainRun.result with
  | error stop => simp [returned, Except.toOption] at ran
  | ok final =>
    simp only [returned, Except.toOption, Option.map_some, Option.some.injEq, Prod.mk.injEq] at ran
    obtain ⟨unmoved, occupied⟩ := ran
    refine ⟨final, rfl, unmoved, ?_⟩
    exact (solve_settles .insertion .twoBins [()] 3 (List.replicate 20 1) emptyBinWorld final returned).2 (by omega) 0 (by decide)
      (by simp [occupied])

end ShardManager.IterativeLocalSearch

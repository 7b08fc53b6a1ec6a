import ShardManager.Placer.IterativeLocalSearch

/-! Proof rules for the loops of the search. A property of the search that one
evaluation keeps is kept through every shard, draw, bin and rejected candidate;
the rules say so once for the actual loops. -/

namespace ShardManager.IterativeLocalSearch
variable {ι C : Type} [DecidableEq ι] [ConstraintOps C] (order : HashOrder) (state : SolvingState) (constraints : List ι)

/-- The moves the search evaluates: a shard that some bin lists and that has no
committed move yet, and a bin other than that one. -/
structure Candidate (committedMoves : MovementMap) (shard nextBin : DomainId) : Prop where
  listed : ∃ binId, shard ∈ state.assignmentTree.children state.binDomain binId ∧ nextBin ≠ binId
  unmoved : committedMoves.getNextBin shard = none
  inside : nextBin < state.getDomainSize state.binDomain

theorem Candidate.moved {state : SolvingState} {committedMoves : MovementMap} {shard nextBin : DomainId}
    (candidate : Candidate state committedMoves shard nextBin) : ∀ other ∈ [shard], committedMoves.getNextBin other = none ∧
      (MovementMap.getNextBin (.addMovement {} shard nextBin) other).isSome := by
  intro other member
  rw [List.mem_singleton.mp member]
  exact ⟨candidate.unmoved, by simp⟩

/-- What a loop over candidates has to keep: `keeps` while candidates are
rejected, `accepts` for the one that is returned. -/
structure EvaluationRule (keeps : Search ι C → Prop) (accepts : MovementMap → Search ι C → Prop)
    (onEvent : Event ι C → Prop) : Prop where
  draws : ∀ search draws, keeps search → keeps { search with draws }
  evaluated : ∀ search shard nextBin world, keeps search → Candidate state search.committedMoves shard nextBin →
    evaluate order state constraints search.committedMoves (.addMovement {} shard nextBin) search.world = .ok world →
      onEvent (.evaluated search.committedMoves (.addMovement {} shard nextBin) world)
  rejected : ∀ search shard nextBin world, keeps search → Candidate state search.committedMoves shard nextBin →
    evaluate order state constraints search.committedMoves (.addMovement {} shard nextBin) search.world = .ok world →
      ¬ world.binWeightInfo.total < search.currentWeight → keeps { search with world }
  accepted : ∀ search shard nextBin world, keeps search → Candidate state search.committedMoves shard nextBin →
    evaluate order state constraints search.committedMoves (.addMovement {} shard nextBin) search.world = .ok world →
      world.binWeightInfo.total < search.currentWeight →
        accepts (.addMovement {} shard nextBin) { search with world, currentWeight := world.binWeightInfo.total }

def Outcome (keeps : Search ι C → Prop) (accepts : MovementMap → Search ι C → Prop) :
    Option MovementMap × Search ι C → Prop
  | (some movement, search) => accepts movement search
  | (none, search) => keeps search

omit [DecidableEq ι] [ConstraintOps C] in
theorem checked_satisfies {α : Type} {onEvent : Event ι C → Prop} {onResult : α → Prop} {result : Except Fault α}
    (holds : ∀ value, result = .ok value → onResult value) :
    Traced.Satisfies onEvent onResult (checked result : Run ι C α) := by
  apply Traced.satisfies_lift
  intro value done
  cases result with
  | error fault => cases done
  | ok found =>
    cases done
    exact holds _ rfl

theorem drawBins_inside {numBins : Nat} {binId : DomainId} {draws rest : List Nat} {binSet final : UnorderedSet DomainId}
    (inside : ∀ bin ∈ binSet.keys, bin < numBins ∧ bin ≠ binId)
    (filled : drawBins numBins binId draws binSet = some (final, rest)) :
    ∀ bin ∈ final.keys, bin < numBins ∧ bin ≠ binId := by
  induction draws generalizing binSet with
  | nil =>
    rw [drawBins] at filled
    split at filled
    · cases filled
    · cases filled
      exact inside
  | cons draw draws ih =>
    rw [drawBins] at filled
    split at filled
    next more =>
      simp only at filled
      split at filled
      next => exact ih inside filled
      next different =>
        apply ih _ filled
        intro bin member
        rw [← AList.mem_keys, AList.mem_insert] at member
        rcases member with rfl | member
        · exact ⟨Nat.mod_lt _ (by omega), different⟩
        · exact inside bin member
    next =>
      cases filled
      exact inside

variable {state} in
omit [DecidableEq ι] [ConstraintOps C] in
theorem candidates_drawn {order : HashOrder} {binId : DomainId} {shards : List DomainId} {committedMoves : MovementMap}
    {draws rest : List Nat} {binSet : UnorderedSet DomainId} (occupied : shards.length ≠ 0)
    (unmoved : ∀ shard ∈ shards, shard ∈ state.assignmentTree.children state.binDomain binId ∧
      committedMoves.getNextBin shard = none)
    (filled : drawBins (state.getDomainSize state.binDomain) binId draws ∅ = some (binSet, rest)) (draw : Nat) :
    ∀ nextBin ∈ order.ids binSet.keys, Candidate state committedMoves (shards.getD (draw % shards.length) 0) nextBin := by
  have bound : draw % shards.length < shards.length := Nat.mod_lt _ (by omega)
  have picked : shards.getD (draw % shards.length) 0 ∈ shards := by
    simp [List.getD_eq_getElem?_getD, List.getElem?_eq_getElem bound]
  obtain ⟨listed, free⟩ := unmoved _ picked
  intro nextBin member
  rw [(order.ids_perm _).mem_iff] at member
  obtain ⟨inside, different⟩ := drawBins_inside (by simp) filled nextBin member
  exact ⟨⟨binId, listed, different⟩, free, inside⟩

variable {order state constraints} {keeps : Search ι C → Prop} {accepts : MovementMap → Search ι C → Prop}
  {onEvent : Event ι C → Prop}

theorem EvaluationRule.tryNextBins (rule : EvaluationRule order state constraints keeps accepts onEvent)
    (shard : DomainId) (binSet : List DomainId) (search : Search ι C) (committedMoves : MovementMap)
    (sameMoves : search.committedMoves = committedMoves)
    (candidates : ∀ nextBin ∈ binSet, Candidate state committedMoves shard nextBin) (holds : keeps search) :
    Traced.Satisfies onEvent
      (fun outcome => Outcome keeps accepts outcome ∧ outcome.2.committedMoves = committedMoves)
      (tryNextBins order state constraints shard binSet search) := by
  induction binSet generalizing search with
  | nil => exact Traced.satisfies_pure ⟨holds, sameMoves⟩
  | cons nextBin binSet ih =>
    have candidate : Candidate state search.committedMoves shard nextBin :=
      sameMoves ▸ candidates nextBin (by simp)
    refine Traced.satisfies_bind (checked_satisfies fun world done => done) ?_
    intro world done
    refine Traced.satisfies_bind
      (Traced.satisfies_tell (rule.evaluated search shard nextBin world holds candidate done)) ?_
    intro _ _
    simp only
    split
    next lower =>
      exact Traced.satisfies_pure ⟨rule.accepted search shard nextBin world holds candidate done lower, sameMoves⟩
    next higher =>
      exact ih { search with world } sameMoves (fun bin member => candidates bin (by simp [member]))
        (rule.rejected search shard nextBin world holds candidate done higher)

theorem EvaluationRule.tryShards (rule : EvaluationRule order state constraints keeps accepts onEvent)
    (binId : DomainId) (shards : List DomainId) (iterations : Nat) (search : Search ι C) (committedMoves : MovementMap)
    (sameMoves : search.committedMoves = committedMoves) (occupied : shards.length ≠ 0)
    (unmoved : ∀ shard ∈ shards, shard ∈ state.assignmentTree.children state.binDomain binId ∧
      committedMoves.getNextBin shard = none) (holds : keeps search) :
    Traced.Satisfies onEvent
      (fun outcome => Outcome keeps accepts outcome ∧ outcome.2.committedMoves = committedMoves)
      (tryShards order state constraints (state.getDomainSize state.binDomain) binId shards iterations search) := by
  induction iterations generalizing search with
  | zero => exact Traced.satisfies_pure ⟨holds, sameMoves⟩
  | succ iterations ih =>
    rw [IterativeLocalSearch.tryShards]
    split
    · exact Traced.satisfies_lift (by simp)
    next draw draws _ =>
      simp only
      split
      · exact Traced.satisfies_lift (by simp)
      next binSet rest filled =>
        refine Traced.satisfies_bind (rule.tryNextBins _ _ _ committedMoves sameMoves (candidates_drawn occupied unmoved filled draw)
          (rule.draws search rest holds)) ?_
        rintro ⟨movement, after⟩ ⟨outcome, same⟩
        cases movement with
        | some movement => exact Traced.satisfies_pure ⟨outcome, same⟩
        | none => exact ih after same outcome

theorem EvaluationRule.getMovementForBin (rule : EvaluationRule order state constraints keeps accepts onEvent)
    (binId : DomainId) (search : Search ι C) (holds : keeps search) :
    Traced.Satisfies onEvent
      (fun outcome => Outcome keeps accepts outcome ∧ outcome.2.committedMoves = search.committedMoves)
      (getMovementForBin order state constraints binId search) := by
  unfold IterativeLocalSearch.getMovementForBin
  simp only
  split
  next => exact Traced.satisfies_pure ⟨holds, rfl⟩
  next occupied =>
    apply rule.tryShards binId _ 10 search search.committedMoves rfl occupied _ holds
    intro shard member
    simpa [shardsInBin] using member

theorem EvaluationRule.tryBins (rule : EvaluationRule order state constraints keeps accepts onEvent)
    (passed : ∀ binId, onEvent (.passed binId)) (binWeights : List DomainId) (search : Search ι C) (holds : keeps search) :
    Traced.Satisfies onEvent
      (fun outcome => Outcome keeps accepts outcome ∧ outcome.2.committedMoves = search.committedMoves)
      (tryBins order state constraints binWeights search) := by
  induction binWeights generalizing search with
  | nil => exact Traced.satisfies_pure ⟨holds, rfl⟩
  | cons binId binWeights ih =>
    refine Traced.satisfies_bind (Traced.satisfies_tell (passed binId)) ?_
    intro _ _
    refine Traced.satisfies_bind (rule.getMovementForBin binId search holds) ?_
    rintro ⟨movement, after⟩ ⟨outcome, same⟩
    cases movement with
    | some movement => exact Traced.satisfies_pure ⟨outcome, same⟩
    | none => exact (ih after outcome).mono (fun _ holds => holds) (fun _ result => ⟨result.1, result.2.trans same⟩)

def commitMovement (constraints : List ι) (movement : MovementMap) (search : Search ι C) : Search ι C :=
  { search with
    committedMoves := search.committedMoves.addMovements movement
    world := commitAll constraints search.world }

/-- The rule for `solve`: `atTop` holds at the top of every iteration if, from any
search where it does, some rule for the evaluations of that iteration leads from
the accepted candidate to a search where it holds again. -/
theorem iterate_satisfies (atTop onReturn : Search ι C → Prop) (passed : ∀ binId, onEvent (.passed binId))
    (iteration : ∀ top, atTop top → onEvent (.iteration top) ∧ ∃ keeps accepts,
      EvaluationRule order state constraints keeps accepts onEvent ∧ keeps top ∧
      (∀ search, keeps search → onReturn search) ∧
      ∀ movement search, accepts movement search → search.committedMoves = top.committedMoves →
        onEvent (.committed top movement (commitMovement constraints movement search)) ∧
        atTop (commitMovement constraints movement search))
    (exhausted : ∀ search, atTop search → onReturn search)
    (iterations : Nat) (search : Search ι C) (holds : atTop search) :
    Traced.Satisfies onEvent onReturn (iterate order state constraints iterations search) := by
  induction iterations generalizing search with
  | zero => exact Traced.satisfies_pure (exhausted search holds)
  | succ iterations ih =>
    obtain ⟨observed, keeps, accepts, rule, kept, returned, committed⟩ := iteration search holds
    refine Traced.satisfies_bind (Traced.satisfies_tell observed) ?_
    intro _ _
    refine Traced.satisfies_bind (rule.tryBins passed _ search kept) ?_
    rintro ⟨movement, after⟩ ⟨outcome, same⟩
    cases movement with
    | none => exact Traced.satisfies_pure (returned after outcome)
    | some movement =>
      obtain ⟨happened, again⟩ := committed movement after outcome same
      refine Traced.satisfies_bind (Traced.satisfies_tell happened) ?_
      intro _ _
      exact ih _ again

/-- The commits of a run in order, each with the search at the top of its
iteration and the search it left. -/
def history (events : List (Event ι C)) : List (Search ι C × MovementMap × Search ι C) :=
  events.filterMap fun
    | .committed before movement after => some (before, movement, after)
    | _ => none

/-- Each commit takes the search from where the one before it left off. -/
def Follows (step : Search ι C → MovementMap → Search ι C → Prop) :
    Search ι C → List (Search ι C × MovementMap × Search ι C) → Prop
  | _, [] => True
  | search, (before, movement, after) :: commits => before = search ∧ step before movement after ∧ Follows step after commits

omit [DecidableEq ι] [ConstraintOps C] in
private theorem history_eq_nil {events : List (Event ι C)}
    (uncommitted : ∀ happened ∈ events, ∀ before movement after, happened ≠ .committed before movement after) :
    history events = [] := by
  apply List.filterMap_eq_nil_iff.mpr
  intro happened member
  cases happened with
  | committed before movement after => exact absurd rfl (uncommitted _ member before movement after)
  | iteration _ => rfl
  | passed _ => rfl
  | evaluated _ _ _ => rfl

/-- The commits of a run of `iterate` form one chain of steps. -/
theorem iterate_history {step : Search ι C → MovementMap → Search ι C → Prop}
    (iteration : ∀ top, ∃ keeps accepts,
      EvaluationRule order state constraints keeps accepts
        (fun happened => ∀ before movement after, happened ≠ .committed before movement after) ∧
      keeps top ∧ ∀ movement search, accepts movement search → search.committedMoves = top.committedMoves →
        step top movement (commitMovement constraints movement search))
    (iterations : Nat) (search : Search ι C) :
    Follows step search (history (iterate order state constraints iterations search).events) := by
  induction iterations generalizing search with
  | zero => trivial
  | succ iterations ih =>
    obtain ⟨keeps, accepts, rule, kept, commits⟩ := iteration search
    obtain ⟨quiet, outcome⟩ := rule.tryBins (by rintro _ _ _ _ ⟨⟩) (hottestBins state search.world.binWeightInfo) search kept
    have silent := history_eq_nil quiet
    simp only [history] at silent
    rw [iterate]
    simp only [bind, Traced.bind, Traced.tell, history, List.filterMap_append, List.filterMap_cons, List.filterMap_nil]
    cases done : (IterativeLocalSearch.tryBins order state constraints
        (hottestBins state search.world.binWeightInfo) search).result with
    | error stop => simp [silent, Follows]
    | ok result =>
      obtain ⟨movement, after⟩ := result
      obtain ⟨holds, same⟩ := outcome _ done
      cases movement with
      | none => simp [silent, Follows, Pure.pure, Traced.pure]
      | some movement =>
        simp only [List.filterMap_append, List.filterMap_cons, List.filterMap_nil, silent, List.nil_append]
        exact ⟨rfl, commits movement after holds same, ih _⟩

end ShardManager.IterativeLocalSearch

import ShardManager.Lib.Performed
import ShardManager.Proofs.SearchRules

/-! The search as a run of a machine: what the events of `solve` stand for, said for
one evaluation and one commit, is carried through all of its loops. -/

namespace ShardManager.IterativeLocalSearch
variable {ι C S E : Type} [DecidableEq ι] [ConstraintOps C] (order : HashOrder) (state : SolvingState) (constraints : List ι)
  (machine : Machine S E) (steps : Event ι C → List E)

/-- What relates the search to the points of a run: `keeps` while candidates are
rejected, `accepts` from the one that is returned to its commit. -/
structure RunRule (keeps : Search ι C → S → Prop) (accepts : MovementMap → Search ι C → S → Prop) (onStop : Stop → S → Prop) :
    Prop where
  draws : ∀ search draws point, keeps search point → keeps { search with draws } point
  exhausted : ∀ point, onStop .outOfDraws point
  passed : ∀ search binId point, keeps search point → machine.Leads point (steps (.passed binId)) (keeps search)
  noted : ∀ search point, keeps search point → machine.Leads point (steps (.iteration search)) (keeps search)
  failed : ∀ search shard nextBin fault point, keeps search point → Candidate state search.committedMoves shard nextBin →
    evaluate order state constraints search.committedMoves (.addMovement {} shard nextBin) search.world = .error fault →
      onStop (.fault fault) point
  rejected : ∀ search shard nextBin world point, keeps search point → Candidate state search.committedMoves shard nextBin →
    evaluate order state constraints search.committedMoves (.addMovement {} shard nextBin) search.world = .ok world →
      ¬ world.binWeightInfo.total < search.currentWeight →
        machine.Leads point (steps (.evaluated search.committedMoves (.addMovement {} shard nextBin) world)) (keeps { search with world })
  accepted : ∀ search shard nextBin world point, keeps search point → Candidate state search.committedMoves shard nextBin →
    evaluate order state constraints search.committedMoves (.addMovement {} shard nextBin) search.world = .ok world →
      world.binWeightInfo.total < search.currentWeight →
        machine.Leads point (steps (.evaluated search.committedMoves (.addMovement {} shard nextBin) world))
          (accepts (.addMovement {} shard nextBin) { search with world, currentWeight := world.binWeightInfo.total })
  committed : ∀ top movement search point, accepts movement search point →
    machine.Leads point (steps (.committed top movement (commitMovement constraints movement search)))
      (keeps (commitMovement constraints movement search))

variable {order state constraints machine steps} {keeps : Search ι C → S → Prop}
  {accepts : MovementMap → Search ι C → S → Prop} {onStop : Stop → S → Prop}

/-- Where a loop over candidates leaves the run. The committed moves are those it started with. -/
def Arrives (keeps : Search ι C → S → Prop) (accepts : MovementMap → Search ι C → S → Prop) (committedMoves : MovementMap)
    (outcome : Option MovementMap × Search ι C) (point : S) : Prop :=
  Outcome (keeps · point) (accepts · · point) outcome ∧ outcome.2.committedMoves = committedMoves

theorem RunRule.tryNextBins (rule : RunRule order state constraints machine steps keeps accepts onStop) (shard : DomainId)
    (binSet : List DomainId) (search : Search ι C) (point : S) (committedMoves : MovementMap)
    (sameMoves : search.committedMoves = committedMoves)
    (candidates : ∀ nextBin ∈ binSet, Candidate state committedMoves shard nextBin) (holds : keeps search point) :
    Traced.Performs machine steps (Arrives keeps accepts committedMoves) onStop point
      (tryNextBins order state constraints shard binSet search) := by
  induction binSet generalizing search point with
  | nil => exact Traced.performs_pure ⟨holds, sameMoves⟩
  | cons nextBin binSet ih =>
    have candidate : Candidate state search.committedMoves shard nextBin := sameMoves ▸ candidates nextBin (by simp)
    rw [IterativeLocalSearch.tryNextBins]
    cases evaluated : evaluate order state constraints search.committedMoves (.addMovement {} shard nextBin) search.world with
    | error fault =>
      exact Traced.performs_error (rule.failed search shard nextBin fault point holds candidate evaluated)
    | ok world =>
      have found : Traced.Performs machine steps (fun value same => world = value ∧ point = same) onStop point
          (checked (.ok world) : Run ι C (World ι C)) := Traced.performs_ok ⟨rfl, rfl⟩
      refine Traced.performs_bind found ?_
      rintro _ _ ⟨rfl, rfl⟩
      by_cases lower : world.binWeightInfo.total < search.currentWeight
      · have leads := rule.accepted search shard nextBin world point holds candidate evaluated lower
        refine Traced.performs_bind (Traced.performs_tell leads) ?_
        intro _ later accepted
        change world.binWeightInfo.totalWeight.get.getD 0 < search.currentWeight at lower
        rw [if_pos lower]
        exact Traced.performs_pure ⟨accepted, sameMoves⟩
      · have leads := rule.rejected search shard nextBin world point holds candidate evaluated lower
        refine Traced.performs_bind (Traced.performs_tell leads) ?_
        intro _ later kept
        change ¬ world.binWeightInfo.totalWeight.get.getD 0 < search.currentWeight at lower
        rw [if_neg lower]
        exact ih { search with world } later sameMoves (fun bin member => candidates bin (by simp [member])) kept

theorem RunRule.tryShards (rule : RunRule order state constraints machine steps keeps accepts onStop) (binId : DomainId)
    (shards : List DomainId) (iterations : Nat) (search : Search ι C) (point : S) (committedMoves : MovementMap)
    (sameMoves : search.committedMoves = committedMoves) (occupied : shards.length ≠ 0)
    (unmoved : ∀ shard ∈ shards, shard ∈ state.assignmentTree.children state.binDomain binId ∧
      committedMoves.getNextBin shard = none) (holds : keeps search point) :
    Traced.Performs machine steps (Arrives keeps accepts committedMoves) onStop point
      (tryShards order state constraints (state.getDomainSize state.binDomain) binId shards iterations search) := by
  induction iterations generalizing search point with
  | zero => exact Traced.performs_pure ⟨holds, sameMoves⟩
  | succ iterations ih =>
    rw [IterativeLocalSearch.tryShards]
    split
    · exact Traced.performs_error (rule.exhausted point)
    next draw draws _ =>
      simp only
      split
      · exact Traced.performs_error (rule.exhausted point)
      next binSet rest filled =>
        refine Traced.performs_bind (rule.tryNextBins _ _ { search with draws := rest } point committedMoves sameMoves
          (candidates_drawn occupied unmoved filled draw) (rule.draws search rest point holds)) ?_
        rintro ⟨movement, after⟩ later ⟨outcome, same⟩
        cases movement with
        | some movement => exact Traced.performs_pure ⟨outcome, same⟩
        | none => exact ih after later same outcome

theorem RunRule.tryBins (rule : RunRule order state constraints machine steps keeps accepts onStop) (binWeights : List DomainId)
    (search : Search ι C) (point : S) (holds : keeps search point) :
    Traced.Performs machine steps (Arrives keeps accepts search.committedMoves) onStop point
      (tryBins order state constraints binWeights search) := by
  induction binWeights generalizing search point with
  | nil => exact Traced.performs_pure ⟨holds, rfl⟩
  | cons binId binWeights ih =>
    refine Traced.performs_bind (Traced.performs_tell (rule.passed search binId point holds)) ?_
    intro _ here kept
    have forBin : Traced.Performs machine steps (Arrives keeps accepts search.committedMoves) onStop here
        (getMovementForBin order state constraints binId search) := by
      rw [IterativeLocalSearch.getMovementForBin]
      split
      next => exact Traced.performs_pure ⟨kept, rfl⟩
      next occupied =>
        refine rule.tryShards binId _ 10 search here search.committedMoves rfl occupied ?_ kept
        intro shard member
        simpa [shardsInBin] using member
    refine Traced.performs_bind forBin ?_
    rintro ⟨movement, after⟩ later ⟨outcome, same⟩
    cases movement with
    | some movement => exact Traced.performs_pure ⟨outcome, same⟩
    | none =>
      have rest := ih after later outcome
      rw [show after.committedMoves = search.committedMoves from same] at rest
      exact rest

theorem RunRule.iterate (rule : RunRule order state constraints machine steps keeps accepts onStop) (iterations : Nat)
    (search : Search ι C) (point : S) (holds : keeps search point) :
    Traced.Performs machine steps keeps onStop point (iterate order state constraints iterations search) := by
  induction iterations generalizing search point with
  | zero => exact Traced.performs_pure holds
  | succ iterations ih =>
    refine Traced.performs_bind (Traced.performs_tell (rule.noted search point holds)) ?_
    intro _ top keeps
    refine Traced.performs_bind (rule.tryBins _ search top keeps) ?_
    rintro ⟨movement, after⟩ later ⟨outcome, _⟩
    cases movement with
    | none => exact Traced.performs_pure outcome
    | some movement =>
      refine Traced.performs_bind (Traced.performs_tell (rule.committed search movement after later outcome)) ?_
      intro _ again kept
      exact ih (commitMovement constraints movement after) again kept

end ShardManager.IterativeLocalSearch

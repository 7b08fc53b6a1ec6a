import ShardManager.Lib.Traced
import ShardManager.Placer.Constraints
import Mathlib.Data.List.Sort
import Mathlib.Logic.Function.Basic

/-! `IterativeLocalSearch.h`. Constraints are objects behind shared pointers: a
world holds the object of every pointer of type `ι`, and the search is given a
list of pointers. Random numbers are a list of draws; a run for which the list is
too short stops where the next number would be drawn. -/

namespace ShardManager

/-- The constraint objects and the weights they share. -/
structure World (ι C : Type) where
  objects : ι → C
  binWeightInfo : BinWeightInfo

/-- The variables that change during `solve`. -/
structure Search (ι C : Type) where
  world : World ι C
  committedMoves : MovementMap
  currentWeight : Int
  draws : List Nat

/-- Points of a run at which its state is observed: the top of an iteration of
`solve`, a call of `getMovementForBin`, after `updateWeights` for a candidate,
after the commits. -/
inductive Event (ι C : Type) where
  | iteration (search : Search ι C)
  | passed (binId : DomainId)
  | evaluated (committedMoves canariedMoves : MovementMap) (world : World ι C)
  | committed (before : Search ι C) (movement : MovementMap) (after : Search ι C)

inductive Stop where
  | fault (fault : Fault)
  | outOfDraws

abbrev Run (ι C α : Type) := Traced Stop (Event ι C) α

namespace IterativeLocalSearch
variable {ι C : Type} [DecidableEq ι] [ConstraintOps C] (order : HashOrder) (state : SolvingState) (constraints : List ι)

def checked {α : Type} (result : Except Fault α) : Run ι C α := .lift (result.mapError .fault)

def updateWeights (committedMoves canaryMoves : MovementMap) (world : World ι C) : Except Fault (World ι C) :=
  constraints.foldlM (fun world constraint => do
    let (object, info) ← ConstraintOps.canaryMoves order state (some committedMoves) (some canaryMoves)
      (world.objects constraint) world.binWeightInfo
    pure ⟨Function.update world.objects constraint object, info⟩) world

def commit (world : World ι C) (constraint : ι) : World ι C :=
  ⟨Function.update world.objects constraint (ConstraintOps.commitMoves (world.objects constraint)),
    world.binWeightInfo.commit⟩

/-- The loop `for (auto constraint : constraints) constraint->commit()`. -/
def commitAll (world : World ι C) : World ι C := constraints.foldl commit world

/-- Evaluate one candidate: the weights' canaries are dropped first. -/
def evaluate (committedMoves canariedMoves : MovementMap) (world : World ι C) : Except Fault (World ι C) :=
  updateWeights order state constraints committedMoves canariedMoves
    { world with binWeightInfo := world.binWeightInfo.clear }

/-- `for (auto nextBinId : binSet)`. -/
def tryNextBins (shard : DomainId) : List DomainId → Search ι C → Run ι C (Option MovementMap × Search ι C)
  | [], search => pure (none, search)
  | nextBinId :: binSet, search => do
    let canariedMoves := MovementMap.addMovement {} shard nextBinId
    let world ← checked (evaluate order state constraints search.committedMoves canariedMoves search.world)
    Traced.tell (.evaluated search.committedMoves canariedMoves world)
    let search := { search with world }
    let newWeight := world.binWeightInfo.totalWeight.get.getD 0
    if newWeight < search.currentWeight then pure (some canariedMoves, { search with currentWeight := newWeight })
    else tryNextBins shard binSet search

/-- The value of `distr(randomGen_)` on `[0, numBins - 1]`. -/
def distr (numBins draw : Nat) : DomainId := draw % numBins

/-- The loop that fills `binSet`; `none` while the draws given so far leave it unfinished. -/
def drawBins (numBins : Nat) (binId : DomainId) : List Nat → UnorderedSet DomainId → Option (UnorderedSet DomainId × List Nat)
  | draws, binSet =>
    if binSet.keys.length < numBins - 1 ∧ binSet.keys.length < 50 then
      match draws with
      | [] => none
      | draw :: draws =>
        let nextBinId := distr numBins draw
        if nextBinId = binId then drawBins numBins binId draws binSet
        else drawBins numBins binId draws (binSet.insert nextBinId ())
    else some (binSet, draws)

/-- `for (size_t iter = 0; iter < 10; iter++)`, with the iterations left. -/
def tryShards (numBins : Nat) (binId : DomainId) (shardsInBin : List DomainId) :
    Nat → Search ι C → Run ι C (Option MovementMap × Search ι C)
  | 0, search => pure (none, search)
  | iterations + 1, search =>
    match search.draws with
    | [] => .lift (.error .outOfDraws)
    | draw :: draws =>
      let shard := shardsInBin.getD (draw % shardsInBin.length) 0
      match drawBins numBins binId draws ∅ with
      | none => .lift (.error .outOfDraws)
      | some (binSet, draws) => do
        let (movement, search) ← tryNextBins order state constraints shard (order.ids binSet.keys) { search with draws }
        match movement with
        | some movement => pure (some movement, search)
        | none => tryShards numBins binId shardsInBin iterations search

def shardsInBin (committedMoves : MovementMap) (binId : DomainId) : List DomainId :=
  (state.assignmentTree.children state.binDomain binId).filter fun shard => (committedMoves.getNextBin shard).isNone

def getMovementForBin (binId : DomainId) (search : Search ι C) : Run ι C (Option MovementMap × Search ι C) :=
  let numBins := state.getDomainSize state.binDomain
  let shardsInBin := shardsInBin state search.committedMoves binId
  if shardsInBin.length = 0 then pure (none, search)
  else tryShards order state constraints numBins binId shardsInBin 10 search

/-- `for (auto [weight, binId] : binWeights)`. -/
def tryBins : List DomainId → Search ι C → Run ι C (Option MovementMap × Search ι C)
  | [], search => pure (none, search)
  | binId :: binWeights, search => do
    Traced.tell (.passed binId)
    let (movement, search) ← getMovementForBin order state constraints binId search
    match movement with
    | some movement => pure (some movement, search)
    | none => tryBins binWeights search

/-- `std::greater` on pairs of a weight and a bin. -/
def hotter (first second : Int × DomainId) : Prop :=
  first.1 > second.1 ∨ first.1 = second.1 ∧ first.2 ≥ second.2

instance : DecidableRel hotter := fun _ _ => inferInstanceAs (Decidable (_ ∨ _ ∧ _))

/-- The bins from the hottest down. The pairs hold `int32_t` weights. -/
def hottestBins (info : BinWeightInfo) : List DomainId :=
  (((List.range (state.getDomainSize state.binDomain)).map fun binId =>
    (toInt32 ((info.binWeightMap.get binId).getD 0), binId)).insertionSort hotter).map Prod.snd

/-- `for (size_t iter = 0; iter < maxIterations_; iter++)`, with the iterations left. -/
def iterate : Nat → Search ι C → Run ι C (Search ι C)
  | 0, search => pure search
  | iterations + 1, top => do
    Traced.tell (.iteration top)
    let (movement, search) ← tryBins order state constraints (hottestBins state top.world.binWeightInfo) top
    match movement with
    | none => pure search
    | some movement =>
      let search :=
        { search with
          committedMoves := search.committedMoves.addMovements movement
          world := commitAll constraints search.world }
      Traced.tell (.committed top movement search)
      iterate iterations search

def start (world : World ι C) (draws : List Nat) : Search ι C where
  world
  committedMoves := {}
  currentWeight := world.binWeightInfo.totalWeight.get.getD 0
  draws

def solve (maxIterations : Nat) (draws : List Nat) (world : World ι C) : Run ι C (Search ι C) :=
  iterate order state constraints maxIterations (start world draws)

/-- A drain of the first of two bins, as its constructor leaves it. -/
def drainedBin : DrainConstraint × BinWeightInfo :=
  (DrainConstraint.new .insertion .twoBins .after 1 [0] 1 .empty).toOption.get (by decide +kernel)

def drainedWorld : World Unit Constraint := ⟨fun _ => .drain drainedBin.1, drainedBin.2⟩

/-- A search that empties the drained bin move by move. -/
def drainedRun : Run Unit Constraint (Search Unit Constraint) :=
  solve .insertion .twoBins [()] 2 [0, 1, 0, 1] drainedWorld

example : drainedRun.result.toOption.map (fun final => (final.currentWeight, final.committedMoves.getAllMovements.keys)) =
    some (1, [1, 0]) := by decide +kernel

end IterativeLocalSearch
end ShardManager

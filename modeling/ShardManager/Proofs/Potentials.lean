import ShardManager.Lib.Descent
import ShardManager.Proofs.DrainedShards
import ShardManager.Proofs.LocalOptimum
import ShardManager.Proofs.Recomputed
import ShardManager.Proofs.SearchRuns

/-! Two levels of one search. `solve` patches loads, faults and weights; what it does with
them is descent over placements, weighed from the initial assignment and the moves alone. -/

namespace ShardManager
open SparseMappingTree IterativeLocalSearch SolvingState

namespace IterativeLocalSearch
variable {ι : Type} [DecidableEq ι] {order : HashOrder} {state : SolvingState} {constraints : List ι}

private theorem hasBin_commitMoves (constraint : Constraint) : (ConstraintOps.commitMoves constraint).HasBin ↔ constraint.HasBin := by
  cases constraint <;> rfl

theorem HasBins.commitAll {world : World ι Constraint} (hasBins : HasBins constraints world) :
    HasBins constraints (commitAll constraints world) := by
  intro constraint listed
  rw [commitAll_target]
  induction constraints.count constraint with
  | zero => exact hasBins constraint listed
  | succ count ih =>
    rw [Function.iterate_succ_apply', hasBin_commitMoves]
    exact ih

/-- Where every tree has a bin, nothing but a want of draws stops the search. -/
private theorem iterate_defined {own : MovementMap} (present : state.movementMap = some own) (iterations : Nat) (search : Search ι Constraint)
    (hasBins : HasBins constraints search.world) (fault : Fault) :
    (iterate order state constraints iterations search).result ≠ .error (.fault fault) := by
  let machine : Machine Unit Unit := ⟨fun _ _ => True, fun point _ => point⟩
  have rule : RunRule order state constraints machine (fun _ => []) (fun search _ => HasBins constraints search.world)
      (fun _ search _ => HasBins constraints search.world) fun stop _ => stop = .outOfDraws := by
    constructor
    · exact fun _ _ _ kept => kept
    · exact fun _ => rfl
    · exact fun _ _ _ kept => ⟨trivial, kept⟩
    · exact fun _ _ kept => ⟨trivial, kept⟩
    · intro search shard nextBin fault _ kept _ failed
      obtain ⟨after, evaluated⟩ := evaluate_defined order present search.committedMoves (.addMovement {} shard nextBin)
        search.world kept
      rw [evaluated] at failed
      cases failed
    · exact fun _ _ _ _ _ kept _ evaluated _ => ⟨trivial, (evaluate_keeps evaluated).hasBins kept⟩
    · exact fun _ _ _ _ _ kept _ evaluated _ => ⟨trivial, (evaluate_keeps evaluated).hasBins kept⟩
    · exact fun _ _ _ _ kept => ⟨trivial, HasBins.commitAll kept⟩
  intro stopped
  cases (rule.iterate iterations search () hasBins).stops _ stopped

/-- Where every tree has a bin, `solve` returns on fair draws. -/
theorem Fair.returns (order : HashOrder) {own : MovementMap} (present : state.movementMap = some own) (maxIterations : Nat)
    {world : World ι Constraint} (hasBins : HasBins constraints world) {draws : Nat → Nat}
    (fair : Fair (state.getDomainSize state.binDomain) draws) :
    ∃ enough, ∀ count, enough ≤ count → ∃ final,
      (solve order state constraints maxIterations ((List.range count).map draws) world).result = .ok final := by
  obtain ⟨enough, stocked⟩ := fair.enough (turnsLeft state maxIterations {})
  refine ⟨enough, ?_⟩
  intro count more
  cases returned : (solve order state constraints maxIterations ((List.range count).map draws) world).result with
  | ok final => exact ⟨final, rfl⟩
  | error stop =>
    cases stop with
    | fault fault => exact absurd returned (iterate_defined present maxIterations (start world _) hasBins fault)
    | outOfDraws => exact absurd returned (solve_stocked order state constraints maxIterations world (stocked count more))

end IterativeLocalSearch

variable {ι : Type} [DecidableEq ι] {order : HashOrder} {state : SolvingState} {constraints : List ι}

/-- Constraints whose committed version weighs what a potential makes of the moves. -/
structure Potential (order : HashOrder) (state : SolvingState) (holds : MovementMap → Constraint → Prop)
    (potential : MovementMap → Int) : Prop where
  tracks : Tracks order state holds
  share : ∀ moves constraint, holds moves constraint → constraint.KeepsFaults ∧
    (totalAccount state).shareOf (LawfulConstraint.rollback constraint) = potential moves

section Descends
variable {holds : ι → MovementMap → Constraint → Prop} {potential : ι → MovementMap → Int}

theorem Potential.added {holds : MovementMap → Constraint → Prop} {potential : MovementMap → Int}
    (weighs : Potential order state holds potential) {moves : MovementMap} {shard nextBin : DomainId}
    (candidate : Candidate state moves shard nextBin) {constraint after : Constraint} (held : holds moves constraint)
    {info final : BinWeightInfo}
    (canaried : ConstraintOps.canaryMoves order state (some moves) (some (.addMovement {} shard nextBin)) constraint info =
      .ok (after, final)) :
    (constraint.added order state moves (.addMovement {} shard nextBin)).total =
      potential (moves.addMovements (.addMovement {} shard nextBin)) - potential moves := by
  obtain ⟨keepsFaults, before⟩ := weighs.share _ _ held
  obtain ⟨_, later⟩ := weighs.share _ _ (weighs.tracks.accepted _ _ _ _ _ _ _ candidate held canaried)
  have share := Constraint.added_share (totalAccount state) keepsFaults canaried
  rwa [before, ← ((totalAccount state).commitMoves_share _).2, later] at share

/-- The placement search: candidates are moved where that lowers the sum of the potentials. -/
def placementSearch (state : SolvingState) (constraints : List ι) (potential : ι → MovementMap → Int) :
    Descent MovementMap MovementMap where
  offers moves movement := ∃ shard nextBin, Candidate state moves shard nextBin ∧ movement = .addMovement {} shard nextBin
  next := MovementMap.addMovements
  potential moves := (constraints.map fun constraint => potential constraint moves).sum

/-- As many destinations as are tried for a shard would be in vain for one of the shards of the bin. -/
def VainAt (state : SolvingState) (search : Descent MovementMap MovementMap) (moves : MovementMap) (binId : DomainId) : Prop :=
  ∃ shard ∈ shardsInBin state moves binId, ∃ tried ⊆ (Finset.range (state.getDomainSize state.binDomain)).erase binId,
    tried.card = min (state.getDomainSize state.binDomain - 1) 50 ∧
      ∀ nextBin ∈ tried, ¬ search.Lowers moves (.addMovement {} shard nextBin)

variable (each : ∀ constraint ∈ constraints, Potential order state (holds constraint) (potential constraint))
include each

private theorem evaluated_potential {moves : MovementMap} {shard nextBin : DomainId}
    (candidate : Candidate state moves shard nextBin) {world after : World ι Constraint}
    (held : ∀ constraint ∈ constraints, holds constraint moves (world.objects constraint))
    (evaluated : evaluate order state constraints moves (.addMovement {} shard nextBin) world = .ok after) :
    after.binWeightInfo.total = world.binWeightInfo.committedTotal +
      ((placementSearch state constraints potential).potential (moves.addMovements (.addMovement {} shard nextBin)) -
        (placementSearch state constraints potential).potential moves) := by
  obtain ⟨total, _⟩ := evaluate_added evaluated
  have changes : ∀ constraint ∈ constraints,
      ((world.objects constraint).added order state moves (.addMovement {} shard nextBin)).total =
        potential constraint (moves.addMovements (.addMovement {} shard nextBin)) - potential constraint moves := by
    intro constraint listed
    obtain ⟨info, final, canaried⟩ := evaluate_target evaluated listed
    exact (each constraint listed).added candidate (held constraint listed) canaried
  have parts := List.sum_map_add (l := constraints) (M := Int)
    (f := fun constraint => potential constraint (moves.addMovements (.addMovement {} shard nextBin)) - potential constraint moves)
    (g := fun constraint => potential constraint moves)
  simp only [sub_add_cancel] at parts
  rw [total, List.map_congr_left changes]
  change _ = _ + ((constraints.map fun constraint => potential constraint (moves.addMovements _)).sum -
    (constraints.map fun constraint => potential constraint moves).sum)
  rw [parts, add_sub_cancel_right]

omit each

def movesOf : Event ι Constraint → List MovementMap
  | .committed _ movement _ => [movement]
  | _ => []

/-- The top of an iteration, at the placement that the moves lead to. -/
structure AtPlacement (state : SolvingState) (constraints : List ι) (holds : ι → MovementMap → Constraint → Prop)
    (potential : ι → MovementMap → Int) (entry : Int) (top : Search ι Constraint) (moves : MovementMap) : Prop where
  atTop : AtTop entry top
  reached : top.committedMoves = moves
  held : ∀ constraint ∈ constraints, holds constraint moves (top.world.objects constraint)
  weight : top.currentWeight = entry + ((placementSearch state constraints potential).potential moves -
    (placementSearch state constraints potential).potential {})

/-- The search is at a placement, or has rejected candidates since. -/
def AroundPlacement (state : SolvingState) (constraints : List ι) (holds : ι → MovementMap → Constraint → Prop)
    (potential : ι → MovementMap → Int) (entry : Int) (search : Search ι Constraint) (moves : MovementMap) : Prop :=
  ∃ top, AtPlacement state constraints holds potential entry top moves ∧ Searching constraints top search

omit [DecidableEq ι] in
theorem AroundPlacement.reached {entry : Int} {search : Search ι Constraint} {moves : MovementMap}
    (around : AroundPlacement state constraints holds potential entry search moves) : search.committedMoves = moves := by
  obtain ⟨top, placed, searching⟩ := around
  exact searching.moves.trans placed.reached

include each

theorem AtPlacement.lowers_iff {entry : Int} {top : Search ι Constraint} {moves : MovementMap}
    (placed : AtPlacement state constraints holds potential entry top moves) {shard nextBin : DomainId}
    (candidate : Candidate state moves shard nextBin) {world : World ι Constraint}
    (evaluated : evaluate order state constraints moves (.addMovement {} shard nextBin) top.world = .ok world) :
    world.binWeightInfo.total < top.currentWeight ↔
      (placementSearch state constraints potential).Lowers moves (.addMovement {} shard nextBin) := by
  rw [evaluated_potential each candidate placed.held evaluated, placed.atTop.current, add_lt_iff_neg_left, sub_neg]
  rfl

theorem AtPlacement.commit {entry : Int} {top search : Search ι Constraint} {moves : MovementMap}
    (placed : AtPlacement state constraints holds potential entry top moves) {shard nextBin : DomainId}
    (candidate : Candidate state moves shard nextBin) (sameMoves : search.committedMoves = moves)
    (evaluated : evaluate order state constraints moves (.addMovement {} shard nextBin) top.world = .ok search.world)
    (lower : search.world.binWeightInfo.total < top.currentWeight) (weight : search.currentWeight = search.world.binWeightInfo.total) :
    AtPlacement state constraints holds potential entry (commitMovement constraints (.addMovement {} shard nextBin) search)
      (moves.addMovements (.addMovement {} shard nextBin)) := by
  obtain ⟨atTop, rfl, held, before⟩ := placed
  obtain ⟨improvement, again⟩ := improvement_commit atTop ⟨shard, nextBin, candidate, rfl, evaluated, lower, weight⟩ sameMoves
  obtain ⟨_, moved, ⟨world, same, committed, _⟩, _⟩ := improvement
  refine ⟨again, moved, ?_, ?_⟩
  · intro constraint listed
    have step : CommitStep order state constraints top (.addMovement {} shard nextBin)
        (commitMovement constraints (.addMovement {} shard nextBin) search) :=
      ⟨⟨shard, nextBin, candidate, rfl⟩, moved, world, same, committed⟩
    rw [← moved]
    exact (each constraint listed).tracks.step listed step (held constraint listed)
  · have total := evaluated_potential each candidate held evaluated
    rw [← atTop.current, before, ← weight] at total
    change search.currentWeight = _
    omega

/-- Every commit is a move of the placement search. -/
private theorem placement_rule (entry : Int) :
    RunRule order state constraints (placementSearch state constraints potential).machine movesOf
      (AroundPlacement state constraints holds potential entry)
      (fun movement search moves => ∃ top shard nextBin, AtPlacement state constraints holds potential entry top moves ∧
        Candidate state moves shard nextBin ∧ movement = .addMovement {} shard nextBin ∧ search.committedMoves = moves ∧
        evaluate order state constraints moves movement top.world = .ok search.world ∧
        search.world.binWeightInfo.total < top.currentWeight ∧ search.currentWeight = search.world.binWeightInfo.total)
      (fun _ _ => True) where
  draws search draws moves around := by
    obtain ⟨top, placed, searching⟩ := around
    exact ⟨top, placed, searching.draws draws⟩
  exhausted _ := trivial
  passed _ _ _ around := ⟨trivial, around⟩
  noted _ _ around := ⟨trivial, around⟩
  failed _ _ _ _ _ _ _ _ := trivial
  rejected search shard nextBin world moves around _ evaluated _ := by
    obtain ⟨top, placed, searching⟩ := around
    exact ⟨trivial, top, placed, (evaluate_keeps evaluated).trans searching.committed, searching.moves, searching.weight⟩
  accepted search shard nextBin world moves around candidate evaluated lower := by
    have here := around.reached
    obtain ⟨top, placed, searching⟩ := around
    rw [here] at candidate
    rw [searching.committed.evaluate, here] at evaluated
    rw [searching.weight] at lower
    exact ⟨trivial, top, shard, nextBin, placed, candidate, rfl, here, evaluated, lower, rfl⟩
  committed := by
    rintro _ movement search moves ⟨top, shard, nextBin, placed, candidate, rfl, here, evaluated, lower, weight⟩
    refine ⟨⟨⟨⟨shard, nextBin, candidate, rfl⟩, ?_⟩, trivial⟩, _, ?_, .refl _, rfl, rfl⟩
    · exact (placed.lowers_iff each candidate evaluated).mp lower
    · exact placed.commit each candidate here evaluated lower weight

theorem stuck_placement {entry : Int} {final : Search ι Constraint} {moves : MovementMap}
    (around : AroundPlacement state constraints holds potential entry final moves) {binId : DomainId}
    (stuck : Stuck order state constraints final binId) : VainAt state (placementSearch state constraints potential) moves binId := by
  obtain ⟨shard, member, tried, inside, enough, useless⟩ := stuck
  have here := around.reached
  obtain ⟨top, placed, searching⟩ := around
  rw [here] at member
  refine ⟨shard, member, tried, inside, enough, ?_⟩
  intro nextBin drawn lowers
  obtain ⟨world, evaluated, higher⟩ := useless nextBin drawn
  rw [searching.committed.evaluate, here] at evaluated
  obtain ⟨listed, unmoved⟩ := List.mem_filter.mp member
  obtain ⟨different, bin⟩ := Finset.mem_erase.mp (inside drawn)
  have candidate : Candidate state moves shard nextBin :=
    ⟨⟨binId, listed, different⟩, Option.isNone_iff_eq_none.mp unmoved, Finset.mem_range.mp bin⟩
  rw [← placed.lowers_iff each candidate evaluated] at lowers
  rw [searching.weight] at higher
  omega

theorem solve_performs {world : World ι Constraint}
    (settled : world.binWeightInfo.clear = world.binWeightInfo)
    (begins : ∀ constraint ∈ constraints, holds constraint {} (world.objects constraint)) (maxIterations : Nat) (draws : List Nat) :
    Traced.Performs (placementSearch state constraints potential).machine movesOf
      (AroundPlacement state constraints holds potential world.binWeightInfo.total) (fun _ _ => True) {}
      (solve order state constraints maxIterations draws world) := by
  refine (placement_rule each world.binWeightInfo.total).iterate maxIterations (start world draws) {} ?_
  have same : world.binWeightInfo.total = world.binWeightInfo.committedTotal := by
    rw [← settled, BinWeightInfo.total_clear, BinWeightInfo.committedTotal_clear]
  refine ⟨start world draws, ⟨⟨same, .inl ⟨rfl, same.symm⟩⟩, rfl, begins, ?_⟩, .refl _, rfl, rfl⟩
  rw [sub_self, add_zero]
  rfl

end Descends

section Placements
variable {domainIds : List DomainId} {weight : DomainId → Int}

/-- A counter that sums exact loads, and records no fault for 0, has the sum of the faults as its potential. -/
theorem Additive.potential (hierarchical : state.Hierarchical) {first : Counter} (additive : Additive state .after weight first)
    (isPart : Part state.assignmentTree first.part first.domain domainIds) (hasBin : first.part.HasBin) (zero : first.fault 0 = 0)
    (fits : ∀ moves domainId, FitsInt32 (state.load weight moves (first.domain, domainId))) :
    Potential order state (TracksCounter state first (CountsLoad state weight)) fun moves =>
      ∑ domainId ∈ domainIds.toFinset, first.fault (state.load weight moves (first.domain, domainId)) where
  tracks := tracks_load order hierarchical additive isPart hasBin
  share := by
    rintro moves constraint ⟨counter, found, same, counts⟩
    obtain ⟨keepsFaults, _, faultMap⟩ := Constraint.keepsFaults_of_counter found
    refine ⟨keepsFaults, (shareOf_total constraint keepsFaults).2.trans ?_⟩
    rw [faultMap]
    change ∑ᶠ domainId, (counter.faults domainId).getD 0 = _
    have inPart : Part state.assignmentTree counter.part first.domain domainIds := same.part ▸ isPart
    have bottom := inPart.hasBin (same.part ▸ hasBin)
    have faults := counts.tallies.faults
    rw [same.domain, same.fault] at faults
    have weighed : ∀ domainId, (counter.faults domainId).getD 0 = first.fault ((counter.metric (first.domain, domainId)).getD 0) := by
      intro domainId
      rw [faults]
      cases counter.metric (first.domain, domainId) with
      | none => exact zero.symm
      | some val => rfl
    rw [finsum_eq_sum_of_support_subset (s := domainIds.toFinset)]
    · refine Finset.sum_congr rfl fun domainId listed => ?_
      rw [weighed, counts.value_listed hierarchical inPart (.inl bottom) (List.mem_toFinset.mp listed) (fits moves domainId)]
    · intro domainId present
      rw [Finset.mem_coe, List.mem_toFinset]
      by_contra absent
      apply present
      have notMapped : ¬ counter.part.Mapped (first.domain, domainId) := fun mapped => absent ((inPart.given domainId).mp mapped).1
      change (counter.faults domainId).getD 0 = 0
      rw [weighed, counts.tallies.unmapped _ notMapped]
      exact zero

theorem TracksCounter.hasBin {first : Counter} {holds : MovementMap → Counter → Prop} {moves : MovementMap} {constraint : Constraint}
    (tracked : TracksCounter state first holds moves constraint) (hasBin : first.part.HasBin) : constraint.HasBin := by
  obtain ⟨counter, found, same, _⟩ := tracked
  rw [← same.part] at hasBin
  cases constraint with
  | metric constraint => cases found; exact hasBin
  | drain constraint => cases found; exact hasBin
  | loadBalancing constraint => cases found

theorem Additive.constructed (order : HashOrder) (hierarchical : state.Hierarchical) {first : Counter}
    (additive : Additive state .after weight first) (isPart : Part state.assignmentTree first.part first.domain domainIds)
    (hasBin : first.part.HasBin) (zero : first.fault 0 = 0)
    (fits : ∀ moves domainId, FitsInt32 (state.load weight moves (first.domain, domainId)))
    (metrics : first.metric = fun _ => none) (faults : first.faults = fun _ => none) {arguments : Constraint.Arguments}
    (counted : arguments.counter state = some first) {constructorOrder : HashOrder} {info weights : BinWeightInfo}
    {constraint : Constraint} (made : Constraint.new constructorOrder state info arguments = .ok (constraint, weights)) :
    ∃ holds, Potential order state holds
        (fun moves => ∑ domainId ∈ domainIds.toFinset, first.fault (state.load weight moves (first.domain, domainId))) ∧
      holds {} constraint ∧ constraint.HasBin := by
  obtain ⟨found, _⟩ := Constraint.counter_new hierarchical.movementMap first counted (hasBin.resolves _) made
  have begins : TracksCounter state first (CountsLoad state weight) {} constraint :=
    ⟨_, found, SameKind.canaried ⟨rfl, rfl, rfl, rfl⟩ _ _ _ _,
      countsLoad_new constructorOrder info hierarchical additive isPart metrics faults⟩
  exact ⟨_, additive.potential hierarchical isPart hasBin zero fits, begins, begins.hasBin hasBin⟩

private theorem load_fits (total : ∑ shard ∈ state.shards, |weight shard| < 2147483648) (moves : MovementMap) (node : Node) :
    FitsInt32 (state.load weight moves node) := by
  have bound : |state.load weight moves node| < 2147483648 := by
    refine lt_of_le_of_lt ?_ total
    refine (Finset.abs_sum_le_sum_abs _ _).trans ?_
    exact Finset.sum_le_sum_of_subset_of_nonneg (Finset.filter_subset _ _) fun shard _ _ => abs_nonneg (weight shard)
  rw [abs_lt] at bound
  unfold FitsInt32
  omega

end Placements

namespace Constraint.Arguments

/-- What a constraint with these arguments makes of the placement after some moves.
`sumOperator` reads metric 0, whichever is configured. -/
def weighs (state : SolvingState) (moves : MovementMap) : Arguments → Int
  | .metric _ domain domainIds _ capacity faultWeight => ∑ domainId ∈ domainIds.toFinset,
    MetricConstraint.fault capacity faultWeight (state.load (state.getShardMetric 0) moves (domain, domainId))
  | .drain _ domain domainIds faultWeight => ∑ domainId ∈ domainIds.toFinset,
    DrainConstraint.fault faultWeight (state.load (fun _ => 1) moves (domain, domainId))
  | .loadBalancing .. => 0

/-- Constraints that weigh every placement exactly. -/
def Exact (state : SolvingState) : Arguments → Prop
  | .metric consistency domain domainIds _ capacity _ =>
    consistency = .after ∧ 0 ≤ capacity ∧ (state.assignmentTree.createPartialTree domain domainIds).HasBin
  | .drain consistency domain domainIds _ =>
    consistency = .after ∧ domain = 1 ∧ (state.assignmentTree.createPartialTree domain domainIds).HasBin
  | .loadBalancing .. => False

theorem weighs_drain (consistency : MovementConsistency) (domain : Domain) (domainIds : List DomainId) (faultWeight : Int)
    (moves : MovementMap) : (Arguments.drain consistency domain domainIds faultWeight).weighs state moves =
      faultWeight * (state.shardsUnder moves domain domainIds).card := by
  rw [card_shardsUnder, Finset.mul_sum]
  exact Finset.sum_congr rfl fun domainId _ => mul_comm _ _

section Constructed
variable (order : HashOrder) (hierarchical : state.Hierarchical) {constructorOrder : HashOrder} {info weights : BinWeightInfo}
  {constraint : Constraint}
include hierarchical

theorem potential_drain (small : state.shards.card < 2147483648) {domainIds : List DomainId} {faultWeight : Int}
    (hasBin : (state.assignmentTree.createPartialTree 1 domainIds).HasBin)
    (made : Constraint.new constructorOrder state info (.drain .after 1 domainIds faultWeight) = .ok (constraint, weights)) :
    ∃ holds, Potential order state holds ((Arguments.drain .after 1 domainIds faultWeight).weighs state) ∧ holds {} constraint ∧
      constraint.HasBin := by
  have additive : Additive state .after (fun _ => 1) (DrainConstraint.newCounter state .after 1 domainIds faultWeight) :=
    DrainConstraint.newCounter_additive hierarchical .after faultWeight
  have counts : ∑ shard ∈ state.shards, |(fun _ => 1 : DomainId → Int) shard| < 2147483648 := by
    simpa using small
  exact additive.constructed order hierarchical (createPartialTree_part hierarchical.hierarchy 1 domainIds) hasBin
    (zero_mul faultWeight) (fun moves _ => load_fits counts moves _) (funext fun _ => rfl) (funext fun _ => rfl) rfl made

theorem potential_metric (fits : ∑ shard ∈ state.shards, |state.getShardMetric 0 shard| < 2147483648) {domain : Domain}
    {domainIds : List DomainId} {metric : Metric} {capacity faultWeight : Int} (positive : 0 ≤ capacity)
    (hasBin : (state.assignmentTree.createPartialTree domain domainIds).HasBin)
    (made : Constraint.new constructorOrder state info (.metric .after domain domainIds metric capacity faultWeight) =
      .ok (constraint, weights)) :
    ∃ holds, Potential order state holds ((Arguments.metric .after domain domainIds metric capacity faultWeight).weighs state) ∧
      holds {} constraint ∧ constraint.HasBin := by
  have additive := MetricConstraint.newCounter_additive domainIds hierarchical .after capacity faultWeight
    (domain_ne_zero hierarchical hasBin)
  exact additive.constructed order hierarchical (createPartialTree_part hierarchical.hierarchy domain domainIds) hasBin
    (if_neg (not_lt.mpr positive)) (fun moves _ => load_fits fits moves _) (funext fun _ => rfl) (funext fun _ => rfl) rfl made

/-- What `weighs` says is what the incremental evaluation keeps. -/
theorem Exact.potential {arguments : Arguments} (exact : arguments.Exact state) (small : state.shards.card < 2147483648)
    (fits : ∑ shard ∈ state.shards, |state.getShardMetric 0 shard| < 2147483648)
    (made : Constraint.new constructorOrder state info arguments = .ok (constraint, weights)) :
    ∃ holds, Potential order state holds (arguments.weighs state) ∧ holds {} constraint ∧ constraint.HasBin := by
  cases arguments with
  | metric consistency domain domainIds metric capacity faultWeight =>
    obtain ⟨rfl, positive, hasBin⟩ := exact
    exact potential_metric order hierarchical fits positive hasBin made
  | drain consistency domain domainIds faultWeight =>
    obtain ⟨rfl, rfl, hasBin⟩ := exact
    exact potential_drain order hierarchical small hasBin made
  | loadBalancing domain domainIds metric maxDelta faultWeightMultiplier => cases exact

end Constructed

end Constraint.Arguments
section Runs
variable {potential : ι → MovementMap → Int} {moves : MovementMap} {steps : List MovementMap}

omit [DecidableEq ι] in
private theorem moved_after (runs : (placementSearch state constraints potential).machine.Runs moves steps) :
    moved ((placementSearch state constraints potential).machine.after moves steps) = moved moves + steps.length := by
  induction steps generalizing moves with
  | nil => rfl
  | cons movement steps ih =>
    obtain ⟨⟨⟨shard, nextBin, candidate, rfl⟩, _⟩, rest⟩ := runs
    have more : moved ((placementSearch state constraints potential).machine.next moves (.addMovement {} shard nextBin)) = moved moves + 1 :=
      moved_candidate candidate
    rw [Machine.after_cons, ih rest, more, List.length_cons]
    omega

end Runs

/-- `solve` refines the search over placements. Its commits are moves of that search, its
weight is the one of the placement it has reached, and it stops early only where that
search would try as many destinations for a shard of each bin in vain. -/
theorem solve_refines (shardInfoVector : List ShardInfo) (metricVectors : List (List MetricValue))
    (domainMapping : List (List (List DomainId))) (once : ListsOnce domainMapping) {state : SolvingState}
    (built : state = (SolvingState.new shardInfoVector metricVectors domainMapping).withEmptyMovementMap)
    (small : state.shards.card < 2147483648) (fits : ∑ shard ∈ state.shards, |state.getShardMetric 0 shard| < 2147483648)
    (constraints : List ι) (arguments : ι → Constraint.Arguments)
    (exact : ∀ constraint ∈ constraints, (arguments constraint).Exact state) (world : World ι Constraint)
    (made : ∀ constraint ∈ constraints, ∃ constructorOrder info weights,
      Constraint.new constructorOrder state info (arguments constraint) = .ok (world.objects constraint, weights))
    (settled : world.binWeightInfo.clear = world.binWeightInfo) (order : HashOrder) (maxIterations : Nat) (draws : List Nat) :
    let run := solve order state constraints maxIterations draws world
    let search := placementSearch state constraints fun constraint moves => (arguments constraint).weighs state moves
    search.machine.Runs {} (run.events.flatMap movesOf) ∧ (∀ fault, run.result ≠ .error (.fault fault)) ∧
    ∀ final, run.result = .ok final →
      final.committedMoves = search.machine.after {} (run.events.flatMap movesOf) ∧
      final.currentWeight = world.binWeightInfo.total + (search.potential final.committedMoves - search.potential {}) ∧
      (moved final.committedMoves : Int) ≤ search.potential {} - search.potential final.committedMoves ∧
      (moved final.committedMoves < maxIterations → ∀ binId < state.getDomainSize state.binDomain,
        shardsInBin state final.committedMoves binId ≠ [] → VainAt state search final.committedMoves binId) := by
  intro run search
  have hierarchical : state.Hierarchical := built ▸ hierarchical_new shardInfoVector metricVectors once
  have tracked : ∀ constraint ∈ constraints, ∃ holds, Potential order state holds ((arguments constraint).weighs state) ∧
      holds {} (world.objects constraint) ∧ (world.objects constraint).HasBin := by
    intro constraint listed
    obtain ⟨constructorOrder, info, weights, made⟩ := made constraint listed
    exact (exact constraint listed).potential order hierarchical small fits made
  choose! holds each begins hasBins using tracked
  have performs : Traced.Performs search.machine movesOf (AroundPlacement state constraints holds _ world.binWeightInfo.total)
      (fun _ _ => True) {} run := solve_performs each settled begins maxIterations draws
  refine ⟨performs.runs, iterate_defined hierarchical.movementMap maxIterations (start world draws) hasBins, ?_⟩
  intro final returned
  have around := performs.results final returned
  have here := around.reached
  obtain ⟨top, placed, searching⟩ := around
  refine ⟨here, ?_, ?_, ?_⟩
  · rw [here, searching.weight]
    exact placed.weight
  · have steps : moved (search.machine.after {} (run.events.flatMap movesOf)) = 0 + (run.events.flatMap movesOf).length :=
      moved_after performs.runs
    have fewer := Descent.length_le performs.runs
    rw [here, steps, Nat.zero_add]
    exact fewer
  · have settles : Traced.Satisfies _ _ run := iterate_settles maxIterations (start world draws)
    obtain ⟨_, stuck⟩ := settles.2 final returned
    intro early binId inside occupied
    have found := stuck_placement each ⟨top, placed, searching⟩ (stuck (by rw [start]; exact lt_of_lt_of_eq early (Nat.zero_add _).symm) binId inside occupied)
    rw [← here] at found
    exact found

def rackArguments (isMetric : Bool) : Constraint.Arguments :=
  if isMetric then .metric .after 2 [0] 0 10 1 else .drain .after 1 [0] 1

theorem solve_refines_twoBins :
    let run := solve .insertion .twoBins [true, false] 2 [0, 1, 0, 1] MetricConstraint.heavyWorld
    let search := placementSearch .twoBins [true, false] fun constraint moves => (rackArguments constraint).weighs .twoBins moves
    search.machine.Runs {} (run.events.flatMap movesOf) ∧ ∀ final, run.result = .ok final →
      final.currentWeight = MetricConstraint.heavyWorld.binWeightInfo.total + (search.potential final.committedMoves - search.potential {}) := by
  have exact : ∀ constraint ∈ [true, false], (rackArguments constraint).Exact .twoBins := by
    intro constraint _
    cases constraint with
    | true => exact ⟨rfl, by decide, by decide +kernel⟩
    | false => exact ⟨rfl, rfl, by decide +kernel⟩
  have made : ∀ constraint ∈ [true, false], ∃ constructorOrder info weights,
      Constraint.new constructorOrder .twoBins info (rackArguments constraint) =
        .ok (MetricConstraint.heavyWorld.objects constraint, weights) := by
    intro constraint _
    cases constraint with
    | true => exact ⟨.insertion, drainedBin.2, MetricConstraint.heavyRack.2, rfl⟩
    | false => exact ⟨.insertion, .empty, drainedBin.2, rfl⟩
  obtain ⟨runs, _, returns⟩ := solve_refines [] [[5, 7, 9]] [[[0, 1, 2], []], [[0, 1]]] (by decide) (rfl : SolvingState.twoBins = _)
    (by decide +kernel) (by decide +kernel) [true, false] rackArguments exact MetricConstraint.heavyWorld made rfl .insertion 2
    [0, 1, 0, 1]
  exact ⟨runs, fun final returned => (returns final returned).2.1⟩

end ShardManager

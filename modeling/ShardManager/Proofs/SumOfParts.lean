import ShardManager.Proofs.SubTrees
import Mathlib.Algebra.BigOperators.Finprod

/-! A constraint is the sum of its parts: over all the nodes it has the faults that
constraints over disjoint parts of them have, and it weighs what they weigh together. -/

namespace ShardManager

/-- Faults of some nodes, among the faults of more of them. -/
structure FaultsOf (domainIds ids : List DomainId) (faults partFaults : DomainId → Option Int) : Prop where
  listed : ∀ domainId ∈ ids, faults domainId = partFaults domainId
  outsidePart : ∀ domainId, domainId ∉ ids → partFaults domainId = none
  outside : ∀ domainId, domainId ∉ domainIds → faults domainId = none

namespace Counter
variable {state : SolvingState} {domainIds subIds : List DomainId} {whole sub : Counter}

private theorem Fewer.faultsOf (fewer : Fewer state domainIds subIds whole sub) (restricts : Restricts whole sub) :
    FaultsOf domainIds subIds whole.faults sub.faults where
  listed _ listed := fewer.listed restricts listed
  outsidePart _ unlisted := fewer.subOver.unlisted restricts.subTallies unlisted
  outside _ unlisted := fewer.isOver.unlisted restricts.tallies unlisted

theorem Restricts.same (restricts : Restricts whole sub) {counter other : Counter} (same : SameKind whole counter)
    (otherSame : SameKind sub other) (shown : counter.metric = whole.metric ∧ counter.faults = whole.faults)
    (otherShown : other.metric = sub.metric ∧ other.faults = sub.faults) : Restricts counter other where
  tallies := by
    rw [Tallies, same.part, same.domain, same.fault, shown.1, shown.2]
    exact restricts.tallies
  subTallies := by
    rw [Tallies, otherSame.part, otherSame.domain, otherSame.fault, otherShown.1, otherShown.2]
    exact restricts.subTallies
  metrics node mapped := by
    rw [shown.1, otherShown.1]
    exact restricts.metrics node (otherSame.part ▸ mapped)

end Counter

namespace Constraint
open Counter SparseMappingTree

/-- The constraint over the nodes has for some of them what the other one has, as it is
shown and as it was committed. -/
def PartOf (state : SolvingState) (domainIds ids : List DomainId) (whole part : Constraint) : Prop :=
  ∃ counter partCounter, whole.counter state = some counter ∧ part.counter state = some partCounter ∧
    Fewer state domainIds ids counter partCounter ∧ counter.Restricts partCounter ∧
    counter.committed.Restricts partCounter.committed

section PartOf
variable {state : SolvingState} {domainIds ids : List DomainId} {whole part : Constraint}

theorem PartOf.counted (partOf : PartOf state domainIds ids whole part) :
    whole.KeepsFaults ∧ part.KeepsFaults ∧ whole.HasBin ∧ part.HasBin ∧ whole.domain = part.domain := by
  obtain ⟨counter, partCounter, found, partFound, fewer, _, _⟩ := partOf
  obtain ⟨keepsFaults, domain, _⟩ := keepsFaults_of_counter found
  obtain ⟨partKeeps, partDomain, _⟩ := keepsFaults_of_counter partFound
  exact ⟨keepsFaults, partKeeps, hasBin_of_counter found fewer.isOver.hasBin, hasBin_of_counter partFound fewer.subOver.hasBin,
    domain.trans (fewer.domain.trans partDomain.symm)⟩

theorem PartOf.faults (partOf : PartOf state domainIds ids whole part) :
    FaultsOf domainIds ids whole.domainFaultMap.get part.domainFaultMap.get ∧
    FaultsOf domainIds ids (LawfulConstraint.rollback whole).domainFaultMap.get
      (LawfulConstraint.rollback part).domainFaultMap.get := by
  obtain ⟨counter, partCounter, found, partFound, fewer, committed, shown⟩ := partOf
  obtain ⟨_, faults, _, committedFaults⟩ := shown_counter found
  obtain ⟨_, partFaults, _, partCommitted⟩ := shown_counter partFound
  rw [faults, partFaults, committedFaults, partCommitted]
  exact ⟨(fewer.sameKind (.committed counter) (.committed partCounter)).faultsOf shown, fewer.faultsOf committed⟩

theorem PartOf.commitMoves (partOf : PartOf state domainIds ids whole part) :
    PartOf state domainIds ids whole.commitMoves part.commitMoves := by
  obtain ⟨counter, partCounter, found, partFound, fewer, _, shown⟩ := partOf
  refine ⟨counter.committed, partCounter.committed, ?_, ?_, fewer.sameKind (.committed counter) (.committed partCounter), shown, ?_⟩
  · exact (counter_commitMoves whole).trans (congrArg (Option.map committed) found)
  · exact (counter_commitMoves part).trans (congrArg (Option.map committed) partFound)
  · exact shown.same (.committed _) (.committed _) counter.committed_committed partCounter.committed_committed

private theorem committed_same {constraint other : Constraint} (kept : LawfulConstraint.rollback other = LawfulConstraint.rollback constraint)
    {counter later : Counter} (found : constraint.counter state = some counter) (laterFound : other.counter state = some later) :
    later.metric = counter.metric ∧ later.faults = counter.faults := by
  obtain ⟨_, _, metrics, faults⟩ := shown_counter found
  obtain ⟨_, _, laterMetrics, laterFaults⟩ := shown_counter laterFound
  rw [kept, metrics, List.singleton_inj] at laterMetrics
  rw [kept, faults] at laterFaults
  exact ⟨laterMetrics.symm, laterFaults.symm⟩

variable {order otherOrder : HashOrder} {committedMoves canariedMoves otherCommitted otherCanaried : MovementMap}
  {info otherInfo : BinWeightInfo} {after otherAfter : Constraint × BinWeightInfo}

theorem PartOf.canaried (hierarchical : state.Hierarchical) (partOf : PartOf state domainIds ids whole part)
    (sameCommitted : SameMoves committedMoves otherCommitted) (sameCanaried : SameMoves canariedMoves otherCanaried)
    (canaried : ConstraintOps.canaryMoves order state (some committedMoves) (some canariedMoves) whole info = .ok after)
    (otherwise : ConstraintOps.canaryMoves otherOrder state (some otherCommitted) (some otherCanaried) part otherInfo =
      .ok otherAfter) : PartOf state domainIds ids after.1 otherAfter.1 := by
  obtain ⟨counter, partCounter, found, partFound, fewer, committed, _⟩ := partOf
  have kept := (LawfulConstraint.rollback_canaryMoves _ _ _ _ _ _ _ _ canaried).1
  have partKept := (LawfulConstraint.rollback_canaryMoves _ _ _ _ _ _ _ _ otherwise).1
  have afterFound := (counter_canaryMoves hierarchical.movementMap found fewer.isOver.hasBin canaried).1
  have partAfterFound := (counter_canaryMoves hierarchical.movementMap partFound fewer.subOver.hasBin otherwise).1
  have maps : List.Forall₂ SameMoves [{}, committedMoves, canariedMoves] [{}, otherCommitted, otherCanaried] :=
    .cons (.refl {}) (.cons sameCommitted (.cons sameCanaried .nil))
  have moved := ((order.ids_perm _).trans sameCanaried.moved).trans (otherOrder.ids_perm _).symm
  refine ⟨_, _, afterFound, partAfterFound, fewer.sameKind ⟨rfl, rfl, rfl, rfl⟩ ⟨rfl, rfl, rfl, rfl⟩, ?_, ?_⟩
  · exact committed.same ⟨rfl, rfl, rfl, rfl⟩ ⟨rfl, rfl, rfl, rfl⟩ (committed_same kept found afterFound)
      (committed_same partKept partFound partAfterFound)
  · exact committed.canaried hierarchical fewer order otherOrder maps (fewer.agree.sameEntered maps moved) info otherInfo

variable (state) in
private theorem Arguments.counter_onIds {arguments : Arguments} (keepFaults : arguments.KeepFaults) (ids : List DomainId) :
    ∃ kind, (arguments.onIds ids).counter state = some kind ∧ kind.Tallies ∧ kind.metric = fun _ => none := by
  cases arguments with
  | metric | drain => exact ⟨_, rfl, tally_empty _ _ _, rfl⟩
  | loadBalancing => cases keepFaults

theorem PartOf.new (hierarchical : state.Hierarchical) {arguments : Arguments} (keepFaults : arguments.KeepFaults)
    (hasBin : ((arguments.onIds domainIds).tree state).HasBin) (partHasBin : ((arguments.onIds ids).tree state).HasBin)
    (fewer : ids ⊆ domainIds) (called : new order state info (arguments.onIds domainIds) = .ok after)
    (otherwise : new otherOrder state otherInfo (arguments.onIds ids) = .ok otherAfter) :
    PartOf state domainIds ids after.1 otherAfter.1 := by
  obtain ⟨kind, counts, tallies, none⟩ := Arguments.counter_onIds state keepFaults domainIds
  obtain ⟨partKind, partCounts, partTallies, partNone⟩ := Arguments.counter_onIds state keepFaults ids
  have fewer := arguments.fewer hierarchical hasBin partHasBin fewer counts partCounts
  have found := (counter_new hierarchical.movementMap kind counts (resolves_unmoved _) called).1
  have partFound := (counter_new hierarchical.movementMap partKind partCounts (resolves_unmoved _) otherwise).1
  have initial : kind.Restricts partKind := ⟨tallies, partTallies, fun node _ => by rw [none, partNone]⟩
  have made := initial.canaried hierarchical fewer order otherOrder (.cons (.refl {}) .nil)
    (fewer.sameEntered hierarchical (order.ids_perm _) (otherOrder.ids_perm _)) info otherInfo
  exact ⟨_, _, found, partFound, fewer.sameKind ⟨rfl, rfl, rfl, rfl⟩ ⟨rfl, rfl, rfl, rfl⟩, made,
    made.same (.committed _) (.committed _) (committed_committed _) (committed_committed _)⟩

end PartOf
end Constraint

variable {ι : Type}

/-- The nodes are divided into parts. A node may be listed any number of times. -/
structure Division (domainIds : List DomainId) (parts : List ι) (ids : ι → List DomainId) : Prop where
  distinct : parts.Nodup
  nonempty : parts ≠ []
  members : ∀ domainId, domainId ∈ domainIds ↔ ∃ part ∈ parts, domainId ∈ ids part
  apart : ∀ part ∈ parts, ∀ other ∈ parts, part ≠ other → (ids part).Disjoint (ids other)

namespace Division
open Constraint
variable {state : SolvingState} {domainIds : List DomainId} {parts : List ι} {ids : ι → List DomainId}

theorem part_subset (division : Division domainIds parts ids) {part : ι} (member : part ∈ parts) : ids part ⊆ domainIds :=
  fun domainId listed => (division.members domainId).mpr ⟨part, member, listed⟩

variable [DecidableEq ι]

theorem sum_faults (division : Division domainIds parts ids) {faults : DomainId → Option Int} {partFaults : ι → DomainId → Option Int}
    (faultsOf : ∀ part ∈ parts, FaultsOf domainIds (ids part) faults (partFaults part)) (domainId : DomainId) :
    (faults domainId).getD 0 = ∑ part ∈ parts.toFinset, (partFaults part domainId).getD 0 := by
  by_cases listed : domainId ∈ domainIds
  · obtain ⟨part, member, inPart⟩ := (division.members domainId).mp listed
    rw [Finset.sum_eq_single_of_mem part (List.mem_toFinset.mpr member), (faultsOf part member).listed domainId inPart]
    intro other otherMember different
    have elsewhere : domainId ∉ ids other :=
      division.apart part member other (List.mem_toFinset.mp otherMember) different.symm inPart
    rw [(faultsOf other (List.mem_toFinset.mp otherMember)).outsidePart domainId elsewhere, Option.getD_none]
  · obtain ⟨first, member⟩ := List.exists_mem_of_ne_nil parts division.nonempty
    rw [(faultsOf first member).outside domainId listed, Option.getD_none, Finset.sum_eq_zero]
    intro part partMember
    have partMember := List.mem_toFinset.mp partMember
    rw [(faultsOf part partMember).outsidePart domainId fun inPart => listed (division.part_subset partMember inPart),
      Option.getD_none]

/-- The shares of the parts make up the share of the whole. -/
structure SharesAddUp (state : SolvingState) (parts : List ι) (whole : Constraint) (pieces : ι → Constraint) : Prop where
  total : (totalAccount state).shareOf whole = ∑ part ∈ parts.toFinset, (totalAccount state).shareOf (pieces part)
  bins : ∀ binId, (binAccount state binId).shareOf whole = ∑ part ∈ parts.toFinset, (binAccount state binId).shareOf (pieces part)

private theorem sharesAddUp (division : Division domainIds parts ids) {whole : Constraint} {pieces : ι → Constraint}
    (keepFaults : whole.KeepsFaults) (partsKeep : ∀ part ∈ parts, (pieces part).KeepsFaults ∧ whole.domain = (pieces part).domain)
    (faultsOf : ∀ part ∈ parts, FaultsOf domainIds (ids part) whole.domainFaultMap.get (pieces part).domainFaultMap.get) :
    SharesAddUp state parts whole pieces := by
  have sums := division.sum_faults faultsOf
  constructor
  · rw [(IterativeLocalSearch.shareOf_total whole keepFaults).1, finsum_congr sums, finsum_sum_comm]
    · refine Finset.sum_congr rfl fun part member => ?_
      rw [(IterativeLocalSearch.shareOf_total _ (partsKeep part (List.mem_toFinset.mp member)).1).1]
    · intro part _
      exact FaultMap.finite_support _
  · intro binId
    rw [(IterativeLocalSearch.shareOf_bin binId whole keepFaults).1]
    by_cases overBins : whole.domain = state.binDomain
    · rw [if_pos overBins, sums]
      refine Finset.sum_congr rfl fun part member => ?_
      obtain ⟨keeps, domain⟩ := partsKeep part (List.mem_toFinset.mp member)
      rw [(IterativeLocalSearch.shareOf_bin binId _ keeps).1, if_pos (domain ▸ overBins)]
    · rw [if_neg overBins, Finset.sum_eq_zero]
      intro part member
      obtain ⟨keeps, domain⟩ := partsKeep part (List.mem_toFinset.mp member)
      rw [(IterativeLocalSearch.shareOf_bin binId _ keeps).1, if_neg (domain ▸ overBins)]

section PartOf
variable {whole : Constraint} {pieces : ι → Constraint} (division : Division domainIds parts ids)
  (partOf : ∀ part ∈ parts, PartOf state domainIds (ids part) whole (pieces part))
include division partOf

omit [DecidableEq ι] in
theorem counted : whole.KeepsFaults ∧ whole.HasBin ∧
    ∀ part ∈ parts, (pieces part).KeepsFaults ∧ (pieces part).HasBin ∧ whole.domain = (pieces part).domain := by
  obtain ⟨first, member⟩ := List.exists_mem_of_ne_nil parts division.nonempty
  obtain ⟨keepFaults, _, hasBin, _, _⟩ := (partOf first member).counted
  refine ⟨keepFaults, hasBin, fun part partMember => ?_⟩
  obtain ⟨_, partKeeps, _, partHasBin, domain⟩ := (partOf part partMember).counted
  exact ⟨partKeeps, partHasBin, domain⟩

theorem shares : SharesAddUp state parts whole pieces ∧
    SharesAddUp state parts (LawfulConstraint.rollback whole) fun part => LawfulConstraint.rollback (pieces part) := by
  obtain ⟨keepFaults, _, counted⟩ := division.counted partOf
  have domain : ∀ constraint : Constraint, (LawfulConstraint.rollback constraint).domain = constraint.domain := by
    intro constraint
    cases constraint <;> rfl
  constructor
  · exact division.sharesAddUp keepFaults (fun part member => ⟨(counted part member).1, (counted part member).2.2⟩)
      fun part member => (partOf part member).faults.1
  · refine division.sharesAddUp ((keepsFaults_rollback _).mpr keepFaults) (fun part member => ?_)
      fun part member => (partOf part member).faults.2
    rw [keepsFaults_rollback, domain, domain]
    exact ⟨(counted part member).1, (counted part member).2.2⟩

end PartOf
end Division

namespace IterativeLocalSearch
variable [DecidableEq ι] {state : SolvingState}

section Shares
variable {constraints : List ι} {world after : World ι Constraint}

/-- Canarying moves on constraints changes the weights by what it changes in their shares. -/
private theorem updateWeights_shares (distinct : constraints.Nodup)
    (keepFaults : ∀ constraint ∈ constraints, (world.objects constraint).KeepsFaults) {order : HashOrder}
    {committedMoves canariedMoves : MovementMap}
    (updated : updateWeights order state constraints committedMoves canariedMoves world = .ok after) :
    (after.binWeightInfo.total = world.binWeightInfo.total + (∑ constraint ∈ constraints.toFinset,
        (totalAccount state).shareOf (after.objects constraint) - ∑ constraint ∈ constraints.toFinset,
          (totalAccount state).shareOf (LawfulConstraint.rollback (world.objects constraint)))) ∧
    ∀ binId, after.binWeightInfo.binWeight binId = world.binWeightInfo.binWeight binId + (∑ constraint ∈ constraints.toFinset,
      (binAccount state binId).shareOf (after.objects constraint) - ∑ constraint ∈ constraints.toFinset,
        (binAccount state binId).shareOf (LawfulConstraint.rollback (world.objects constraint))) := by
  have share : ∀ account : Account state, ∀ constraint ∈ constraints,
      account.weight ((world.objects constraint).added order state committedMoves canariedMoves) =
        account.shareOf (after.objects constraint) - account.shareOf (LawfulConstraint.rollback (world.objects constraint)) := by
    intro account constraint member
    obtain ⟨info, final, canaried⟩ := updateWeights_target updated member
    exact Constraint.added_share account (keepFaults constraint member) canaried
  obtain ⟨total, bins⟩ := updateWeights_added updated
  refine ⟨?_, fun binId => ?_⟩
  · rw [total, ← Finset.sum_sub_distrib, List.sum_toFinset _ distinct]
    exact congrArg (_ + List.sum ·) (List.map_congr_left (share (totalAccount state)))
  · rw [bins, ← Finset.sum_sub_distrib, List.sum_toFinset _ distinct]
    exact congrArg (_ + List.sum ·) (List.map_congr_left (share (binAccount state binId)))

variable {arguments : ι → Constraint.Arguments}

/-- Constructors add the shares of the constraints they make. -/
theorem Constructed.shares (hierarchical : state.Hierarchical) (distinct : constraints.Nodup)
    (hasBin : ∀ constraint ∈ constraints, ((arguments constraint).tree state).HasBin)
    (keepFaults : ∀ constraint ∈ constraints, (arguments constraint).KeepFaults)
    (constructed : Constructed state arguments constraints world after) :
    after.binWeightInfo.total = world.binWeightInfo.total +
      ∑ constraint ∈ constraints.toFinset, (totalAccount state).shareOf (after.objects constraint) ∧
    ∀ binId, after.binWeightInfo.binWeight binId = world.binWeightInfo.binWeight binId +
      ∑ constraint ∈ constraints.toFinset, (binAccount state binId).shareOf (after.objects constraint) := by
  have share : ∀ account : Account state, (∀ {order info constraint made},
      constraint ∈ constraints → Constraint.new order state info (arguments constraint) = .ok made →
        account.weight made.2 = account.weight info + account.weight ((arguments constraint).added state)) →
      ∀ constraint ∈ constraints, account.weight ((arguments constraint).added state) =
        account.shareOf (after.objects constraint) := by
    intro account adds constraint member
    obtain ⟨order, info, made, called, same⟩ := constructed.made constraint member
    have added := adds member called
    have shared := (account.new_share (keepFaults constraint member) called).1
    rw [same]
    omega
  constructor
  · rw [constructed.total, List.sum_toFinset _ distinct]
    refine congrArg (_ + List.sum ·) (List.map_congr_left (share (totalAccount state) ?_))
    intro _ _ constraint _ member called
    exact (Constraint.new_added hierarchical (hasBin constraint member) called).1
  · intro binId
    rw [constructed.bins, List.sum_toFinset _ distinct]
    refine congrArg (_ + List.sum ·) (List.map_congr_left (share (binAccount state binId) ?_))
    intro _ _ constraint _ member called
    exact (Constraint.new_added hierarchical (hasBin constraint member) called).2 binId

end Shares

/-- What is called on all the constraints of a world, and on the weights they share. -/
inductive Action where
  | clear
  | canary (order : HashOrder) (committedMoves canariedMoves : MovementMap)
  | commit

def act (state : SolvingState) (constraints : List ι) (world : World ι Constraint) : Action → Except Fault (World ι Constraint)
  | .clear => pure ⟨world.objects, world.binWeightInfo.clear⟩
  | .canary order committedMoves canariedMoves => updateWeights order state constraints committedMoves canariedMoves world
  | .commit => pure (commitAll constraints world)

theorem evaluate_acts (order : HashOrder) (constraints : List ι) (committedMoves canariedMoves : MovementMap)
    (world : World ι Constraint) :
    evaluate order state constraints committedMoves canariedMoves world =
      [.clear, .canary order committedMoves canariedMoves].foldlM (act state constraints) world := by
  simp [act, evaluate]

/-- The same call, traversing hash containers in any order. -/
inductive SameAction : Action → Action → Prop
  | clear : SameAction .clear .clear
  | canary (order otherOrder : HashOrder) {committedMoves canariedMoves otherCommitted otherCanaried : MovementMap}
      (sameCommitted : SameMoves committedMoves otherCommitted) (sameCanaried : SameMoves canariedMoves otherCanaried) :
      SameAction (.canary order committedMoves canariedMoves) (.canary otherOrder otherCommitted otherCanaried)
  | commit : SameAction .commit .commit

structure SameWeights (info other : BinWeightInfo) : Prop where
  total : info.total = other.total
  bins : ∀ binId, info.binWeight binId = other.binWeight binId

/-- The constraint has the faults of the parts, and weighs what they weigh. -/
structure SumOfParts (domainIds : List DomainId) (parts : List ι) (ids : ι → List DomainId) (whole : World Unit Constraint)
    (pieces : World ι Constraint) : Prop where
  faults : ∀ part ∈ parts,
    FaultsOf domainIds (ids part) (whole.objects ()).domainFaultMap.get (pieces.objects part).domainFaultMap.get
  weights : SameWeights whole.binWeightInfo pieces.binWeightInfo

/-- What the calls preserve, about what is shown and what was committed. -/
structure Divided (state : SolvingState) (domainIds : List DomainId) (parts : List ι) (ids : ι → List DomainId)
    (whole : World Unit Constraint) (pieces : World ι Constraint) : Prop where
  partOf : ∀ part ∈ parts, Constraint.PartOf state domainIds (ids part) (whole.objects ()) (pieces.objects part)
  weights : SameWeights whole.binWeightInfo pieces.binWeightInfo
  committed : SameWeights whole.binWeightInfo.clear pieces.binWeightInfo.clear

section Divided
variable {domainIds : List DomainId} {parts : List ι} {ids : ι → List DomainId} {whole wholeAfter : World Unit Constraint}
  {pieces piecesAfter : World ι Constraint}

omit [DecidableEq ι] in
theorem Divided.sum (divided : Divided state domainIds parts ids whole pieces) : SumOfParts domainIds parts ids whole pieces :=
  ⟨fun part member => (divided.partOf part member).faults.1, divided.weights⟩

omit [DecidableEq ι] in
theorem Divided.clear (divided : Divided state domainIds parts ids whole pieces) :
    Divided state domainIds parts ids ⟨whole.objects, whole.binWeightInfo.clear⟩ ⟨pieces.objects, pieces.binWeightInfo.clear⟩ :=
  ⟨divided.partOf, divided.committed, divided.committed⟩

/-- A canary of any moves changes the parts and the weights alike. -/
theorem Divided.canaried (hierarchical : state.Hierarchical) (division : Division domainIds parts ids)
    (divided : Divided state domainIds parts ids whole pieces) {order otherOrder : HashOrder}
    {committedMoves canariedMoves otherCommitted otherCanaried : MovementMap} (sameCommitted : SameMoves committedMoves otherCommitted)
    (sameCanaried : SameMoves canariedMoves otherCanaried)
    (updated : updateWeights order state [()] committedMoves canariedMoves whole = .ok wholeAfter)
    (otherwise : updateWeights otherOrder state parts otherCommitted otherCanaried pieces = .ok piecesAfter) :
    Divided state domainIds parts ids wholeAfter piecesAfter := by
  obtain ⟨_, _, canaried⟩ := updateWeights_target updated (List.mem_singleton.mpr rfl)
  have partOf : ∀ part ∈ parts,
      Constraint.PartOf state domainIds (ids part) (wholeAfter.objects ()) (piecesAfter.objects part) := by
    intro part member
    obtain ⟨_, _, partCanaried⟩ := updateWeights_target otherwise member
    exact (divided.partOf part member).canaried hierarchical sameCommitted sameCanaried canaried partCanaried
  have committed : SameWeights wholeAfter.binWeightInfo.clear piecesAfter.binWeightInfo.clear := by
    rw [(updateWeights_keeps updated).weights, (updateWeights_keeps otherwise).weights]
    exact divided.committed
  obtain ⟨keepFaults, _, counted⟩ := division.counted divided.partOf
  have before := (division.shares divided.partOf).2
  have shown := (division.shares partOf).1
  obtain ⟨total, bins⟩ := updateWeights_shares (List.nodup_singleton ()) (fun _ _ => keepFaults) updated
  obtain ⟨partTotal, partBins⟩ := updateWeights_shares division.distinct (fun part member => (counted part member).1) otherwise
  simp only [List.toFinset_cons, List.toFinset_nil, insert_empty_eq, Finset.sum_singleton] at total bins
  refine ⟨partOf, ⟨?_, fun binId => ?_⟩, committed⟩
  · rw [total, partTotal, divided.weights.total, shown.total, before.total]
  · rw [bins, partBins, divided.weights.bins, shown.bins, before.bins]

theorem Divided.commit (division : Division domainIds parts ids) (divided : Divided state domainIds parts ids whole pieces) :
    Divided state domainIds parts ids (commitAll [()] whole) (commitAll parts pieces) := by
  have committed := commitAll_weights whole (List.cons_ne_nil () [])
  have partCommitted := commitAll_weights pieces division.nonempty
  refine ⟨fun part member => ?_, ⟨?_, fun binId => ?_⟩, ⟨?_, fun binId => ?_⟩⟩
  · rw [commitAll_target, commitAll_target, List.count_eq_one_of_mem division.distinct member]
    exact (divided.partOf part member).commitMoves
  · rw [(commitAll_shown whole).1, (commitAll_shown pieces).1, divided.weights.total]
  · rw [(commitAll_shown whole).2, (commitAll_shown pieces).2, divided.weights.bins]
  · rw [BinWeightInfo.total_clear, BinWeightInfo.total_clear, committed.1, partCommitted.1, divided.weights.total]
  · rw [BinWeightInfo.binWeight_clear, BinWeightInfo.binWeight_clear, committed.2, partCommitted.2, divided.weights.bins]

private theorem Divided.acted (hierarchical : state.Hierarchical) (division : Division domainIds parts ids)
    (divided : Divided state domainIds parts ids whole pieces) {action other : Action} (same : SameAction action other) :
    ∃ wholeAfter piecesAfter, act state [()] whole action = .ok wholeAfter ∧ act state parts pieces other = .ok piecesAfter ∧
      Divided state domainIds parts ids wholeAfter piecesAfter := by
  cases same with
  | clear => exact ⟨_, _, rfl, rfl, divided.clear⟩
  | commit => exact ⟨_, _, rfl, rfl, divided.commit division⟩
  | canary order otherOrder sameCommitted sameCanaried =>
    obtain ⟨_, hasBin, counted⟩ := division.counted divided.partOf
    obtain ⟨wholeAfter, updated⟩ := updateWeights_defined order hierarchical.movementMap _ _ whole fun _ _ => hasBin
    obtain ⟨piecesAfter, otherwise⟩ := updateWeights_defined otherOrder hierarchical.movementMap _ _ pieces
      fun part member => (counted part member).2.1
    exact ⟨wholeAfter, piecesAfter, updated, otherwise,
      divided.canaried hierarchical division sameCommitted sameCanaried updated otherwise⟩

theorem Divided.run (hierarchical : state.Hierarchical) (division : Division domainIds parts ids)
    (divided : Divided state domainIds parts ids whole pieces) {actions others : List Action}
    (same : List.Forall₂ SameAction actions others) :
    ∃ after otherAfter, actions.foldlM (act state [()]) whole = .ok after ∧ others.foldlM (act state parts) pieces = .ok otherAfter ∧
      Divided state domainIds parts ids after otherAfter := by
  induction same generalizing whole pieces with
  | nil => exact ⟨whole, pieces, rfl, rfl, divided⟩
  | cons called _ ih =>
    obtain ⟨wholeAfter, piecesAfter, acted, otherwise, kept⟩ := divided.acted hierarchical division called
    obtain ⟨after, otherAfter, rest, otherRest, last⟩ := ih kept
    refine ⟨after, otherAfter, ?_, ?_, last⟩
    · rw [List.foldlM_cons, acted]
      exact rest
    · rw [List.foldlM_cons, otherwise]
      exact otherRest

/-- The constructors make a sum, whatever the weights are that they start with. -/
theorem Divided.constructed (hierarchical : state.Hierarchical) (division : Division domainIds parts ids)
    {arguments : Constraint.Arguments} (keepFaults : arguments.KeepFaults)
    (hasBin : ((arguments.onIds domainIds).tree state).HasBin)
    (partsHaveBins : ∀ part ∈ parts, ((arguments.onIds (ids part)).tree state).HasBin)
    (sameWeights : SameWeights whole.binWeightInfo pieces.binWeightInfo)
    (constructed : Constructed state (fun _ => arguments.onIds domainIds) [()] whole wholeAfter)
    (otherwise : Constructed state (fun part => arguments.onIds (ids part)) parts pieces piecesAfter) :
    Divided state domainIds parts ids wholeAfter piecesAfter := by
  have keep : ∀ ids, (arguments.onIds ids).KeepFaults := by
    intro ids
    cases arguments <;> exact keepFaults
  have partOf : ∀ part ∈ parts,
      Constraint.PartOf state domainIds (ids part) (wholeAfter.objects ()) (piecesAfter.objects part) := by
    intro part member
    obtain ⟨_, _, _, called, made⟩ := constructed.made () (List.mem_singleton.mpr rfl)
    obtain ⟨_, _, _, partCalled, partMade⟩ := otherwise.made part member
    rw [made, partMade]
    exact .new hierarchical keepFaults hasBin (partsHaveBins part member) (division.part_subset member) called partCalled
  have shown := (division.shares partOf).1
  obtain ⟨total, bins⟩ := constructed.shares hierarchical (List.nodup_singleton ()) (fun _ _ => hasBin) fun _ _ => keep domainIds
  obtain ⟨partTotal, partBins⟩ := otherwise.shares hierarchical division.distinct partsHaveBins fun part _ => keep (ids part)
  simp only [List.toFinset_cons, List.toFinset_nil, insert_empty_eq, Finset.sum_singleton] at total bins
  have weights : SameWeights wholeAfter.binWeightInfo piecesAfter.binWeightInfo := by
    refine ⟨?_, fun binId => ?_⟩
    · rw [total, partTotal, sameWeights.total, shown.total]
    · rw [bins, partBins, sameWeights.bins, shown.bins]
  refine ⟨partOf, weights, ?_⟩
  rw [constructed.cleared (List.cons_ne_nil _ _), otherwise.cleared division.nonempty]
  exact weights

end Divided

/-- Constructed on the same weights and called alike, a constraint over the nodes is the sum of
constraints over the parts, after construction and after any calls. -/
def AddsUp (state : SolvingState) (arguments : Constraint.Arguments) (domainIds : List DomainId) (parts : List ι)
    (ids : ι → List DomainId) : Prop :=
  ∀ (order otherOrder : HashOrder) (objects : Unit → Constraint) (pieces : ι → Constraint) (info : BinWeightInfo),
    ∃ made madePieces,
      constructEach order state (fun _ => arguments.onIds domainIds) [()] ⟨objects, info⟩ = .ok made ∧
      constructEach otherOrder state (fun part => arguments.onIds (ids part)) parts ⟨pieces, info⟩ = .ok madePieces ∧
      SumOfParts domainIds parts ids made madePieces ∧
      ∀ actions others, List.Forall₂ SameAction actions others → ∃ after otherAfter,
        actions.foldlM (act state [()]) made = .ok after ∧ others.foldlM (act state parts) madePieces = .ok otherAfter ∧
        SumOfParts domainIds parts ids after otherAfter

theorem hasBin_mono (hierarchical : state.Hierarchical) (arguments : Constraint.Arguments) {domainIds subIds : List DomainId}
    (fewer : subIds ⊆ domainIds) (hasBin : ((arguments.onIds subIds).tree state).HasBin) :
    ((arguments.onIds domainIds).tree state).HasBin := by
  have sameDomain : ∀ ids, (arguments.onIds ids).domain = arguments.domain := by
    intro ids
    cases arguments <;> rfl
  rw [tree_hasBin_iff state hierarchical.hierarchy.below hierarchical.hierarchy.bins, Constraint.Arguments.domainIds_onIds, sameDomain]
    at hasBin ⊢
  obtain ⟨domainId, listed, leads⟩ := hasBin
  exact ⟨domainId, fewer listed, leads⟩

private theorem addsUp (hierarchical : state.Hierarchical) (arguments : Constraint.Arguments) (keepFaults : arguments.KeepFaults)
    {domainIds : List DomainId} {parts : List ι} {ids : ι → List DomainId} (division : Division domainIds parts ids)
    (partsHaveBins : ∀ part ∈ parts, ((arguments.onIds (ids part)).tree state).HasBin) :
    AddsUp state arguments domainIds parts ids := by
  intro order otherOrder objects pieces info
  obtain ⟨first, member⟩ := List.exists_mem_of_ne_nil parts division.nonempty
  have hasBin := hasBin_mono hierarchical arguments (division.part_subset member) (partsHaveBins first member)
  have wholeHasBin : ∀ constraint ∈ [()], ((arguments.onIds domainIds).tree state).HasBin := fun _ _ => hasBin
  obtain ⟨made, called, constructed⟩ := constructEach_constructed hierarchical wholeHasBin order ⟨objects, info⟩
  obtain ⟨madePieces, otherCalled, otherwise⟩ :=
    constructEach_constructed hierarchical partsHaveBins otherOrder ⟨pieces, info⟩
  have divided := Divided.constructed hierarchical division keepFaults hasBin partsHaveBins ⟨rfl, fun _ => rfl⟩ constructed otherwise
  refine ⟨made, madePieces, called, otherCalled, divided.sum, fun actions others same => ?_⟩
  obtain ⟨after, otherAfter, ran, otherRan, last⟩ := divided.run hierarchical division same
  exact ⟨after, otherAfter, ran, otherRan, last.sum⟩

/-- A constraint over disjoint lists of nodes is the sum of constraints over each of them, and
listing nodes more than once changes nothing. -/
theorem sum_of_parts (shardInfoVector : List ShardInfo) (metricVectors : List (List MetricValue))
    (domainMapping : List (List (List DomainId))) (once : SolvingState.ListsOnce domainMapping) {state : SolvingState}
    (built : state = (SolvingState.new shardInfoVector metricVectors domainMapping).withEmptyMovementMap)
    (arguments : Constraint.Arguments) (keepFaults : arguments.KeepFaults) :
    (∀ first second : List DomainId, first.Disjoint second → ((arguments.onIds first).tree state).HasBin →
      ((arguments.onIds second).tree state).HasBin →
        AddsUp state arguments (first ++ second) [true, false] fun part => if part then first else second) ∧
    ∀ domainIds repeated : List DomainId, (∀ domainId, domainId ∈ repeated ↔ domainId ∈ domainIds) →
      ((arguments.onIds domainIds).tree state).HasBin → AddsUp state arguments repeated [()] fun _ => domainIds := by
  have hierarchical : state.Hierarchical := built ▸ SolvingState.hierarchical_new shardInfoVector metricVectors once
  constructor
  · intro first second apart hasBin otherHasBin
    refine addsUp hierarchical arguments keepFaults ⟨by decide, by decide, by simp [or_comm], ?_⟩ (by simp [hasBin, otherHasBin])
    intro part _ other _ different
    cases part <;> cases other <;> simp_all [apart.symm]
  · intro domainIds repeated same hasBin
    refine addsUp hierarchical arguments keepFaults ⟨by decide, by decide, by simpa using same, ?_⟩ (fun _ _ => hasBin)
    intro part _ other _ different
    exact absurd rfl different

def twoRacks : SolvingState := (SolvingState.new [] [[5, 7, 9]] [[[0, 1], [2]], [[0], [1]]]).withEmptyMovementMap

theorem sum_of_parts_twoRacks :
    AddsUp twoRacks (.metric .after 2 [] 0 10 1) [0, 1] [true, false] (fun part => if part then [0] else [1]) ∧
    AddsUp twoRacks (.drain .before 1 [] 1) [0, 1, 0] [()] fun _ => [0, 1] :=
  ⟨(sum_of_parts [] [[5, 7, 9]] [[[0, 1], [2]], [[0], [1]]] (by decide) rfl (.metric .after 2 [] 0 10 1) trivial).1 [0] [1]
    (by simp) (by decide +kernel) (by decide +kernel),
  (sum_of_parts [] [[5, 7, 9]] [[[0, 1], [2]], [[0], [1]]] (by decide) rfl (.drain .before 1 [] 1) trivial).2 [0, 1] [0, 1, 0]
    (by grind) (by decide +kernel)⟩

end IterativeLocalSearch
end ShardManager

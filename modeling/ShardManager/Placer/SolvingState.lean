import ShardManager.Messages
import ShardManager.Placer.Committable
import ShardManager.Placer.SparseMappingTree

/-! `SolvingState.cpp`. The weights, the only member that changes after
construction, are passed beside the state instead of inside it. -/

namespace ShardManager

abbrev WeightMap := CommittableMap (UnorderedMap DomainId Int) DomainId Int

structure BinWeightInfo where
  binWeightMap : WeightMap
  totalWeight : CommittableKey Int

namespace BinWeightInfo

def empty : BinWeightInfo := ⟨.empty, {}⟩

def clear (info : BinWeightInfo) : BinWeightInfo := ⟨info.binWeightMap.clear, info.totalWeight.clear⟩

def commit (info : BinWeightInfo) : BinWeightInfo := ⟨info.binWeightMap.commit, info.totalWeight.commit⟩

/-- The weights as every reader takes them: an absent weight is 0. -/
def total (info : BinWeightInfo) : Int := info.totalWeight.get.getD 0

def binWeight (info : BinWeightInfo) (binId : DomainId) : Int := (info.binWeightMap.get binId).getD 0

def committedTotal (info : BinWeightInfo) : Int := info.totalWeight.committedVal.getD 0

def committedBinWeight (info : BinWeightInfo) (binId : DomainId) : Int :=
  (info.binWeightMap.getFromCommittedMap binId).getD 0

variable (info : BinWeightInfo)

@[simp] theorem total_clear : info.clear.total = info.committedTotal := rfl

@[simp] theorem binWeight_clear (binId : DomainId) : info.clear.binWeight binId = info.committedBinWeight binId := by
  simp [binWeight, clear, committedBinWeight]

@[simp] theorem committedTotal_commit : info.commit.committedTotal = info.total := by
  simp [committedTotal, commit, total]

@[simp] theorem committedBinWeight_commit (binId : DomainId) : info.commit.committedBinWeight binId = info.binWeight binId := by
  simp [committedBinWeight, commit, binWeight]

@[simp] theorem total_commit : info.commit.total = info.total := by simp [total, commit]

@[simp] theorem binWeight_commit (binId : DomainId) : info.commit.binWeight binId = info.binWeight binId := by
  simp [binWeight, commit]

@[simp] theorem committedTotal_clear : info.clear.committedTotal = info.committedTotal := rfl

@[simp] theorem committedBinWeight_clear (binId : DomainId) :
    info.clear.committedBinWeight binId = info.committedBinWeight binId := rfl

@[simp] theorem clear_clear : info.clear.clear = info.clear := rfl

end BinWeightInfo

structure SolvingState where
  shardDomain : Domain
  binDomain : Domain
  domainElements : UnorderedMap Domain Nat
  shardInfoVector : List ShardInfo
  metricVectors : List (List MetricValue)
  assignmentTree : SparseMappingTree
  movementMap : MovementMapPtr

namespace SolvingState

def kDomainLimit : Domain := 10

/-- `addDomainInternal`: one mapping for each row, the row's index being the parent's id. -/
def addDomainInternal (parentDomain childDomain : Domain) (parentChildMap : List (List DomainId)) (tree : SparseMappingTree) :
    SparseMappingTree :=
  parentChildMap.zipIdx.foldl (fun tree row => tree.addMapping (parentDomain, row.2) childDomain row.1) tree

/-- The constructor. `movementMap_` is not among the members it initializes. -/
def new (shardInfoVector : List ShardInfo) (metricVectors : List (List MetricValue))
    (domainMapping : List (List (List DomainId))) : SolvingState where
  shardDomain := 0
  binDomain := 1
  domainElements := domainMapping.zipIdx.foldl (fun elements rows => elements.insert (rows.2 + 1) rows.1.length)
    ((∅ : UnorderedMap Domain Nat).insert 0 shardInfoVector.length)
  shardInfoVector
  metricVectors
  assignmentTree := domainMapping.zipIdx.foldl (fun tree rows => addDomainInternal (rows.2 + 1) rows.2 rows.1 tree)
    (.empty 0 1)
  movementMap := none

/-- The state with an existing, empty movement map of its own. -/
def withEmptyMovementMap (state : SolvingState) : SolvingState := { state with movementMap := some {} }

def getDomainSize (state : SolvingState) (domain : Domain) : Nat := (state.domainElements.lookup domain).getD 0

/-- `operator[]` does not check its index; reading past the end, which is
undefined in the source, is given the value 0 here. -/
def getShardMetric (state : SolvingState) (metric : Metric) (domainId : DomainId) : MetricValue :=
  ((state.metricVectors.getD metric []).getD domainId 0)

private theorem addDomainInternal_domains (parentDomain childDomain : Domain) (parentChildMap : List (List DomainId))
    (tree : SparseMappingTree) :
    (addDomainInternal parentDomain childDomain parentChildMap tree).shardDomain = tree.shardDomain ∧
    (addDomainInternal parentDomain childDomain parentChildMap tree).binDomain = tree.binDomain := by
  unfold addDomainInternal
  induction parentChildMap.zipIdx generalizing tree with
  | nil => exact ⟨rfl, rfl⟩
  | cons row rows ih => simpa using ih (tree.addMapping (parentDomain, row.2) childDomain row.1)

theorem new_domains (shardInfoVector : List ShardInfo) (metricVectors : List (List MetricValue))
    (domainMapping : List (List (List DomainId))) :
    (new shardInfoVector metricVectors domainMapping).assignmentTree.shardDomain = 0 ∧
    (new shardInfoVector metricVectors domainMapping).assignmentTree.binDomain = 1 := by
  suffices loop : ∀ (levels : List (List (List DomainId) × Nat)) (tree : SparseMappingTree),
      (levels.foldl (fun tree rows => addDomainInternal (rows.2 + 1) rows.2 rows.1 tree) tree).shardDomain =
        tree.shardDomain ∧
      (levels.foldl (fun tree rows => addDomainInternal (rows.2 + 1) rows.2 rows.1 tree) tree).binDomain =
        tree.binDomain by
    exact loop domainMapping.zipIdx (.empty 0 1)
  intro levels
  induction levels with
  | nil => exact fun _ => ⟨rfl, rfl⟩
  | cons rows levels ih =>
    intro tree
    obtain ⟨shards, bins⟩ := ih (addDomainInternal (rows.2 + 1) rows.2 rows.1 tree)
    obtain ⟨sameShards, sameBins⟩ := addDomainInternal_domains (rows.2 + 1) rows.2 rows.1 tree
    exact ⟨shards.trans sameShards, bins.trans sameBins⟩

/-- Two bins under one parent, with three shards in the first bin. -/
def twoBins : SolvingState := (new [] [[5, 7, 9]] [[[0, 1, 2], []], [[0, 1]]]).withEmptyMovementMap

theorem mem_twoBins (shard binId : Nat) :
    shard ∈ twoBins.assignmentTree.children twoBins.binDomain binId ↔ binId = 0 ∧ shard < 3 := by
  match binId with
  | 0 =>
    have listed : twoBins.assignmentTree.children twoBins.binDomain 0 = [0, 1, 2] := by decide
    rw [listed]
    simp
    omega
  | 1 =>
    have listed : twoBins.assignmentTree.children twoBins.binDomain 1 = [] := by decide
    simp [listed]
  | binId + 2 =>
    have listed : twoBins.assignmentTree.children twoBins.binDomain (binId + 2) = [] := rfl
    simp [listed]

end SolvingState
end ShardManager

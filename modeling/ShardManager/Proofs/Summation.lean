import ShardManager.Lib.Rollup
import ShardManager.Proofs.Defined
import ShardManager.Proofs.PartialTree
import ShardManager.Proofs.Rounds

/-! Calculations that add: an update of a part of a hierarchy patches the values of
its nodes, and the faults of a domain stay those of its values. -/

namespace ShardManager
open SparseMappingTree

/-- The domains with values, from the bins up. -/
def binsUp (index : Nat) : Domain := index + 1

theorem SparseMappingTree.Descends.layered {tree : SparseMappingTree} (descends : Descends tree) (shards : tree.shardDomain = 0)
    (bins : tree.binDomain = 1) : Layered tree binsUp where
  injective _ _ same := Nat.succ_injective same
  shards index := by simp [shards, binsUp]
  bins := bins.symm
  lowest shardId parent member := by
    rw [descends _ _ (tree.mapped_of_mem_staticParents member).1, shards]
    rfl
  above index domainId parent member := descends _ _ (tree.mapped_of_mem_staticParents member).1
  below domain found := by
    have above := descends _ _ found
    rw [shards]
    simp only [binsUp] at above
    grind

theorem SparseMappingTree.Hierarchy.layered {tree : SparseMappingTree} (hierarchy : Hierarchy tree) : Layered tree binsUp :=
  hierarchy.below.layered hierarchy.shards hierarchy.bins

/-- The values of the nodes modulo `2 ^ 32`, an absent value being 0. -/
def MetricsMap.residues (metricsMap : MetricsMap) (level : Nat) (domainId : DomainId) : Residue :=
  ((metricsMap.get (level + 1, domainId)).getD 0 : Int)

/-- A calculation that adds a weight for the shards of a bin. -/
structure AddsShards {σ : Type} (calculation : Calculation σ) (consistency : MovementConsistency) (weight : DomainId → Int)
    (tree : SparseMappingTree) : Prop where
  bins : ∀ movementMaps binId reading, calculation.value tree movementMaps (1, binId) reading =
    toInt32 (reading.own.getD 0 + (reading.changedChildren.map fun child =>
      signed (counted consistency movementMaps child binId) (weight child)).sum)

/-- A calculation that also adds, above the bins, what the children changed. -/
structure Adds {σ : Type} (calculation : Calculation σ) (consistency : MovementConsistency) (weight : DomainId → Int)
    (tree : SparseMappingTree) : Prop extends AddsShards calculation consistency weight tree where
  above : ∀ level domainId, tree.Mapped (level + 2, domainId) → ∀ movementMaps reading,
    calculation.value tree movementMaps (level + 2, domainId) reading =
      toInt32 (reading.own.getD 0 + (reading.changedChildren.map fun child =>
        toInt32 ((reading.view child).getD 0 - (reading.committed child).getD 0)).sum)

/-- What the shards that changed add to a bin. -/
def binChange (consistency : MovementConsistency) (weight : DomainId → Int) (movementMaps : List MovementMap)
    (changedShards : List DomainId) (binId : DomainId) : Int :=
  (changedShards.map fun shard => signed (counted consistency movementMaps shard binId) (weight shard)).sum

private theorem sum_changed_children {items : List DomainId} {children : Finset DomainId} {change : DomainId → Residue}
    (distinct : items.Nodup) (inside : ∀ child ∈ items, child ∈ children)
    (others : ∀ child ∈ children, child ∉ items → change child = 0) :
    (items.map change).sum = ∑ child ∈ children, change child := by
  rw [← List.sum_toFinset change distinct]
  refine Finset.sum_subset (fun child member => inside child (List.mem_toFinset.mp member)) ?_
  intro child member absent
  exact others child member fun listed => absent (List.mem_toFinset.mpr listed)

section Settled
variable {σ : Type} {calculation : Calculation σ} {consistency : MovementConsistency} {weight : DomainId → Int}
  {tree : SparseMappingTree} {movementMaps : List MovementMap} {start final : MetricsMap}
  {changed : Nat → DomainId → List DomainId}

theorem Settled.children_same (hierarchy : Hierarchy tree)
    (settled : Settled calculation tree movementMaps binsUp start changed final) {level : Nat} {domainId child : DomainId}
    (listed : child ∈ childrenAt tree level domainId) (same : child ∉ changed (level + 1) domainId) :
    final.get (level + 1, child) = start.get (level + 1, child) := by
  by_contra different
  refine same ((settled.mem level domainId child).mpr ⟨?_, different⟩)
  exact (hierarchy.parents _ _ _).mpr ⟨rfl, List.mem_toFinset.mp listed⟩

theorem Settled.child_listed (hierarchy : Hierarchy tree)
    (settled : Settled calculation tree movementMaps binsUp start changed final) {level : Nat} {domainId child : DomainId}
    (member : child ∈ changed (level + 1) domainId) : child ∈ childrenAt tree level domainId :=
  List.mem_toFinset.mpr ((hierarchy.parents _ _ _).mp ((settled.mem level domainId child).mp member).1).2

theorem Settled.lowest (adds : AddsShards calculation consistency weight tree)
    (settled : Settled calculation tree movementMaps binsUp start changed final) (binId : DomainId) :
    final.residues 0 binId = start.residues 0 binId +
      ((binChange consistency weight movementMaps (changed 0 binId) binId : Int) : Residue) := by
  have value := settled.value 0 binId
  unfold MetricsMap.residues
  by_cases idle : changed 0 binId = []
  · rw [if_pos idle] at value
    change final.get (0 + 1, binId) = start.get (0 + 1, binId) at value
    simp [value, idle, binChange]
  · rw [if_neg idle] at value
    change final.get (0 + 1, binId) = some (calculation.value tree movementMaps (1, binId) _) at value
    rw [value, adds.bins]
    simp [binsUp, binChange]

/-- An update of an adding calculation, started without canaries, patches the values. -/
theorem Settled.patched (hierarchy : Hierarchy tree) (adds : Adds calculation consistency weight tree)
    (settled : Settled calculation tree movementMaps binsUp start changed final)
    (clean : ∀ node, start.getFromCommittedMap node = start.get node) :
    Patched (childrenAt tree)
      (fun binId => ((binChange consistency weight movementMaps (changed 0 binId) binId : Int) : Residue))
      start.residues final.residues where
  lowest := settled.lowest adds.toAddsShards
  above level domainId := by
    have value := settled.value (level + 1) domainId
    have listed : ∀ child ∈ changed (level + 1) domainId, child ∈ childrenAt tree level domainId :=
      fun child => settled.child_listed hierarchy
    have others : ∀ child ∈ childrenAt tree level domainId, child ∉ changed (level + 1) domainId →
        final.residues level child - start.residues level child = 0 := by
      intro child member absent
      simp only [MetricsMap.residues, settled.children_same hierarchy member absent, sub_self]
    rw [← sum_changed_children (settled.distinct level domainId) listed others]
    simp only [MetricsMap.residues]
    by_cases idle : changed (level + 1) domainId = []
    · rw [if_pos idle] at value
      change final.get (level + 1 + 1, domainId) = start.get (level + 1 + 1, domainId) at value
      simp [value, idle]
    · rw [if_neg idle] at value
      change final.get (level + 1 + 1, domainId) =
        some (calculation.value tree movementMaps (level + 2, domainId) _) at value
      obtain ⟨child, member⟩ := List.exists_mem_of_ne_nil _ idle
      have mapped := (tree.mapped_of_mem_staticParents ((settled.mem level domainId child).mp member).1).2
      rw [value, adds.above level domainId mapped]
      simp only [Option.getD_some, residue_toInt32, belowLevel, binsUp, clean]
      push_cast
      simp [Function.comp_def]

/-- A node keeps its value, or has a row and gets a computed one. -/
theorem Settled.kept_or_computed (settled : Settled calculation tree movementMaps binsUp start changed final)
    (entered : ∀ binId, changed 0 binId ≠ [] → tree.Mapped (1, binId)) (node : Node) :
    final.get node = start.get node ∨
      tree.Mapped node ∧ ∃ reading, final.get node = some (calculation.value tree movementMaps node reading) := by
  obtain ⟨domain, domainId⟩ := node
  match domain with
  | 0 => exact .inl (settled.outside (0, domainId) fun index => by simp [binsUp])
  | level + 1 =>
    have value := settled.value level domainId
    by_cases idle : changed level domainId = []
    · rw [if_pos idle] at value
      exact .inl value
    · rw [if_neg idle] at value
      refine .inr ⟨?_, _, value⟩
      cases level with
      | zero => exact entered domainId idle
      | succ level =>
        obtain ⟨child, member⟩ := List.exists_mem_of_ne_nil _ idle
        exact (tree.mapped_of_mem_staticParents ((settled.mem level domainId child).mp member).1).2

/-- Above the bins, a node has a value exactly if one of its children has one. -/
theorem Settled.present (hierarchy : Hierarchy tree)
    (settled : Settled calculation tree movementMaps binsUp start changed final)
    (present : ∀ level domainId, (start.get (level + 2, domainId)).isSome ↔
      ∃ child ∈ childrenAt tree level domainId, (start.get (level + 1, child)).isSome) (level : Nat) (domainId : DomainId) :
    (final.get (level + 2, domainId)).isSome ↔
      ∃ child ∈ childrenAt tree level domainId, (final.get (level + 1, child)).isSome := by
  have kept : ∀ index domainId, (start.get (index + 1, domainId)).isSome → (final.get (index + 1, domainId)).isSome := by
    intro index domainId isSome
    have value := settled.value index domainId
    change final.get (index + 1, domainId) = _ at value
    rw [value]
    split
    · exact isSome
    · rfl
  have value := settled.value (level + 1) domainId
  change final.get (level + 2, domainId) = _ at value
  constructor
  · intro isSome
    by_cases idle : changed (level + 1) domainId = []
    · rw [if_pos idle] at value
      rw [value] at isSome
      obtain ⟨child, listed, there⟩ := (present level domainId).mp isSome
      exact ⟨child, listed, kept level child there⟩
    · obtain ⟨child, member⟩ := List.exists_mem_of_ne_nil _ idle
      refine ⟨child, settled.child_listed hierarchy member, ?_⟩
      have different := ((settled.mem level domainId child).mp member).2
      by_contra absent
      rw [Option.not_isSome_iff_eq_none] at absent
      have before : start.get (level + 1, child) = none := by
        by_contra there
        have after := kept level child (Option.ne_none_iff_isSome.mp there)
        rw [absent] at after
        cases after
      exact different (absent.trans before.symm)
  · rintro ⟨child, listed, there⟩
    by_cases before : (start.get (level + 1, child)).isSome
    · exact kept (level + 1) domainId ((present level domainId).mpr ⟨child, listed, before⟩)
    · have member : child ∈ changed (level + 1) domainId := by
        by_contra same
        rw [settled.children_same hierarchy listed same] at there
        exact before there
      rw [value, if_neg (List.ne_nil_of_mem member)]
      rfl

end Settled

section Changes
variable {tree : SparseMappingTree} (consistency : MovementConsistency) (weight : DomainId → Int)

/-- What moving a shard to a bin adds to the value of a bin. -/
def shift (tree : SparseMappingTree) (shard nextBin binId : DomainId) : Int :=
  ((if shard ∈ tree.children 1 binId then 1 else 0) +
      if binId = nextBin ∧ (tree.parentToChildMap.row 1 binId).isSome then 1 else 0) *
    signed (shouldConsider consistency (decide (nextBin = binId)) true) (weight shard)

variable (state : SolvingState)

theorem binChange_entered (shards : state.shardDomain = 0) (movementMaps : List MovementMap) (shardIds : List DomainId)
    (binId : DomainId) :
    binChange consistency weight movementMaps
        ((ExpressionTree.entered state tree movementMaps shardIds).changedChildren (1, binId)) binId =
      (shardIds.map fun shard => (((tree.parentNodes 0 shard movementMaps).count (1, binId) : Nat) : Int) *
        signed (counted consistency movementMaps shard binId) (weight shard)).sum := by
  rw [ExpressionTree.changedChildren_entered, shards, binChange]
  induction shardIds with
  | nil => rfl
  | cons shard shardIds ih =>
    rw [List.flatMap_cons, List.map_append, List.sum_append, ih, List.map_cons, List.sum_cons, List.map_replicate,
      List.sum_replicate, nsmul_eq_mul]

theorem count_staticParents (grounded : Grounded tree) (shard binId : DomainId) :
    (tree.staticParents 0 shard).count (1, binId) = if shard ∈ tree.children 1 binId then 1 else 0 := by
  rw [(tree.nodup_staticParents 0 shard).count]
  simp [grounded.parents]

section Moved
variable {committedMoves canariedMoves : MovementMap}

/-- A shard that moves for the first time is entered at the bin that lists it and at
the bin it moves to. -/
private theorem count_moved (grounded : Grounded tree) {shard nextBin : DomainId} (unmoved : committedMoves.getNextBin shard = none)
    (next : canariedMoves.getNextBin shard = some nextBin) (binId : DomainId) :
    (tree.parentNodes 0 shard [{}, committedMoves, canariedMoves]).count (1, binId) =
      (if shard ∈ tree.children 1 binId then 1 else 0) +
        if binId = nextBin ∧ (tree.parentToChildMap.row 1 binId).isSome then 1 else 0 := by
  have bins : ([{}, committedMoves, canariedMoves] : List MovementMap).filterMap (fun moves => moves.getNextBin shard) =
      [nextBin] := by
    simp only [List.filterMap_cons, MovementMap.next_empty, unmoved, next, List.filterMap_nil]
  have destination : (tree.movedParents [{}, committedMoves, canariedMoves] shard).count (1, binId) =
      if binId = nextBin ∧ (tree.parentToChildMap.row 1 binId).isSome then 1 else 0 := by
    rw [movedParents, bins, grounded.bins]
    by_cases same : binId = nextBin
    · subst same
      by_cases row : (tree.parentToChildMap.row 1 binId).isSome <;> simp [row]
    · by_cases row : (tree.parentToChildMap.row 1 nextBin).isSome <;> simp [row, same, Ne.symm same]
  rw [parentNodes, grounded.shards, if_pos rfl, List.count_append, count_staticParents grounded, destination]

variable {shardIds : List DomainId} (moved : ∀ shard ∈ shardIds, committedMoves.getNextBin shard = none ∧
  (canariedMoves.getNextBin shard).isSome)
include moved

theorem binChange_moved (grounded : Grounded tree) (shards : state.shardDomain = 0) (binId : DomainId) :
    binChange consistency weight [{}, committedMoves, canariedMoves]
        ((ExpressionTree.entered state tree [{}, committedMoves, canariedMoves] shardIds).changedChildren (1, binId)) binId =
      (shardIds.map fun shard =>
        shift consistency weight tree shard ((canariedMoves.getNextBin shard).getD 0) binId).sum := by
  rw [binChange_entered consistency weight state shards]
  refine congrArg List.sum (List.map_congr_left fun shard member => ?_)
  obtain ⟨unmoved, moves⟩ := moved shard member
  obtain ⟨nextBin, next⟩ := Option.isSome_iff_exists.mp moves
  have scanned : counted consistency [{}, committedMoves, canariedMoves] shard binId =
      shouldConsider consistency (decide (nextBin = binId)) true := by
    by_cases same : nextBin = binId <;> simp [counted, scanMaps, unmoved, next, same]
  rw [count_moved grounded unmoved next, scanned, next, Option.getD_some, shift]
  push_cast
  rfl

omit moved in
private theorem indicators_ne_zero (first second : Prop) [Decidable first] [Decidable second] :
    ((if first then 1 else 0) + if second then 1 else 0) ≠ 0 ↔ first ∨ second := by
  by_cases first <;> by_cases second <;> simp [*]

theorem entered_moved (grounded : Grounded tree) (shards : state.shardDomain = 0) (binId : DomainId) :
    (ExpressionTree.entered state tree [{}, committedMoves, canariedMoves] shardIds).changedChildren (1, binId) ≠ [] ↔
      ∃ shard ∈ shardIds, shard ∈ tree.children 1 binId ∨
        canariedMoves.getNextBin shard = some binId ∧ (tree.parentToChildMap.row 1 binId).isSome := by
  rw [ExpressionTree.changedChildren_entered, shards, ne_eq, List.flatMap_eq_nil_iff]
  push Not
  refine exists_congr fun shard => and_congr_right fun member => ?_
  obtain ⟨unmoved, moves⟩ := moved shard member
  obtain ⟨nextBin, next⟩ := Option.isSome_iff_exists.mp moves
  rw [ne_eq, List.replicate_eq_nil_iff, count_moved grounded unmoved next, next, Option.some.injEq, eq_comm (a := nextBin)]
  exact indicators_ne_zero _ _

end Moved

theorem binChange_initial (grounded : Grounded tree) (shards : state.shardDomain = 0) {shardIds : List DomainId}
    (all : shardIds.Perm (tree.getAllDomainIds 0)) (binId : DomainId) :
    binChange consistency weight [{}]
        ((ExpressionTree.entered state tree [{}] shardIds).changedChildren (1, binId)) binId =
      ∑ shard ∈ (tree.children 1 binId).toFinset, signed (shouldConsider consistency true false) (weight shard) := by
  have distinct := all.nodup_iff.mpr (tree.nodup_getAllDomainIds 0)
  have listed : (tree.children 1 binId).toFinset ⊆ shardIds.toFinset := by
    intro shard member
    exact List.mem_toFinset.mpr (all.mem_iff.mpr (grounded.mem_shards (List.mem_toFinset.mp member)))
  have value : ∀ shard, (((tree.parentNodes 0 shard [{}]).count (1, binId) : Nat) : Int) *
      signed (counted consistency [{}] shard binId) (weight shard) =
        if shard ∈ (tree.children 1 binId).toFinset then signed (shouldConsider consistency true false) (weight shard) else 0 := by
    intro shard
    have none : tree.movedParents [{}] shard = [] := rfl
    rw [parentNodes, none, ite_self, List.append_nil, count_staticParents grounded]
    by_cases inside : shard ∈ tree.children 1 binId <;> simp [inside, counted, scanMaps]
  rw [binChange_entered consistency weight state shards, List.map_congr_left fun shard _ => value shard,
    ← List.sum_toFinset _ distinct, ← Finset.sum_filter, Finset.filter_mem_eq_inter, Finset.inter_eq_right.mpr listed]

/-- Before anything moves, each bin is entered with all of its shards. -/
theorem entered_all (grounded : Grounded tree) (shards : state.shardDomain = 0) {shardIds : List DomainId}
    (all : shardIds.Perm (tree.getAllDomainIds 0)) (binId : DomainId) :
    ((ExpressionTree.entered state tree [{}] shardIds).changedChildren (1, binId)).Perm (tree.children 1 binId) := by
  have count : ∀ shard, (tree.parentNodes 0 shard [{}]).count (1, binId) = if shard ∈ tree.children 1 binId then 1 else 0 := by
    intro shard
    have none : tree.movedParents [{}] shard = [] := rfl
    rw [parentNodes, none, ite_self, List.append_nil, count_staticParents grounded]
  have listed : (ExpressionTree.entered state tree [{}] shardIds).changedChildren (1, binId) =
      shardIds.filter (· ∈ tree.children 1 binId) := by
    rw [ExpressionTree.changedChildren_entered, shards]
    simp only [count]
    clear all
    induction shardIds with
    | nil => rfl
    | cons shard shardIds ih =>
      rw [List.flatMap_cons, ih, List.filter_cons]
      by_cases inside : shard ∈ tree.children 1 binId <;> simp [inside]
  have distinct : (tree.getAllDomainIds 0).Nodup := by
    unfold getAllDomainIds
    split <;> exact AList.keys_nodup _
  rw [listed]
  refine (List.perm_ext_iff_of_nodup ((all.nodup_iff.mpr distinct).filter _) (grounded.nodup binId)).mpr fun shard => ?_
  rw [List.mem_filter, decide_eq_true_eq, and_iff_right_of_imp]
  exact fun inside => all.mem_iff.mpr (grounded.mem_shards inside)

theorem entered_initial (grounded : Grounded tree) (shards : state.shardDomain = 0) {shardIds : List DomainId}
    (all : shardIds.Perm (tree.getAllDomainIds 0)) (binId : DomainId) :
    (ExpressionTree.entered state tree [{}] shardIds).changedChildren (1, binId) ≠ [] ↔ tree.children 1 binId ≠ [] := by
  have perm := entered_all state grounded shards all binId
  rw [ne_eq, ne_eq, ← List.length_eq_zero_iff, perm.length_eq, List.length_eq_zero_iff]

end Changes
end ShardManager

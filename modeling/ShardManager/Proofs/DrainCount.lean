import ShardManager.Proofs.Contribution
import ShardManager.Proofs.Loads

/-! `DrainConstraint` above the bins, where `shardCountOperator` adds 1 for every
child that changed: what it counts, and when that is the number of shards. -/

namespace ShardManager
open SparseMappingTree IterativeLocalSearch

/-- A calculation that adds 1 for every changed child above the bins. -/
def CountsChanges {σ : Type} (calculation : Calculation σ) : Prop :=
  ∀ tree movementMaps level domainId reading, calculation.value tree movementMaps (level + 2, domainId) reading =
    toInt32 (reading.own.getD 0 + (reading.changedChildren.length : Int))

theorem DrainConstraint.countsChanges {state : SolvingState} (bins : state.binDomain = 1) (consistency : MovementConsistency)
    (domain : Domain) (faultWeight : Int) : CountsChanges (calculation state consistency domain faultWeight) := by
  intro tree movementMaps level domainId reading
  simp [calculation, addedChild, bins, signed]

section Settled
variable {σ : Type} {calculation : Calculation σ} {tree : SparseMappingTree} {movementMaps : List MovementMap}
  {start final : MetricsMap} {changed : Nat → DomainId → List DomainId}

def changedAmong (tree : SparseMappingTree) (before after : Node → Option Int) (level : Nat) (domainId : DomainId) :
    Finset DomainId :=
  (childrenAt tree level domainId).filter fun child => after (level + 1, child) ≠ before (level + 1, child)

private theorem Settled.changed_eq (hierarchy : Hierarchy tree)
    (settled : Settled calculation tree movementMaps binsUp start changed final) (level : Nat) (domainId : DomainId) :
    (changed (level + 1) domainId).toFinset = changedAmong tree start.get final.get level domainId := by
  ext child
  rw [List.mem_toFinset, changedAmong, Finset.mem_filter]
  constructor
  · intro member
    exact ⟨settled.child_listed hierarchy member, ((settled.mem level domainId child).mp member).2⟩
  · rintro ⟨listed, different⟩
    by_contra absent
    exact different (settled.children_same hierarchy listed absent)

/-- Above the bins a node moves on by the number of its changed children. -/
theorem Settled.counted (counts : CountsChanges calculation) (hierarchy : Hierarchy tree)
    (settled : Settled calculation tree movementMaps binsUp start changed final) (level : Nat) (domainId : DomainId) :
    final.residues (level + 1) domainId = start.residues (level + 1) domainId +
      ((changedAmong tree start.get final.get level domainId).card : Residue) ∧
    (changedAmong tree start.get final.get level domainId = ∅ →
      final.get (level + 2, domainId) = start.get (level + 2, domainId)) := by
  have value := settled.value (level + 1) domainId
  have card : (changed (level + 1) domainId).length = (changedAmong tree start.get final.get level domainId).card := by
    rw [← settled.changed_eq hierarchy, List.toFinset_card_of_nodup (settled.distinct level domainId)]
  unfold MetricsMap.residues
  by_cases idle : changed (level + 1) domainId = []
  · rw [if_pos idle] at value
    change final.get (level + 1 + 1, domainId) = start.get (level + 1 + 1, domainId) at value
    rw [idle, List.length_nil] at card
    exact ⟨by simp [value, ← card], fun _ => value⟩
  · rw [if_neg idle] at value
    change final.get (level + 1 + 1, domainId) =
      some (calculation.value tree movementMaps (level + 2, domainId) _) at value
    constructor
    · rw [value, counts, Option.getD_some, residue_toInt32, ← card]
      push_cast
      rfl
    · intro none
      rw [none, Finset.card_empty, List.length_eq_zero_iff] at card
      exact absurd card idle

end Settled

namespace Counter
variable {state : SolvingState} {counter : Counter} {consistency : MovementConsistency} {weight : DomainId → Int}
  (order : HashOrder) (movementMaps : List MovementMap) (shardIds : List DomainId) (info : BinWeightInfo)

/-- What an evaluation of a drain does to the committed values once it is committed. -/
structure Counted (consistency : MovementConsistency) (weight : DomainId → Int) (movementMaps : List MovementMap)
    (entered : UpdateMap) (before after : Counter) : Prop where
  lowest : ∀ binId, after.residues 0 binId = before.residues 0 binId +
    ((binChange consistency weight movementMaps (entered.changedChildren (1, binId)) binId : Int) : Residue)
  kept : ∀ binId, entered.changedChildren (1, binId) = [] → after.metric (1, binId) = before.metric (1, binId)
  above : ∀ level domainId, after.residues (level + 1) domainId = before.residues (level + 1) domainId +
    ((changedAmong before.part before.metric after.metric level domainId).card : Residue)
  keptAbove : ∀ level domainId, changedAmong before.part before.metric after.metric level domainId = ∅ →
    after.metric (level + 2, domainId) = before.metric (level + 2, domainId)

theorem canaried_counted (hierarchy : Hierarchy counter.part) (shards : state.shardDomain = 0)
    (adds : AddsShards counter.calculation consistency weight counter.part) (counts : CountsChanges counter.calculation) :
    Counted consistency weight movementMaps (ExpressionTree.entered state counter.part movementMaps shardIds) counter
      (counter.canaried order state movementMaps shardIds info).1.committed := by
  obtain ⟨changed, settled, lowest, _⟩ := ExpressionTree.updated_settled state order counter.calculation
    ⟨counter.part, counter.expressionTree.metricsMap.clear⟩ hierarchy.layered (hierarchy.shards.trans shards.symm) movementMaps
    shardIds (⟨counter.domainFaultMap.clear, info⟩ : FaultRecord)
  have before : counter.expressionTree.metricsMap.clear.get = counter.metric := funext fun node => by simp [metric]
  have start : MetricsMap.residues counter.expressionTree.metricsMap.clear = counter.residues := by
    funext level domainId
    rw [MetricsMap.residues, before, residues]
  have after := metric_committed (counter.canaried order state movementMaps shardIds info).1
  have final : (counter.canaried order state movementMaps shardIds info).1.committed.residues =
      MetricsMap.residues (counter.canaried order state movementMaps shardIds info).1.expressionTree.metricsMap := by
    funext level domainId
    rw [residues, after]
    rfl
  refine ⟨fun binId => ?_, fun binId idle => ?_, fun level domainId => ?_, fun level domainId => ?_⟩
  · have bin := settled.lowest adds binId
    rw [lowest] at bin
    rw [final, ← start]
    exact bin
  · have value := settled.value 0 binId
    rw [lowest] at value
    rw [after, ← before]
    exact value.trans (if_pos idle)
  · rw [final, ← start, after, ← before]
    exact (settled.counted counts hierarchy level domainId).1
  · rw [after, ← before]
    exact (settled.counted counts hierarchy level domainId).2


end Counter

section Arrival
variable {part : SparseMappingTree}

def arrival (part : SparseMappingTree) (nextBin binId : DomainId) : Int :=
  if binId = nextBin ∧ (part.parentToChildMap.row 1 binId).isSome then 1 else 0

private theorem arrival_unique (hierarchy : Hierarchy part) (nextBin : DomainId) (level : Nat) {first second : DomainId}
    (left : rollup (childrenAt part) (arrival part nextBin) level first ≠ 0)
    (right : rollup (childrenAt part) (arrival part nextBin) level second ≠ 0) : first = second := by
  induction level generalizing first second with
  | zero =>
    have here : ∀ binId, arrival part nextBin binId ≠ 0 → binId = nextBin := by
      intro binId arrives
      by_contra different
      exact arrives (if_neg fun both => different both.1)
    exact (here first left).trans (here second right).symm
  | succ level ih =>
    obtain ⟨child, inFirst, arrives⟩ := Finset.exists_ne_zero_of_sum_ne_zero left
    obtain ⟨other, inSecond, otherArrives⟩ := Finset.exists_ne_zero_of_sum_ne_zero right
    obtain rfl := ih arrives otherArrives
    have same : ((level + 2, first) : Node) = (level + 2, second) :=
      hierarchy.unique rfl rfl (List.mem_toFinset.mp inFirst) (List.mem_toFinset.mp inSecond)
    exact congrArg Prod.snd same

private theorem arrival_cases (hierarchy : Hierarchy part) (nextBin : DomainId) (level : Nat) (domainId : DomainId) :
    rollup (childrenAt part) (arrival part nextBin) level domainId = 0 ∨
    rollup (childrenAt part) (arrival part nextBin) level domainId = 1 := by
  induction level generalizing domainId with
  | zero =>
    change arrival part nextBin domainId = 0 ∨ arrival part nextBin domainId = 1
    unfold arrival
    split <;> simp
  | succ level ih =>
    by_cases none : rollup (childrenAt part) (arrival part nextBin) (level + 1) domainId = 0
    · exact .inl none
    · right
      obtain ⟨child, member, arrives⟩ := Finset.exists_ne_zero_of_sum_ne_zero none
      have others : ∀ other ∈ childrenAt part level domainId, other ≠ child →
          rollup (childrenAt part) (arrival part nextBin) level other = 0 := by
        intro other _ different
        by_contra arrivesToo
        exact different (arrival_unique hierarchy nextBin level arrivesToo arrives)
      rw [rollup, Finset.sum_eq_single_of_mem child member others]
      exact (ih child).resolve_left arrives

/-- Where a shard arrives and none departs, the changed children are those it arrives under. -/
theorem Counter.Counted.arrives {before after : Counter} {movementMaps : List MovementMap} {entered : UpdateMap}
    {consistency : MovementConsistency} {weight : DomainId → Int} {nextBin : DomainId} (hierarchy : Hierarchy before.part)
    (counted : Counted consistency weight movementMaps entered before after)
    (change : ∀ binId, binChange consistency weight movementMaps (entered.changedChildren (1, binId)) binId =
      arrival before.part nextBin binId)
    (idle : ∀ binId, arrival before.part nextBin binId = 0 → entered.changedChildren (1, binId) = [])
    (level : Nat) (domainId : DomainId) :
    after.residues level domainId = before.residues level domainId +
      ((rollup (childrenAt before.part) (arrival before.part nextBin) level domainId : Int) : Residue) ∧
    (rollup (childrenAt before.part) (arrival before.part nextBin) level domainId = 0 →
      after.metric (level + 1, domainId) = before.metric (level + 1, domainId)) := by
  induction level generalizing domainId with
  | zero =>
    constructor
    · rw [counted.lowest, change]
      rfl
    · exact fun none => counted.kept domainId (idle domainId none)
  | succ level ih =>
    have changed : ∀ child, rollup (childrenAt before.part) (arrival before.part nextBin) level child =
        if after.metric (level + 1, child) ≠ before.metric (level + 1, child) then 1 else 0 := by
      intro child
      obtain ⟨moved, kept⟩ := ih child
      rcases arrival_cases hierarchy nextBin level child with none | one
      · rw [none, if_neg (not_not_intro (kept none))]
      · rw [one, if_pos]
        intro same
        have sameResidue : after.residues level child = before.residues level child := by
          rw [residues, same, residues]
        rw [one, sameResidue, left_eq_add] at moved
        exact absurd moved (by decide)
    have card : ((changedAmong before.part before.metric after.metric level domainId).card : Int) =
        rollup (childrenAt before.part) (arrival before.part nextBin) (level + 1) domainId := by
      rw [rollup, Finset.sum_congr rfl fun child _ => changed child, changedAmong, Finset.card_filter]
      push_cast
      rfl
    constructor
    · rw [counted.above, ← card]
      push_cast
      rfl
    · intro none
      rw [← card] at none
      exact counted.keptAbove level domainId (Finset.card_eq_zero.mp (by exact_mod_cast none))

end Arrival
end ShardManager

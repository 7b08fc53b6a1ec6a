import ShardManager.Proofs.Commits
import ShardManager.Proofs.Summation

/-! The metrics and faults of `MetricConstraint` and `DrainConstraint`, through
construction, canaries and commits: one invariant for both, and how an update
changes the values. -/

namespace ShardManager
open SparseMappingTree

/-- Metrics of a part of a hierarchy, and the faults of one of its domains. -/
structure Tally (tree : SparseMappingTree) (domain : Domain) (fault : Int → Int) (metric : Node → Option Int)
    (faults : DomainId → Option Int) : Prop where
  narrow : ∀ node, FitsInt32 ((metric node).getD 0)
  unmapped : ∀ node, ¬ tree.Mapped node → metric node = none
  present : ∀ level domainId, (metric (level + 2, domainId)).isSome ↔
    ∃ child ∈ childrenAt tree level domainId, (metric (level + 1, child)).isSome
  faults : ∀ domainId, faults domainId = (metric (domain, domainId)).map fault

theorem tally_empty (tree : SparseMappingTree) (domain : Domain) (fault : Int → Int) :
    Tally tree domain fault (fun _ => none) fun _ => none :=
  ⟨fun _ => by decide, fun _ _ => rfl, by simp, fun _ => rfl⟩

/-- A calculation that records the fault of every value of a domain. -/
structure RecordsValue (calculation : Calculation FaultRecord) (state : SolvingState) (domain : Domain) (fault : Int → Int) :
    Prop where
  effect : ∀ node val record, calculation.effect node val record = record.record state domain node (fault val)
  narrow : ∀ tree movementMaps node reading, tree.Mapped node → FitsInt32 (calculation.value tree movementMaps node reading)

/-- The recorded faults are a slot of the context. -/
def RecordsValue.slot {calculation : Calculation FaultRecord} {state : SolvingState} {domain : Domain} {fault : Int → Int}
    (records : RecordsValue calculation state domain fault) : Slot calculation domain (Option Int) where
  read record := record.domainFaultMap.get
  written val := some (fault val)
  read_effect := by
    rintro ⟨nodeDomain, nodeId⟩ val record domainId
    rw [records.effect, FaultRecord.record]
    by_cases here : nodeDomain = domain
    · subst here
      have set := CommittableMap.get_set_canary record.domainFaultMap (fault val) nodeId domainId
      simp only [if_true, Prod.mk.injEq, true_and, eq_comm (a := nodeId)]
      split
      · exact set
      · split <;> exact set
    · simp [here]

section Update
variable {calculation : Calculation FaultRecord} {state : SolvingState} {domain : Domain} {fault : Int → Int}
  {consistency : MovementConsistency} {weight : DomainId → Int} (order : HashOrder) (tree : ExpressionTree)
  (movementMaps : List MovementMap) (shardIds : List DomainId) (record : FaultRecord)

theorem updated_tally (hierarchy : Hierarchy tree.assignmentTree) (shards : state.shardDomain = 0)
    (records : RecordsValue calculation state domain fault) (above : domain ≠ 0)
    (tally : Tally tree.assignmentTree domain fault tree.metricsMap.get record.domainFaultMap.get) :
    Tally tree.assignmentTree domain fault
      (tree.updated state order calculation movementMaps shardIds record).1.metricsMap.get
      (tree.updated state order calculation movementMaps shardIds record).2.domainFaultMap.get := by
  obtain ⟨level, rfl⟩ := Nat.exists_eq_succ_of_ne_zero above
  obtain ⟨changed, settled, lowest, slots⟩ := ExpressionTree.updated_settled state order calculation tree hierarchy.layered
    (hierarchy.shards.trans shards.symm) movementMaps shardIds record
  have entered : ∀ binId, changed 0 binId ≠ [] → tree.assignmentTree.Mapped (1, binId) := by
    intro binId occupied
    rw [lowest] at occupied
    exact ExpressionTree.mapped_entered state _ _ _ _
      ((ExpressionTree.proper_entered state _ _ _ (1, binId)).mpr occupied)
  have cases := settled.kept_or_computed entered
  refine ⟨?_, ?_, settled.present hierarchy tally.present, ?_⟩
  · intro node
    rcases cases node with kept | ⟨mapped, reading, computed⟩
    · rw [kept]
      exact tally.narrow node
    · rw [computed]
      exact records.narrow _ _ _ _ mapped
  · intro node notMapped
    rcases cases node with kept | ⟨mapped, _⟩
    · rw [kept, tally.unmapped node notMapped]
    · exact absurd mapped notMapped
  · intro domainId
    have read := slots (Option Int) level records.slot domainId
    have value := settled.value level domainId
    change (tree.updated state order calculation movementMaps shardIds record).2.domainFaultMap.get domainId = _ at read
    change _ = (CommittableMap.get _ (binsUp level, domainId)).map fault
    rw [read]
    by_cases idle : changed level domainId = []
    · rw [if_pos idle] at value ⊢
      rw [value]
      exact tally.faults domainId
    · rw [if_neg idle] at value ⊢
      rw [value]
      rfl

theorem updated_patched (hierarchy : Hierarchy tree.assignmentTree) (shards : state.shardDomain = 0)
    (adds : Adds calculation consistency weight tree.assignmentTree)
    (clean : ∀ node, tree.metricsMap.getFromCommittedMap node = tree.metricsMap.get node) :
    Patched (childrenAt tree.assignmentTree)
      (fun binId => ((binChange consistency weight movementMaps ((ExpressionTree.entered state tree.assignmentTree movementMaps
        shardIds).changedChildren (1, binId)) binId : Int) : Residue))
      tree.metricsMap.residues (tree.updated state order calculation movementMaps shardIds record).1.metricsMap.residues := by
  obtain ⟨changed, settled, lowest, _⟩ := ExpressionTree.updated_settled state order calculation tree hierarchy.layered
    (hierarchy.shards.trans shards.symm) movementMaps shardIds record
  have patched := settled.patched hierarchy adds clean
  simp only [lowest] at patched
  exact patched

variable (calculation) in
theorem updated_bin (hierarchy : Hierarchy tree.assignmentTree) (shards : state.shardDomain = 0) (binId : DomainId) :
    ((tree.updated state order calculation movementMaps shardIds record).1.metricsMap.get (1, binId)).isSome ↔
      (tree.metricsMap.get (1, binId)).isSome ∨
      (ExpressionTree.entered state tree.assignmentTree movementMaps shardIds).changedChildren (1, binId) ≠ [] := by
  obtain ⟨changed, settled, lowest, _⟩ := ExpressionTree.updated_settled state order calculation tree hierarchy.layered
    (hierarchy.shards.trans shards.symm) movementMaps shardIds record
  have value := settled.value 0 binId
  rw [lowest] at value
  change CommittableMap.get _ (1, binId) = if _ = [] then tree.metricsMap.get (1, binId) else _ at value
  rw [value]
  split
  next idle =>
    constructor
    · exact .inl
    · rintro (isSome | occupied)
      · exact isSome
      · exact absurd idle occupied
  next occupied => simpa using .inr occupied

end Update
end ShardManager

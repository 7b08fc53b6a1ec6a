import ShardManager.Proofs.Rollback
import Mathlib.Algebra.BigOperators.Fin
import Mathlib.Algebra.BigOperators.Finprod

/-! The shared weights are the sum of the faults the constraints keep. Nothing
recomputes them, so every operation has to change both by the same amount. -/

namespace ShardManager
open Function

theorem finsum_changed {K : Type} {before after : K → Int} (finite : (support before).Finite) (key : K)
    (agree : ∀ other, other ≠ key → after other = before other) :
    ∑ᶠ item, after item = ∑ᶠ item, before item + (after key - before key) := by
  classical
  have split : ∀ item, after item = before item + if item = key then after key - before key else 0 := by
    intro item
    by_cases same : item = key
    · rw [same, if_pos rfl, add_sub_cancel]
    · rw [if_neg same, agree item same, add_zero]
  have single : (support fun item => if item = key then after key - before key else 0).Finite := by
    refine Set.Finite.subset (Set.finite_singleton key) ?_
    intro item present
    by_contra different
    exact present (if_neg different)
  rw [finsum_congr split, finsum_add_distrib finite single,
    finsum_eq_single (fun item => if item = key then after key - before key else 0) key fun item different => if_neg different,
    if_pos rfl]

namespace FaultMap

/-- The faults of all ids as `get` returns them; an absent fault is 0. -/
noncomputable def sum (map : FaultMap) : Int := ∑ᶠ domainId, (map.get domainId).getD 0

theorem finite_support (map : FaultMap) : (support fun domainId => (map.get domainId).getD 0).Finite := by
  refine Set.Finite.subset (map.canaryMap.keys.toFinset ∪ map.committedMap.keys.toFinset).finite_toSet ?_
  intro domainId present
  by_contra absent
  rw [Finset.mem_coe, Finset.mem_union, List.mem_toFinset, List.mem_toFinset, not_or, ← AList.mem_keys, ← AList.mem_keys]
    at absent
  obtain ⟨canary, committed⟩ := absent
  apply present
  change (map.get domainId).getD 0 = 0
  rw [CommittableMap.get_eq]
  change (((map.canaryMap.lookup domainId).or (map.committedMap.lookup domainId)).getD 0) = 0
  rw [AList.lookup_eq_none.mpr canary, AList.lookup_eq_none.mpr committed]
  rfl

private theorem sum_set (map : FaultMap) (fault : Int) (domainId : DomainId) :
    sum (map.set true fault domainId) = sum map + (fault - (map.get domainId).getD 0) := by
  have here : ((map.set true fault domainId).get domainId).getD 0 = fault := by
    rw [CommittableMap.get_set_canary, if_pos rfl, Option.getD_some]
  rw [sum, finsum_changed (finite_support map) domainId, here]
  · rfl
  · intro other different
    rw [CommittableMap.get_set_canary, if_neg different]

private theorem sum_commit (map : FaultMap) : sum map.commit = sum map := finsum_congr fun domainId => by simp

theorem sum_empty : sum .empty = 0 := by
  unfold sum
  simp

end FaultMap

namespace BinWeightInfo

@[simp] theorem total_addTotalWeight (info : BinWeightInfo) (weightDelta : Int) :
    (info.addTotalWeight weightDelta).total = info.total + weightDelta := rfl

@[simp] theorem binWeight_addTotalWeight (info : BinWeightInfo) (weightDelta : Int) (binId : DomainId) :
    (info.addTotalWeight weightDelta).binWeight binId = info.binWeight binId := rfl

@[simp] theorem total_addBinWeight (info : BinWeightInfo) (domainId : DomainId) (weightDelta : Int) :
    (info.addBinWeight domainId weightDelta).total = info.total + weightDelta := rfl

theorem binWeight_addBinWeight (info : BinWeightInfo) (domainId : DomainId) (weightDelta : Int) (binId : DomainId) :
    (info.addBinWeight domainId weightDelta).binWeight binId =
      info.binWeight binId + if binId = domainId then weightDelta else 0 := by
  change ((info.binWeightMap.set true ((info.binWeightMap.get domainId).getD 0 + weightDelta) domainId).get binId).getD 0 =
    (info.binWeightMap.get binId).getD 0 + if binId = domainId then weightDelta else 0
  rw [CommittableMap.get_set_canary]
  by_cases same : binId = domainId
  · subst same
    simp
  · simp [same]

end BinWeightInfo

/-- A weight, and the share a fault map has in it: recording a fault changes both
by the same amount. -/
structure Account (state : SolvingState) where
  weight : BinWeightInfo → Int
  share : Domain → FaultMap → Int
  recorded : ∀ domain node currentWeight (record : FaultRecord),
    weight (record.record state domain node currentWeight).binWeightInfo -
        share domain (record.record state domain node currentWeight).domainFaultMap =
      weight record.binWeightInfo - share domain record.domainFaultMap
  weight_commit : ∀ info, weight info.commit = weight info
  weight_empty : weight .empty = 0
  share_commit : ∀ domain map, share domain map.commit = share domain map
  share_empty : ∀ domain, share domain .empty = 0

/-- The total weight is shared by all faults. -/
noncomputable def totalAccount (state : SolvingState) : Account state where
  weight := BinWeightInfo.total
  share _ := FaultMap.sum
  recorded domain node currentWeight record := by
    unfold FaultRecord.record
    split
    · simp only
      split
      next same => rw [FaultMap.sum_set, same, add_zero]
      next => split <;> simp only [BinWeightInfo.total_addBinWeight, BinWeightInfo.total_addTotalWeight, FaultMap.sum_set] <;> omega
    · rfl
  weight_commit := BinWeightInfo.total_commit
  weight_empty := rfl
  share_commit _ := FaultMap.sum_commit
  share_empty _ := FaultMap.sum_empty

/-- The weight of a bin is shared by the faults that constraints over bins keep for it. -/
def binAccount (state : SolvingState) (binId : DomainId) : Account state where
  weight info := info.binWeight binId
  share domain map := if domain = state.binDomain then (map.get binId).getD 0 else 0
  recorded domain node currentWeight record := by
    unfold FaultRecord.record
    split
    · by_cases bins : domain = state.binDomain
      · by_cases here : binId = node.2
        · simp only [bins, if_true]
          split
          · simp only [CommittableMap.get_set_canary, if_pos here, Option.getD_some]
            rw [here]
            omega
          · simp only [CommittableMap.get_set_canary, BinWeightInfo.binWeight_addBinWeight, if_pos here, Option.getD_some]
            rw [here]
            omega
        · simp only [bins, if_true]
          split <;> simp [BinWeightInfo.binWeight_addBinWeight, here]
      · simp only [bins, if_false]
        split <;> rfl
    · rfl
  weight_commit info := BinWeightInfo.binWeight_commit info binId
  weight_empty := by simp [BinWeightInfo.binWeight, BinWeightInfo.empty]
  share_commit domain map := by simp
  share_empty domain := by simp

/-- The constraints that keep the faults they added to the weights. -/
def Constraint.KeepsFaults : Constraint → Prop
  | .metric _ => True
  | .drain _ => True
  | .loadBalancing _ => False

def Constraint.Arguments.KeepFaults : Constraint.Arguments → Prop
  | .metric .. => True
  | .drain .. => True
  | .loadBalancing .. => False

theorem Constraint.keepsFaults_rollback (constraint : Constraint) :
    (LawfulConstraint.rollback constraint).KeepsFaults ↔ constraint.KeepsFaults := by cases constraint <;> rfl

/-- The function writes to its context by recording one fault. -/
def RecordsFault (state : SolvingState) (domain : Domain) (calcMetricFunc : CalcMetricFunc FaultRecord) : Prop :=
  ∀ tree movementMaps metricsMap changedChildren node record val after,
    calcMetricFunc tree movementMaps metricsMap changedChildren node record = .ok (val, after) →
      ∃ currentWeight, after = record.record state domain node currentWeight

theorem MetricConstraint.recordsFault (state : SolvingState) (consistency : MovementConsistency) (domain : Domain)
    (metric : Metric) (capacity faultWeight : Int) :
    RecordsFault state domain (calculate state consistency domain metric capacity faultWeight) := by
  intro _ _ _ _ _ _ _ _ computed
  obtain ⟨val, _, computed⟩ := Checked.bind_ok computed
  cases computed
  exact ⟨_, rfl⟩

theorem DrainConstraint.recordsFault (state : SolvingState) (consistency : MovementConsistency) (domain : Domain)
    (faultWeight : Int) : RecordsFault state domain (calculate state consistency domain faultWeight) := by
  intro _ _ _ _ _ _ _ _ computed
  obtain ⟨val, _, computed⟩ := Checked.bind_ok computed
  cases computed
  exact ⟨_, rfl⟩

namespace Account
variable {order : HashOrder} {state : SolvingState} (account : Account state)

def shareOf : Constraint → Int
  | .metric constraint => account.share constraint.domain constraint.domainFaultMap
  | .drain constraint => account.share constraint.domain constraint.domainFaultMap
  | .loadBalancing _ => 0

def outside (domain : Domain) (record : FaultRecord) : Int :=
  account.weight record.binWeightInfo - account.share domain record.domainFaultMap

variable {account} {domain : Domain} {calcMetricFunc : CalcMetricFunc FaultRecord}

private theorem update_outside (records : RecordsFault state domain calcMetricFunc) {tree final : ExpressionTree}
    {movementMaps : List MovementMapPtr} {shardIds : List DomainId} {record after : FaultRecord}
    (updated : tree.update order state calcMetricFunc movementMaps shardIds record = .ok (final, after)) :
    account.outside domain after = account.outside domain record := by
  refine (ExpressionTree.update_invariant
    (fun _ current => account.outside domain current = account.outside domain record) ?_ updated rfl).2
  intro tree movementMaps metricsMap current changedChildren node val next same computed
  obtain ⟨currentWeight, rfl⟩ := records _ _ _ _ _ _ _ _ computed
  have kept := (account.recorded domain node currentWeight current).trans same
  exact ⟨kept, kept⟩

private theorem canaryMoves_outside (records : RecordsFault state domain calcMetricFunc) {tree final : ExpressionTree}
    {committedMoves canariedMoves : MovementMapPtr} {record after : FaultRecord}
    (canaried : tree.canaryMoves order state calcMetricFunc committedMoves canariedMoves record = .ok (final, after)) :
    account.outside domain after = account.outside domain record := by
  obtain ⟨_, _, updated⟩ := Checked.bind_ok canaried
  exact update_outside records updated

theorem canaryMoves_share {constraint after : Constraint} {committedMoves canariedMoves : MovementMapPtr}
    {info final : BinWeightInfo} (keepsFaults : constraint.KeepsFaults)
    (canaried : ConstraintOps.canaryMoves order state committedMoves canariedMoves constraint info = .ok (after, final)) :
    account.weight final - account.shareOf after =
      account.weight info - account.shareOf (LawfulConstraint.rollback constraint) := by
  obtain constraint | constraint | constraint := constraint
  · obtain ⟨⟨result, weights⟩, called, finished⟩ := Checked.bind_ok canaried
    cases finished
    obtain ⟨⟨expressionTree, record⟩, evaluated, finished⟩ := Checked.bind_ok called
    cases finished
    exact canaryMoves_outside (MetricConstraint.recordsFault _ _ _ _ _ _) evaluated
  · obtain ⟨⟨result, weights⟩, called, finished⟩ := Checked.bind_ok canaried
    cases finished
    obtain ⟨⟨expressionTree, record⟩, evaluated, finished⟩ := Checked.bind_ok called
    cases finished
    exact canaryMoves_outside (DrainConstraint.recordsFault _ _ _ _) evaluated
  · cases keepsFaults

theorem new_share {arguments : Constraint.Arguments} {constraint : Constraint} {info final : BinWeightInfo}
    (keepFaults : arguments.KeepFaults) (made : Constraint.new order state info arguments = .ok (constraint, final)) :
    account.weight final = account.weight info + account.shareOf constraint ∧ constraint.KeepsFaults ∧
    LawfulConstraint.rollback constraint = constraint ∧ final.clear = final := by
  cases arguments with
  | metric consistency domain domainIds metric capacity faultWeight =>
    obtain ⟨⟨result, weights⟩, called, finished⟩ := Checked.bind_ok made
    cases finished
    obtain ⟨⟨expressionTree, record⟩, evaluated, finished⟩ := Checked.bind_ok called
    cases finished
    have kept : account.outside domain record = account.outside domain ⟨.empty, info⟩ :=
      update_outside (MetricConstraint.recordsFault _ _ _ _ _ _) evaluated
    simp only [outside, account.share_empty] at kept
    simp only [shareOf, account.weight_commit, account.share_commit]
    exact ⟨by omega, trivial, rfl, rfl⟩
  | drain consistency domain domainIds faultWeight =>
    obtain ⟨⟨result, weights⟩, called, finished⟩ := Checked.bind_ok made
    cases finished
    obtain ⟨⟨expressionTree, record⟩, evaluated, finished⟩ := Checked.bind_ok called
    cases finished
    have kept : account.outside domain record = account.outside domain ⟨.empty, info⟩ :=
      update_outside (DrainConstraint.recordsFault _ _ _ _) evaluated
    simp only [outside, account.share_empty] at kept
    simp only [shareOf, account.weight_commit, account.share_commit]
    exact ⟨by omega, trivial, rfl, rfl⟩
  | loadBalancing domain domainIds metric maxDelta faultWeightMultiplier => cases keepFaults

theorem commitMoves_share (constraint : Constraint) :
    account.shareOf (ConstraintOps.commitMoves constraint) = account.shareOf constraint ∧
    account.shareOf (LawfulConstraint.rollback (ConstraintOps.commitMoves constraint)) = account.shareOf constraint := by
  cases constraint with
  | metric constraint => exact ⟨account.share_commit _ _, account.share_commit _ _⟩
  | drain constraint => exact ⟨account.share_commit _ _, account.share_commit _ _⟩
  | loadBalancing constraint => exact ⟨rfl, rfl⟩

end Account

namespace IterativeLocalSearch
variable {ι : Type} [DecidableEq ι] [Fintype ι] {order : HashOrder} {state : SolvingState} {constraints : List ι}

/-- The weight is the sum of the shares, as `get` returns both. -/
def Balanced (account : Account state) (world : World ι Constraint) : Prop :=
  account.weight world.binWeightInfo = ∑ constraint, account.shareOf (world.objects constraint)

def CommittedBalanced (account : Account state) (world : World ι Constraint) : Prop :=
  account.weight world.binWeightInfo.clear =
    ∑ constraint, account.shareOf (LawfulConstraint.rollback (world.objects constraint))

def AllKeepFaults (world : World ι Constraint) : Prop := ∀ constraint, (world.objects constraint).KeepsFaults

def ListsAll (constraints : List ι) : Prop := constraints.Nodup ∧ ∀ constraint, constraint ∈ constraints

variable {account : Account state} {committedMoves canariedMoves : MovementMap}

private theorem sum_changed (before after : ι → Int) (constraint : ι)
    (others : ∀ other, other ≠ constraint → after other = before other) :
    ∑ other, after other - after constraint = ∑ other, before other - before constraint := by
  rw [← Finset.sum_erase_eq_sub (Finset.mem_univ constraint), ← Finset.sum_erase_eq_sub (Finset.mem_univ constraint)]
  exact Finset.sum_congr rfl fun other member => others other (Finset.ne_of_mem_erase member)

omit [DecidableEq ι] [Fintype ι] in
private theorem SameCommitted.allKeepFaults {first second : World ι Constraint} (same : SameCommitted constraints first second)
    (all : ∀ constraint, constraint ∈ constraints) (keepFaults : AllKeepFaults second) : AllKeepFaults first := by
  intro constraint
  rw [← Constraint.keepsFaults_rollback, same.listed constraint (all constraint), Constraint.keepsFaults_rollback]
  exact keepFaults constraint

omit [DecidableEq ι] in
private theorem SameCommitted.committedBalanced {first second : World ι Constraint} (same : SameCommitted constraints first second)
    (all : ∀ constraint, constraint ∈ constraints) (balanced : CommittedBalanced account second) :
    CommittedBalanced account first := by
  unfold CommittedBalanced
  rw [same.weights, balanced]
  exact Finset.sum_congr rfl fun constraint _ => by rw [same.listed constraint (all constraint)]

/-- While the constraints are visited, those still to come count with their
committed shares. -/
private theorem updateWeights_balanced {world after : World ι Constraint} (distinct : constraints.Nodup)
    (keepFaults : AllKeepFaults world)
    (balanced : account.weight world.binWeightInfo = ∑ constraint, account.shareOf
      (if constraint ∈ constraints then LawfulConstraint.rollback (world.objects constraint) else world.objects constraint))
    (updated : updateWeights order state constraints committedMoves canariedMoves world = .ok after) :
    Balanced account after := by
  induction constraints generalizing world with
  | nil =>
    cases updated
    simpa [Balanced] using balanced
  | cons constraint constraints ih =>
    obtain ⟨fresh, distinct⟩ := List.nodup_cons.mp distinct
    rw [updateWeights, List.foldlM_cons] at updated
    obtain ⟨middle, turn, rest⟩ := Checked.bind_ok updated
    obtain ⟨⟨object, info⟩, canaried, turn⟩ := Checked.bind_ok turn
    cases turn
    have share := account.canaryMoves_share (keepFaults constraint) canaried
    have same := (LawfulConstraint.rollback_canaryMoves _ _ _ _ _ _ _ _ canaried).1
    refine ih distinct ?_ ?_ rest
    · intro other
      by_cases here : other = constraint
      · subst here
        have kept : object.KeepsFaults := by
          rw [← Constraint.keepsFaults_rollback, same, Constraint.keepsFaults_rollback]
          exact keepFaults other
        simpa using kept
      · simpa [here] using keepFaults other
    · have changed := sum_changed
        (fun other => account.shareOf (if other ∈ constraint :: constraints
          then LawfulConstraint.rollback (world.objects other) else world.objects other))
        (fun other => account.shareOf (if other ∈ constraints
          then LawfulConstraint.rollback (update world.objects constraint object other)
          else update world.objects constraint object other)) constraint
        (fun other different => by simp [different])
      simp only [List.mem_cons, true_or, if_true, fresh, if_false, update_self] at changed balanced
      change account.weight info = ∑ other, account.shareOf (if other ∈ constraints
        then LawfulConstraint.rollback (update world.objects constraint object other)
        else update world.objects constraint object other)
      omega

private theorem evaluate_balanced {world after : World ι Constraint} (all : ListsAll constraints) (keepFaults : AllKeepFaults world)
    (balanced : CommittedBalanced account world)
    (evaluated : evaluate order state constraints committedMoves canariedMoves world = .ok after) :
    Balanced account after := by
  unfold evaluate at evaluated
  have start : AllKeepFaults (⟨world.objects, world.binWeightInfo.clear⟩ : World ι Constraint) := keepFaults
  refine updateWeights_balanced all.1 start ?_ evaluated
  simpa [all.2, CommittedBalanced] using balanced

variable (account constraints) in
omit [Fintype ι] in
private theorem commitAll_views (world : World ι Constraint) :
    account.weight (commitAll constraints world).binWeightInfo = account.weight world.binWeightInfo ∧
    ∀ constraint, account.shareOf ((commitAll constraints world).objects constraint) =
      account.shareOf (world.objects constraint) := by
  induction constraints generalizing world with
  | nil => exact ⟨rfl, fun _ => rfl⟩
  | cons first constraints ih =>
    obtain ⟨weight, shares⟩ := ih (commit world first)
    refine ⟨weight.trans (account.weight_commit _), fun constraint => (shares constraint).trans ?_⟩
    by_cases here : constraint = first
    · subst here
      have committed := (account.commitMoves_share (world.objects constraint)).1
      simpa [commit] using committed
    · simp [commit, here]

omit [Fintype ι] in
private theorem commitAll_committed (world : World ι Constraint) (constraint : ι)
    (settled : constraint ∈ constraints ∨
      account.shareOf (LawfulConstraint.rollback (world.objects constraint)) = account.shareOf (world.objects constraint)) :
    account.shareOf (LawfulConstraint.rollback ((commitAll constraints world).objects constraint)) =
      account.shareOf ((commitAll constraints world).objects constraint) := by
  induction constraints generalizing world with
  | nil => simpa [commitAll] using settled
  | cons first constraints ih =>
    apply ih (commit world first)
    by_cases here : constraint = first
    · subst here
      obtain ⟨same, committed⟩ := account.commitMoves_share (world.objects constraint)
      exact .inr (by simpa [commit] using committed.trans same.symm)
    · simpa [here, commit] using settled

omit [Fintype ι] in
private theorem commitAll_cleared (world : World ι Constraint)
    (settled : constraints ≠ [] ∨ world.binWeightInfo.clear = world.binWeightInfo) :
    (commitAll constraints world).binWeightInfo.clear = (commitAll constraints world).binWeightInfo := by
  induction constraints generalizing world with
  | nil => simpa [commitAll] using settled
  | cons first constraints ih => exact ih (commit world first) (.inr rfl)

private theorem commitAll_balanced {world : World ι Constraint} (all : ∀ constraint, constraint ∈ constraints)
    (balanced : Balanced account world) (committed : CommittedBalanced account world) :
    CommittedBalanced account (commitAll constraints world) := by
  cases constraints with
  | nil => exact committed
  | cons first constraints =>
    obtain ⟨weight, shares⟩ := commitAll_views (first :: constraints) account world
    unfold CommittedBalanced
    rw [commitAll_cleared world (.inl (by simp)), weight, balanced]
    refine Finset.sum_congr rfl fun constraint _ => ?_
    rw [commitAll_committed world constraint (.inl (all constraint)), shares]

omit [Fintype ι] in
private theorem commitAll_keepFaults (world : World ι Constraint) (keepFaults : AllKeepFaults world) :
    AllKeepFaults (commitAll constraints world) := by
  induction constraints generalizing world with
  | nil => exact keepFaults
  | cons first constraints ih =>
    apply ih (commit world first)
    intro constraint
    by_cases here : constraint = first
    · subst here
      have kept := keepFaults constraint
      cases object : world.objects constraint with
      | loadBalancing _ => rw [object] at kept; cases kept
      | _ => simp [commit, object, ConstraintOps.commitMoves, Constraint.commitMoves, Constraint.KeepsFaults]
    · simpa [commit, here] using keepFaults constraint

/-- What is balanced at each point of a run at which it is observed. -/
def BalancedAt (account : Account state) : Event ι Constraint → Prop
  | .iteration top => AllKeepFaults top.world ∧ CommittedBalanced account top.world
  | .passed _ => True
  | .evaluated _ _ world => AllKeepFaults world ∧ Balanced account world
  | .committed _ _ after => AllKeepFaults after.world ∧ CommittedBalanced account after.world

/-- A run of `solve` keeps the ledger balanced. -/
private theorem solve_balanced (all : ListsAll constraints) (maxIterations : Nat) (draws : List Nat) (world : World ι Constraint)
    (keepFaults : AllKeepFaults world) (balanced : CommittedBalanced account world) :
    Traced.Satisfies (BalancedAt account)
      (fun final : Search ι Constraint => AllKeepFaults final.world ∧ CommittedBalanced account final.world)
      (solve order state constraints maxIterations draws world) := by
  refine iterate_satisfies (fun top => AllKeepFaults top.world ∧ CommittedBalanced account top.world) _ (fun _ => trivial) ?_
    (fun _ holds => holds) maxIterations _ ⟨keepFaults, balanced⟩
  rintro top ⟨keepFaults, balanced⟩
  refine ⟨⟨keepFaults, balanced⟩, fun search => AllKeepFaults search.world ∧ CommittedBalanced account search.world,
    fun _ search => AllKeepFaults search.world ∧ CommittedBalanced account search.world ∧ Balanced account search.world,
    ⟨fun _ _ holds => holds, ?_, ?_, ?_⟩, ⟨keepFaults, balanced⟩, fun _ holds => holds, ?_⟩
  · intro search _ _ world holds _ evaluated
    exact ⟨(evaluate_keeps evaluated).allKeepFaults all.2 holds.1, evaluate_balanced all holds.1 holds.2 evaluated⟩
  · intro search _ _ world holds _ evaluated _
    have same := evaluate_keeps evaluated
    exact ⟨same.allKeepFaults all.2 holds.1, same.committedBalanced all.2 holds.2⟩
  · intro search _ _ world holds _ evaluated _
    have same := evaluate_keeps evaluated
    exact ⟨same.allKeepFaults all.2 holds.1, same.committedBalanced all.2 holds.2,
      evaluate_balanced all holds.1 holds.2 evaluated⟩
  · rintro movement search ⟨keepFaults, committed, balanced⟩ _
    have after := commitAll_balanced all.2 balanced committed
    have kept : AllKeepFaults (commitAll constraints search.world) := commitAll_keepFaults _ keepFaults
    exact ⟨⟨kept, after⟩, kept, after⟩

/-- The constructors called one after another. -/
def constructAll (order : HashOrder) (state : SolvingState) :
    List Constraint.Arguments → BinWeightInfo → Except Fault (List Constraint × BinWeightInfo)
  | [], info => .ok ([], info)
  | arguments :: rest, info => do
    let (constraint, info) ← Constraint.new order state info arguments
    let (constraints, info) ← constructAll order state rest info
    pure (constraint :: constraints, info)

/-- A call of `solve`. -/
structure SolveCall (ι : Type) where
  order : HashOrder
  constraints : List ι
  maxIterations : Nat
  draws : List Nat

def solveAll (state : SolvingState) : List (SolveCall ι) → World ι Constraint → Run ι Constraint (World ι Constraint)
  | [], world => pure world
  | call :: calls, world => do
    let final ← solve call.order state call.constraints call.maxIterations call.draws world
    solveAll state calls final.world

variable (account) in
/-- Constructing constraints on committed weights adds their shares. -/
private theorem constructAll_share {arguments : List Constraint.Arguments} {info final : BinWeightInfo} {objects : List Constraint}
    (keepFaults : ∀ argument ∈ arguments, argument.KeepFaults) (settled : info.clear = info)
    (made : constructAll order state arguments info = .ok (objects, final)) :
    account.weight final = account.weight info + (objects.map account.shareOf).sum ∧ final.clear = final ∧
    ∀ object ∈ objects, object.KeepsFaults ∧ LawfulConstraint.rollback object = object := by
  induction arguments generalizing info objects final with
  | nil =>
    cases made
    simp [settled]
  | cons argument arguments ih =>
    obtain ⟨⟨object, middle⟩, first, made⟩ := Checked.bind_ok made
    obtain ⟨⟨others, last⟩, rest, made⟩ := Checked.bind_ok made
    cases made
    obtain ⟨weight, keeps, same, cleared⟩ := account.new_share (keepFaults argument (by simp)) first
    obtain ⟨weights, final, kept⟩ := ih (fun other member => keepFaults other (by simp [member])) cleared rest
    refine ⟨?_, final, ?_⟩
    · rw [weights, weight, List.map_cons, List.sum_cons]
      omega
    · intro other member
      rcases List.mem_cons.mp member with rfl | later
      · exact ⟨keeps, same⟩
      · exact kept other later

private theorem solveAll_balanced (calls : List (SolveCall ι)) (all : ∀ call ∈ calls, ListsAll call.constraints)
    (world : World ι Constraint) (keepFaults : AllKeepFaults world) (balanced : CommittedBalanced account world) :
    Traced.Satisfies (BalancedAt account) (fun final => AllKeepFaults final ∧ CommittedBalanced account final)
      (solveAll state calls world) := by
  induction calls generalizing world with
  | nil => exact Traced.satisfies_pure ⟨keepFaults, balanced⟩
  | cons call calls ih =>
    refine Traced.satisfies_bind (solve_balanced (all call (by simp)) _ _ world keepFaults balanced) ?_
    rintro final ⟨keepFaults, balanced⟩
    exact ih (fun later member => all later (by simp [member])) final.world keepFaults balanced

/-- The total is the sum of all faults of all constraints, and the weight of a bin
is the sum of the faults that constraints over bins keep for it. -/
structure LedgerBalances (state : SolvingState) (world : World ι Constraint) : Prop where
  total : world.binWeightInfo.total = ∑ constraint, ∑ᶠ domainId,
    ((world.objects constraint).domainFaultMap.get domainId).getD 0
  bins : ∀ binId, world.binWeightInfo.binWeight binId = ∑ constraint,
    if (world.objects constraint).domain = state.binDomain
      then ((world.objects constraint).domainFaultMap.get binId).getD 0 else 0

/-- The same for the committed weights and the committed faults. -/
structure CommittedLedgerBalances (state : SolvingState) (world : World ι Constraint) : Prop where
  total : world.binWeightInfo.committedTotal = ∑ constraint, ∑ᶠ domainId,
    ((world.objects constraint).domainFaultMap.getFromCommittedMap domainId).getD 0
  bins : ∀ binId, world.binWeightInfo.committedBinWeight binId = ∑ constraint,
    if (world.objects constraint).domain = state.binDomain
      then ((world.objects constraint).domainFaultMap.getFromCommittedMap binId).getD 0 else 0

theorem shareOf_total (constraint : Constraint) (keepsFaults : constraint.KeepsFaults) :
    (totalAccount state).shareOf constraint = ∑ᶠ domainId, (constraint.domainFaultMap.get domainId).getD 0 ∧
    (totalAccount state).shareOf (LawfulConstraint.rollback constraint) =
      ∑ᶠ domainId, (constraint.domainFaultMap.getFromCommittedMap domainId).getD 0 := by
  obtain constraint | constraint | constraint := constraint
  · exact ⟨rfl, finsum_congr fun domainId => by simp [MetricConstraint.rollback, Constraint.domainFaultMap]⟩
  · exact ⟨rfl, finsum_congr fun domainId => by simp [DrainConstraint.rollback, Constraint.domainFaultMap]⟩
  · cases keepsFaults

theorem shareOf_bin (binId : DomainId) (constraint : Constraint) (keepsFaults : constraint.KeepsFaults) :
    (binAccount state binId).shareOf constraint =
      (if constraint.domain = state.binDomain then (constraint.domainFaultMap.get binId).getD 0 else 0) ∧
    (binAccount state binId).shareOf (LawfulConstraint.rollback constraint) =
      if constraint.domain = state.binDomain then (constraint.domainFaultMap.getFromCommittedMap binId).getD 0 else 0 := by
  obtain constraint | constraint | constraint := constraint
  · refine ⟨rfl, ?_⟩
    change (if constraint.domain = state.binDomain then (constraint.domainFaultMap.clear.get binId).getD 0 else 0) = _
    rw [CommittableMap.get_clear]
    rfl
  · refine ⟨rfl, ?_⟩
    change (if constraint.domain = state.binDomain then (constraint.domainFaultMap.clear.get binId).getD 0 else 0) = _
    rw [CommittableMap.get_clear]
    rfl
  · cases keepsFaults

theorem shareOf_same {first second : Constraint} (keepsFaults : first.KeepsFaults) (otherKeeps : second.KeepsFaults)
    (sameDomain : first.domain = second.domain) (sameFaults : first.domainFaultMap.get = second.domainFaultMap.get) :
    (totalAccount state).shareOf first = (totalAccount state).shareOf second ∧
    ∀ binId, (binAccount state binId).shareOf first = (binAccount state binId).shareOf second := by
  constructor
  · rw [(shareOf_total first keepsFaults).1, (shareOf_total second otherKeeps).1, sameFaults]
  · intro binId
    rw [(shareOf_bin binId first keepsFaults).1, (shareOf_bin binId second otherKeeps).1, sameDomain, sameFaults]

omit [DecidableEq ι] in
theorem LedgerBalances.of_accounts {world : World ι Constraint} (keepFaults : AllKeepFaults world)
    (balanced : ∀ account : Account state, Balanced account world) : LedgerBalances state world where
  total := (balanced (totalAccount state)).trans
    (Finset.sum_congr rfl fun constraint _ => (shareOf_total _ (keepFaults constraint)).1)
  bins binId := (balanced (binAccount state binId)).trans
    (Finset.sum_congr rfl fun constraint _ => (shareOf_bin binId _ (keepFaults constraint)).1)

omit [DecidableEq ι] in
theorem CommittedLedgerBalances.of_accounts {world : World ι Constraint} (keepFaults : AllKeepFaults world)
    (balanced : ∀ account : Account state, CommittedBalanced account world) : CommittedLedgerBalances state world where
  total := (balanced (totalAccount state)).trans
    (Finset.sum_congr rfl fun constraint _ => (shareOf_total _ (keepFaults constraint)).2)
  bins binId := ((BinWeightInfo.binWeight_clear _ binId).symm.trans (balanced (binAccount state binId))).trans
    (Finset.sum_congr rfl fun constraint _ => (shareOf_bin binId _ (keepFaults constraint)).2)

omit [DecidableEq ι] in
/-- The total is the sum of the bin weights and of the faults of the other constraints. -/
theorem LedgerBalances.total_eq {world : World ι Constraint} (balances : LedgerBalances state world) :
    world.binWeightInfo.total = ∑ᶠ binId, world.binWeightInfo.binWeight binId +
      ∑ constraint, if (world.objects constraint).domain = state.binDomain then 0
        else ∑ᶠ domainId, ((world.objects constraint).domainFaultMap.get domainId).getD 0 := by
  have bins : ∑ᶠ binId, world.binWeightInfo.binWeight binId = ∑ constraint,
      if (world.objects constraint).domain = state.binDomain
        then ∑ᶠ domainId, ((world.objects constraint).domainFaultMap.get domainId).getD 0 else 0 := by
    rw [finsum_congr balances.bins, finsum_sum_comm]
    · refine Finset.sum_congr rfl fun constraint _ => ?_
      split
      · rfl
      · exact finsum_zero
    · intro constraint _
      split
      · exact FaultMap.finite_support _
      · exact Set.Finite.subset Set.finite_empty (by simp [support])
  rw [balances.total, bins, ← Finset.sum_add_distrib]
  refine Finset.sum_congr rfl fun constraint _ => ?_
  split <;> simp

/-- The ledger balances after construction, at the top of each iteration and after
each commit in the committed version, and after each evaluation as `get` shows it. -/
theorem ledger_balances (order : HashOrder) (state : SolvingState) (arguments : List Constraint.Arguments)
    (keepFaults : ∀ argument ∈ arguments, argument.KeepFaults) (objects : List Constraint) (info : BinWeightInfo)
    (made : constructAll order state arguments .empty = .ok (objects, info)) (calls : List (SolveCall (Fin objects.length)))
    (all : ∀ call ∈ calls, ListsAll call.constraints) :
    CommittedLedgerBalances state ⟨objects.get, info⟩ ∧
    (∀ top, .iteration top ∈ (solveAll state calls ⟨objects.get, info⟩).events →
      CommittedLedgerBalances state top.world) ∧
    (∀ committedMoves canariedMoves world,
      .evaluated committedMoves canariedMoves world ∈ (solveAll state calls ⟨objects.get, info⟩).events →
        LedgerBalances state world) ∧
    ∀ before movement after, .committed before movement after ∈ (solveAll state calls ⟨objects.get, info⟩).events →
      CommittedLedgerBalances state after.world := by
  have kept : ∀ object ∈ objects, object.KeepsFaults ∧ LawfulConstraint.rollback object = object :=
    (constructAll_share (totalAccount state) keepFaults rfl made).2.2
  have keeps : AllKeepFaults ⟨objects.get, info⟩ := fun constraint => (kept _ (objects.get_mem constraint)).1
  have balanced : ∀ account : Account state, CommittedBalanced account ⟨objects.get, info⟩ := by
    intro account
    obtain ⟨weight, cleared, _⟩ := constructAll_share account keepFaults rfl made
    unfold CommittedBalanced
    rw [cleared, weight, account.weight_empty, zero_add, ← Fin.sum_univ_fun_getElem]
    exact Finset.sum_congr rfl fun constraint _ => by rw [(kept _ (objects.get_mem constraint)).2]; rfl
  have run := fun account : Account state => solveAll_balanced calls all ⟨objects.get, info⟩ keeps (balanced account)
  refine ⟨.of_accounts keeps balanced, ?_, ?_, ?_⟩
  · intro top member
    exact .of_accounts ((run (totalAccount state)).1 _ member).1 fun account => ((run account).1 _ member).2
  · intro _ _ world member
    exact .of_accounts ((run (totalAccount state)).1 _ member).1 fun account => ((run account).1 _ member).2
  · intro _ _ after member
    exact .of_accounts ((run (totalAccount state)).1 _ member).1 fun account => ((run account).1 _ member).2

theorem ledger_balances_twoBins :
    ∃ objects info, constructAll .insertion .twoBins [.drain .after 1 [0] 1, .metric .after 2 [0] 0 10 1] .empty =
        .ok (objects, info) ∧
      CommittedLedgerBalances .twoBins ⟨objects.get, info⟩ ∧
      (∀ top, .iteration top ∈ (solveAll .twoBins [⟨.insertion, List.finRange _, 2, [0, 1, 0, 1]⟩]
          ⟨objects.get, info⟩).events → CommittedLedgerBalances .twoBins top.world) ∧
      (∀ committedMoves canariedMoves world, .evaluated committedMoves canariedMoves world ∈
          (solveAll .twoBins [⟨.insertion, List.finRange _, 2, [0, 1, 0, 1]⟩] ⟨objects.get, info⟩).events →
        LedgerBalances .twoBins world) ∧
      ∀ before movement after, .committed before movement after ∈
          (solveAll .twoBins [⟨.insertion, List.finRange _, 2, [0, 1, 0, 1]⟩] ⟨objects.get, info⟩).events →
        CommittedLedgerBalances .twoBins after.world := by
  refine ⟨_, _, rfl, ?_⟩
  refine ledger_balances .insertion .twoBins [.drain .after 1 [0] 1, .metric .after 2 [0] 0 10 1] ?_ _ _ rfl _ ?_
  · intro argument member
    simp only [List.mem_cons, List.not_mem_nil, or_false] at member
    rcases member with rfl | rfl <;> trivial
  · intro call member
    rw [List.mem_singleton.mp member]
    exact ⟨List.nodup_finRange _, List.mem_finRange⟩

end IterativeLocalSearch
end ShardManager

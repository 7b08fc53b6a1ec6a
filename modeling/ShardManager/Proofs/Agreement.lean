import ShardManager.Proofs.Counter

/-! Two propagations that begin alike on nodes closed downwards end alike on them:
neither the order of the visits nor what is beside those nodes is read. -/

namespace ShardManager

/-- The same moves, in containers that may be traversed in different orders. -/
structure SameMoves (first second : MovementMap) : Prop where
  next : ∀ shardId, first.getNextBin shardId = second.getNextBin shardId
  incoming : ∀ binId, (first.getIncomingShards binId).keys.Perm (second.getIncomingShards binId).keys

theorem SameMoves.refl (moves : MovementMap) : SameMoves moves moves := ⟨fun _ => rfl, fun _ => .refl _⟩

theorem UnorderedMap.keys_perm {K V : Type} [DecidableEq K] {first second : UnorderedMap K V}
    (same : ∀ key, first.lookup key = second.lookup key) : first.keys.Perm second.keys := by
  refine (List.perm_ext_iff_of_nodup (AList.keys_nodup first) (AList.keys_nodup second)).mpr fun key => ?_
  rw [mem_keys_iff, mem_keys_iff, same]

theorem SameMoves.moved {first second : MovementMap} (same : SameMoves first second) :
    first.getAllMovements.keys.Perm second.getAllMovements.keys :=
  UnorderedMap.keys_perm same.next

theorem nil_iff_of_perm {α : Type} {first second : List α} (perm : first.Perm second) : first = [] ↔ second = [] := by
  rw [← List.length_eq_zero_iff, perm.length_eq, List.length_eq_zero_iff]

section Maps
variable {movementMaps others : List MovementMap} (same : List.Forall₂ SameMoves movementMaps others)
include same

private theorem scanMaps_same (childId binId : DomainId) (isMoving : Bool) :
    scanMaps childId binId movementMaps isMoving = scanMaps childId binId others isMoving := by
  induction same generalizing isMoving with
  | nil => rfl
  | cons first _ ih =>
    rw [scanMaps, scanMaps, first.next]
    simp only [ih]

theorem counted_same (consistency : MovementConsistency) (childId binId : DomainId) :
    counted consistency movementMaps childId binId = counted consistency others childId binId := by
  rw [counted, scanMaps_same same]
  rfl

private theorem addedChild_same (state : SolvingState) (node : Node) (consistency : MovementConsistency) (child : DomainId) :
    addedChild state movementMaps node consistency child = addedChild state others node consistency child := by
  rw [addedChild, counted_same same]
  rfl

private theorem nextBins_same (shardId : DomainId) :
    (movementMaps.filterMap fun movementMap => movementMap.getNextBin shardId) =
      others.filterMap fun movementMap => movementMap.getNextBin shardId := by
  induction same with
  | nil => rfl
  | cons first _ ih => rw [List.filterMap_cons, List.filterMap_cons, first.next, ih]

theorem incoming_same (binId : DomainId) :
    (movementMaps.flatMap fun movementMap => (movementMap.getIncomingShards binId).keys).Perm
      (others.flatMap fun movementMap => (movementMap.getIncomingShards binId).keys) := by
  induction same with
  | nil => exact .refl _
  | cons first _ ih =>
    rw [List.flatMap_cons, List.flatMap_cons]
    exact (first.incoming binId).append ih

end Maps

/-- Nodes on which two trees of the same layers agree, with all that is below them. -/
structure AgreeOn (inside : Node → Prop) (level : Nat → Domain) (tree other : SparseMappingTree) : Prop where
  shardDomain : tree.shardDomain = other.shardDomain
  binDomain : tree.binDomain = other.binDomain
  leaf : ∀ shardId, inside (tree.shardDomain, shardId)
  lowest : ∀ binId shardId, inside (level 0, binId) →
    ((level 0, binId) ∈ tree.staticParents tree.shardDomain shardId ↔
      (level 0, binId) ∈ other.staticParents tree.shardDomain shardId)
  rows : ∀ binId, inside (level 0, binId) →
    ((tree.parentToChildMap.row (level 0) binId).isSome ↔ (other.parentToChildMap.row (level 0) binId).isSome)
  childDomain : ∀ index domainId, inside (level index, domainId) →
    tree.getChildDomain (level index) = other.getChildDomain (level index)
  parents : ∀ index domainId child, inside (level (index + 1), domainId) →
    ((level (index + 1), domainId) ∈ tree.staticParents (level index) child ↔
      (level (index + 1), domainId) ∈ other.staticParents (level index) child)
  below : ∀ index domainId child, inside (level (index + 1), domainId) →
    (level (index + 1), domainId) ∈ tree.staticParents (level index) child → inside (level index, child)

theorem AgreeOn.refl (level : Nat → Domain) (tree : SparseMappingTree) : AgreeOn (fun _ => True) level tree tree := by
  constructor <;> simp

/-- Readings that differ in the order of the changed children, and beside the given ones. -/
structure Reading.Alike (child : DomainId → Prop) (first second : Reading) : Prop where
  own : first.own = second.own
  view : ∀ domainId, child domainId → first.view domainId = second.view domainId
  committed : ∀ domainId, child domainId → first.committed domainId = second.committed domainId
  changedChildren : first.changedChildren.Perm second.changedChildren

section Agree
variable {σ : Type} {inside : Node → Prop} {level : Nat → Domain} {tree other : SparseMappingTree}
  {movementMaps others : List MovementMap}

/-- The values of the nodes are computed from what the trees agree on. -/
def Calculation.ReadsInside (calculation : Calculation σ) (inside : Node → Prop) (level : Nat → Domain)
    (tree other : SparseMappingTree) (movementMaps others : List MovementMap) : Prop :=
  ∀ index domainId (first second : Reading), inside (level index, domainId) →
    (∀ child ∈ first.changedChildren, inside (belowLevel tree level index, child)) →
    first.Alike (fun child => inside (belowLevel tree level index, child)) second →
      calculation.value tree movementMaps (level index, domainId) first =
        calculation.value other others (level index, domainId) second

/-- Two metrics maps show the same on the nodes, and have committed the same. -/
structure ShowsSame (inside : Node → Prop) (first second : MetricsMap) : Prop where
  get : ∀ node, inside node → first.get node = second.get node
  committed : ∀ node, inside node → first.getFromCommittedMap node = second.getFromCommittedMap node

private theorem AgreeOn.sameBelow (agree : AgreeOn inside level tree other) (index : Nat) :
    belowLevel tree level index = belowLevel other level index := by
  cases index with
  | zero => exact agree.shardDomain
  | succ index => rfl

section Settled
variable {calculation : Calculation σ} {start otherStart final otherFinal : MetricsMap}
  {changed otherChanged : Nat → DomainId → List DomainId}

/-- The layers agree one after another, from the bins up. -/
theorem Settled.agree (agree : AgreeOn inside level tree other)
    (reads : calculation.ReadsInside inside level tree other movementMaps others)
    (settled : Settled calculation tree movementMaps level start changed final)
    (otherSettled : Settled calculation other others level otherStart otherChanged otherFinal)
    (apart : ∀ index, level index ≠ tree.shardDomain) (begins : ShowsSame inside start otherStart)
    (entered : ∀ binId, inside (level 0, binId) → (changed 0 binId).Perm (otherChanged 0 binId)) (index : Nat) :
    ∀ domainId, inside (level index, domainId) →
      (changed index domainId).Perm (otherChanged index domainId) ∧
        final.get (level index, domainId) = otherFinal.get (level index, domainId) := by
  have value : ∀ index domainId, inside (level index, domainId) →
      (changed index domainId).Perm (otherChanged index domainId) →
      (∀ child ∈ changed index domainId, inside (belowLevel tree level index, child)) →
      (∀ child, inside (belowLevel tree level index, child) →
        final.get (belowLevel tree level index, child) = otherFinal.get (belowLevel tree level index, child)) →
      final.get (level index, domainId) = otherFinal.get (level index, domainId) := by
    intro index domainId within perm children below
    rw [settled.value, otherSettled.value, begins.get _ within]
    have idle := nil_iff_of_perm perm
    by_cases none : changed index domainId = []
    · rw [if_pos none, if_pos (idle.mp none)]
    · rw [if_neg none, if_neg fun other => none (idle.mpr other), ← agree.sameBelow]
      exact congrArg some (reads index domainId _ _ within children ⟨rfl, below, fun child isInside =>
        begins.committed _ isInside, perm⟩)
  induction index with
  | zero =>
    intro domainId within
    have perm := entered domainId within
    refine ⟨perm, value 0 domainId within perm (fun child _ => agree.leaf child) fun child isInside => ?_⟩
    rw [settled.outside (belowLevel tree level 0, child) fun index => (apart index).symm,
      otherSettled.outside (belowLevel tree level 0, child) fun index => (apart index).symm]
    exact begins.get _ isInside
  | succ index ih =>
    intro domainId within
    have perm : (changed (index + 1) domainId).Perm (otherChanged (index + 1) domainId) := by
      refine (List.perm_ext_iff_of_nodup (settled.distinct index domainId) (otherSettled.distinct index domainId)).mpr fun child => ?_
      rw [settled.mem, otherSettled.mem, ← agree.parents index domainId child within]
      refine and_congr_right fun parent => ?_
      have isInside := agree.below index domainId child within parent
      rw [(ih child isInside).2, begins.get _ isInside]
    refine ⟨perm, value (index + 1) domainId within perm (fun child member => ?_) fun child isInside => (ih child isInside).2⟩
    exact agree.below index domainId child within ((settled.mem index domainId child).mp member).1

private theorem Settled.agree_final (agree : AgreeOn inside level tree other)
    (reads : calculation.ReadsInside inside level tree other movementMaps others)
    (settled : Settled calculation tree movementMaps level start changed final)
    (otherSettled : Settled calculation other others level otherStart otherChanged otherFinal)
    (apart : ∀ index, level index ≠ tree.shardDomain) (begins : ShowsSame inside start otherStart)
    (entered : ∀ binId, inside (level 0, binId) → (changed 0 binId).Perm (otherChanged 0 binId)) :
    ShowsSame inside final otherFinal where
  get node within := by
    by_cases onLevel : ∃ index, node.1 = level index
    · obtain ⟨nodeDomain, domainId⟩ := node
      obtain ⟨index, rfl⟩ := onLevel
      exact (settled.agree agree reads otherSettled apart begins entered index domainId within).2
    · rw [settled.outside node (not_exists.mp onLevel), otherSettled.outside node (not_exists.mp onLevel)]
      exact begins.get node within
  committed node within := by
    change NestedMap.getPtr final.committedMap node = NestedMap.getPtr otherFinal.committedMap node
    rw [settled.committed, otherSettled.committed]
    exact begins.committed node within

end Settled

section Entered
variable (agree : AgreeOn inside level tree other) (bins : level 0 = tree.binDomain)
  (same : List.Forall₂ SameMoves movementMaps others)
include agree bins same

omit agree bins same in
private theorem count_movedBins (tree : SparseMappingTree) (nextBins : List DomainId) (binId : DomainId) :
    (nextBins.filterMap fun parentBin => if (tree.parentToChildMap.row tree.binDomain parentBin).isSome
      then some (tree.binDomain, parentBin) else none).count (tree.binDomain, binId) =
        if (tree.parentToChildMap.row tree.binDomain binId).isSome then nextBins.count binId else 0 := by
  induction nextBins with
  | nil => simp
  | cons bin nextBins ih =>
    by_cases here : bin = binId
    · subst here
      by_cases row : (tree.parentToChildMap.row tree.binDomain bin).isSome <;> simp_all
    · by_cases row : (tree.parentToChildMap.row tree.binDomain bin).isSome
      · rw [List.filterMap_cons_some (by rw [if_pos row]), List.count_cons_of_ne (by simpa using here), ih,
          List.count_cons_of_ne here]
      · rw [List.filterMap_cons_none (by rw [if_neg row]), ih, List.count_cons_of_ne here]

private theorem AgreeOn.parentNodes_count {binId : DomainId} (within : inside (level 0, binId)) (shardId : DomainId) :
    (tree.parentNodes tree.shardDomain shardId movementMaps).count (level 0, binId) =
      (other.parentNodes tree.shardDomain shardId others).count (level 0, binId) := by
  have static : (tree.staticParents tree.shardDomain shardId).count (level 0, binId) =
      (other.staticParents tree.shardDomain shardId).count (level 0, binId) := by
    rw [List.Nodup.count (tree.nodup_staticParents _ _), List.Nodup.count (other.nodup_staticParents _ _)]
    simp only [agree.lowest binId shardId within]
  rw [SparseMappingTree.parentNodes, SparseMappingTree.parentNodes, if_pos rfl, if_pos agree.shardDomain, List.count_append,
    List.count_append, static, SparseMappingTree.movedParents, SparseMappingTree.movedParents, nextBins_same same]
  have rows := agree.rows binId within
  rw [bins] at rows ⊢
  rw [count_movedBins, agree.binDomain, count_movedBins, ← agree.binDomain]
  simp only [rows]

end Entered

namespace ExpressionTree
variable (state : SolvingState)

theorem entered_perm (agree : AgreeOn inside level tree other) (bins : level 0 = tree.binDomain)
    (shards : tree.shardDomain = state.shardDomain) (same : List.Forall₂ SameMoves movementMaps others)
    {shardIds otherIds : List DomainId} (perm : shardIds.Perm otherIds) {binId : DomainId} (within : inside (level 0, binId)) :
    ((entered state tree movementMaps shardIds).changedChildren (level 0, binId)).Perm
      ((entered state other others otherIds).changedChildren (level 0, binId)) := by
  rw [changedChildren_entered, changedChildren_entered]
  refine (perm.flatMap_right _).trans (.of_eq ?_)
  congr 1
  funext shardId
  rw [← shards, agree.parentNodes_count bins same within]

/-- Propagations that begin alike end alike, also in what they write to their contexts. -/
theorem updated_agree (order otherOrder : HashOrder) {calculation : Calculation σ} {metricsMap otherMap : MetricsMap}
    (layered : Layered tree level) (otherLayered : Layered other level) (agree : AgreeOn inside level tree other)
    (shards : tree.shardDomain = state.shardDomain)
    (reads : calculation.ReadsInside inside level tree other movementMaps others) {shardIds otherIds : List DomainId}
    (entered : ∀ binId, inside (level 0, binId) → ((entered state tree movementMaps shardIds).changedChildren (level 0, binId)).Perm
      ((entered state other others otherIds).changedChildren (level 0, binId)))
    (begins : ShowsSame inside metricsMap otherMap) (context otherContext : σ) :
    ShowsSame inside ((ExpressionTree.mk tree metricsMap).updated state order calculation movementMaps shardIds context).1.metricsMap
      ((ExpressionTree.mk other otherMap).updated state otherOrder calculation others otherIds otherContext).1.metricsMap ∧
    ∀ (β : Type) (domain : Domain) (slot : Slot calculation domain β) (domainId : DomainId), (∃ index, level index = domain) →
      inside (domain, domainId) → slot.read context domainId = slot.read otherContext domainId →
      slot.read ((ExpressionTree.mk tree metricsMap).updated state order calculation movementMaps shardIds context).2 domainId =
        slot.read ((ExpressionTree.mk other otherMap).updated state otherOrder calculation others otherIds otherContext).2
          domainId := by
  obtain ⟨changed, settled, lowest, slots⟩ := updated_settled state order calculation ⟨tree, metricsMap⟩ layered shards
    movementMaps shardIds context
  obtain ⟨otherChanged, otherSettled, otherLowest, otherSlots⟩ := updated_settled state otherOrder calculation ⟨other, otherMap⟩
    otherLayered (agree.shardDomain.symm.trans shards) others otherIds otherContext
  have begun : ∀ binId, inside (level 0, binId) → (changed 0 binId).Perm (otherChanged 0 binId) := by
    intro binId within
    rw [lowest, otherLowest]
    exact entered binId within
  have metrics := settled.agree_final agree reads otherSettled layered.shards begins begun
  refine ⟨metrics, ?_⟩
  rintro β _ slot domainId ⟨index, rfl⟩ within starts
  have idle := nil_iff_of_perm (settled.agree agree reads otherSettled layered.shards begins begun index domainId within).1
  rw [slots, otherSlots, metrics.get _ within, starts]
  simp only [idle]

end ExpressionTree

section Constraints
variable {state : SolvingState} (agree : AgreeOn inside level tree other) (same : List.Forall₂ SameMoves movementMaps others)
include agree same

theorem MetricConstraint.readsInside (consistency : MovementConsistency) (domain : Domain) (capacity faultWeight : Int) :
    (calculation state consistency domain capacity faultWeight).ReadsInside inside level tree other movementMaps others := by
  intro index domainId first second within children alike
  simp only [calculation, alike.own, ← agree.childDomain index domainId within, ← addedChild_same same]
  have terms : ∀ child ∈ first.changedChildren,
      childMetric state ((tree.getChildDomain (level index)).getD 0) first.view first.committed child =
        childMetric state ((tree.getChildDomain (level index)).getD 0) second.view second.committed child := by
    intro child member
    rw [childMetric, childMetric, alike.view child (children child member), alike.committed child (children child member)]
  rw [List.map_congr_left fun child member => by rw [terms child member]]
  exact congrArg (fun sum => toInt32 (_ + sum)) (alike.changedChildren.map _).sum_eq

omit agree in
theorem DrainConstraint.readsInside (consistency : MovementConsistency) (domain : Domain) (faultWeight : Int) :
    (calculation state consistency domain faultWeight).ReadsInside inside level tree other movementMaps others := by
  intro index domainId first second _ _ alike
  simp only [calculation, alike.own, ← addedChild_same same]
  exact congrArg (fun sum => toInt32 (_ + sum)) (alike.changedChildren.map _).sum_eq

end Constraints
end Agree

namespace Counter
variable {state : SolvingState} {inside : Node → Prop} {level : Nat → Domain}

/-- Counters of one kind of constraint, over trees that agree on some nodes. -/
structure Agree (state : SolvingState) (inside : Node → Prop) (level : Nat → Domain) (first second : Counter) : Prop where
  calculation : first.calculation = second.calculation
  domain : first.domain = second.domain
  layered : Layered first.part level
  otherLayered : Layered second.part level
  agree : AgreeOn inside level first.part second.part
  shards : first.part.shardDomain = state.shardDomain
  records : ∃ fault, RecordsValue first.calculation state first.domain fault
  onLevel : ∃ index, level index = first.domain
  reads : ∀ movementMaps others, List.Forall₂ SameMoves movementMaps others →
    first.calculation.ReadsInside inside level first.part second.part movementMaps others

theorem Agree.sameKind {first second counter other : Counter} (agree : Agree state inside level first second)
    (same : SameKind first counter) (otherSame : SameKind second other) : Agree state inside level counter other := by
  obtain ⟨part, calculation, domain, _⟩ := same
  obtain ⟨otherPart, otherCalculation, otherDomain, _⟩ := otherSame
  constructor
  all_goals simp only [part, calculation, domain, otherPart, otherCalculation, otherDomain]
  exacts [agree.calculation, agree.domain, agree.layered, agree.otherLayered, agree.agree, agree.shards, agree.records,
    agree.onLevel, agree.reads]

/-- What two counters have committed agrees on the nodes. -/
structure CommitsSame (inside : Node → Prop) (first second : Counter) : Prop where
  metrics : ∀ node, inside node → first.metric node = second.metric node
  faults : ∀ domainId, inside (first.domain, domainId) → first.faults domainId = second.faults domainId

/-- The bins they agree on are entered with the same shards. -/
def SameEntered (state : SolvingState) (inside : Node → Prop) (level : Nat → Domain) (first second : Counter)
    (movementMaps others : List MovementMap) (shardIds otherIds : List DomainId) : Prop :=
  ∀ binId, inside (level 0, binId) →
    ((ExpressionTree.entered state first.part movementMaps shardIds).changedChildren (level 0, binId)).Perm
      ((ExpressionTree.entered state second.part others otherIds).changedChildren (level 0, binId))

theorem Agree.sameEntered {first second : Counter} (agree : Agree state inside level first second)
    {movementMaps others : List MovementMap} (same : List.Forall₂ SameMoves movementMaps others)
    {shardIds otherIds : List DomainId} (perm : shardIds.Perm otherIds) :
    SameEntered state inside level first second movementMaps others shardIds otherIds := fun _ within =>
  ExpressionTree.entered_perm state agree.agree agree.layered.bins agree.shards same perm within

/-- Counters that have committed the same show the same after the same moves. -/
theorem Agree.canaried {first second : Counter} (agree : Agree state inside level first second)
    (commitsSame : CommitsSame inside first second) (order otherOrder : HashOrder) {movementMaps others : List MovementMap}
    (same : List.Forall₂ SameMoves movementMaps others) {shardIds otherIds : List DomainId}
    (entered : SameEntered state inside level first second movementMaps others shardIds otherIds) (info otherInfo : BinWeightInfo) :
    CommitsSame inside (first.canaried order state movementMaps shardIds info).1.committed
      (second.canaried otherOrder state others otherIds otherInfo).1.committed := by
  have begins : ShowsSame inside first.expressionTree.metricsMap.clear second.expressionTree.metricsMap.clear := by
    refine ⟨fun node within => ?_, commitsSame.metrics⟩
    rw [CommittableMap.get_clear, CommittableMap.get_clear]
    exact commitsSame.metrics node within
  obtain ⟨metrics, slots⟩ := ExpressionTree.updated_agree state order otherOrder agree.layered agree.otherLayered agree.agree
    agree.shards (agree.reads movementMaps others same) entered begins (⟨first.domainFaultMap.clear, info⟩ : FaultRecord)
    ⟨second.domainFaultMap.clear, otherInfo⟩
  obtain ⟨fault, records⟩ := agree.records
  constructor
  · intro node within
    rw [metric_committed, metric_committed, Counter.canaried, Counter.canaried, ← agree.calculation]
    exact metrics.get node within
  · intro domainId within
    rw [faults_committed, faults_committed, Counter.canaried, Counter.canaried, ← agree.calculation]
    refine slots _ _ records.slot domainId agree.onLevel within ?_
    change first.domainFaultMap.clear.get domainId = second.domainFaultMap.clear.get domainId
    rw [CommittableMap.get_clear, CommittableMap.get_clear]
    exact commitsSame.faults domainId within

end Counter
end ShardManager

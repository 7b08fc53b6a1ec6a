import ShardManager.Proofs.Rounds
import ShardManager.Proofs.Hierarchy

/-! The values that an update gives to the nodes of a layered tree, told without its
rounds: a node is computed anew if a moved shard is under it or a child has another
value than before, from the values of its children. -/

namespace ShardManager
variable {σ : Type}

/-- The moved shards among the children of a node, each as often as the node is its parent. -/
def SparseMappingTree.movedUnder (tree : SparseMappingTree) (movementMaps : List MovementMap) (shards : List DomainId) (node : Node) :
    List DomainId :=
  shards.flatMap fun shard => List.replicate ((tree.parentNodes tree.shardDomain shard movementMaps).count node) shard

section Renewal
variable (calculation : Calculation σ) (tree : SparseMappingTree) (movementMaps : List MovementMap) (recorded : Node → Option Int)
  (shards : List DomainId)

/-- The new value of a node so many domains above the shards, and none if it keeps the
one recorded. -/
def renewal : Nat → Node → Option Int
  | 0, _ => none
  | height + 1, node =>
    let childDomain := (tree.getChildDomain node.1).getD 0
    let view := fun child => (renewal height (childDomain, child)).or (recorded (childDomain, child))
    let changedChildren := tree.movedUnder movementMaps shards node ++ (tree.getAllDomainIds childDomain).filter fun child =>
      node ∈ tree.staticParents childDomain child ∧ view child ≠ recorded (childDomain, child)
    if changedChildren = [] then none
    else some (calculation.value tree movementMaps node
      ⟨recorded node, view, fun child => recorded (childDomain, child), changedChildren⟩)

/-- The new value of a node; no more domains are below it than its number says. -/
def renewed (node : Node) : Option Int := renewal calculation tree movementMaps recorded shards (node.1 + 1) node

def newValue (node : Node) : Option Int := (renewed calculation tree movementMaps recorded shards node).or (recorded node)

end Renewal

/-- The order in which changed children are listed does not matter. -/
def Calculation.Unordered (calculation : Calculation σ) : Prop :=
  ∀ tree movementMaps node (reading : Reading) changedChildren, reading.changedChildren.Perm changedChildren →
    calculation.value tree movementMaps node reading = calculation.value tree movementMaps node { reading with changedChildren }

variable {calculation : Calculation σ} {tree : SparseMappingTree} {movementMaps : List MovementMap} {recorded : Node → Option Int}
  {shards : List DomainId}

theorem SparseMappingTree.Mapped.listed {node : Node} (mapped : tree.Mapped node) : node.2 ∈ tree.getAllDomainIds node.1 := by
  have isSome : (tree.parentToChildDomainMap.lookup node.1).isSome := mapped.1
  rw [getAllDomainIds, if_pos isSome, UnorderedMap.mem_keys_iff]
  obtain ⟨children, row⟩ := Option.isSome_iff_exists.mp mapped.2
  obtain ⟨rows, found, inRows⟩ := Option.bind_eq_some_iff.mp row
  exact ⟨children, by rw [found]; exact inRows⟩

theorem renewal_unchanged {height : Nat} {node : Node} (unmoved : tree.movedUnder movementMaps shards node = [])
    (below : ∀ childDomain child, node ∈ tree.staticParents childDomain child →
      (renewal calculation tree movementMaps recorded shards height (childDomain, child)).or (recorded (childDomain, child)) =
        recorded (childDomain, child)) :
    renewal calculation tree movementMaps recorded shards (height + 1) node = none := by
  rw [renewal, if_pos]
  rw [unmoved, List.nil_append, List.filter_eq_nil_iff]
  rintro child _ changed
  obtain ⟨parent, different⟩ := of_decide_eq_true changed
  exact different (below _ child parent)

theorem renewal_changed (unordered : calculation.Unordered) {height : Nat} {node : Node} {childDomain : Domain}
    (found : tree.getChildDomain node.1 = some childDomain) {view : DomainId → Option Int}
    (views : ∀ child, (renewal calculation tree movementMaps recorded shards height (childDomain, child)).or
      (recorded (childDomain, child)) = view child) {changedChildren : List DomainId} (nonempty : changedChildren ≠ [])
    (same : changedChildren.Perm (tree.movedUnder movementMaps shards node ++ (tree.getAllDomainIds childDomain).filter fun child =>
      node ∈ tree.staticParents childDomain child ∧ view child ≠ recorded (childDomain, child))) :
    renewal calculation tree movementMaps recorded shards (height + 1) node = some (calculation.value tree movementMaps node
      ⟨recorded node, view, fun child => recorded (childDomain, child), changedChildren⟩) := by
  rw [renewal, found, Option.getD_some]
  simp only [views]
  rw [if_neg]
  · exact congrArg some (unordered _ _ _ ⟨recorded node, view, fun child => recorded (childDomain, child), _⟩ _ same.symm)
  · intro none
    rw [none] at same
    exact nonempty (List.perm_nil.mp same)

theorem renewal_idle (unmoved : ∀ node, tree.movedUnder movementMaps shards node = []) (height : Nat) (node : Node) :
    renewal calculation tree movementMaps recorded shards height node = none := by
  induction height generalizing node with
  | zero => rfl
  | succ height ih => exact renewal_unchanged (unmoved node) fun childDomain child _ => by rw [ih, Option.none_or]

section Layered
variable {level : Nat → Domain} (layered : Layered tree level)
  (moved : ∀ node, tree.movedUnder movementMaps shards node ≠ [] → node.1 = level 0 ∧ tree.Mapped node)
include layered moved

theorem renewal_outside (height : Nat) (node : Node) (outside : ∀ index, node.1 ≠ level index) :
    renewal calculation tree movementMaps recorded shards height node = none := by
  induction height generalizing node with
  | zero => rfl
  | succ height ih =>
    refine renewal_unchanged ?_ fun childDomain child parent => ?_
    · by_contra some
      exact outside 0 (moved node some).1
    · rw [ih _ fun index same => ?_, Option.none_or]
      obtain rfl : childDomain = level index := same
      exact outside (index + 1) (layered.above index child node parent)

variable {start final : MetricsMap} {changed : Nat → DomainId → List DomainId}
  (settled : Settled calculation tree movementMaps level start changed final)
  (entered : ∀ domainId, (changed 0 domainId).Perm (tree.movedUnder movementMaps shards (level 0, domainId)))
  (unordered : calculation.Unordered) (before : ∀ node, start.get node = recorded node)
  (committed : ∀ node, start.getFromCommittedMap node = recorded node)
include settled entered unordered before committed

omit unordered before committed in
private theorem changed_mapped {index : Nat} {domainId : DomainId} (occupied : changed index domainId ≠ []) :
    tree.Mapped (level index, domainId) ∧ tree.getChildDomain (level index) = some (belowLevel tree level index) := by
  cases index with
  | zero =>
    have listed : tree.movedUnder movementMaps shards (level 0, domainId) ≠ [] := by
      intro none
      have same := entered domainId
      rw [none] at same
      exact occupied (List.perm_nil.mp same)
    have mapped := (moved _ listed).2
    obtain ⟨childDomain, found⟩ := Option.isSome_iff_exists.mp mapped.1
    exact ⟨mapped, found.trans (congrArg some (layered.below childDomain found))⟩
  | succ index =>
    obtain ⟨child, member⟩ := List.exists_mem_of_ne_nil _ occupied
    obtain ⟨found, mapped⟩ := tree.mapped_of_mem_staticParents ((settled.mem index domainId child).mp member).1
    exact ⟨mapped, found⟩

/-- A node in a layer has the value of the update if its children changed. -/
private theorem renewal_settled (index height : Nat) (inside : index < height) (domainId : DomainId) :
    renewal calculation tree movementMaps recorded shards height (level index, domainId) =
      if changed index domainId = [] then none else final.get (level index, domainId) := by
  induction index generalizing height domainId with
  | zero =>
    obtain ⟨height, rfl⟩ := Nat.exists_eq_succ_of_ne_zero (Nat.ne_of_gt inside)
    have shard : ∀ child, (renewal calculation tree movementMaps recorded shards height (tree.shardDomain, child)).or
        (recorded (tree.shardDomain, child)) = recorded (tree.shardDomain, child) := by
      intro child
      rw [renewal_outside layered moved height (tree.shardDomain, child) fun index => (layered.shards index).symm, Option.none_or]
    split
    next idle =>
      refine renewal_unchanged ?_ fun childDomain child parent => ?_
      · exact List.nil_perm.mp (idle ▸ entered domainId)
      · obtain rfl := layered.below childDomain (tree.mapped_of_mem_staticParents parent).1
        exact shard child
    next occupied =>
      obtain ⟨_, found⟩ := changed_mapped layered moved settled entered occupied
      rw [settled.value, if_neg occupied, renewal_changed unordered found shard occupied]
      · have kept : ∀ child, final.get (tree.shardDomain, child) = recorded (tree.shardDomain, child) := fun child =>
          (settled.outside (tree.shardDomain, child) fun index => (layered.shards index).symm).trans (before _)
        simp only [before, committed, kept, belowLevel]
      · rw [List.filter_eq_nil_iff.mpr, List.append_nil]
        · exact entered domainId
        · simp
  | succ index ih =>
    obtain ⟨height, rfl⟩ := Nat.exists_eq_succ_of_ne_zero (Nat.ne_of_gt (Nat.zero_lt_of_lt inside))
    have view : ∀ child, (renewal calculation tree movementMaps recorded shards height (level index, child)).or
        (recorded (level index, child)) = final.get (level index, child) := by
      intro child
      rw [ih height (Nat.lt_of_succ_lt_succ inside) child, settled.value index child]
      split
      · rw [Option.none_or, before]
      · rfl
    have unmoved : tree.movedUnder movementMaps shards (level (index + 1), domainId) = [] := by
      by_contra some
      exact absurd (layered.injective (moved _ some).1) (Nat.succ_ne_zero index)
    split
    next idle =>
      refine renewal_unchanged unmoved fun childDomain child parent => ?_
      by_cases inLayer : ∃ lower, childDomain = level lower
      · obtain ⟨lower, rfl⟩ := inLayer
        obtain rfl := Nat.succ.inj (layered.injective (layered.above lower child _ parent))
        rw [view, ← before]
        by_contra different
        have member := (settled.mem index domainId child).mpr ⟨parent, different⟩
        rw [idle] at member
        cases member
      · rw [renewal_outside layered moved height _ fun lower same => inLayer ⟨lower, same⟩, Option.none_or]
    next occupied =>
      obtain ⟨_, found⟩ := changed_mapped layered moved settled entered occupied
      rw [settled.value, if_neg occupied, renewal_changed unordered found view occupied]
      · simp only [before, committed, belowLevel]
      · rw [unmoved, List.nil_append,
          List.perm_ext_iff_of_nodup (settled.distinct index domainId) ((tree.nodup_getAllDomainIds _).filter _)]
        intro child
        rw [settled.mem, List.mem_filter, decide_eq_true_eq, ← before]
        refine ⟨fun changes => ⟨?_, changes⟩, And.right⟩
        have visited : changed index child ≠ [] := by
          intro none
          rw [settled.value index child, if_pos none] at changes
          exact changes.2 rfl
        exact (changed_mapped layered moved settled entered visited).1.listed

end Layered

theorem movedUnder_entered {state : SolvingState} (sameShards : tree.shardDomain = state.shardDomain) {shardIds : List DomainId}
    (same : shardIds.Perm shards) (node : Node) :
    ((ExpressionTree.entered state tree movementMaps shardIds).changedChildren node).Perm
      (tree.movedUnder movementMaps shards node) := by
  rw [ExpressionTree.changedChildren_entered, ← sameShards]
  exact same.flatMap_right _

theorem movedUnder_lowest {state : SolvingState} {level : Nat → Domain} (layered : Layered tree level)
    (sameShards : tree.shardDomain = state.shardDomain) {node : Node} (moved : tree.movedUnder movementMaps shards node ≠ []) :
    node.1 = level 0 ∧ tree.Mapped node := by
  refine ExpressionTree.enters_entered state layered sameShards movementMaps shards node ?_
  rw [ExpressionTree.proper_entered state tree movementMaps shards node]
  intro none
  have same : ((ExpressionTree.entered state tree movementMaps shards).changedChildren node).Perm
      (tree.movedUnder movementMaps shards node) := movedUnder_entered sameShards (List.Perm.refl shards) node
  rw [none] at same
  exact moved (List.nil_perm.mp same)

variable (movementMaps) in
/-- An update of a layered tree gives every node its new value, and writes of those that
were computed anew what their values say. -/
theorem ExpressionTree.updated_renewed {state : SolvingState} (order : HashOrder) (unordered : calculation.Unordered)
    (tree : ExpressionTree) {level : Nat → Domain} (layered : Layered tree.assignmentTree level)
    (climbs : ∀ index, index ≤ level index) (sameShards : tree.assignmentTree.shardDomain = state.shardDomain)
    (before : ∀ node, tree.metricsMap.get node = recorded node)
    (committed : ∀ node, tree.metricsMap.getFromCommittedMap node = recorded node) {shardIds : List DomainId}
    (same : shardIds.Perm shards) (context : σ) :
    (∀ node, (tree.updated state order calculation movementMaps shardIds context).1.metricsMap.get node =
      newValue calculation tree.assignmentTree movementMaps recorded shards node) ∧
    ∀ (β : Type) (domain : Domain) (slot : Slot calculation domain β) (domainId : DomainId), (∃ index, level index = domain) →
      slot.read (tree.updated state order calculation movementMaps shardIds context).2 domainId =
        ((renewed calculation tree.assignmentTree movementMaps recorded shards (domain, domainId)).map slot.written).getD
          (slot.read context domainId) := by
  obtain ⟨changed, settled, lowest, slots⟩ :=
    updated_settled state order calculation tree layered sameShards movementMaps shardIds context
  have moved : ∀ node, tree.assignmentTree.movedUnder movementMaps shards node ≠ [] →
      node.1 = level 0 ∧ tree.assignmentTree.Mapped node := fun node => movedUnder_lowest layered sameShards
  have entered : ∀ domainId, (changed 0 domainId).Perm
      (tree.assignmentTree.movedUnder movementMaps shards (level 0, domainId)) := by
    intro domainId
    rw [lowest]
    exact movedUnder_entered sameShards same (level 0, domainId)
  have anew : ∀ index domainId,
      renewed calculation tree.assignmentTree movementMaps recorded shards (level index, domainId) =
        if changed index domainId = [] then none else
          (tree.updated state order calculation movementMaps shardIds context).1.metricsMap.get (level index, domainId) :=
    fun index domainId => renewal_settled layered moved settled entered unordered before committed index _
      (Nat.lt_succ_of_le (climbs index)) domainId
  refine ⟨fun node => ?_, ?_⟩
  · by_cases inLayer : ∃ index, node.1 = level index
    · obtain ⟨index, same⟩ := inLayer
      obtain ⟨domain, domainId⟩ := node
      obtain rfl : domain = level index := same
      rw [newValue, anew, settled.value]
      split
      · rw [Option.none_or, before]
      · rfl
    · have outside : ∀ index, node.1 ≠ level index := fun index same => inLayer ⟨index, same⟩
      rw [newValue, renewed, renewal_outside layered moved _ node outside, Option.none_or, settled.outside node outside, before]
  · rintro β _ slot domainId ⟨index, rfl⟩
    rw [slots β index slot domainId, anew]
    split
    · rfl
    next occupied =>
      rw [settled.value, if_neg occupied]
      rfl

end ShardManager

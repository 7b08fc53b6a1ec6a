import ShardManager.Proofs.Propagation
import Mathlib.Logic.Function.Iterate
import Mathlib.Data.List.Perm.Subperm

/-! Propagation in a layered tree: each round visits one layer, reads the layer
below as the rounds before left it, and enters the parents of what changed. -/

namespace ShardManager
variable {σ : Type} (order : HashOrder) (calculation : Calculation σ) (tree : SparseMappingTree)
  (movementMaps : List MovementMap)

def nextRound (round : Propagation σ) : Propagation σ :=
  visitRound order calculation tree movementMaps round.nextToUpdate round.metricsMap round.context

def roundAt (start : Propagation σ) (index : Nat) : Propagation σ :=
  (nextRound order calculation tree movementMaps)^[index] start

def visitValue (round : Propagation σ) (node : Node) : Int :=
  calculation.value tree movementMaps node
    (round.metricsMap.reading ((tree.getChildDomain node.1).getD 0) (round.nextToUpdate.changedChildren node) node)

/-- What holds while a round has handled some of its nodes. -/
structure Visited (start : Propagation σ) (handled : List Node) (round : Propagation σ) : Prop where
  committed : round.metricsMap.committedMap = start.metricsMap.committedMap
  get : ∀ node, round.metricsMap.get node =
    if node ∈ handled then some (visitValue calculation tree movementMaps start node) else start.metricsMap.get node
  changed : ∀ parent, round.nextToUpdate.changedChildren parent =
    (handled.filter fun node => decide (start.metricsMap.get node ≠ some (visitValue calculation tree movementMaps start node))).flatMap
      fun node => List.replicate ((tree.parentNodes node.1 node.2 movementMaps).count parent) node.2
  keys : ∀ parent, parent ∈ round.nextToUpdate.keys ↔ ∃ node ∈ handled,
    start.metricsMap.get node ≠ some (visitValue calculation tree movementMaps start node) ∧
      parent ∈ tree.parentNodes node.1 node.2 movementMaps
  context : round.context = handled.foldl
    (fun context node => calculation.effect node (visitValue calculation tree movementMaps start node) context) start.context

variable {order calculation tree movementMaps}

private theorem visited_step {start : Propagation σ} {level : Domain}
    (apart : (tree.getChildDomain level).getD 0 ≠ level) {handled : List Node} (sameLevel : ∀ node ∈ handled, node.1 = level)
    {node : Node} (here : node.1 = level) (fresh : node ∉ handled) {round : Propagation σ}
    (visited : Visited calculation tree movementMaps start handled round) :
    Visited calculation tree movementMaps start (handled ++ [node])
      (visitNode calculation tree movementMaps start.nextToUpdate round node) := by
  have own : round.metricsMap.get node = start.metricsMap.get node := by rw [visited.get, if_neg fresh]
  have below : ∀ child, round.metricsMap.get ((tree.getChildDomain node.1).getD 0, child) =
      start.metricsMap.get ((tree.getChildDomain node.1).getD 0, child) := by
    intro child
    rw [visited.get, if_neg]
    intro member
    exact apart (here ▸ sameLevel _ member)
  have value : calculation.value tree movementMaps node (round.metricsMap.reading ((tree.getChildDomain node.1).getD 0)
      (start.nextToUpdate.changedChildren node) node) = visitValue calculation tree movementMaps start node := by
    simp only [visitValue, MetricsMap.reading, own, below, CommittableMap.getFromCommittedMap, visited.committed]
  unfold visitNode
  simp only [value, own]
  split
  next same =>
    refine ⟨visited.committed, ?_, ?_, ?_, ?_⟩
    · intro other
      rw [visited.get]
      by_cases isNode : other = node
      · subst isNode
        simp [fresh, same]
      · simp [isNode]
    · intro parent
      simp [visited.changed, same]
    · intro parent
      simp only [visited.keys, List.mem_append, List.mem_singleton]
      constructor
      · rintro ⟨other, member, changed⟩
        exact ⟨other, .inl member, changed⟩
      · rintro ⟨other, member | rfl, different, parents⟩
        · exact ⟨other, member, different, parents⟩
        · exact absurd same different
    · simp [visited.context]
  next different =>
    refine ⟨visited.committed, ?_, ?_, ?_, ?_⟩
    · intro other
      rw [CommittableMap.get_set_canary, visited.get]
      by_cases isNode : other = node
      · simp [isNode]
      · simp [isNode]
    · intro parent
      rw [UpdateMap.changedChildren_pushAll, visited.changed]
      simp [different]
    · intro parent
      simp only [UpdateMap.mem_keys_pushAll, visited.keys, List.mem_append, List.mem_singleton]
      constructor
      · rintro (new | ⟨other, member, changed⟩)
        · exact ⟨node, .inr rfl, different, new⟩
        · exact ⟨other, .inl member, changed⟩
      · rintro ⟨other, member | rfl, changed, parents⟩
        · exact .inr ⟨other, member, changed, parents⟩
        · exact .inl parents
    · simp [visited.context]

private theorem nextRound_visited (start : Propagation σ) (level : Domain)
    (sameLevel : ∀ node ∈ start.nextToUpdate.keys, node.1 = level ∧ (tree.getChildDomain level).getD 0 ≠ level) :
    Visited calculation tree movementMaps start (order.nodes start.nextToUpdate.keys)
      (nextRound order calculation tree movementMaps start) := by
  have perm := order.nodes_perm start.nextToUpdate.keys
  have distinct : (order.nodes start.nextToUpdate.keys).Nodup := perm.nodup_iff.mpr (AList.keys_nodup _)
  refine Checked.foldl_invariant (Visited calculation tree movementMaps start) ?_ ⟨rfl, by simp, by simp, by simp, rfl⟩
  intro handled node rest split round visited
  rw [split] at distinct
  have onLevel : ∀ other ∈ handled ++ node :: rest, other.1 = level ∧ (tree.getChildDomain level).getD 0 ≠ level :=
    fun other member => sameLevel other (perm.mem_iff.mp (split ▸ member))
  refine visited_step (onLevel node (by simp)).2 (fun other member => (onLevel other (by simp [member])).1)
    (onLevel node (by simp)).1 ?_ visited
  intro early
  exact (List.nodup_append.mp distinct).2.2 node early node (by simp) rfl

/-- The tree has its nodes in layers: parents are one layer up, and the parents of
shards are in the lowest layer, that of the bins. -/
structure Layered (tree : SparseMappingTree) (level : Nat → Domain) : Prop where
  injective : Function.Injective level
  shards : ∀ index, level index ≠ tree.shardDomain
  bins : level 0 = tree.binDomain
  lowest : ∀ shardId, ∀ parent ∈ tree.staticParents tree.shardDomain shardId, parent.1 = level 0
  above : ∀ index domainId, ∀ parent ∈ tree.staticParents (level index) domainId, parent.1 = level (index + 1)
  below : ∀ domain, tree.getChildDomain (level 0) = some domain → domain = tree.shardDomain

def belowLevel (tree : SparseMappingTree) (level : Nat → Domain) : Nat → Domain
  | 0 => tree.shardDomain
  | index + 1 => level index

private theorem Layered.belowLevel_ne {level : Nat → Domain} (layered : Layered tree level) (index : Nat) :
    belowLevel tree level index ≠ level index := by
  cases index with
  | zero => exact (layered.shards 0).symm
  | succ index =>
    intro same
    have := layered.injective same
    omega

/-- A part of the context that every evaluated node of one domain writes at its own id. -/
structure Slot (calculation : Calculation σ) (domain : Domain) (β : Type) where
  read : σ → DomainId → β
  written : Int → β
  read_effect : ∀ node val context domainId, read (calculation.effect node val context) domainId =
    if node = (domain, domainId) then written val else read context domainId

private theorem Slot.read_foldl {domain : Domain} {β : Type} (slot : Slot calculation domain β) (value : Node → Int)
    (nodes : List Node) (context : σ) (domainId : DomainId) :
    slot.read (nodes.foldl (fun context node => calculation.effect node (value node) context) context) domainId =
      if (domain, domainId) ∈ nodes then slot.written (value (domain, domainId)) else slot.read context domainId := by
  induction nodes generalizing context with
  | nil => simp
  | cons node nodes ih =>
    rw [List.foldl_cons, ih, slot.read_effect]
    by_cases later : (domain, domainId) ∈ nodes
    · simp [later]
    · by_cases here : node = (domain, domainId)
      · simp [later, here]
      · simp [later, here, Ne.symm here]

/-- What a propagation leaves: a node whose children changed has the value computed
from the layer below, any other node the value it had. -/
structure Settled (calculation : Calculation σ) (tree : SparseMappingTree) (movementMaps : List MovementMap)
    (level : Nat → Domain) (start : MetricsMap) (changed : Nat → DomainId → List DomainId) (final : MetricsMap) : Prop where
  committed : final.committedMap = start.committedMap
  outside : ∀ node, (∀ index, node.1 ≠ level index) → final.get node = start.get node
  value : ∀ index domainId, final.get (level index, domainId) =
    if changed index domainId = [] then start.get (level index, domainId)
    else some (calculation.value tree movementMaps (level index, domainId)
      ⟨start.get (level index, domainId), fun child => final.get (belowLevel tree level index, child),
        fun child => start.getFromCommittedMap (belowLevel tree level index, child), changed index domainId⟩)
  distinct : ∀ index domainId, (changed (index + 1) domainId).Nodup
  mem : ∀ index domainId child, child ∈ changed (index + 1) domainId ↔
    (level (index + 1), domainId) ∈ tree.staticParents (level index) child ∧
      final.get (level index, child) ≠ start.get (level index, child)

def EntersLowest (tree : SparseMappingTree) (level : Nat → Domain) (toUpdate : UpdateMap) : Prop :=
  ∀ node ∈ toUpdate.keys, node.1 = level 0 ∧ tree.Mapped node

def changedAt (level : Nat → Domain) (run : Nat → Propagation σ) (index : Nat) (domainId : DomainId) : List DomainId :=
  (run index).nextToUpdate.changedChildren (level index, domainId)

section Run
variable {level : Nat → Domain} (layered : Layered tree level) {run : Nat → Propagation σ}
  (rounds : ∀ index, run (index + 1) = nextRound order calculation tree movementMaps (run index))
  (enters : EntersLowest tree level (run 0).nextToUpdate)
include layered rounds enters

/-- The round with a given index visits nodes of the layer with that index. -/
private theorem run_keys (index : Nat) : ∀ node ∈ (run index).nextToUpdate.keys,
    node.1 = level index ∧ tree.Mapped node ∧ tree.getChildDomain node.1 = some (belowLevel tree level index) := by
  induction index with
  | zero =>
    intro node member
    obtain ⟨onLevel, mapped⟩ := enters node member
    obtain ⟨domain, found⟩ := Option.isSome_iff_exists.mp mapped.1
    refine ⟨onLevel, mapped, found.trans ?_⟩
    rw [layered.below domain (onLevel ▸ found)]
    rfl
  | succ index ih =>
    intro parent member
    have visited : Visited calculation tree movementMaps (run index) (order.nodes (run index).nextToUpdate.keys)
        (run (index + 1)) := by
      rw [rounds]
      refine nextRound_visited (run index) (level index) fun node member => ?_
      obtain ⟨onLevel, _, found⟩ := ih node member
      refine ⟨onLevel, ?_⟩
      rw [← onLevel, found, Option.getD_some, onLevel]
      exact layered.belowLevel_ne index
    obtain ⟨node, handled, _, parents⟩ := (visited.keys parent).mp member
    have onLevel := (ih node ((order.nodes_perm _).mem_iff.mp handled)).1
    rw [SparseMappingTree.parentNodes, onLevel, if_neg (layered.shards index), List.append_nil] at parents
    obtain ⟨found, mapped⟩ := tree.mapped_of_mem_staticParents parents
    exact ⟨layered.above index _ parent parents, mapped, found⟩

private theorem run_visited (index : Nat) :
    Visited calculation tree movementMaps (run index) (order.nodes (run index).nextToUpdate.keys) (run (index + 1)) := by
  rw [rounds]
  refine nextRound_visited (run index) (level index) fun node member => ?_
  obtain ⟨onLevel, _, found⟩ := run_keys layered rounds enters index node member
  refine ⟨onLevel, ?_⟩
  rw [← onLevel, found, Option.getD_some, onLevel]
  exact layered.belowLevel_ne index

private theorem run_get_other (index : Nat) (node : Node) (other : node.1 ≠ level index) :
    (run (index + 1)).metricsMap.get node = (run index).metricsMap.get node := by
  rw [(run_visited layered rounds enters index).get, if_neg]
  intro member
  exact other (run_keys layered rounds enters index node ((order.nodes_perm _).mem_iff.mp member)).1

private theorem run_committed (index : Nat) : (run index).metricsMap.committedMap = (run 0).metricsMap.committedMap := by
  induction index with
  | zero => rfl
  | succ index ih => exact (run_visited layered rounds enters index).committed.trans ih

private theorem run_get_before (index : Nat) (node : Node) (apart : ∀ earlier, earlier < index → node.1 ≠ level earlier) :
    (run index).metricsMap.get node = (run 0).metricsMap.get node := by
  induction index with
  | zero => rfl
  | succ index ih =>
    rw [run_get_other layered rounds enters index node (apart index (Nat.lt_succ_self index))]
    exact ih fun earlier before => apart earlier (Nat.lt_succ_of_lt before)

private theorem run_get_after (index later : Nat) (after : index < later) (domainId : DomainId) :
    (run later).metricsMap.get (level index, domainId) = (run (index + 1)).metricsMap.get (level index, domainId) := by
  induction later with
  | zero => omega
  | succ later ih =>
    rcases Nat.lt_succ_iff_lt_or_eq.mp after with before | rfl
    · rw [run_get_other layered rounds enters later _ (layered.injective.ne (by omega)), ih before]
    · rfl

/-- The rounds end: each nonempty one uses up a domain that has children. -/
private theorem run_exhausted (index : Nat) (last : tree.maxDepth ≤ index) : (run index).nextToUpdate.keys = [] := by
  by_contra occupied
  have nonempty : ∀ earlier ≤ index, (run earlier).nextToUpdate.keys ≠ [] := by
    intro earlier before empty
    suffices later : ∀ steps, (run (earlier + steps)).nextToUpdate.keys = [] by
      exact occupied (by simpa [Nat.add_sub_cancel' before] using later (index - earlier))
    intro steps
    induction steps with
    | zero => exact empty
    | succ steps ih =>
      refine List.eq_nil_iff_forall_not_mem.mpr fun parent member => ?_
      obtain ⟨node, handled, _⟩ := ((run_visited layered rounds enters (earlier + steps)).keys parent).mp member
      have visited := (order.nodes_perm _).mem_iff.mp handled
      rw [ih] at visited
      cases visited
  have mapped : (List.range (index + 1)).map level ⊆ tree.parentToChildDomainMap.keys := by
    intro domain member
    obtain ⟨earlier, before, rfl⟩ := List.mem_map.mp member
    obtain ⟨node, visited⟩ := List.exists_mem_of_ne_nil _ (nonempty earlier (Nat.lt_succ_iff.mp (List.mem_range.mp before)))
    obtain ⟨onLevel, _, found⟩ := run_keys layered rounds enters earlier node visited
    rw [← onLevel]
    exact (UnorderedMap.mem_keys_iff _ _).mpr ⟨_, found⟩
  have distinct : ((List.range (index + 1)).map level).Nodup := List.nodup_range.map layered.injective
  have fits := (List.subperm_of_subset distinct mapped).length_le
  rw [List.length_map, List.length_range] at fits
  unfold SparseMappingTree.maxDepth at last
  omega

private theorem run_entered (proper : (run 0).nextToUpdate.Proper) (index : Nat) : (run index).nextToUpdate.Proper := by
  cases index with
  | zero => exact proper
  | succ index =>
    have visited := run_visited layered rounds enters index
    intro parent
    rw [visited.keys, visited.changed, ne_eq, List.flatMap_eq_nil_iff]
    push Not
    constructor
    · rintro ⟨node, handled, different, parents⟩
      refine ⟨node, List.mem_filter.mpr ⟨handled, by simpa using different⟩, ?_⟩
      simpa [List.replicate_eq_nil_iff, List.count_eq_zero] using parents
    · rintro ⟨node, member, entered⟩
      obtain ⟨handled, different⟩ := List.mem_filter.mp member
      refine ⟨node, handled, by simpa using different, ?_⟩
      simpa [List.replicate_eq_nil_iff, List.count_eq_zero] using entered

private theorem run_below (index : Nat) (inside : index < tree.maxDepth) (child : DomainId) :
    (run tree.maxDepth).metricsMap.get (belowLevel tree level index, child) =
      (run index).metricsMap.get (belowLevel tree level index, child) := by
  cases index with
  | zero =>
    exact run_get_before layered rounds enters tree.maxDepth _ fun earlier _ => (layered.shards earlier).symm
  | succ index => exact run_get_after layered rounds enters index tree.maxDepth (by omega) child

private theorem run_value (proper : (run 0).nextToUpdate.Proper) (index : Nat) (domainId : DomainId) :
    (run tree.maxDepth).metricsMap.get (level index, domainId) =
      if changedAt level run index domainId = [] then (run 0).metricsMap.get (level index, domainId)
      else some (visitValue calculation tree movementMaps (run index) (level index, domainId)) := by
  have before := run_get_before layered rounds enters index (level index, domainId) fun earlier less =>
    layered.injective.ne (by omega)
  have entered := run_entered layered rounds enters proper index (level index, domainId)
  by_cases inside : index < tree.maxDepth
  · rw [run_get_after layered rounds enters index tree.maxDepth inside domainId,
      (run_visited layered rounds enters index).get, before]
    simp only [(order.nodes_perm _).mem_iff, entered, changedAt]
    split <;> simp_all
  · have empty := run_exhausted layered rounds enters index (by omega)
    rw [empty] at entered
    have none : changedAt level run index domainId = [] := by
      by_contra some
      exact absurd (entered.mpr some) (by simp)
    rw [if_pos none]
    exact run_get_before layered rounds enters tree.maxDepth _ fun earlier less => layered.injective.ne (by omega)

private theorem run_changed (index : Nat) (domainId child : DomainId) :
    child ∈ changedAt level run (index + 1) domainId ↔
      (level index, child) ∈ (run index).nextToUpdate.keys ∧
      (run 0).metricsMap.get (level index, child) ≠
        some (visitValue calculation tree movementMaps (run index) (level index, child)) ∧
      (level (index + 1), domainId) ∈ tree.staticParents (level index) child := by
  rw [changedAt, (run_visited layered rounds enters index).changed, List.mem_flatMap]
  have parents : ∀ node ∈ (run index).nextToUpdate.keys,
      tree.parentNodes node.1 node.2 movementMaps = tree.staticParents (level index) node.2 ∧ node.1 = level index := by
    intro node member
    have onLevel := (run_keys layered rounds enters index node member).1
    rw [SparseMappingTree.parentNodes, onLevel, if_neg (layered.shards index), List.append_nil]
    exact ⟨rfl, rfl⟩
  have before : (run index).metricsMap.get (level index, child) = (run 0).metricsMap.get (level index, child) :=
    run_get_before layered rounds enters index _ fun earlier less => layered.injective.ne (by omega)
  constructor
  · rintro ⟨node, member, entered⟩
    obtain ⟨handled, different⟩ := List.mem_filter.mp member
    have visited := (order.nodes_perm _).mem_iff.mp handled
    obtain ⟨static, onLevel⟩ := parents node visited
    rw [List.mem_replicate, static] at entered
    obtain ⟨positive, rfl⟩ := entered
    have isNode : node = (level index, node.2) := Prod.ext onLevel rfl
    rw [← isNode] at before ⊢
    exact ⟨visited, by simpa [before] using different, List.count_pos_iff.mp (Nat.pos_of_ne_zero positive)⟩
  · rintro ⟨visited, different, parent⟩
    refine ⟨(level index, child), List.mem_filter.mpr ⟨(order.nodes_perm _).mem_iff.mpr visited, ?_⟩, ?_⟩
    · simpa [before] using different
    · rw [(parents _ visited).1, List.mem_replicate]
      exact ⟨(List.count_pos_iff.mpr parent).ne', rfl⟩

private theorem run_distinct (index : Nat) (domainId : DomainId) : (changedAt level run (index + 1) domainId).Nodup := by
  rw [changedAt, (run_visited layered rounds enters index).changed, List.nodup_flatMap]
  have onLevel : ∀ node ∈ order.nodes (run index).nextToUpdate.keys, node.1 = level index := fun node handled =>
    (run_keys layered rounds enters index node ((order.nodes_perm _).mem_iff.mp handled)).1
  constructor
  · intro node member
    have static := onLevel node (List.mem_filter.mp member).1
    rw [SparseMappingTree.parentNodes, static, if_neg (layered.shards index), List.append_nil, List.nodup_replicate]
    exact List.nodup_iff_count_le_one.mp (tree.nodup_staticParents _ _) _
  · have distinct : (order.nodes (run index).nextToUpdate.keys).Nodup :=
      (order.nodes_perm _).nodup_iff.mpr (AList.keys_nodup _)
    refine (List.Pairwise.and_mem.mp (distinct.filter _)).imp ?_
    rintro first second ⟨inFirst, inSecond, different⟩ child fromFirst fromSecond
    refine different (Prod.ext ?_ ?_)
    · rw [onLevel first (List.mem_filter.mp inFirst).1, onLevel second (List.mem_filter.mp inSecond).1]
    · exact (List.eq_of_mem_replicate fromFirst).symm.trans (List.eq_of_mem_replicate fromSecond)

private theorem run_settled (proper : (run 0).nextToUpdate.Proper) :
    Settled calculation tree movementMaps level (run 0).metricsMap (changedAt level run)
      (run tree.maxDepth).metricsMap where
  committed := run_committed layered rounds enters tree.maxDepth
  outside node apart := run_get_before layered rounds enters tree.maxDepth node fun earlier _ => apart earlier
  value index domainId := by
    rw [run_value layered rounds enters proper]
    split
    · rfl
    next occupied =>
      have visited := (run_entered layered rounds enters proper index (level index, domainId)).mpr occupied
      have inside : index < tree.maxDepth := by
        by_contra last
        rw [run_exhausted layered rounds enters index (by omega)] at visited
        cases visited
      have own := run_get_before layered rounds enters index (level index, domainId) fun earlier less =>
        layered.injective.ne (by omega)
      rw [visitValue, (run_keys layered rounds enters index _ visited).2.2, Option.getD_some]
      simp only [MetricsMap.reading, own, ← run_below layered rounds enters index inside, CommittableMap.getFromCommittedMap,
        run_committed layered rounds enters index]
      rfl
  distinct := run_distinct layered rounds enters
  mem index domainId child := by
    rw [run_changed layered rounds enters, run_value layered rounds enters proper,
      run_entered layered rounds enters proper index]
    change changedAt level run index child ≠ [] ∧ _ ↔ _
    by_cases idle : changedAt level run index child = []
    · simp [idle]
    · simp only [idle, if_false, ne_eq, not_false_eq_true, true_and]
      rw [and_comm, eq_comm]

private theorem run_slot (proper : (run 0).nextToUpdate.Proper) {β : Type} (index : Nat) (slot : Slot calculation (level index) β)
    (domainId : DomainId) :
    slot.read (run tree.maxDepth).context domainId =
      if changedAt level run index domainId = [] then slot.read (run 0).context domainId
      else slot.written (((run tree.maxDepth).metricsMap.get (level index, domainId)).getD 0) := by
  have rounds' : ∀ count, slot.read (run count).context domainId =
      if index < count ∧ changedAt level run index domainId ≠ []
        then slot.written (visitValue calculation tree movementMaps (run index) (level index, domainId))
        else slot.read (run 0).context domainId := by
    intro count
    induction count with
    | zero => simp
    | succ count ih =>
      rw [(run_visited layered rounds enters count).context, slot.read_foldl, ih]
      by_cases here : count = index
      · subst here
        have entered := run_entered layered rounds enters proper count (level count, domainId)
        simp only [(order.nodes_perm _).mem_iff, entered, changedAt]
        simp
      · have elsewhere : (level index, domainId) ∉ order.nodes (run count).nextToUpdate.keys := by
          intro handled
          have onLevel := (run_keys layered rounds enters count _ ((order.nodes_perm _).mem_iff.mp handled)).1
          exact here (layered.injective onLevel.symm)
        have bound : index < count + 1 ↔ index < count := by omega
        simp [elsewhere, bound]
  rw [rounds', run_value layered rounds enters proper]
  by_cases idle : changedAt level run index domainId = []
  · simp [idle]
  · have inside : index < tree.maxDepth := by
      by_contra last
      have visited := (run_entered layered rounds enters proper index (level index, domainId)).mpr idle
      rw [run_exhausted layered rounds enters index (by omega)] at visited
      cases visited
    simp [idle, inside]

end Run

/-- The rounds of a propagation are a run. -/
private theorem visitRounds_eq (rounds : Nat) (start : Propagation σ) :
    visitRounds order calculation tree movementMaps rounds start.nextToUpdate (start.metricsMap, start.context) =
      ((roundAt order calculation tree movementMaps start rounds).metricsMap,
        (roundAt order calculation tree movementMaps start rounds).context) := by
  have stopped : ∀ (count : Nat) (round : Propagation σ), round.nextToUpdate.keys = [] →
      (roundAt order calculation tree movementMaps round count).metricsMap = round.metricsMap ∧
      (roundAt order calculation tree movementMaps round count).context = round.context := by
    intro count
    induction count with
    | zero => exact fun _ _ => ⟨rfl, rfl⟩
    | succ count ih =>
      intro round empty
      have idle : nextRound order calculation tree movementMaps round = ⟨round.metricsMap, ∅, round.context⟩ := by
        rw [nextRound, visitRound, empty, List.perm_nil.mp (order.nodes_perm [])]
        rfl
      rw [roundAt, Function.iterate_succ_apply, idle]
      exact ih ⟨round.metricsMap, ∅, round.context⟩ rfl
  induction rounds generalizing start with
  | zero => rfl
  | succ rounds ih =>
    rw [visitRounds, roundAt, Function.iterate_succ_apply]
    change (if (nextRound order calculation tree movementMaps start).nextToUpdate.keys.isEmpty then _ else _) = _
    split
    next empty =>
      obtain ⟨metrics, context⟩ := stopped rounds (nextRound order calculation tree movementMaps start)
        (List.isEmpty_iff.mp empty)
      exact (Prod.ext metrics context).symm
    next => exact ih (nextRound order calculation tree movementMaps start)

namespace ExpressionTree
variable (state : SolvingState)

theorem proper_entered (tree : SparseMappingTree) (movementMaps : List MovementMap) (shardIds : List DomainId) :
    (entered state tree movementMaps shardIds).Proper := by
  refine Checked.foldl_invariant (fun _ (toUpdate : UpdateMap) => toUpdate.Proper) ?_ UpdateMap.proper_empty
  intro _ shardId _ _ toUpdate proper
  exact proper.pushAll _ shardId

theorem enters_entered {tree : SparseMappingTree} {level : Nat → Domain} (layered : Layered tree level)
    (sameShards : tree.shardDomain = state.shardDomain) (movementMaps : List MovementMap) (shardIds : List DomainId) :
    EntersLowest tree level (entered state tree movementMaps shardIds) := by
  intro node member
  refine ⟨?_, mapped_entered state tree movementMaps shardIds node member⟩
  rw [proper_entered state tree movementMaps shardIds node, changedChildren_entered, ne_eq, List.flatMap_eq_nil_iff] at member
  push Not at member
  obtain ⟨shardId, _, entered⟩ := member
  rw [ne_eq, List.replicate_eq_nil_iff, List.count_eq_zero, not_not, ← sameShards, SparseMappingTree.parentNodes,
    if_pos rfl, List.mem_append] at entered
  rcases entered with static | moved
  · exact layered.lowest shardId node static
  · obtain ⟨bin, _, chosen⟩ := List.mem_filterMap.mp moved
    split at chosen
    · cases chosen
      exact layered.bins.symm
    · cases chosen

theorem updated_settled (order : HashOrder) (calculation : Calculation σ) (tree : ExpressionTree) {level : Nat → Domain}
    (layered : Layered tree.assignmentTree level) (sameShards : tree.assignmentTree.shardDomain = state.shardDomain)
    (movementMaps : List MovementMap) (shardIds : List DomainId) (context : σ) :
    ∃ changed : Nat → DomainId → List DomainId,
      Settled calculation tree.assignmentTree movementMaps level tree.metricsMap changed
        (tree.updated state order calculation movementMaps shardIds context).1.metricsMap ∧
      (∀ domainId, changed 0 domainId =
        (entered state tree.assignmentTree movementMaps shardIds).changedChildren (level 0, domainId)) ∧
      ∀ (β : Type) (index : Nat) (slot : Slot calculation (level index) β) (domainId : DomainId),
        slot.read (tree.updated state order calculation movementMaps shardIds context).2 domainId =
          if changed index domainId = [] then slot.read context domainId
          else slot.written (((tree.updated state order calculation movementMaps shardIds context).1.metricsMap.get
            (level index, domainId)).getD 0) := by
  let start : Propagation σ :=
    ⟨tree.metricsMap, entered state tree.assignmentTree movementMaps shardIds, context⟩
  let run := roundAt order calculation tree.assignmentTree movementMaps start
  have rounds : ∀ index, run (index + 1) = nextRound order calculation tree.assignmentTree movementMaps (run index) :=
    fun index => Function.iterate_succ_apply' _ _ _
  have enters : EntersLowest tree.assignmentTree level (run 0).nextToUpdate :=
    enters_entered state layered sameShards movementMaps shardIds
  have proper : (run 0).nextToUpdate.Proper := proper_entered state tree.assignmentTree movementMaps shardIds
  have final : tree.updated state order calculation movementMaps shardIds context =
      ({ tree with metricsMap := (run tree.assignmentTree.maxDepth).metricsMap },
        (run tree.assignmentTree.maxDepth).context) := by
    rw [updated]
    exact congrArg (fun result : MetricsMap × σ => ({ tree with metricsMap := result.1 }, result.2))
      (visitRounds_eq tree.assignmentTree.maxDepth start)
  rw [final]
  exact ⟨changedAt level run, run_settled layered rounds enters proper, fun _ => rfl,
    fun _ index slot domainId => run_slot layered rounds enters proper index slot domainId⟩

end ExpressionTree
end ShardManager

import ShardManager.Proofs.LevelTree
import ShardManager.Proofs.Reassignment

/-! The values of a tree of loads. An update computes a bin from the shards that it has
afterwards, and a node above from those of its children that have a value. -/

namespace ShardManager
open SparseMappingTree IterativeLocalSearch

/-- A shard has been in the bin: from the start, or brought by a move. -/
def Hosts (state : SolvingState) (moves : MovementMap) (binId : DomainId) : Prop :=
  ∃ shard, Listed state shard binId ∨ moves.getNextBin shard = some binId

private theorem SolvingState.load_list {state : SolvingState} {moves : MovementMap} (weight : DomainId → Int) {binId : DomainId}
    {items : List DomainId} (distinct : items.Nodup)
    (members : ∀ shard, shard ∈ items ↔ shard ∈ state.shards ∧ state.nodeOver moves shard 1 = some binId) :
    (items.map weight).sum = state.load weight moves (1, binId) := by
  rw [← List.sum_toFinset weight distinct, load]
  refine Finset.sum_congr (Finset.ext fun shard => ?_) fun _ _ => rfl
  rw [List.mem_toFinset, Finset.mem_filter]
  exact members shard

private theorem SolvingState.load_unhosted {state : SolvingState} (hierarchical : state.Hierarchical) {moves : MovementMap}
    (weight : DomainId → Int) {binId : DomainId} (empty : ¬ Hosts state moves binId) : state.load weight moves (1, binId) = 0 := by
  refine Finset.sum_eq_zero fun shard member => absurd ⟨shard, ?_⟩ empty
  obtain moved | ⟨_, home⟩ := Option.or_eq_some_iff.mp (Finset.mem_filter.mp member).2
  · exact .inr moved
  · rw [hierarchical.parentOf_iff] at home
    exact .inl (by rw [Listed, hierarchical.binDomain]; exact home)

namespace LoadBalancingConstraint

/-- What the node over the bins is computed from the values of the bins that have one. -/
def extreme (cmp : Int → Int → Bool) : List Int → Option Int
  | [] => none
  | first :: rest => some (minElement cmp first rest)

theorem extreme_min (values : List Int) : extreme (fun a b => decide (a < b)) values = values.min? := by
  cases values with
  | nil => rfl
  | cons first rest =>
    rw [extreme, minElement, List.min?_cons', Option.some.injEq]
    congr
    funext best value
    simp only [decide_eq_true_eq]
    omega

theorem extreme_max (values : List Int) : extreme (fun a b => decide (a > b)) values = values.max? := by
  cases values with
  | nil => rfl
  | cons first rest =>
    rw [extreme, minElement, List.max?_cons', Option.some.injEq]
    congr
    funext best value
    simp only [decide_eq_true_eq]
    omega

/-- The bins with a value are those of the tree that a shard has been in, and the value
is the narrowed load. -/
def MeasuresBins (state : SolvingState) (metric : Metric) (tree : SparseMappingTree) (moves : MovementMap)
    (values : Node → Option Int) : Prop :=
  ∀ binId val, values (1, binId) = some val ↔ (tree.parentToChildMap.row 1 binId).isSome ∧ Hosts state moves binId ∧
    val = toInt32 (state.load (state.getShardMetric metric) moves (1, binId))

theorem MeasuresBins.value {state : SolvingState} {metric : Metric} {tree : SparseMappingTree} {moves : MovementMap}
    {values : Node → Option Int} (measures : MeasuresBins state metric tree moves values) (hierarchical : state.Hierarchical)
    {binId : DomainId} (row : (tree.parentToChildMap.row 1 binId).isSome)
    (fits : FitsInt32 (state.load (state.getShardMetric metric) moves (1, binId))) :
    (values (1, binId)).getD 0 = state.load (state.getShardMetric metric) moves (1, binId) := by
  by_cases hosts : Hosts state moves binId
  · rw [(measures binId _).mpr ⟨row, hosts, rfl⟩, Option.getD_some, toInt32_of_fits fits]
  · rw [SolvingState.load_unhosted hierarchical _ hosts]
    cases found : values (1, binId) with
    | none => rfl
    | some val => exact absurd ((measures binId val).mp found).2.1 hosts

section Settled
variable {state : SolvingState} {tree : SparseMappingTree} {domain : Domain} {metric : Metric} {level : Nat → Domain}
  {cmp : Int → Int → Bool} {movementMaps : List MovementMap} {start final : MetricsMap}
  {changed : Nat → DomainId → List DomainId}

private theorem settled_bin (bins : state.binDomain = 1) (lowest : level 0 = 1)
    (settled : Settled (calculation state domain metric cmp) tree movementMaps level start changed final) (binId : DomainId) :
    final.get (1, binId) = if changed 0 binId = [] then start.get (1, binId)
      else some (toInt32 (((tree.childNodes (1, binId) movementMaps).filter fun child => counted .after movementMaps child binId).map
        (state.getShardMetric metric)).sum) := by
  have value := settled.value 0 binId
  rw [calculation, bins, lowest] at value
  exact value

/-- An update keeps a node above bins at the extreme of the values of its children. -/
theorem settled_extreme (bins : state.binDomain = 1) (sameBins : tree.binDomain = 1)
    (settled : Settled (calculation state domain metric cmp) tree movementMaps level start changed final) (index : Nat)
    (domainId : DomainId) (above : level (index + 1) ≠ 1)
    (listed : ∀ child, (level (index + 1), domainId) ∈ tree.staticParents (level index) child ↔
      child ∈ tree.children (level (index + 1)) domainId)
    (before : start.get (level (index + 1), domainId) =
      extreme cmp ((tree.children (level (index + 1)) domainId).filterMap fun child => start.get (level index, child))) :
    final.get (level (index + 1), domainId) =
      extreme cmp ((tree.children (level (index + 1)) domainId).filterMap fun child => final.get (level index, child)) := by
  have value := settled.value (index + 1) domainId
  have changes : ∀ child, child ∈ changed (index + 1) domainId ↔
      child ∈ tree.children (level (index + 1)) domainId ∧ final.get (level index, child) ≠ start.get (level index, child) := by
    intro child
    rw [settled.mem index domainId child, listed]
  by_cases idle : changed (index + 1) domainId = []
  · rw [if_pos idle] at value
    have same : ∀ child ∈ tree.children (level (index + 1)) domainId,
        final.get (level index, child) = start.get (level index, child) := by
      intro child member
      by_contra different
      have entered := (changes child).mpr ⟨member, different⟩
      rw [idle] at entered
      cases entered
    rw [List.filterMap_congr same, ← before]
    exact value
  · rw [if_neg idle] at value
    obtain ⟨child, entered⟩ := List.exists_mem_of_ne_nil _ idle
    obtain ⟨member, different⟩ := (changes child).mp entered
    -- the child that changed has a value, so the list is not empty
    have some : (final.get (level index, child)).isSome := by
      have own := settled.value index child
      by_cases kept : changed index child = []
      · exact absurd (own.trans (if_pos kept)) different
      · rw [own, if_neg kept]
        rfl
    have children : tree.childNodes (level (index + 1), domainId) movementMaps = tree.children (level (index + 1)) domainId := by
      rw [childNodes, sameBins, if_neg above, List.nil_append]
    have computed : final.get (level (index + 1), domainId) =
        Option.some (match (tree.children (level (index + 1)) domainId).filterMap fun child => final.get (level index, child) with
          | [] => 0
          | first :: rest => minElement cmp first rest) := by
      rw [calculation] at value
      simp only [children, bins, if_neg above] at value
      exact value
    rw [computed]
    cases found : (tree.children (level (index + 1)) domainId).filterMap fun child => final.get (level index, child) with
    | nil =>
      have none := List.filterMap_eq_nil_iff.mp found child member
      rw [none] at some
      cases some
    | cons first rest => rfl

end Settled
section Bins
variable {state : SolvingState} {tree : SparseMappingTree} {domain : Domain} {metric : Metric} {level : Nat → Domain}
  {cmp : Int → Int → Bool} {moves : MovementMap} {shard nextBin : DomainId}

private theorem mem_considered (hierarchical : state.Hierarchical) (listsBins : ListsBins state tree)
    (valid : ValidReassignment state moves) (candidate : Candidate state moves shard nextBin) {binId : DomainId}
    (row : (tree.parentToChildMap.row 1 binId).isSome) :
    ((tree.childNodes (1, binId) [{}, moves, .addMovement {} shard nextBin]).filter fun child =>
      counted .after [{}, moves, .addMovement {} shard nextBin] child binId).Nodup ∧
    ∀ child, child ∈ ((tree.childNodes (1, binId) [{}, moves, .addMovement {} shard nextBin]).filter fun child =>
      counted .after [{}, moves, .addMovement {} shard nextBin] child binId) ↔ child ∈ state.shards ∧
        state.nodeOver (moves.addMovements (.addMovement {} shard nextBin)) child 1 = some binId := by
  have bins := hierarchical.binDomain
  have after := valid.add candidate
  have children : tree.children 1 binId = state.assignmentTree.children 1 binId := by
    rw [listsBins.lists, if_pos row]
  have present : ∀ child former, Listed state child former → child ∈ state.shards := by
    intro child former home
    rw [Listed, bins] at home
    exact SolvingState.mem_shards hierarchical home
  have unique : ∀ child first second, Listed state child first → Listed state child second → first = second := by
    intro child first second inFirst inSecond
    rw [Listed, bins] at inFirst inSecond
    have same : ((1, first) : Node) = (1, second) := hierarchical.hierarchy.unique rfl rfl inFirst inSecond
    exact congrArg Prod.snd same
  constructor
  · refine List.Nodup.filter _ (valid.nodup_childNodes candidate listsBins.bins ?_ fun child home => ?_)
    · rw [children]
      exact hierarchical.hierarchy.nodup 1 binId
    · rw [children] at home
      exact after.leaves_home unique (by rw [Listed, bins]; exact home)
  · intro child
    rw [List.mem_filter, valid.mem_childNodes candidate listsBins.bins, children, counted_after_iff, nextBins_candidate candidate.unmoved,
      SolvingState.nodeOver]
    cases moved : (moves.addMovements (.addMovement {} shard nextBin)).getNextBin child with
    | none =>
      rw [Option.none_or, hierarchical.parentOf_iff]
      have inside := present child binId
      rw [Listed, bins] at inside
      simpa using inside
    | some destination =>
      obtain ⟨former, home, _⟩ := after.moved child destination moved
      rw [Option.some_or, and_iff_right (present child former home), Option.toList_some, List.forall_mem_singleton, Option.some.injEq]
      exact ⟨And.right, fun here => ⟨.inr here, here⟩⟩

/-- An update leaves the narrowed load at the bins it enters, if what it reads are their shards. -/
private theorem measuresBins_of_settled (bins : state.binDomain = 1) (lowest : level 0 = 1) {movementMaps : List MovementMap}
    {start final : MetricsMap} {changed : Nat → DomainId → List DomainId}
    (settled : Settled (calculation state domain metric cmp) tree movementMaps level start changed final)
    (inside : ∀ binId, changed 0 binId ≠ [] → (tree.parentToChildMap.row 1 binId).isSome ∧ Hosts state moves binId)
    (computed : ∀ binId, changed 0 binId ≠ [] →
      ((tree.childNodes (1, binId) movementMaps).filter fun child => counted .after movementMaps child binId).Nodup ∧
      ∀ child, child ∈ ((tree.childNodes (1, binId) movementMaps).filter fun child => counted .after movementMaps child binId) ↔
        child ∈ state.shards ∧ state.nodeOver moves child 1 = some binId)
    (kept : ∀ binId, changed 0 binId = [] → ∀ val, start.get (1, binId) = some val ↔
      (tree.parentToChildMap.row 1 binId).isSome ∧ Hosts state moves binId ∧
        val = toInt32 (state.load (state.getShardMetric metric) moves (1, binId))) :
    MeasuresBins state metric tree moves final.get := by
  intro binId val
  rw [settled_bin bins lowest settled]
  by_cases idle : changed 0 binId = []
  · rw [if_pos idle]
    exact kept binId idle val
  · obtain ⟨distinct, members⟩ := computed binId idle
    obtain ⟨row, occupied⟩ := inside binId idle
    rw [if_neg idle, SolvingState.load_list _ distinct members, Option.some.injEq, eq_comm]
    simp only [row, occupied, true_and]

variable (order : HashOrder)

/-- The constructor measures the bins as they are. -/
theorem measuresBins_new (hierarchical : state.Hierarchical) (listsBins : ListsBins state tree) (layered : Layered tree level)
    {shardIds : List DomainId} (all : shardIds.Perm (tree.getAllDomainIds 0)) {final : MetricsMap}
    {changed : Nat → DomainId → List DomainId}
    (settled : Settled (calculation state domain metric cmp) tree [{}] level .empty changed final)
    (entered : ∀ binId, changed 0 binId = (ExpressionTree.entered state tree [{}] shardIds).changedChildren (level 0, binId)) :
    MeasuresBins state metric tree {} final.get := by
  have lowest : level 0 = 1 := layered.bins.trans listsBins.bins
  have lists : ∀ binId, changed 0 binId ≠ [] ↔ tree.children 1 binId ≠ [] := by
    intro binId
    rw [entered, lowest]
    exact entered_initial state listsBins.toGrounded hierarchical.shardDomain all binId
  have rows : ∀ binId, tree.children 1 binId ≠ [] → (tree.parentToChildMap.row 1 binId).isSome ∧
      tree.children 1 binId = state.assignmentTree.children 1 binId := by
    intro binId some
    have own := listsBins.lists binId
    split at own
    next row => exact ⟨row, own⟩
    next => exact absurd own some
  refine measuresBins_of_settled hierarchical.binDomain lowest settled ?_ ?_ ?_
  · intro binId occupied
    obtain ⟨row, same⟩ := rows binId ((lists binId).mp occupied)
    obtain ⟨shard, member⟩ := List.exists_mem_of_ne_nil _ ((lists binId).mp occupied)
    rw [same] at member
    exact ⟨row, shard, .inl (by rw [Listed, hierarchical.binDomain]; exact member)⟩
  · intro binId occupied
    obtain ⟨_, same⟩ := rows binId ((lists binId).mp occupied)
    have children : (tree.childNodes (1, binId) [{}]).filter (fun child => counted .after [{}] child binId) =
        state.assignmentTree.children 1 binId := by
      have own : tree.childNodes (1, binId) [{}] = state.assignmentTree.children 1 binId := by
        rw [childNodes, same]
        simp [MovementMap.getIncomingShards]
      rw [own, List.filter_eq_self]
      intro child _
      rfl
    rw [children]
    refine ⟨hierarchical.hierarchy.nodup 1 binId, fun shard => ?_⟩
    rw [SolvingState.nodeOver, MovementMap.next_empty, Option.none_or, hierarchical.parentOf_iff]
    exact ⟨fun member => ⟨SolvingState.mem_shards hierarchical member, member⟩, And.right⟩
  · intro binId idle val
    rw [CommittableMap.get_empty]
    refine iff_of_false (by simp) ?_
    rintro ⟨row, ⟨shard, listed | moved⟩, _⟩
    · have own := listsBins.lists binId
      rw [if_pos row] at own
      rw [Listed, hierarchical.binDomain, ← own] at listed
      exact (lists binId).mpr (List.ne_nil_of_mem listed) idle
    · rw [MovementMap.next_empty] at moved
      cases moved

theorem entered_rows (hierarchical : state.Hierarchical) (listsBins : ListsBins state tree)
    (candidate : Candidate state moves shard nextBin) (binId : DomainId) :
    (ExpressionTree.entered state tree [{}, moves, .addMovement {} shard nextBin] [shard]).changedChildren (1, binId) ≠ [] ↔
      (tree.parentToChildMap.row 1 binId).isSome ∧ (shard ∈ state.assignmentTree.children 1 binId ∨ nextBin = binId) := by
  rw [entered_moved state candidate.moved listsBins.toGrounded hierarchical.shardDomain, listsBins.lists]
  by_cases row : (tree.parentToChildMap.row 1 binId).isSome <;> simp [row]

/-- Committing a candidate measures the bins as they are then. -/
theorem measuresBins_candidate (hierarchical : state.Hierarchical) (listsBins : ListsBins state tree) (layered : Layered tree level)
    (valid : ValidReassignment state moves) (candidate : Candidate state moves shard nextBin) {start final : MetricsMap}
    (measures : MeasuresBins state metric tree moves start.get) {changed : Nat → DomainId → List DomainId}
    (settled : Settled (calculation state domain metric cmp) tree [{}, moves, .addMovement {} shard nextBin] level start changed final)
    (entered : ∀ binId, changed 0 binId = (ExpressionTree.entered state tree [{}, moves, .addMovement {} shard nextBin]
      [shard]).changedChildren (level 0, binId)) :
    MeasuresBins state metric tree (moves.addMovements (.addMovement {} shard nextBin)) final.get := by
  have bins := hierarchical.binDomain
  have lowest : level 0 = 1 := layered.bins.trans listsBins.bins
  have touched : ∀ binId, changed 0 binId ≠ [] ↔
      (tree.parentToChildMap.row 1 binId).isSome ∧ (shard ∈ state.assignmentTree.children 1 binId ∨ nextBin = binId) := by
    intro binId
    rw [entered, lowest]
    exact entered_rows hierarchical listsBins candidate binId
  have next : ∀ other binId, (moves.addMovements (.addMovement {} shard nextBin)).getNextBin other = some binId ↔
      other = shard ∧ nextBin = binId ∨ other ≠ shard ∧ moves.getNextBin other = some binId := by
    intro other binId
    by_cases same : other = shard <;> simp [same]
  refine measuresBins_of_settled bins lowest settled ?_ ?_ ?_
  · intro binId occupied
    obtain ⟨row, home | here⟩ := (touched binId).mp occupied
    · exact ⟨row, shard, .inl (by rw [Listed, bins]; exact home)⟩
    · exact ⟨row, shard, .inr ((next shard binId).mpr (.inl ⟨rfl, here⟩))⟩
  · intro binId occupied
    exact mem_considered hierarchical listsBins valid candidate ((touched binId).mp occupied).1
  · intro binId idle val
    rw [measures binId val]
    refine and_congr_right fun row => ?_
    have stays : shard ∉ state.assignmentTree.children 1 binId := fun home => (touched binId).mpr ⟨row, .inl home⟩ idle
    have away : nextBin ≠ binId := fun here => (touched binId).mpr ⟨row, .inr here⟩ idle
    have load := SolvingState.load_candidate (state.getShardMetric metric) hierarchical candidate binId
    rw [if_neg stays, if_neg away.symm, sub_zero, add_zero] at load
    rw [load]
    refine and_congr_left fun _ => exists_congr fun other => or_congr_right ?_
    rw [next]
    have unmoved := candidate.unmoved
    grind

end Bins

end LoadBalancingConstraint
end ShardManager

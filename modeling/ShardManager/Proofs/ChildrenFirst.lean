import ShardManager.Lib.Heights
import ShardManager.Lib.Performed
import ShardManager.Placer.ExpressionTree
import ShardManager.Proofs.PartialTree

/-! The order of evaluation in a propagation. A domain has one child domain, so all
paths up from the shards to it are equally long, and a round visits the nodes that are
as many levels up as there were rounds. -/

namespace ShardManager

/-- Propagations that note the nodes they evaluate, each with its round. They stop at a
fault, or without one where the rounds run out. -/
abbrev Evaluating (α : Type) := Traced (Option Fault) (Nat × Node) α

def Evaluating.checked {α : Type} (result : Except Fault α) : Evaluating α := Traced.lift (result.mapError some)

section Traced
variable {σ : Type} (order : HashOrder) (calcMetricFunc : CalcMetricFunc σ) (tree : SparseMappingTree)
  (movementMaps : List MovementMapPtr)

def tracedNode (index : Nat) (toUpdate : UpdateMap) (round : Propagation σ) (node : Node) : Evaluating (Propagation σ) := do
  let prevVal := round.metricsMap.get node
  Traced.tell (index, node)
  let (curVal, context) ← Evaluating.checked
    (calcMetricFunc tree movementMaps round.metricsMap (toUpdate.changedChildren node) node round.context)
  if prevVal = some curVal then pure { round with context }
  else
    let parents ← Evaluating.checked (tree.getParents node.1 node.2 movementMaps)
    pure ⟨round.metricsMap.set true curVal node, round.nextToUpdate.pushAll parents node.2, context⟩

def tracedChanges : Nat → Nat → UpdateMap → MetricsMap × σ → Evaluating (MetricsMap × σ)
  | 0, _, _, _ => Traced.lift (.error none)
  | rounds + 1, index, toUpdate, (metricsMap, context) => do
    let round ← (order.nodes toUpdate.keys).foldlM (tracedNode calcMetricFunc tree movementMaps index toUpdate)
      ⟨metricsMap, ∅, context⟩
    if round.nextToUpdate.keys.isEmpty then pure (round.metricsMap, round.context)
    else tracedChanges rounds (index + 1) round.nextToUpdate (round.metricsMap, round.context)

/-- `update` with so many rounds. -/
def tracedUpdate (rounds : Nat) (state : SolvingState) (tree : ExpressionTree) (shardIds : List DomainId) (context : σ) :
    Evaluating (ExpressionTree × σ) := do
  let toUpdate ← Evaluating.checked (ExpressionTree.shardParents state tree.assignmentTree movementMaps shardIds)
  let (metricsMap, context) ← tracedChanges order calcMetricFunc tree.assignmentTree movementMaps rounds 1 toUpdate
    (tree.metricsMap, context)
  pure ({ tree with metricsMap }, context)

end Traced

section Results
variable {σ : Type} {order : HashOrder} {calcMetricFunc : CalcMetricFunc σ} {tree : SparseMappingTree}
  {movementMaps : List MovementMapPtr}

private theorem mapError_bind {α β : Type} (result : Except Fault α) (next : α → Except Fault β) :
    (result >>= next).mapError some = (result.mapError some >>= fun value => (next value).mapError some : Except (Option Fault) β) := by
  cases result <;> rfl

private theorem mapError_foldlM {α β : Type} (body : β → α → Except Fault β) (items : List α) (initial : β) :
    (items.foldlM body initial).mapError some =
      (items.foldlM (fun state item => (body state item).mapError some) initial : Except (Option Fault) β) := by
  induction items generalizing initial with
  | nil => rfl
  | cons item items ih =>
    rw [List.foldlM_cons, List.foldlM_cons, mapError_bind]
    exact congrArg _ (funext fun state => ih state)

theorem tracedNode_result (index : Nat) (toUpdate : UpdateMap) (round : Propagation σ) (node : Node) :
    (tracedNode calcMetricFunc tree movementMaps index toUpdate round node).result =
      (updateNode calcMetricFunc tree movementMaps toUpdate round node).mapError some := by
  rw [tracedNode, updateNode, mapError_bind]
  simp only [Traced.result_bind_eq]
  change (Except.mapError some _ >>= fun value => _) = _
  refine congrArg _ (funext fun value => ?_)
  split
  next => rfl
  next =>
    rw [Traced.result_bind_eq, mapError_bind]
    rfl

/-- With rounds left, noting the evaluations changes nothing. -/
private theorem tracedChanges_result {rounds : Nat} (index : Nat) (toUpdate : UpdateMap) (current : MetricsMap × σ)
    (enough : (tracedChanges order calcMetricFunc tree movementMaps rounds index toUpdate current).result ≠ .error none) :
    (tracedChanges order calcMetricFunc tree movementMaps rounds index toUpdate current).result =
      (propagateChanges order calcMetricFunc tree movementMaps rounds toUpdate current).mapError some := by
  induction rounds generalizing index toUpdate current with
  | zero => exact absurd rfl enough
  | succ rounds ih =>
    obtain ⟨metricsMap, context⟩ := current
    have round : ((order.nodes toUpdate.keys).foldlM (tracedNode calcMetricFunc tree movementMaps index toUpdate)
          ⟨metricsMap, ∅, context⟩).result =
        ((order.nodes toUpdate.keys).foldlM (updateNode calcMetricFunc tree movementMaps toUpdate)
          ⟨metricsMap, ∅, context⟩).mapError some := by
      rw [Traced.result_foldlM, mapError_foldlM]
      simp only [tracedNode_result]
    rw [tracedChanges, Traced.result_bind_eq, round] at enough ⊢
    rw [propagateChanges, mapError_bind]
    cases ended : (order.nodes toUpdate.keys).foldlM (updateNode calcMetricFunc tree movementMaps toUpdate)
        ⟨metricsMap, ∅, context⟩ with
    | error fault => rfl
    | ok round =>
      rw [ended] at enough
      change (if _ then _ else _ : Evaluating _).result ≠ _ at enough
      change (if _ then _ else _ : Evaluating _).result = Except.mapError some (if _ then _ else _)
      split
      next => rfl
      next more =>
        rw [if_neg more] at enough
        exact ih (index + 1) round.nextToUpdate _ enough

private theorem tracedUpdate_result {state : SolvingState} (tree : ExpressionTree) (shardIds : List DomainId) (context : σ)
    (enough : (tracedUpdate order calcMetricFunc movementMaps tree.assignmentTree.maxDepth state tree shardIds context).result ≠
      .error none) :
    (tracedUpdate order calcMetricFunc movementMaps tree.assignmentTree.maxDepth state tree shardIds context).result =
      (ExpressionTree.update order state calcMetricFunc tree movementMaps shardIds context).mapError some := by
  rw [tracedUpdate, Traced.result_bind_eq] at enough ⊢
  rw [ExpressionTree.update, mapError_bind]
  cases entered : ExpressionTree.shardParents state tree.assignmentTree movementMaps shardIds with
  | error fault => rfl
  | ok toUpdate =>
    rw [entered] at enough
    change (tracedChanges _ _ _ _ _ _ _ _ >>= _).result ≠ _ at enough
    change (tracedChanges _ _ _ _ _ _ _ _ >>= _).result = (propagateChanges _ _ _ _ _ _ _ >>= _).mapError some
    rw [Traced.result_bind_eq] at enough ⊢
    rw [mapError_bind, tracedChanges_result]
    · rfl
    · intro stopped
      rw [stopped] at enough
      exact enough rfl

end Results

/-- The parent lists the child, or is one of its parents, also by a movement. -/
def SparseMappingTree.ChildOf (tree : SparseMappingTree) (movementMaps : List MovementMapPtr) (parent child : Node) : Prop :=
  tree.getChildDomain parent.1 = some child.1 ∧
    (child.2 ∈ tree.children parent.1 parent.2 ∨
      ∃ parents, tree.getParents child.1 child.2 movementMaps = .ok parents ∧ parent ∈ parents)

/-- Every node is evaluated once at most, and in a later round than its descendants. -/
structure ChildrenFirst (tree : SparseMappingTree) (movementMaps : List MovementMapPtr) (evaluations : List (Nat × Node)) :
    Prop where
  once : (evaluations.map Prod.snd).Nodup
  rounds : evaluations.Pairwise fun earlier later => earlier.1 ≤ later.1
  descendants : ∀ upper ∈ evaluations, ∀ lower ∈ evaluations,
    Relation.TransGen (tree.ChildOf movementMaps) upper.2 lower.2 → lower.1 < upper.1

/-- Rounds go on, none evaluates a node twice, and each is as high as it is late. -/
def climbing (tree : SparseMappingTree) (bottom : Domain) : Machine (List (Nat × Node)) (Nat × Node) where
  enabled done evaluation := Height tree.getChildDomain bottom evaluation.1 evaluation.2.1 ∧
    ∀ earlier ∈ done, earlier.1 ≤ evaluation.1 ∧ earlier ≠ evaluation
  next done evaluation := done ++ [evaluation]

section Climbing
variable {σ : Type} {order : HashOrder} {calcMetricFunc : CalcMetricFunc σ} {tree : SparseMappingTree}
  {movementMaps : List MovementMapPtr} {bottom : Domain}

private theorem after_climbing (evaluations done : List (Nat × Node)) :
    (climbing tree bottom).after done evaluations = done ++ evaluations := by
  induction evaluations generalizing done with
  | nil => exact (List.append_nil done).symm
  | cons evaluation evaluations ih =>
    rw [Machine.after_cons, ih]
    exact List.append_assoc done [evaluation] evaluations

/-- What holds at the end of a run of the machine. -/
structure Climbed (tree : SparseMappingTree) (bottom : Domain) (done : List (Nat × Node)) : Prop where
  heights : ∀ evaluation ∈ done, Height tree.getChildDomain bottom evaluation.1 evaluation.2.1
  ordered : done.Pairwise fun earlier later => earlier.1 ≤ later.1 ∧ earlier ≠ later

theorem Climbed.next {done : List (Nat × Node)} {evaluation : Nat × Node} (climbed : Climbed tree bottom done)
    (enabled : (climbing tree bottom).enabled done evaluation) :
    Climbed tree bottom ((climbing tree bottom).next done evaluation) where
  heights other member := by
    rcases List.mem_append.mp member with old | new
    · exact climbed.heights other old
    · rw [List.mem_singleton.mp new]
      exact enabled.1
  ordered := by
    refine List.pairwise_append.mpr ⟨climbed.ordered, List.pairwise_singleton _ _, ?_⟩
    intro earlier old other new
    rw [List.mem_singleton.mp new]
    exact enabled.2 earlier old

private theorem Climbed.childrenFirst {done : List (Nat × Node)} (climbed : Climbed tree bottom done) (acyclic : Acyclic tree.DomainEdge) :
    ChildrenFirst tree movementMaps done where
  once := by
    rw [List.nodup_iff_pairwise_ne, List.pairwise_map]
    refine climbed.ordered.imp_of_mem ?_
    rintro ⟨round, node⟩ ⟨other, later⟩ first second ⟨_, differ⟩ same
    obtain rfl : node = later := same
    exact differ (congrArg (·, node) ((climbed.heights _ first).unique acyclic (climbed.heights _ second)))
  rounds := climbed.ordered.imp fun both => both.1
  descendants upper above lower beneath path := by
    have domains : Relation.TransGen (tree.getChildDomain · = some ·) upper.2.1 lower.2.1 :=
      Relation.TransGen.lift Prod.fst (fun _ _ child => child.1) _ _ path
    exact Height.lt_of_leads acyclic domains (climbed.heights upper above) (climbed.heights lower beneath)

private theorem childDomain_of_mem_addMovedParent (bins : tree.getChildDomain tree.binDomain = some tree.shardDomain) {domainId : DomainId}
    {parents after : List Node} {movementMap : MovementMapPtr} (added : tree.addMovedParent domainId parents movementMap = .ok after)
    (below : ∀ parent ∈ parents, tree.getChildDomain parent.1 = some tree.shardDomain) :
    ∀ parent ∈ after, tree.getChildDomain parent.1 = some tree.shardDomain := by
  obtain ⟨moves, _, added⟩ := Checked.bind_ok added
  cases moved : moves.getNextBin domainId with
  | none =>
    simp only [moved] at added
    cases added
    exact below
  | some parentBin =>
    simp only [moved] at added
    obtain ⟨rows, _, added⟩ := Checked.bind_ok added
    split at added
    next =>
      cases added
      intro parent member
      rcases List.mem_append.mp member with old | new
      · exact below parent old
      · rw [List.mem_singleton.mp new]
        exact bins
    next =>
      cases added
      exact below

private theorem childDomain_of_mem_getParents (bins : tree.getChildDomain tree.binDomain = some tree.shardDomain) {domain : Domain}
    {domainId : DomainId} {parents : List Node} (found : tree.getParents domain domainId movementMaps = .ok parents) :
    ∀ parent ∈ parents, tree.getChildDomain parent.1 = some domain := by
  have recorded : ∀ parent ∈ tree.staticParents domain domainId, tree.getChildDomain parent.1 = some domain :=
    fun parent member => (tree.mapped_of_mem_staticParents member).1
  rw [SparseMappingTree.getParents] at found
  split at found
  next shards =>
    subst shards
    exact Checked.foldlM_invariant (fun parents : List Node => ∀ parent ∈ parents, tree.getChildDomain parent.1 = some tree.shardDomain)
      (fun parents movementMap _ after below added => childDomain_of_mem_addMovedParent bins added below) recorded found
  next =>
    cases found
    exact recorded

/-- A propagation whose evaluations climb, and that does not run out of rounds. -/
abbrev Climbs {α : Type} (tree : SparseMappingTree) (bottom : Domain) (done : List (Nat × Node))
    (onResult : α → List (Nat × Node) → Prop) (run : Evaluating α) : Prop :=
  Traced.Performs (climbing tree bottom) (fun evaluation => [evaluation]) onResult (fun stop _ => stop ≠ none) done run

private theorem checked_climbs {α : Type} {done : List (Nat × Node)} {onResult : α → List (Nat × Node) → Prop} {result : Except Fault α}
    (holds : ∀ value, result = .ok value → onResult value done) : Climbs tree bottom done onResult (Evaluating.checked result) := by
  cases result with
  | ok value => exact Traced.performs_ok (holds value rfl)
  | error fault => exact Traced.performs_error (Option.some_ne_none fault)

/-- What holds in a round with some nodes left. -/
structure Climbing (tree : SparseMappingTree) (bottom : Domain) (index : Nat) (rest : List Node) (round : Propagation σ)
    (done : List (Nat × Node)) : Prop where
  distinct : rest.Nodup
  heights : ∀ node ∈ rest, Height tree.getChildDomain bottom index node.1
  earlier : ∀ evaluation ∈ done, evaluation.1 ≤ index ∧ ∀ node ∈ rest, evaluation ≠ (index, node)
  next : ∀ parent ∈ round.nextToUpdate.keys, Height tree.getChildDomain bottom (index + 1) parent.1

private theorem tracedNode_climbs (bins : tree.getChildDomain tree.binDomain = some tree.shardDomain) {index : Nat} (toUpdate : UpdateMap)
    {node : Node} {rest : List Node} {round : Propagation σ} {done : List (Nat × Node)}
    (climbing : Climbing tree bottom index (node :: rest) round done) :
    Climbs tree bottom done (Climbing tree bottom index rest) (tracedNode calcMetricFunc tree movementMaps index toUpdate round node) := by
  obtain ⟨distinct, heights, earlier, next⟩ := climbing
  obtain ⟨fresh, distinct⟩ := List.nodup_cons.mp distinct
  have here : Height tree.getChildDomain bottom index node.1 := heights node List.mem_cons_self
  have leads : (ShardManager.climbing tree bottom).Leads done [(index, node)] (· = done ++ [(index, node)]) := by
    refine ⟨⟨⟨here, fun evaluation member => ?_⟩, trivial⟩, rfl⟩
    exact ⟨(earlier evaluation member).1, (earlier evaluation member).2 node List.mem_cons_self⟩
  have later : ∀ evaluation ∈ done ++ [(index, node)], evaluation.1 ≤ index ∧ ∀ other ∈ rest, evaluation ≠ (index, other) := by
    intro evaluation member
    rcases List.mem_append.mp member with old | new
    · exact ⟨(earlier evaluation old).1, fun other listed => (earlier evaluation old).2 other (List.mem_cons_of_mem node listed)⟩
    · rw [List.mem_singleton.mp new]
      refine ⟨Nat.le_refl index, fun other listed same => fresh ?_⟩
      have again : node = other := congrArg Prod.snd same
      exact again ▸ listed
  have restHeights : ∀ other ∈ rest, Height tree.getChildDomain bottom index other.1 :=
    fun other listed => heights other (List.mem_cons_of_mem node listed)
  refine Traced.performs_bind (Traced.performs_tell leads) ?_
  rintro _ _ rfl
  have computed : Climbs tree bottom (done ++ [(index, node)]) (fun (_ : Int × σ) point => point = done ++ [(index, node)])
      (Evaluating.checked (calcMetricFunc tree movementMaps round.metricsMap (toUpdate.changedChildren node) node round.context)) :=
    checked_climbs fun _ _ => rfl
  have climbed : Climbs tree bottom (done ++ [(index, node)]) (fun parents point => point = done ++ [(index, node)] ∧
      ∀ parent ∈ parents, tree.getChildDomain parent.1 = some node.1)
      (Evaluating.checked (tree.getParents node.1 node.2 movementMaps)) :=
    checked_climbs fun parents found => ⟨rfl, childDomain_of_mem_getParents bins found⟩
  refine Traced.performs_bind computed ?_
  rintro ⟨curVal, context⟩ _ rfl
  dsimp only
  split
  next => exact Traced.performs_pure ⟨distinct, restHeights, later, next⟩
  next =>
    refine Traced.performs_bind climbed ?_
    rintro parents _ ⟨rfl, above⟩
    refine Traced.performs_pure ⟨distinct, restHeights, later, fun parent member => ?_⟩
    rcases (UpdateMap.mem_keys_pushAll _ _ _ _).mp member with new | old
    · exact .above (above parent new) here
    · exact next parent old

/-- The number of domains with a child domain bounds the rounds. -/
private theorem tracedChanges_climbs (acyclic : Acyclic tree.DomainEdge) (bins : tree.getChildDomain tree.binDomain = some tree.shardDomain)
    {rounds index : Nat} {toUpdate : UpdateMap} {current : MetricsMap × σ} {done : List (Nat × Node)}
    (heights : ∀ node ∈ toUpdate.keys, Height tree.getChildDomain bottom index node.1)
    (earlier : ∀ evaluation ∈ done, evaluation.1 < index) (started : index = 1 ∨ toUpdate.keys ≠ [])
    (enough : tree.maxDepth + 1 ≤ rounds + index) :
    Climbs tree bottom done (fun _ _ => True) (tracedChanges order calcMetricFunc tree movementMaps rounds index toUpdate current) := by
  induction rounds generalizing index toUpdate current done with
  | zero =>
    exfalso
    have depth : tree.maxDepth = tree.parentToChildDomainMap.keys.length + 1 := rfl
    rcases started with first | nonempty
    · omega
    · obtain ⟨node, rest, keys⟩ := List.exists_cons_of_ne_nil nonempty
      have high := (heights node (by rw [keys]; exact List.mem_cons_self)).le_rank acyclic tree.parentToChildDomainMap.keys
        fun domain isSome => (UnorderedMap.mem_keys_iff _ _).mpr (Option.isSome_iff_exists.mp isSome)
      have most : rank (tree.getChildDomain · = some ·) tree.parentToChildDomainMap.keys node.1 ≤
          tree.parentToChildDomainMap.keys.length := rank_le_length _ _
      omega
  | succ rounds ih =>
    obtain ⟨metricsMap, context⟩ := current
    have perm := order.nodes_perm toUpdate.keys
    refine Traced.performs_bind (Traced.performs_foldlM (Climbing tree bottom index)
      (fun node rest round done climbing => tracedNode_climbs bins toUpdate climbing) ?_) ?_
    · refine ⟨perm.nodup_iff.mpr (AList.keys_nodup _), ?_, ?_, ?_⟩
      · exact fun node member => heights node (perm.mem_iff.mp member)
      · intro evaluation member
        have less := earlier evaluation member
        exact ⟨Nat.le_of_lt less, fun node _ same => Nat.ne_of_lt less (congrArg Prod.fst same)⟩
      · rintro parent ⟨⟩
    · rintro round point ⟨_, _, earlier, next⟩
      split
      next => exact Traced.performs_pure trivial
      next more =>
        refine ih next ?_ (.inr fun none => more ?_) (by omega)
        · exact fun evaluation member => Nat.lt_succ_of_le (earlier evaluation member).1
        · rw [none]
          rfl

private theorem shardParents_heights (bins : tree.getChildDomain tree.binDomain = some tree.shardDomain) {state : SolvingState}
    {shardIds : List DomainId} {toUpdate : UpdateMap}
    (entered : ExpressionTree.shardParents state tree movementMaps shardIds = .ok toUpdate) :
    ∀ node ∈ toUpdate.keys, Height tree.getChildDomain state.shardDomain 1 node.1 := by
  refine Checked.foldlM_invariant
    (fun toUpdate : UpdateMap => ∀ node ∈ toUpdate.keys, Height tree.getChildDomain state.shardDomain 1 node.1) ?_ ?_ entered
  · intro toUpdate shardId _ after below added node member
    obtain ⟨parents, found, pushed⟩ := Checked.bind_ok added
    cases pushed
    rcases (UpdateMap.mem_keys_pushAll _ _ _ _).mp member with new | old
    · exact .above (childDomain_of_mem_getParents bins found node new) .bottom
    · exact below node old
  · rintro node ⟨⟩

/-- Where the domains have no cycle and the bins are above the shards, a propagation ends
within as many rounds as there are domains, evaluates every node once at most, and its
descendants in earlier rounds. -/
theorem ExpressionTree.update_childrenFirst (tree : ExpressionTree) (acyclic : Acyclic tree.assignmentTree.DomainEdge)
    (bins : tree.assignmentTree.getChildDomain tree.assignmentTree.binDomain = some tree.assignmentTree.shardDomain)
    (order : HashOrder) (state : SolvingState) (calcMetricFunc : CalcMetricFunc σ) (movementMaps : List MovementMapPtr)
    (shardIds : List DomainId) (context : σ) :
    (tracedUpdate order calcMetricFunc movementMaps tree.assignmentTree.maxDepth state tree shardIds context).result =
      (update order state calcMetricFunc tree movementMaps shardIds context).mapError some ∧
    ∀ rounds, tree.assignmentTree.maxDepth ≤ rounds →
      (tracedUpdate order calcMetricFunc movementMaps rounds state tree shardIds context).result ≠ .error none ∧
      ChildrenFirst tree.assignmentTree movementMaps
        (tracedUpdate order calcMetricFunc movementMaps rounds state tree shardIds context).events := by
  have climbs : ∀ rounds, tree.assignmentTree.maxDepth ≤ rounds →
      Climbs tree.assignmentTree state.shardDomain [] (fun _ _ => True)
        (tracedUpdate order calcMetricFunc movementMaps rounds state tree shardIds context) := by
    intro rounds enough
    have entered : Climbs tree.assignmentTree state.shardDomain [] (fun (toUpdate : UpdateMap) point => point = [] ∧
        ∀ node ∈ toUpdate.keys, Height tree.assignmentTree.getChildDomain state.shardDomain 1 node.1)
        (Evaluating.checked (shardParents state tree.assignmentTree movementMaps shardIds)) :=
      checked_climbs fun toUpdate entered => ⟨rfl, shardParents_heights bins entered⟩
    refine Traced.performs_bind entered ?_
    rintro toUpdate _ ⟨rfl, heights⟩
    refine Traced.performs_bind (tracedChanges_climbs acyclic bins heights (by rintro _ ⟨⟩) (.inl rfl) (Nat.succ_le_succ enough)) ?_
    rintro ⟨metricsMap, context⟩ _ _
    exact Traced.performs_pure trivial
  have goesOn : ∀ rounds, tree.assignmentTree.maxDepth ≤ rounds →
      (tracedUpdate order calcMetricFunc movementMaps rounds state tree shardIds context).result ≠ .error none :=
    fun rounds enough stopped => (climbs rounds enough).stops none stopped rfl
  refine ⟨?_, fun rounds enough => ⟨goesOn rounds enough, ?_⟩⟩
  · exact tracedUpdate_result tree shardIds context (goesOn _ (Nat.le_refl _))
  · have climbed := (climbs rounds enough).runs.invariant (fun done evaluation climbed enabled => Climbed.next climbed enabled)
      ⟨by rintro _ ⟨⟩, .nil⟩
    rw [List.flatMap_singleton', after_climbing, List.nil_append] at climbed
    exact climbed.childrenFirst acyclic

end Climbing

open SparseMappingTree

def changeCount : CalcMetricFunc Unit :=
  fun _ _ _ changedChildren _ context => .ok (changedChildren.length, context)

def rackTree : ExpressionTree := ⟨SolvingState.twoBins.assignmentTree, .empty⟩

private theorem acyclic_rackTree : Acyclic rackTree.assignmentTree.DomainEdge :=
  (SolvingState.descends_new [] [[5, 7, 9]] [[[0, 1, 2], []], [[0, 1]]]).acyclic

/-- A shard moves from one bin to the other: both are evaluated, and then the rack. -/
theorem ExpressionTree.update_childrenFirst_twoBins :
    let traced := fun rounds => tracedUpdate .insertion changeCount [some (.addMovement {} 0 1)] rounds .twoBins rackTree [0] ()
    (traced 3).events = [(1, (1, 1)), (1, (1, 0)), (2, (2, 0))] ∧
    (traced rackTree.assignmentTree.maxDepth).result =
      (update .insertion .twoBins changeCount rackTree [some (.addMovement {} 0 1)] [0] ()).mapError some ∧
    ∀ rounds, rackTree.assignmentTree.maxDepth ≤ rounds → (traced rounds).result ≠ .error none ∧
      ChildrenFirst rackTree.assignmentTree [some (.addMovement {} 0 1)] (traced rounds).events :=
  ⟨by decide +kernel, update_childrenFirst rackTree acyclic_rackTree (by decide +kernel) .insertion .twoBins changeCount
    [some (.addMovement {} 0 1)] [0] ()⟩

end ShardManager

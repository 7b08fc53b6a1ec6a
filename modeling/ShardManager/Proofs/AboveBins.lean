import ShardManager.Proofs.Reweighed
import ShardManager.Proofs.SearchRuns
import ShardManager.Proofs.Surcharge

/-! Constraints above the bins, and the weights of bins. `MetricConstraint` and
`DrainConstraint` ask which domain they are about before they change the weight of a
bin, and `LoadBalancingConstraint` does not: its nodes count as the bins of their ids. -/

namespace ShardManager
open IterativeLocalSearch SparseMappingTree

namespace LoadBalancingConstraint
private theorem updateWeights_idle (order : HashOrder) (constraint : LoadBalancingConstraint) (info : BinWeightInfo)
    (none : constraint.domainUpdatedSet = ∅) : constraint.updateWeights order info = info := by
  rw [updateWeights, none]
  exact congrArg (List.foldl _ info) ((ExpressionTree.ids_nil order _).mpr rfl)

section Level
variable (state : SolvingState) (movementMaps : List MovementMap) (shards : List DomainId) (constraint : LoadBalancingConstraint)

/-- The greatest load under every node that is weighed is within `maxDelta` of the least load
under all, or what it has beyond weighs nothing. -/
def Level : Prop :=
  ∀ domainId, constraint.Weighed state movementMaps shards domainId →
    constraint.distance state movementMaps shards domainId < constraint.maxDelta ∨
      constraint.faultWeightMultiplier (toInt32 (constraint.distance state movementMaps shards domainId - constraint.maxDelta)) = 0

instance : Decidable (constraint.Level state movementMaps shards) :=
  decidable_of_iff (∀ domainId ∈ constraint.minExpressionTree.assignmentTree.getAllDomainIds constraint.domain ++
      constraint.maxExpressionTree.assignmentTree.getAllDomainIds constraint.domain,
        constraint.Weighed state movementMaps shards domainId → _ ∨ _)
    ⟨fun level domainId weighed => level domainId (List.mem_append.mpr weighed.listed) weighed, fun level domainId _ => level domainId⟩

variable {state movementMaps shards constraint}

private theorem level_iff (unset : ∀ domainId, constraint.domainFaultMap.getFromCommittedMap domainId = none) :
    (∀ domainId, constraint.surcharge state movementMaps shards domainId = 0) ↔ constraint.Level state movementMaps shards := by
  refine forall_congr' fun domainId => ?_
  rw [surcharge, unset, Option.getD_none, sub_zero, excess]
  split
  next weighed =>
    split
    next beyond => exact ⟨fun weightless _ => .inr weightless, fun level => (level weighed).resolve_left (not_lt.mpr beyond)⟩
    next within => exact iff_of_true rfl fun _ => .inl (not_le.mp within)
  next idle => exact iff_of_true rfl fun weighed => absurd weighed idle

end Level

section Binless
variable {state : SolvingState} (numbered : state.Numbered) {domain : Domain} {domainIds : List DomainId} {shards : List DomainId}
  (binless : ¬ (partialTree state domain domainIds).HasBin)
include numbered binless

private theorem shards_binless {node : Node} {child : DomainId} (member : child ∈ (partialTree state domain domainIds).movedUnder [{}] shards node) :
    domain = 0 := by
  have noShards : (partialTree state domain domainIds).shardDomain = 0 := by simp [partialTree, numbered.treeShards]
  obtain ⟨found, _⟩ := mapped_of_mem_staticParents _ (static_of_mem_movedUnder member)
  rw [noShards] at found
  exact (numbered.partialTree_binless binless found).2

omit binless in
private theorem mapped_binless (none : domain = 0) {node : Node} (mapped : (partialTree state domain domainIds).Mapped node) :
    node.1 ≠ domain := by
  obtain ⟨childDomain, found⟩ := Option.isSome_iff_exists.mp mapped.1
  subst none
  rcases numbered.partialTree_childDomain found with ⟨top, _⟩ | ⟨above, within⟩
  · rw [top]
    decide
  · rw [above] at within
    exact absurd within (Nat.not_succ_le_zero _)

private theorem weighed_binless (metric : Metric) (maxDelta : Int) (faultWeightMultiplier : Int → Int) (domainId : DomainId) :
    ¬ (initial state domainIds metric maxDelta domain faultWeightMultiplier).Weighed state [{}] shards domainId := by
  have idle : ∀ (cmp : Int → Int → Bool) val,
      renewed (calculation state domain metric cmp) (partialTree state domain domainIds) [{}] (fun _ => none) shards (domain, domainId) ≠
        some val := by
    intro cmp val anew
    by_cases none : domain = 0
    · exact mapped_binless numbered none (mapped_of_renewed anew) rfl
    · have unmoved : ∀ node, (partialTree state domain domainIds).movedUnder [{}] shards node = [] := fun node =>
        List.eq_nil_iff_forall_not_mem.mpr fun child member => none (shards_binless numbered binless member)
      rw [renewed, renewal_idle unmoved] at anew
      cases anew
  rintro (least | greatest)
  · obtain ⟨val, anew⟩ := Option.isSome_iff_exists.mp least
    exact idle _ val anew
  · obtain ⟨val, anew⟩ := Option.isSome_iff_exists.mp greatest
    exact idle _ val anew

/-- Nothing is listed as updated there. -/
private theorem canaried_binless (order : HashOrder) (metric : Metric) (maxDelta : Int) (faultWeightMultiplier : Int → Int)
    (shardIds : List DomainId) (info : BinWeightInfo) :
    ((initial state domainIds metric maxDelta domain faultWeightMultiplier).canaried order state [{}] shardIds info).2 = info := by
  have noShards : (partialTree state domain domainIds).shardDomain = state.shardDomain := by
    simp [partialTree, numbered.treeShards, numbered.shardDomain]
  have climbs : ∀ node, (partialTree state domain domainIds).Mapped node ∧ domain = 0 →
      ∀ parent ∈ (partialTree state domain domainIds).parentNodes node.1 node.2 [{}],
        (partialTree state domain domainIds).Mapped parent ∧ domain = 0 :=
    fun node visited parent member => ⟨mapped_of_mem_parentNodes _ member, visited.2⟩
  have entered : ∀ node ∈ (ExpressionTree.entered state (partialTree state domain domainIds) [{}] shardIds).keys,
      (partialTree state domain domainIds).Mapped node ∧ domain = 0 := by
    intro node member
    obtain ⟨child, moved⟩ := List.exists_mem_of_ne_nil _ ((ExpressionTree.proper_entered state _ _ _ node).mp member)
    have same : ((ExpressionTree.entered state (partialTree state domain domainIds) [{}] shardIds).changedChildren node).Perm
        ((partialTree state domain domainIds).movedUnder [{}] shardIds node) := movedUnder_entered noShards (.refl shardIds) node
    exact ⟨ExpressionTree.mapped_entered state _ _ _ node member, shards_binless numbered binless (same.mem_iff.mp moved)⟩
  have update : ∀ (cmp : Int → Int → Bool) (metricsMap : MetricsMap) (updatedSet : UnorderedSet DomainId), updatedSet = ∅ →
      ((ExpressionTree.mk (partialTree state domain domainIds) metricsMap).updated state order (calculation state domain metric cmp)
        [{}] shardIds updatedSet).2 = ∅ := by
    intro cmp metricsMap updatedSet empty
    have effects : ∀ node val (updatedSet : UnorderedSet DomainId), (partialTree state domain domainIds).Mapped node ∧ domain = 0 →
        updatedSet = ∅ → (calculation state domain metric cmp).effect node val updatedSet = ∅ := by
      rintro node val _ ⟨mapped, none⟩ rfl
      exact if_neg (mapped_binless numbered none mapped)
    exact ExpressionTree.updated_context climbs effects state order metricsMap shardIds entered empty
  exact updateWeights_idle order _ info (update _ _ _ (update _ _ _ rfl))

end Binless

section Weights
variable {state : SolvingState} (numbered : state.Numbered) {order : HashOrder} {info weights : BinWeightInfo}
include numbered

private theorem new_binWeight {domain : Domain} {domainIds : List DomainId} {metric : Metric} {maxDelta : Int}
    {faultWeightMultiplier : Int → Int} {constraint : LoadBalancingConstraint}
    (made : new order state domain domainIds metric maxDelta faultWeightMultiplier info = .ok (constraint, weights)) (binId : DomainId) :
    weights.binWeight binId = info.binWeight binId +
      (initial state domainIds metric maxDelta domain faultWeightMultiplier).surcharge state [{}]
        ((partialTree state domain domainIds).getAllDomainIds state.shardDomain) binId := by
  rw [new_eq domainIds metric maxDelta order info numbered.movementMap domain faultWeightMultiplier (resolves_unmoved _)] at made
  cases made
  rw [BinWeightInfo.binWeight_commit]
  by_cases hasBin : (partialTree state domain domainIds).HasBin
  · obtain ⟨level, layers⟩ := numbered.tree_layers
      (show ((Constraint.Arguments.loadBalancing domain domainIds metric maxDelta faultWeightMultiplier).tree state).HasBin from hasBin)
    exact (canaried_surcharge rfl rfl order layers numbered.shardDomain (order.ids_perm _) info).2 binId
  · rw [canaried_binless numbered hasBin, surcharge, if_neg (weighed_binless numbered hasBin metric maxDelta faultWeightMultiplier binId),
      add_zero]

/-- What a canary adds to the weights of bins. -/
private theorem canaryMoves_binWeight {arguments : Constraint.Arguments} {constraint : LoadBalancingConstraint} {after : Constraint}
    (built : Constraint.Built state arguments (.loadBalancing constraint)) {committedMoves canariedMoves : MovementMap}
    (canaried : ConstraintOps.canaryMoves order state (some committedMoves) (some canariedMoves) (.loadBalancing constraint) info =
      .ok (after, weights)) (binId : DomainId) :
    weights.binWeight binId = info.binWeight binId +
      constraint.surcharge state [{}, committedMoves, canariedMoves] canariedMoves.getAllMovements.keys binId := by
  by_cases shardless : canariedMoves.getAllMovements.keys = []
  · change Constraint.canaryMoves _ _ _ _ _ _ = _ at canaried
    rw [Constraint.canaryMoves, canaryMoves, ExpressionTree.canaryMoves_nil _ _ _ _ _ shardless, Checked.ok_bind] at canaried
    simp only at canaried
    rw [ExpressionTree.canaryMoves_nil _ _ _ _ _ shardless] at canaried
    cases canaried
    have idle : ∀ (cmp : Int → Int → Bool) tree recorded node,
        renewed (calculation state constraint.domain constraint.metric cmp) tree [{}, committedMoves, canariedMoves] recorded [] node = none :=
      fun _ _ _ _ => renewal_idle (fun _ => rfl) _ _
    rw [updateWeights_idle order _ info rfl, shardless, surcharge, if_neg, add_zero]
    simp [Weighed, anewMin, anewMax, idle]
  · have hasBin := built.hasBin_of_canaryMoves numbered shardless canaried
    rcases built.canary_cases numbered hasBin canaried with ⟨_, _, found, _⟩ | ⟨balance, level, same, layers, minTree, maxTree, _, rfl⟩
    · cases found
    · cases same
      exact (canaried_surcharge minTree maxTree order layers numbered.shardDomain (order.ids_perm _) info).2 binId

end Weights
end LoadBalancingConstraint

/-- A constraint constructed for another domain than the bins, with no fault recorded for load balancing. -/
structure Constraint.Beside (state : SolvingState) (constraint : Constraint) : Prop where
  built : ∃ arguments, Constraint.Built state arguments constraint
  domain : constraint.domain ≠ state.binDomain
  unset : ∀ balance, constraint = .loadBalancing balance → ∀ domainId, balance.domainFaultMap.get domainId = none ∧
    balance.domainFaultMap.getFromCommittedMap domainId = none

def BinWeightInfo.NoBinWeight (info : BinWeightInfo) : Prop :=
  ∀ binId, info.binWeight binId = 0 ∧ info.committedBinWeight binId = 0

namespace Constraint
variable {order : HashOrder} {state : SolvingState} {info final : BinWeightInfo}

/-- What is constructed with the arguments adds nothing to the weight of a bin: the loads
without any moves are level. -/
def Arguments.AddNothing (state : SolvingState) : Arguments → Prop
  | .loadBalancing domain domainIds metricId maxDelta faultWeightMultiplier =>
    (LoadBalancingConstraint.initial state domainIds metricId maxDelta domain faultWeightMultiplier).Level state [{}]
      ((LoadBalancingConstraint.partialTree state domain domainIds).getAllDomainIds state.shardDomain)
  | .metric .. => True
  | .drain .. => True

/-- A canary of the moves adds nothing to the weight of a bin: the loads after them are level. -/
def AddsNothing (state : SolvingState) (committedMoves canariedMoves : MovementMap) : Constraint → Prop
  | .loadBalancing constraint =>
    constraint.Level state [{}, committedMoves, canariedMoves] canariedMoves.getAllMovements.keys
  | .metric _ => True
  | .drain _ => True

instance : ∀ arguments : Arguments, Decidable (arguments.AddNothing state)
  | .loadBalancing _ _ _ _ _ => inferInstanceAs (Decidable (LoadBalancingConstraint.Level _ _ _ _))
  | .metric .. => isTrue trivial
  | .drain .. => isTrue trivial

instance (committedMoves canariedMoves : MovementMap) :
    ∀ constraint, Decidable (AddsNothing state committedMoves canariedMoves constraint)
  | .loadBalancing constraint =>
    inferInstanceAs (Decidable (constraint.Level _ _ _))
  | .metric _ => isTrue trivial
  | .drain _ => isTrue trivial

private theorem commit_noBinWeight : info.commit.NoBinWeight ↔ ∀ binId, info.binWeight binId = 0 := by
  simp [BinWeightInfo.NoBinWeight]

private theorem shareOf_beside {constraint : Constraint} (beside : constraint.Beside state) (binId : DomainId) :
    (binAccount state binId).shareOf constraint = 0 := by
  cases constraint with
  | metric constraint => exact if_neg beside.domain
  | drain constraint => exact if_neg beside.domain
  | loadBalancing constraint => rfl

private theorem rollback_beside {constraint : Constraint} (beside : constraint.Beside state) :
    (LawfulConstraint.rollback constraint).Beside state := by
  obtain ⟨⟨arguments, built⟩, domain, unset⟩ := beside
  refine ⟨⟨arguments, built.rollback⟩, ?_, ?_⟩
  · rw [built.rollback.domain, ← built.domain]
    exact domain
  · intro balance same domainId
    cases constraint with
    | metric | drain => cases same
    | loadBalancing constraint =>
      cases same
      change constraint.domainFaultMap.clear.get domainId = none ∧ constraint.domainFaultMap.clear.getFromCommittedMap domainId = none
      rw [CommittableMap.get_clear, CommittableMap.committed_clear]
      exact ⟨(unset _ rfl domainId).2, (unset _ rfl domainId).2⟩

private theorem new_beside (present : state.movementMap = some {}) {arguments : Arguments} {constraint : Constraint}
    (beside : arguments.domain ≠ state.binDomain) (made : Constraint.new order state info arguments = .ok (constraint, final)) :
    constraint.Beside state := by
  have built := (Built.new present made).1
  refine ⟨⟨arguments, built⟩, built.domain ▸ beside, ?_⟩
  rintro balance rfl domainId
  cases arguments with
  | metric | drain => cases built
  | loadBalancing domain domainIds metric maxDelta faultWeightMultiplier =>
    rw [Constraint.new, LoadBalancingConstraint.new_eq domainIds metric maxDelta order info present domain faultWeightMultiplier
      (resolves_unmoved _)] at made
    cases made
    simp [LoadBalancingConstraint.commitMoves, LoadBalancingConstraint.canaried, LoadBalancingConstraint.initial]

private theorem canaryMoves_beside {constraint after : Constraint} {committedMoves canariedMoves : MovementMap}
    (beside : constraint.Beside state)
    (canaried : ConstraintOps.canaryMoves order state (some committedMoves) (some canariedMoves) constraint info = .ok (after, final)) :
    after.Beside state := by
  obtain ⟨⟨arguments, built⟩, domain, unset⟩ := beside
  have still := built.canaried canaried
  refine ⟨⟨arguments, still⟩, ?_, ?_⟩
  · rw [still.domain, ← built.domain]
    exact domain
  · rintro balance rfl domainId
    cases constraint with
    | metric constraint =>
      obtain ⟨_, _, finished⟩ := Checked.bind_ok canaried
      cases finished
    | drain constraint =>
      obtain ⟨_, _, finished⟩ := Checked.bind_ok canaried
      cases finished
    | loadBalancing constraint =>
      obtain ⟨⟨result, weights⟩, called, finished⟩ := Checked.bind_ok canaried
      cases finished
      obtain ⟨_, _, called⟩ := Checked.bind_ok called
      obtain ⟨_, _, called⟩ := Checked.bind_ok called
      cases called
      change constraint.domainFaultMap.clear.get domainId = none ∧ constraint.domainFaultMap.clear.getFromCommittedMap domainId = none
      rw [CommittableMap.get_clear, CommittableMap.committed_clear]
      exact ⟨(unset _ rfl domainId).2, (unset _ rfl domainId).2⟩

private theorem commitMoves_beside {constraint : Constraint} (beside : constraint.Beside state) : constraint.commitMoves.Beside state := by
  obtain ⟨⟨arguments, built⟩, domain, unset⟩ := beside
  have still : Built state arguments constraint.commitMoves := (bare_commitMoves constraint).trans built
  refine ⟨⟨arguments, still⟩, ?_, ?_⟩
  · rw [still.domain, ← built.domain]
    exact domain
  · intro balance same domainId
    cases constraint with
    | metric | drain => cases same
    | loadBalancing constraint =>
      cases same
      rw [LoadBalancingConstraint.commitMoves, CommittableMap.get_commit, CommittableMap.committed_commit]
      exact ⟨(unset _ rfl domainId).1, (unset _ rfl domainId).1⟩

/-- A constructor adds nothing to the bins exactly if the loads are level. -/
private theorem new_noBinWeight_iff (numbered : state.Numbered) {arguments : Arguments} {constraint : Constraint}
    (beside : arguments.domain ≠ state.binDomain) (none : info.NoBinWeight)
    (made : Constraint.new order state info arguments = .ok (constraint, final)) :
    final.NoBinWeight ↔ arguments.AddNothing state := by
  have shares := shareOf_beside (new_beside numbered.movementMap beside made)
  have still : arguments.KeepFaults → final.NoBinWeight := by
    intro keepFaults binId
    obtain ⟨weight, _, _, settled⟩ := (binAccount state binId).new_share keepFaults made
    rw [shares, add_zero] at weight
    rw [← BinWeightInfo.binWeight_clear, settled]
    exact ⟨weight.trans (none binId).1, weight.trans (none binId).1⟩
  cases arguments with
  | metric consistency domain domainIds metric capacity faultWeight => exact iff_of_true (still trivial) trivial
  | drain consistency domain domainIds faultWeight => exact iff_of_true (still trivial) trivial
  | loadBalancing domain domainIds metric maxDelta faultWeightMultiplier =>
    have settled : final.clear = final := (Built.new numbered.movementMap made).2.1
    obtain ⟨⟨result, weights⟩, called, finished⟩ := Checked.bind_ok made
    cases finished
    have added := LoadBalancingConstraint.new_binWeight numbered called
    rw [Arguments.AddNothing, ← LoadBalancingConstraint.level_iff fun domainId => rfl]
    refine forall_congr' fun binId => ?_
    rw [← BinWeightInfo.binWeight_clear, settled, and_self, added, (none binId).1, zero_add]

/-- A canary adds nothing to the bins exactly if the loads are level. -/
private theorem canaryMoves_noBinWeight_iff (numbered : state.Numbered) {constraint after : Constraint}
    {committedMoves canariedMoves : MovementMap} (beside : constraint.Beside state) (none : info.NoBinWeight)
    (canaried : ConstraintOps.canaryMoves order state (some committedMoves) (some canariedMoves) constraint info = .ok (after, final)) :
    final.NoBinWeight ↔ constraint.AddsNothing state committedMoves canariedMoves := by
  obtain ⟨_, cleared⟩ := LawfulConstraint.rollback_canaryMoves _ _ _ _ _ _ _ _ canaried
  have committed : ∀ binId, final.committedBinWeight binId = 0 := by
    intro binId
    rw [← BinWeightInfo.binWeight_clear, cleared, BinWeightInfo.binWeight_clear]
    exact (none binId).2
  have views : final.NoBinWeight ↔ ∀ binId, final.binWeight binId = 0 :=
    forall_congr' fun binId => and_iff_left (committed binId)
  rw [views]
  have still : constraint.KeepsFaults → ∀ binId, final.binWeight binId = 0 := by
    intro keepsFaults binId
    have share := (binAccount state binId).canaryMoves_share keepsFaults canaried
    rw [shareOf_beside (canaryMoves_beside beside canaried), shareOf_beside (rollback_beside beside), sub_zero, sub_zero] at share
    exact share.trans (none binId).1
  cases constraint with
  | metric constraint => exact iff_of_true (still trivial) trivial
  | drain constraint => exact iff_of_true (still trivial) trivial
  | loadBalancing constraint =>
    obtain ⟨arguments, built⟩ := beside.built
    have added := LoadBalancingConstraint.canaryMoves_binWeight numbered built canaried
    rw [AddsNothing, ← LoadBalancingConstraint.level_iff fun domainId => (beside.unset constraint rfl domainId).2]
    refine forall_congr' fun binId => ?_
    rw [added, (none binId).1, zero_add]

end Constraint

/-- The constraints of a state while they are used: their objects, the weights, and
which of them have been constructed. -/
structure Usage (ι : Type) where
  world : World ι Constraint
  constructed : List ι

namespace Usage

inductive Step (ι : Type) where
  | construct (constraint : ι) (order : HashOrder) (arguments : Constraint.Arguments)
  | clear
  | canary (constraint : ι) (order : HashOrder) (committedMoves canariedMoves : MovementMap)
  | commit (constraint : ι)

variable {ι : Type} [DecidableEq ι] (state : SolvingState)

def perform (usage : Usage ι) : Step ι → Except Fault (Usage ι)
  | .construct constraint order arguments => do
    let (object, info) ← Constraint.new order state usage.world.binWeightInfo arguments
    pure ⟨⟨Function.update usage.world.objects constraint object, info⟩, constraint :: usage.constructed⟩
  | .clear => pure { usage with world := { usage.world with binWeightInfo := usage.world.binWeightInfo.clear } }
  | .canary constraint order committedMoves canariedMoves => do
    let (object, info) ← ConstraintOps.canaryMoves order state (some committedMoves) (some canariedMoves)
      (usage.world.objects constraint) usage.world.binWeightInfo
    pure { usage with world := ⟨Function.update usage.world.objects constraint object, info⟩ }
  | .commit constraint => pure { usage with world := IterativeLocalSearch.commit usage.world constraint }

/-- Constraints over the bins are not constructed, and only constructed ones are used. -/
def Allowed (usage : Usage ι) : Step ι → Prop
  | .construct _ _ arguments => arguments.domain ≠ state.binDomain
  | .clear => True
  | .canary constraint _ _ _ => constraint ∈ usage.constructed
  | .commit constraint => constraint ∈ usage.constructed

instance (usage : Usage ι) : ∀ step, Decidable (Allowed state usage step)
  | .construct _ _ arguments => inferInstanceAs (Decidable (arguments.domain ≠ state.binDomain))
  | .clear => isTrue trivial
  | .canary constraint _ _ _ => inferInstanceAs (Decidable (constraint ∈ usage.constructed))
  | .commit constraint => inferInstanceAs (Decidable (constraint ∈ usage.constructed))

def machine : Machine (Usage ι) (Step ι) := .ofSteps (Allowed state) (perform state)

/-- The loads that the step balances are level. -/
def AddsNothing (usage : Usage ι) : Step ι → Prop
  | .construct _ _ arguments => arguments.AddNothing state
  | .clear => True
  | .canary constraint _ committedMoves canariedMoves =>
    (usage.world.objects constraint).AddsNothing state committedMoves canariedMoves
  | .commit _ => True

instance (usage : Usage ι) : ∀ step, Decidable (AddsNothing state usage step)
  | .construct _ _ arguments => inferInstanceAs (Decidable (arguments.AddNothing state))
  | .clear => isTrue trivial
  | .canary constraint _ committedMoves canariedMoves =>
    inferInstanceAs (Decidable ((usage.world.objects constraint).AddsNothing state committedMoves canariedMoves))
  | .commit _ => isTrue trivial

def NoBinWeight (usage : Usage ι) : Prop := usage.world.binWeightInfo.NoBinWeight

def AllBeside (usage : Usage ι) : Prop := ∀ constraint ∈ usage.constructed, (usage.world.objects constraint).Beside state

def start (objects : ι → Constraint) : Usage ι := ⟨⟨objects, .empty⟩, []⟩

variable {state} {usage after : Usage ι} {step : Step ι}

theorem performed (enabled : (machine state).enabled usage step) :
    Allowed state usage step ∧ perform state usage step = .ok ((machine state).next usage step) := by
  refine ⟨enabled.1, ?_⟩
  have ok := enabled.2
  change _ = Except.ok ((perform state usage step).toOption.getD usage)
  cases done : perform state usage step with
  | error fault =>
    rw [done] at ok
    cases ok
  | ok after => rfl

private theorem leads_cons {steps : List (Step ι)} {reaches : Usage ι → Prop} (allowed : Allowed state usage step)
    (done : perform state usage step = .ok after) (leads : (machine state).Leads after steps reaches) :
    (machine state).Leads usage (step :: steps) reaches := by
  have next : (machine state).next usage step = after := by
    change (perform state usage step).toOption.getD usage = after
    rw [done]
    rfl
  rw [← next] at leads
  refine ⟨⟨⟨allowed, ?_⟩, leads.1⟩, leads.2⟩
  rw [done]
  rfl

private theorem perform_beside (present : state.movementMap = some {}) (beside : AllBeside state usage) (allowed : Allowed state usage step)
    (done : perform state usage step = .ok after) : AllBeside state after := by
  cases step with
  | construct constraint order arguments =>
    obtain ⟨⟨object, info⟩, made, done⟩ := Checked.bind_ok done
    cases done
    intro other constructed
    by_cases here : other = constraint
    · subst here
      simpa using Constraint.new_beside present allowed made
    · simpa [here] using beside other ((List.mem_cons.mp constructed).resolve_left here)
  | clear =>
    cases done
    exact beside
  | canary constraint order committedMoves canariedMoves =>
    obtain ⟨⟨object, info⟩, canaried, done⟩ := Checked.bind_ok done
    cases done
    intro other constructed
    by_cases here : other = constraint
    · subst here
      simpa using Constraint.canaryMoves_beside (beside other constructed) canaried
    · simpa [here] using beside other constructed
  | commit constraint =>
    cases done
    intro other constructed
    by_cases here : other = constraint
    · subst here
      have committed := Constraint.commitMoves_beside (beside other constructed)
      simp only [commit, Function.update_self]
      exact committed
    · simpa [commit, here] using beside other constructed

/-- Each step leaves the bins without weight exactly if it evaluates level trees. -/
private theorem perform_noBinWeight_iff (numbered : state.Numbered) (beside : AllBeside state usage) (none : usage.NoBinWeight)
    (allowed : Allowed state usage step)
    (done : perform state usage step = .ok after) : after.NoBinWeight ↔ AddsNothing state usage step := by
  cases step with
  | construct constraint order arguments =>
    obtain ⟨⟨object, info⟩, made, done⟩ := Checked.bind_ok done
    cases done
    exact Constraint.new_noBinWeight_iff numbered allowed none made
  | clear =>
    cases done
    refine iff_of_true (fun binId => ?_) trivial
    change usage.world.binWeightInfo.clear.binWeight binId = 0 ∧ usage.world.binWeightInfo.clear.committedBinWeight binId = 0
    rw [BinWeightInfo.binWeight_clear, BinWeightInfo.committedBinWeight_clear]
    exact ⟨(none binId).2, (none binId).2⟩
  | canary constraint order committedMoves canariedMoves =>
    obtain ⟨⟨object, info⟩, canaried, done⟩ := Checked.bind_ok done
    cases done
    exact Constraint.canaryMoves_noBinWeight_iff numbered (beside constraint allowed) none canaried
  | commit constraint =>
    cases done
    exact iff_of_true (Constraint.commit_noBinWeight.mpr fun binId => (none binId).1) trivial

section Search
variable (state) (order : HashOrder) (constraints constructed : List ι)

def stepsOf : Event ι Constraint → List (Step ι)
  | .iteration _ => []
  | .passed _ => []
  | .evaluated committedMoves canariedMoves _ =>
    .clear :: constraints.map fun constraint => .canary constraint order committedMoves canariedMoves
  | .committed _ _ _ => constraints.map .commit

/-- A fault that stops the search is one of the next canary. -/
def StopsAt : Stop → Usage ι → Prop
  | .fault fault, usage => ∃ constraint ∈ constraints, ∃ committedMoves canariedMoves,
      perform state usage (.canary constraint order committedMoves canariedMoves) = .error fault
  | .outOfDraws, _ => True

variable {state order constraints constructed} {committedMoves canariedMoves : MovementMap} {world : World ι Constraint}

private theorem canary_next {constraint : ι} {object : Constraint} {info : BinWeightInfo}
    (canaried : ConstraintOps.canaryMoves order state (some committedMoves) (some canariedMoves) (world.objects constraint)
      world.binWeightInfo = .ok (object, info)) :
    perform state ⟨world, constructed⟩ (.canary constraint order committedMoves canariedMoves) =
      .ok ⟨⟨Function.update world.objects constraint object, info⟩, constructed⟩ := by
  rw [perform, canaried]
  rfl

private theorem updateWeights_leads {final : World ι Constraint} (listed : ∀ constraint ∈ constraints, constraint ∈ constructed)
    (updated : updateWeights order state constraints committedMoves canariedMoves world = .ok final) :
    (machine state).Leads ⟨world, constructed⟩
      (constraints.map fun constraint => .canary constraint order committedMoves canariedMoves)
      (· = ⟨final, constructed⟩) := by
  induction constraints generalizing world with
  | nil =>
    cases updated
    exact ⟨trivial, rfl⟩
  | cons constraint constraints ih =>
    rw [updateWeights, List.foldlM_cons] at updated
    obtain ⟨middle, turn, rest⟩ := Checked.bind_ok updated
    obtain ⟨⟨object, info⟩, canaried, turn⟩ := Checked.bind_ok turn
    cases turn
    have allowed : Allowed state ⟨world, constructed⟩ (.canary constraint order committedMoves canariedMoves) :=
      listed constraint (by simp)
    exact leads_cons allowed (canary_next canaried) (ih (fun other member => listed other (by simp [member])) rest)

/-- Where the weights cannot be updated, some canaries are taken before the one that fails. -/
private theorem updateWeights_stops {fault : Fault} (listed : ∀ constraint ∈ constraints, constraint ∈ constructed)
    (failed : updateWeights order state constraints committedMoves canariedMoves world = .error fault) :
    ∃ taken, (machine state).Leads ⟨world, constructed⟩ taken (StopsAt state order constraints (.fault fault)) := by
  induction constraints generalizing world with
  | nil => cases failed
  | cons constraint constraints ih =>
    rw [updateWeights, List.foldlM_cons] at failed
    cases canaried : ConstraintOps.canaryMoves order state (some committedMoves) (some canariedMoves)
        (world.objects constraint) world.binWeightInfo with
    | error other =>
      rw [canaried] at failed
      cases failed
      refine ⟨[], trivial, constraint, by simp, committedMoves, canariedMoves, ?_⟩
      rw [Machine.after_nil, perform, canaried]
      rfl
    | ok result =>
      rw [canaried] at failed
      have allowed : Allowed state ⟨world, constructed⟩ (.canary constraint order committedMoves canariedMoves) :=
        listed constraint (by simp)
      obtain ⟨taken, runs, other, member, stops⟩ := ih (fun other member => listed other (by simp [member])) failed
      exact ⟨_ :: taken, leads_cons allowed (canary_next canaried) ⟨runs, other, by simp [member], stops⟩⟩

private theorem commitAll_leads (listed : ∀ constraint ∈ constraints, constraint ∈ constructed) :
    (machine state).Leads ⟨world, constructed⟩ (constraints.map .commit) (· = ⟨commitAll constraints world, constructed⟩) := by
  induction constraints generalizing world with
  | nil => exact ⟨trivial, rfl⟩
  | cons constraint constraints ih =>
    have allowed : Allowed state ⟨world, constructed⟩ (.commit constraint) := listed constraint (by simp)
    have done : perform state ⟨world, constructed⟩ (.commit constraint) = .ok ⟨commit world constraint, constructed⟩ := rfl
    exact leads_cons allowed done (ih fun other member => listed other (by simp [member]))

private theorem clear_leads {steps : List (Step ι)} {reaches : Usage ι → Prop}
    (leads : (machine state).Leads ⟨{ world with binWeightInfo := world.binWeightInfo.clear }, constructed⟩ steps reaches) :
    (machine state).Leads ⟨world, constructed⟩ (.clear :: steps) reaches := by
  have allowed : Allowed state ⟨world, constructed⟩ .clear := trivial
  exact leads_cons allowed rfl leads

variable (state order) in
/-- The search takes the steps that its events stand for, on the world it holds. -/
private theorem search_runs (listed : ∀ constraint ∈ constraints, constraint ∈ constructed) :
    RunRule order state constraints (machine state) (stepsOf order constraints)
      (fun search usage => usage = ⟨search.world, constructed⟩) (fun _ search usage => usage = ⟨search.world, constructed⟩)
      (fun stop usage => ∃ rest, (machine state).Leads usage rest (StopsAt state order constraints stop)) where
  draws _ _ _ holds := holds
  exhausted _ := ⟨[], trivial, trivial⟩
  passed _ _ _ holds := ⟨trivial, holds⟩
  noted _ _ holds := ⟨trivial, holds⟩
  failed := by
    rintro search shard nextBin fault _ rfl _ failed
    obtain ⟨taken, leads⟩ := updateWeights_stops listed failed
    exact ⟨.clear :: taken, clear_leads leads⟩
  rejected := by
    rintro search shard nextBin world _ rfl _ evaluated _
    exact clear_leads (updateWeights_leads listed evaluated)
  accepted := by
    rintro search shard nextBin world _ rfl _ evaluated _
    exact clear_leads (updateWeights_leads listed evaluated)
  committed := by
    rintro top movement search _ rfl
    exact commitAll_leads listed

end Search

/-- In a run of constructors, canaries and commits of constraints beside the bins, no entry of
the weights of bins becomes non-zero exactly if the loads that are balanced are level at every
step. A call of `solve` takes the steps of such a run. -/
theorem bin_weights_iff (shardInfoVector : List ShardInfo) (metricVectors : List (List MetricValue))
    (domainMapping : List (List (List DomainId))) {state : SolvingState}
    (built : state = (SolvingState.new shardInfoVector metricVectors domainMapping).withEmptyMovementMap) (objects : ι → Constraint)
    (steps : List (Step ι)) (runs : (machine state).Runs (start objects) steps) :
    ((machine state).Always NoBinWeight (start objects) steps ↔
      (machine state).EachStep (AddsNothing state) (start objects) steps) ∧
    ∀ (order : HashOrder) (constraints : List ι) (maxIterations : Nat) (draws : List Nat),
      let usage := (machine state).after (start objects) steps
      let searched := solve order state constraints maxIterations draws usage.world
      (∀ constraint ∈ constraints, constraint ∈ usage.constructed) →
      ∃ rest,
        let taken := steps ++ (searched.events.flatMap (stepsOf order constraints) ++ rest)
        (machine state).Runs (start objects) taken ∧
        (∀ final, searched.result = .ok final →
          rest = [] ∧ (machine state).after (start objects) taken = ⟨final.world, usage.constructed⟩) ∧
        ∀ stop, searched.result = .error stop →
          StopsAt state order constraints stop ((machine state).after (start objects) taken) := by
  have numbered : state.Numbered := built ▸ SolvingState.numbered_new shardInfoVector metricVectors domainMapping
  constructor
  · have preserved : ∀ (usage : Usage ι) step, AllBeside state usage → (machine state).enabled usage step →
        AllBeside state ((machine state).next usage step) := by
      intro usage step beside enabled
      obtain ⟨allowed, done⟩ := performed enabled
      exact perform_beside numbered.movementMap beside allowed done
    have exact : ∀ (usage : Usage ι) step, AllBeside state usage → usage.NoBinWeight → (machine state).enabled usage step →
        (((machine state).next usage step).NoBinWeight ↔ AddsNothing state usage step) := by
      intro usage step beside none enabled
      obtain ⟨allowed, done⟩ := performed enabled
      exact perform_noBinWeight_iff numbered beside none allowed done
    refine runs.always_iff preserved exact ?_ ?_
    · intro constraint member
      cases member
    · intro binId
      simp [start, BinWeightInfo.binWeight, BinWeightInfo.committedBinWeight, BinWeightInfo.empty]
  · intro order constraints maxIterations draws usage searched listed
    have performs := (search_runs state order listed).iterate maxIterations
      (IterativeLocalSearch.start usage.world draws) usage rfl
    cases result : searched.result with
    | ok final =>
      refine ⟨[], ?_, ?_, by rintro _ ⟨⟩⟩
      · rw [List.append_nil]
        exact runs.append performs.runs
      · rintro _ ⟨⟩
        rw [List.append_nil, Machine.after_append]
        exact ⟨rfl, performs.results final result⟩
    | error stop =>
      obtain ⟨rest, later, stops⟩ := performs.stops stop result
      refine ⟨rest, runs.append (performs.runs.append later), by rintro _ ⟨⟩, ?_⟩
      rintro _ ⟨⟩
      rw [Machine.after_append, Machine.after_append]
      exact stops

open LoadBalancingConstraint (fullBins)

def rackOutOfBalance : Step Unit := .construct () .insertion (.loadBalancing 2 [0] 0 0 id)

/-- The rack is numbered 0, and its imbalance becomes the weight of bin 0. -/
theorem rack_weighs_as_bin :
    (machine fullBins).Runs (start fun _ => .drain drainedBin.1) [rackOutOfBalance] ∧
      ¬ (machine fullBins).Always NoBinWeight (start fun _ => .drain drainedBin.1) [rackOutOfBalance] := by
  refine ⟨⟨⟨by decide, by decide +kernel⟩, trivial⟩, ?_⟩
  intro always
  have weight := (always [rackOutOfBalance] [] rfl 0).1
  revert weight
  decide +kernel

def twoRacks : SolvingState := (SolvingState.new [] [[5, 7, 9]] [[[2], [0, 1]], [[0], [1]]]).withEmptyMovementMap

def racksConstructed : List (Step Bool) :=
  [.construct true .insertion (.loadBalancing 2 [0, 1] 0 10 id), .construct false .insertion (.metric .after 2 [1] 0 10 1)]

theorem bin_weights_iff_racks :
    let racks : Usage Bool := start fun _ => .drain drainedBin.1
    let usage := (machine twoRacks).after racks racksConstructed
    let searched := solve .insertion twoRacks [true, false] 1 [0, 0] usage.world
    ∃ final, searched.result = .ok final ∧ final.committedMoves.getNextBin 0 = some 0 ∧
      (machine twoRacks).Always NoBinWeight racks (racksConstructed ++ searched.events.flatMap (stepsOf .insertion [true, false])) := by
  intro racks usage searched
  have runs : (machine twoRacks).Runs racks racksConstructed :=
    ⟨⟨by decide, by decide +kernel⟩, ⟨by decide, by decide +kernel⟩, trivial⟩
  obtain ⟨_, searches⟩ := bin_weights_iff [] [[5, 7, 9]] [[[2], [0, 1]], [[0], [1]]] (rfl : twoRacks = _)
    (fun _ : Bool => .drain drainedBin.1) racksConstructed runs
  obtain ⟨rest, later, returns, _⟩ := searches .insertion [true, false] 1 [0, 0] (by decide)
  have returned := Checked.ok_get searched.result (by decide +kernel)
  obtain ⟨rfl, _⟩ := returns _ returned
  rw [List.append_nil] at later
  refine ⟨_, returned, by decide +kernel, ?_⟩
  rw [(bin_weights_iff [] [[5, 7, 9]] [[[2], [0, 1]], [[0], [1]]] (rfl : twoRacks = _) (fun _ : Bool => .drain drainedBin.1) _ later).1]
  decide +kernel

end Usage
end ShardManager

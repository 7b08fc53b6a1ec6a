import ShardManager.Proofs.AnyOrder

/-! A constraint over some of the nodes of another one. Its tree is a part of the other
tree, and what it has for its nodes is what the other one has for them. -/

namespace ShardManager
open SparseMappingTree

section Parts
variable {state : SolvingState} {whole sub : SparseMappingTree} {domain : Domain} {domainIds subIds : List DomainId}

private theorem part_mono (isWhole : Part state.assignmentTree whole domain domainIds) (isSub : Part state.assignmentTree sub domain subIds)
    (fewer : subIds ⊆ domainIds) {node : Node} (mapped : sub.Mapped node) : whole.Mapped node := by
  obtain ⟨height, top⟩ := Nat.exists_eq_add_of_le (isSub.mapped node mapped).2
  induction height generalizing node with
  | zero =>
    obtain ⟨nodeDomain, domainId⟩ := node
    obtain rfl : domain = nodeDomain := top
    obtain ⟨given, isSome⟩ := (isSub.given domainId).mp mapped
    exact (isWhole.given domainId).mpr ⟨fewer given, isSome⟩
  | succ height ih =>
    have under : node.1 < domain := by
      rw [top]
      exact Nat.lt_add_of_pos_right (Nat.succ_pos height)
    obtain ⟨parent, parentMapped, above, listed⟩ := isSub.below node mapped under
    have parentTop : domain = parent.1 + height := by rw [top, above, Nat.add_assoc, Nat.add_comm 1 height]
    exact isWhole.closed parent (ih parentMapped parentTop) node.1 above node.2 listed (isSub.mapped node mapped).1

def Within (sub : SparseMappingTree) (node : Node) : Prop := node.1 = 0 ∨ sub.Mapped node

private theorem agreeOn_part (isWhole : Part state.assignmentTree whole domain domainIds)
    (isSub : Part state.assignmentTree sub domain subIds) (fewer : subIds ⊆ domainIds) (hasBin : sub.HasBin) :
    AgreeOn (Within sub) binsUp whole sub := by
  have mapped : ∀ index domainId, Within sub (binsUp index, domainId) →
      sub.Mapped (binsUp index, domainId) ∧ whole.Mapped (binsUp index, domainId) := by
    rintro index domainId (shard | mapped)
    · cases shard
    · exact ⟨mapped, part_mono isWhole isSub fewer mapped⟩
  have parents : ∀ index domainId child, Within sub (binsUp index, domainId) →
      ((binsUp index, domainId) ∈ whole.staticParents index child ↔ (binsUp index, domainId) ∈ sub.staticParents index child) := by
    intro index domainId child within
    obtain ⟨inSub, inWhole⟩ := mapped index domainId within
    rw [isWhole.hierarchy.parents, isSub.hierarchy.parents, isWhole.children _ inWhole, isSub.children _ inSub]
  constructor
  · exact isWhole.hierarchy.shards.trans isSub.hierarchy.shards.symm
  · exact isWhole.hierarchy.bins.trans isSub.hierarchy.bins.symm
  · intro shardId
    exact .inl isWhole.hierarchy.shards
  · intro binId shardId within
    rw [isWhole.hierarchy.shards]
    exact parents 0 binId shardId within
  · intro binId within
    obtain ⟨inSub, inWhole⟩ := mapped 0 binId within
    exact iff_of_true inWhole.2 inSub.2
  · intro index domainId within
    obtain ⟨inSub, inWhole⟩ := mapped index domainId within
    obtain ⟨child, found⟩ := Option.isSome_iff_exists.mp inSub.1
    obtain ⟨other, otherFound⟩ := Option.isSome_iff_exists.mp inWhole.1
    have same : child = other :=
      Nat.succ.inj ((isSub.hierarchy.below _ _ found).symm.trans (isWhole.hierarchy.below _ _ otherFound))
    rw [found, otherFound, same]
  · intro index domainId child within
    exact parents (index + 1) domainId child within
  · intro index domainId child within parent
    obtain ⟨inSub, inWhole⟩ := mapped (index + 1) domainId within
    rw [isWhole.hierarchy.parents] at parent
    rw [isWhole.children _ inWhole] at parent
    have inside : index < domain := Nat.lt_of_succ_lt (isSub.mapped _ inSub).2
    obtain ⟨other, otherMapped⟩ := mapped_between isSub hasBin index inside
    exact .inr (isSub.closed _ inSub (index + 1) rfl child parent.2 (isSub.mapped _ otherMapped).1)

end Parts

namespace Constraint.Arguments

def onIds (domainIds : List DomainId) : Arguments → Arguments
  | .metric consistency domain _ metricId capacity faultWeight => .metric consistency domain domainIds metricId capacity faultWeight
  | .drain consistency domain _ faultWeight => .drain consistency domain domainIds faultWeight
  | .loadBalancing domain _ metricId maxDelta faultWeightMultiplier =>
    .loadBalancing domain domainIds metricId maxDelta faultWeightMultiplier

end Constraint.Arguments

namespace Counter
variable {state : SolvingState} {domainIds subIds : List DomainId} {whole sub : Counter}

/-- A counter of the same kind over fewer nodes has for them what the whole one has. -/
structure Restricts (whole sub : Counter) : Prop where
  tallies : whole.Tallies
  subTallies : sub.Tallies
  metrics : ∀ node, sub.part.Mapped node → whole.metric node = sub.metric node

/-- Two counters of one constraint, over some nodes and over fewer of them. -/
structure Fewer (state : SolvingState) (domainIds subIds : List DomainId) (whole sub : Counter) : Prop where
  isOver : Over state domainIds whole
  subOver : Over state subIds sub
  fewer : subIds ⊆ domainIds
  calculation : whole.calculation = sub.calculation
  domain : whole.domain = sub.domain
  fault : whole.fault = sub.fault
  agree : Agree state (Within sub.part) binsUp whole sub

theorem Restricts.faults (restricts : Restricts whole sub) (sameDomain : whole.domain = sub.domain) (sameFault : whole.fault = sub.fault)
    {domainId : DomainId} (mapped : sub.part.Mapped (sub.domain, domainId)) : whole.faults domainId = sub.faults domainId := by
  rw [restricts.tallies.faults, restricts.subTallies.faults, sameDomain, sameFault, restricts.metrics _ mapped]

/-- The same moves keep what the whole one has for the nodes. -/
theorem Restricts.canaried (hierarchical : state.Hierarchical) (fewer : Fewer state domainIds subIds whole sub)
    (restricts : Restricts whole sub) (order otherOrder : HashOrder) {movementMaps others : List MovementMap}
    (same : List.Forall₂ SameMoves movementMaps others) {shardIds otherIds : List DomainId}
    (entered : SameEntered state (Within sub.part) binsUp whole sub movementMaps others shardIds otherIds)
    (info otherInfo : BinWeightInfo) :
    Restricts (whole.canaried order state movementMaps shardIds info).1.committed
      (sub.canaried otherOrder state others otherIds otherInfo).1.committed := by
  have shards := hierarchical.shardDomain
  refine ⟨canaried_tallies order movementMaps shardIds info fewer.isOver.part.hierarchy shards fewer.isOver.records
      fewer.isOver.above restricts.tallies,
    canaried_tallies otherOrder others otherIds otherInfo fewer.subOver.part.hierarchy shards fewer.subOver.records fewer.subOver.above
      restricts.subTallies, ?_⟩
  have commitsSame : CommitsSame (Within sub.part) whole sub := by
    constructor
    · rintro ⟨nodeDomain, domainId⟩ (rfl | mapped)
      · rw [restricts.tallies.unmapped _ (fewer.isOver.part.hierarchy.shards_unmapped domainId),
          restricts.subTallies.unmapped _ (fewer.subOver.part.hierarchy.shards_unmapped domainId)]
      · exact restricts.metrics _ mapped
    · rintro domainId (shard | mapped)
      · exact absurd shard fewer.isOver.above
      · exact restricts.faults fewer.domain fewer.fault (fewer.domain ▸ mapped)
  intro node mapped
  exact (fewer.agree.canaried commitsSame order otherOrder same entered info otherInfo).metrics node (.inr mapped)

theorem Over.sameKind {counter : Counter} (isOver : Over state domainIds whole) (same : SameKind whole counter) :
    Over state domainIds counter := by
  obtain ⟨part, calculation, domain, fault⟩ := same
  exact ⟨by rw [part, domain]; exact isOver.part, by rw [calculation, domain, fault]; exact isOver.records,
    by rw [part]; exact isOver.hasBin, by rw [domain]; exact isOver.above⟩

theorem Fewer.sameKind {counter other : Counter} (fewer : Fewer state domainIds subIds whole sub) (same : SameKind whole counter)
    (otherSame : SameKind sub other) : Fewer state domainIds subIds counter other where
  isOver := fewer.isOver.sameKind same
  subOver := fewer.subOver.sameKind otherSame
  fewer := fewer.fewer
  calculation := same.calculation.trans (fewer.calculation.trans otherSame.calculation.symm)
  domain := same.domain.trans (fewer.domain.trans otherSame.domain.symm)
  fault := same.fault.trans (fewer.fault.trans otherSame.fault.symm)
  agree := by
    rw [otherSame.part]
    exact fewer.agree.sameKind same otherSame

theorem Over.unlisted {counter : Counter} (isOver : Over state domainIds counter) (tallies : counter.Tallies) {domainId : DomainId}
    (unlisted : domainId ∉ domainIds) : counter.faults domainId = none := by
  rw [tallies.faults, tallies.unmapped, Option.map_none]
  intro mapped
  exact unlisted ((isOver.part.given domainId).mp mapped).1

theorem Fewer.listed (fewer : Fewer state domainIds subIds whole sub) (restricts : Restricts whole sub) {domainId : DomainId}
    (listed : domainId ∈ subIds) : whole.faults domainId = sub.faults domainId := by
  obtain ⟨index, above⟩ := Nat.exists_eq_succ_of_ne_zero fewer.subOver.above
  obtain ⟨other, mapped⟩ := mapped_between fewer.subOver.part fewer.subOver.hasBin index (above ▸ Nat.lt_succ_self index)
  refine restricts.faults fewer.domain fewer.fault ((fewer.subOver.part.given domainId).mpr ⟨listed, ?_⟩)
  have isSome := (fewer.subOver.part.mapped _ mapped).1
  rw [above]
  exact isSome

theorem Over.fewer (hierarchical : state.Hierarchical) (isOver : Over state domainIds whole) (subOver : Over state subIds sub)
    (fewer : subIds ⊆ domainIds) (calculation : whole.calculation = sub.calculation) (domain : whole.domain = sub.domain)
    (fault : whole.fault = sub.fault) (reads : ∀ movementMaps others, List.Forall₂ SameMoves movementMaps others →
      AgreeOn (Within sub.part) binsUp whole.part sub.part →
        whole.calculation.ReadsInside (Within sub.part) binsUp whole.part sub.part movementMaps others) :
    Fewer state domainIds subIds whole sub := by
  have agree : AgreeOn (Within sub.part) binsUp whole.part sub.part :=
    agreeOn_part isOver.part (domain ▸ subOver.part) fewer subOver.hasBin
  exact ⟨isOver, subOver, fewer, calculation, domain, fault, isOver.agree hierarchical.shardDomain subOver calculation domain agree
    fun movementMaps others same => reads movementMaps others same agree⟩

theorem Fewer.sameEntered (hierarchical : state.Hierarchical) (fewer : Fewer state domainIds subIds whole sub)
    {shardIds otherIds : List DomainId} (all : shardIds.Perm (whole.part.getAllDomainIds state.shardDomain))
    (otherAll : otherIds.Perm (sub.part.getAllDomainIds state.shardDomain)) :
    SameEntered state (Within sub.part) binsUp whole sub [{}] [{}] shardIds otherIds := by
  have shards := hierarchical.shardDomain
  rw [shards] at all otherAll
  rintro binId (shard | mapped)
  · cases shard
  · have inWhole := part_mono fewer.isOver.part (fewer.domain ▸ fewer.subOver.part) fewer.fewer mapped
    have children : whole.part.children 1 binId = sub.part.children 1 binId :=
      (fewer.isOver.part.children _ inWhole).trans (fewer.subOver.part.children _ mapped).symm
    refine (entered_all state fewer.isOver.part.hierarchy.grounded shards all binId).trans ?_
    rw [children]
    exact (entered_all state fewer.subOver.part.hierarchy.grounded shards otherAll binId).symm

end Counter

namespace Constraint.Arguments
variable {state : SolvingState} {domainIds subIds : List DomainId}

@[simp] theorem domainIds_onIds (arguments : Arguments) (domainIds : List DomainId) :
    (arguments.onIds domainIds).domainIds = domainIds := by
  cases arguments <;> rfl

theorem fewer (hierarchical : state.Hierarchical) (arguments : Arguments)
    (hasBin : ((arguments.onIds domainIds).tree state).HasBin) (subHasBin : ((arguments.onIds subIds).tree state).HasBin)
    (fewer : subIds ⊆ domainIds) {whole sub : Counter} (found : (arguments.onIds domainIds).counter state = some whole)
    (subFound : (arguments.onIds subIds).counter state = some sub) : Counter.Fewer state domainIds subIds whole sub := by
  obtain ⟨isOver, reads⟩ := counter_over hierarchical hasBin found
  obtain ⟨subOver, _⟩ := counter_over hierarchical subHasBin subFound
  rw [domainIds_onIds] at isOver subOver
  obtain ⟨calculation, domain, fault⟩ : whole.calculation = sub.calculation ∧ whole.domain = sub.domain ∧ whole.fault = sub.fault := by
    cases arguments with
    | metric | drain =>
      cases found
      cases subFound
      exact ⟨rfl, rfl, rfl⟩
    | loadBalancing => cases found
  exact isOver.fewer hierarchical subOver fewer calculation domain fault fun _ _ same agree => reads agree same

end Constraint.Arguments
end ShardManager

import ShardManager.Lib.EventRun
import ShardManager.Proofs.Hierarchy

/-! Trees built by any sequence of `addMapping` calls: what their parents have to do
with their children. -/

namespace ShardManager
namespace SparseMappingTree

/-- The arguments of a call of `addMapping`. -/
structure Mapping where
  parent : Node
  childDomain : Domain
  children : List DomainId

/-- A tree takes any call; it logs the ones that it rejects. -/
def machine : Machine SparseMappingTree Mapping where
  enabled _ _ := True
  next tree mapping := tree.addMapping mapping.parent mapping.childDomain mapping.children

/-- The parent's domain has no other child domain. -/
def Accepts (tree : SparseMappingTree) (mapping : Mapping) : Prop :=
  ∀ current, tree.getChildDomain mapping.parent.1 = some current → current = mapping.childDomain

instance (tree : SparseMappingTree) (mapping : Mapping) : Decidable (tree.Accepts mapping) :=
  inferInstanceAs (Decidable (∀ current ∈ tree.getChildDomain mapping.parent.1, current = mapping.childDomain))

/-- The parents of a node are the nodes that list it among their children. -/
def Inverse (tree : SparseMappingTree) : Prop :=
  ∀ parentDomain childDomain, tree.getChildDomain parentDomain = some childDomain → ∀ parentId child,
    ∃ parents, tree.getParents childDomain child [] = .ok parents ∧
      ((parentDomain, parentId) ∈ parents ↔ child ∈ tree.children parentDomain parentId)

/-- An accepted call lists every child that the parent has, and none that another parent
of the domain has. -/
def KeepsInverse (tree : SparseMappingTree) (mapping : Mapping) : Prop :=
  tree.Accepts mapping →
    (∀ child ∈ mapping.children, ∀ other, child ∈ tree.children mapping.parent.1 other → other = mapping.parent.2) ∧
    ∀ child ∈ tree.children mapping.parent.1 mapping.parent.2, child ∈ mapping.children

def IgnoresRejected (tree : SparseMappingTree) (mapping : Mapping) : Prop :=
  ¬ tree.Accepts mapping → machine.next tree mapping = tree

variable {tree : SparseMappingTree} {mapping : Mapping}

private theorem next_rejected (rejected : ¬ tree.Accepts mapping) : machine.next tree mapping = tree :=
  dif_neg rejected

theorem getParents_nil (tree : SparseMappingTree) (domain : Domain) (domainId : DomainId) :
    tree.getParents domain domainId [] = .ok (tree.staticParents domain domainId) := by
  unfold getParents
  split <;> rfl

private theorem inverse_iff : tree.Inverse ↔ ∀ parentDomain childDomain, tree.getChildDomain parentDomain = some childDomain →
    ∀ parentId child, (parentDomain, parentId) ∈ tree.staticParents childDomain child ↔
      child ∈ tree.children parentDomain parentId := by
  constructor
  · intro inverse parentDomain childDomain mapped parentId child
    obtain ⟨parents, found, exact⟩ := inverse parentDomain childDomain mapped parentId child
    rw [getParents_nil] at found
    cases found
    exact exact
  · intro exact parentDomain childDomain mapped parentId child
    exact ⟨_, getParents_nil tree childDomain child, exact parentDomain childDomain mapped parentId child⟩

private theorem getChildDomain_next (accepted : tree.Accepts mapping) (domain : Domain) :
    (machine.next tree mapping).getChildDomain domain =
      if domain = mapping.parent.1 then some mapping.childDomain else tree.getChildDomain domain :=
  getChildDomain_addMapping tree _ _ _ accepted domain

private theorem children_next (accepted : tree.Accepts mapping) (domain : Domain) (domainId : DomainId) :
    (machine.next tree mapping).children domain domainId =
      if (domain, domainId) = mapping.parent then mapping.children else tree.children domain domainId := by
  change ((tree.addMapping _ _ _).parentToChildMap.row domain domainId).getD [] = _
  rw [row_addMapping tree _ _ _ accepted]
  split <;> rfl

theorem mem_staticParents_next (accepted : tree.Accepts mapping) (domain : Domain) (child : DomainId) (node : Node) :
    node ∈ (machine.next tree mapping).staticParents domain child ↔
      node ∈ tree.staticParents domain child ∨
        (∀ other, (node.1, other) ∉ tree.staticParents domain child) ∧ domain = mapping.childDomain ∧
          child ∈ mapping.children ∧ node = mapping.parent := by
  change node ∈ (tree.addMapping _ _ _).staticParents domain child ↔ _
  simp only [mem_staticParents]
  rw [lookup_addMapping tree _ _ _ accepted, Option.or_eq_some_iff, Option.eq_none_iff_forall_ne_some,
    Option.ite_none_right_eq_some, Option.some.injEq]
  refine or_congr_right (and_congr_right fun _ => ?_)
  rw [Prod.ext_iff, eq_comm (a := node.2)]
  tauto

private theorem staticParents_of_unmapped (unmapped : tree.getChildDomain mapping.parent.1 = none) (domain : Domain)
    (child other : DomainId) : (mapping.parent.1, other) ∉ tree.staticParents domain child := by
  intro recorded
  have mapped := (tree.mapped_of_mem_staticParents recorded).1
  rw [unmapped] at mapped
  cases mapped

private theorem Inverse.mem_parents (inverse : tree.Inverse) (accepted : tree.Accepts mapping) (parentId child : DomainId) :
    (mapping.parent.1, parentId) ∈ tree.staticParents mapping.childDomain child ↔
      child ∈ tree.children mapping.parent.1 parentId := by
  cases found : tree.getChildDomain mapping.parent.1 with
  | none =>
    rw [tree.children_of_unmapped found]
    exact iff_of_false (staticParents_of_unmapped found _ _ _) (by simp)
  | some current => exact accepted current found ▸ inverse_iff.mp inverse _ _ found parentId child

private theorem Inverse.mem_parents_next (inverse : tree.Inverse) (accepted : tree.Accepts mapping) (parentId child : DomainId) :
    (mapping.parent.1, parentId) ∈ (machine.next tree mapping).staticParents mapping.childDomain child ↔
      child ∈ tree.children mapping.parent.1 parentId ∨
        (∀ other, child ∉ tree.children mapping.parent.1 other) ∧ child ∈ mapping.children ∧ parentId = mapping.parent.2 := by
  rw [mem_staticParents_next accepted]
  simp only [inverse.mem_parents accepted, Prod.ext_iff]
  tauto

theorem Inverse.next (inverse : tree.Inverse) (accepted : tree.Accepts mapping) (keeps : tree.KeepsInverse mapping) :
    (machine.next tree mapping).Inverse := by
  rw [inverse_iff]
  intro parentDomain childDomain mapped parentId child
  obtain ⟨single, still⟩ := keeps accepted
  rw [getChildDomain_next accepted] at mapped
  rw [children_next accepted]
  split at mapped
  next same =>
    cases mapped
    subst same
    rw [inverse.mem_parents_next accepted]
    by_cases isParent : parentId = mapping.parent.2
    · subst isParent
      rw [if_pos rfl]
      constructor
      · rintro (inParent | ⟨_, listed, _⟩)
        · exact still child inParent
        · exact listed
      · intro listed
        by_cases known : ∃ other, child ∈ tree.children mapping.parent.1 other
        · obtain ⟨other, inOther⟩ := known
          exact .inl (single child listed other inOther ▸ inOther)
        · exact .inr ⟨not_exists.mp known, listed, rfl⟩
    · rw [if_neg fun same => isParent (Prod.ext_iff.mp same).2]
      simp [isParent]
  next other =>
    rw [if_neg fun same => other (Prod.ext_iff.mp same).1, mem_staticParents_next accepted,
      ← inverse_iff.mp inverse parentDomain childDomain mapped parentId child]
    refine or_iff_left fun added => other ?_
    exact (Prod.ext_iff.mp added.2.2.2).1

/-- A call keeps parents and children inverse exactly if it meets the condition. -/
private theorem inverse_next_iff (inverse : tree.Inverse) (mapping : Mapping) :
    (machine.next tree mapping).Inverse ↔ tree.KeepsInverse mapping := by
  by_cases accepted : tree.Accepts mapping
  case neg =>
    rw [next_rejected accepted]
    exact iff_of_true inverse fun accepts => absurd accepts accepted
  constructor
  · intro after _
    have exact := inverse_iff.mp after mapping.parent.1 mapping.childDomain (by rw [getChildDomain_next accepted, if_pos rfl])
    constructor
    · intro child listed other inOther
      by_contra different
      have own := (exact mapping.parent.2 child).mpr (by rw [children_next accepted, if_pos rfl]; exact listed)
      rcases (inverse.mem_parents_next accepted _ child).mp own with inParent | ⟨fresh, _⟩
      · have first := (inverse.mem_parents accepted mapping.parent.2 child).mpr inParent
        have second := (inverse.mem_parents accepted other child).mpr inOther
        rw [mem_staticParents] at first second
        rw [first, Option.some.injEq] at second
        exact different second.symm
      · exact fresh other inOther
    · intro child inParent
      have recorded := (exact mapping.parent.2 child).mp ((inverse.mem_parents_next accepted _ child).mpr (.inl inParent))
      rw [children_next accepted, if_pos rfl] at recorded
      exact recorded
  · exact inverse.next accepted

private theorem inverse_empty (shardDomain binDomain : Domain) : (empty shardDomain binDomain).Inverse := by
  rw [inverse_iff]
  intro parentDomain childDomain mapped
  cases mapped

/-- From an empty tree on, parents are the inverse of children throughout exactly if no
accepted call lists a child of another parent or drops one of its own. -/
theorem parents_inverse_iff (shardDomain binDomain : Domain) (mappings : List Mapping) :
    (machine.Always Inverse (empty shardDomain binDomain) mappings ∧
      machine.EachStep IgnoresRejected (empty shardDomain binDomain) mappings) ↔
        machine.EachStep KeepsInverse (empty shardDomain binDomain) mappings := by
  have exact : machine.Always Inverse (empty shardDomain binDomain) mappings ↔
      machine.EachStep KeepsInverse (empty shardDomain binDomain) mappings :=
    Machine.always_iff_eachStep (fun tree mapping inverse => inverse_next_iff inverse mapping)
      (inverse_empty shardDomain binDomain)
  rw [exact]
  exact ⟨fun both => both.1, fun each => ⟨each, fun _ mapping _ _ rejected => next_rejected rejected⟩⟩

/-- A child named under two parents keeps the first as its parent. -/
theorem shared_child_not_inverse :
    ¬ (machine.Always Inverse (empty 0 1) [⟨(1, 1), 0, [5]⟩, ⟨(1, 2), 0, [5]⟩] ∧
      machine.EachStep IgnoresRejected (empty 0 1) [⟨(1, 1), 0, [5]⟩, ⟨(1, 2), 0, [5]⟩]) := by
  rintro ⟨always, _⟩
  have last := inverse_iff.mp (always _ [] (List.append_nil _).symm) 1 0 (by decide) 2 5
  exact absurd (last.mpr (by decide)) (by decide)

theorem after_domains (mappings : List Mapping) (tree : SparseMappingTree) :
    (machine.after tree mappings).shardDomain = tree.shardDomain ∧
    (machine.after tree mappings).binDomain = tree.binDomain := by
  induction mappings generalizing tree with
  | nil => exact ⟨rfl, rfl⟩
  | cons mapping mappings ih =>
    have rest := ih (machine.next tree mapping)
    exact ⟨rest.1.trans (addMapping_shardDomain _ _ _ _), rest.2.trans (addMapping_binDomain _ _ _ _)⟩

/-- An accepted call maps a parent that has no row yet. -/
def MapsNew (tree : SparseMappingTree) (mapping : Mapping) : Prop :=
  tree.Accepts mapping → tree.parentToChildMap.row mapping.parent.1 mapping.parent.2 = none

/-- Every recorded parent lists the child, and every listed child has a parent in the
domain, though not always the one that lists it. -/
structure Faithful (tree : SparseMappingTree) : Prop where
  sound : ∀ childDomain child node, node ∈ tree.staticParents childDomain child → child ∈ tree.children node.1 node.2
  complete : ∀ parentDomain childDomain, tree.getChildDomain parentDomain = some childDomain → ∀ parentId child,
    child ∈ tree.children parentDomain parentId → ∃ other, (parentDomain, other) ∈ tree.staticParents childDomain child

theorem faithful_empty (shardDomain binDomain : Domain) : Faithful (empty shardDomain binDomain) where
  sound childDomain child node recorded := by
    rw [mem_staticParents] at recorded
    cases recorded
  complete parentDomain childDomain mapped := by cases mapped

theorem Faithful.next (faithful : Faithful tree) (isNew : tree.MapsNew mapping) : Faithful (machine.next tree mapping) := by
  by_cases accepted : tree.Accepts mapping
  case neg => rwa [next_rejected accepted]
  have fresh := isNew accepted
  have childless : tree.children mapping.parent.1 mapping.parent.2 = [] := by
    rw [SparseMappingTree.children, fresh, Option.getD_none]
  constructor
  · intro childDomain child node recorded
    rw [children_next accepted]
    rcases (mem_staticParents_next accepted childDomain child node).mp recorded with old | ⟨_, _, listed, isParent⟩
    · have listed := faithful.sound childDomain child node old
      split
      next same =>
        rw [show node = mapping.parent from same, childless] at listed
        cases listed
      next => exact listed
    · rw [isParent, if_pos rfl]
      exact listed
  · intro parentDomain childDomain mapped parentId child listed
    -- a child that is listed now was listed before, or is one of the call's children
    have covered : (∃ other, (parentDomain, other) ∈ tree.staticParents childDomain child) ∨
        childDomain = mapping.childDomain ∧ child ∈ mapping.children ∧ parentDomain = mapping.parent.1 := by
      rw [getChildDomain_next accepted] at mapped
      rw [children_next accepted] at listed
      split at listed
      next same =>
        obtain ⟨rfl, rfl⟩ := Prod.ext_iff.mp same
        rw [if_pos rfl, Option.some.injEq] at mapped
        exact .inr ⟨mapped.symm, listed, rfl⟩
      next =>
        split at mapped
        next same =>
          subst same
          cases found : tree.getChildDomain mapping.parent.1 with
          | none =>
            rw [tree.children_of_unmapped found] at listed
            cases listed
          | some current =>
            have current := accepted _ found ▸ found
            rw [mapped] at current
            exact .inl (faithful.complete _ _ current parentId child listed)
        next => exact .inl (faithful.complete _ _ mapped parentId child listed)
    by_cases known : ∃ other, (parentDomain, other) ∈ tree.staticParents childDomain child
    · obtain ⟨other, recorded⟩ := known
      exact ⟨other, (mem_staticParents_next accepted childDomain child _).mpr (.inl recorded)⟩
    · obtain ⟨sameDomain, inCall, rfl⟩ := covered.resolve_left known
      exact ⟨mapping.parent.2, (mem_staticParents_next accepted childDomain child _).mpr
        (.inr ⟨not_exists.mp known, sameDomain, inCall, rfl⟩)⟩

/-- Where no parent is mapped twice, a child that no second parent of the domain lists
has the parent that lists it. -/
theorem Faithful.mem_staticParents_iff (faithful : Faithful tree) {parentDomain childDomain : Domain}
    (mapped : tree.getChildDomain parentDomain = some childDomain) {child : DomainId}
    (single : ∀ first second, child ∈ tree.children parentDomain first → child ∈ tree.children parentDomain second →
      first = second) (parentId : DomainId) :
    (parentDomain, parentId) ∈ tree.staticParents childDomain child ↔ child ∈ tree.children parentDomain parentId := by
  constructor
  · exact faithful.sound childDomain child _
  · intro listed
    obtain ⟨other, recorded⟩ := faithful.complete _ _ mapped parentId child listed
    exact single other parentId (faithful.sound _ _ _ recorded) listed ▸ recorded

theorem faithful_after {mappings : List Mapping} (faithful : Faithful tree) (once : machine.EachStep MapsNew tree mappings) :
    Faithful (machine.after tree mappings) := by
  induction mappings generalizing tree with
  | nil => exact faithful
  | cons mapping mappings ih =>
    obtain ⟨first, rest⟩ := Machine.eachStep_cons.mp once
    exact ih (faithful.next first) rest

def twoBins : SparseMappingTree := machine.after (empty 0 1) [⟨(1, 1), 0, [5]⟩, ⟨(1, 2), 0, []⟩]

theorem twoBins_once : machine.EachStep MapsNew (empty 0 1) [⟨(1, 1), 0, [5]⟩, ⟨(1, 2), 0, []⟩] :=
  Machine.eachStep_cons.mpr ⟨fun _ => rfl, Machine.eachStep_cons.mpr ⟨fun _ => rfl, Machine.eachStep_nil⟩⟩

theorem getChildDomain_twoBins (domain : Domain) : twoBins.getChildDomain domain = if domain = 1 then some 0 else none := by
  have none : (empty 0 1).getChildDomain domain = none := rfl
  rw [twoBins, Machine.after_cons, Machine.after_cons, Machine.after_nil, getChildDomain_next (by decide),
    getChildDomain_next (by decide), none]
  grind

private theorem children_twoBins (domain : Domain) (domainId : DomainId) :
    twoBins.children domain domainId = if (domain, domainId) = (1, 1) then [5] else [] := by
  have none : (empty 0 1).children domain domainId = [] := rfl
  rw [twoBins, Machine.after_cons, Machine.after_cons, Machine.after_nil, children_next (by decide),
    children_next (by decide), none]
  grind

theorem twoBins_single (domain : Domain) (child first second : DomainId) (inFirst : child ∈ twoBins.children domain first)
    (inSecond : child ∈ twoBins.children domain second) : first = second := by
  rw [children_twoBins] at inFirst inSecond
  grind

end SparseMappingTree
end ShardManager

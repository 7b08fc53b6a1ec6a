import ShardManager.Lib.EventRun
import ShardManager.Placer.QueriedTree
import ShardManager.Proofs.Mappings

/-! What `getAllDomainIds` and `doesNodeExist` tell of a tree after any calls. One looks
into the map of parents or the map of rows, the other into both. -/

namespace ShardManager

/-- The call names the node as the parent or among the children. -/
def SparseMappingTree.Mapping.Names (mapping : Mapping) (node : Node) : Prop :=
  mapping.parent = node ∨ mapping.childDomain = node.1 ∧ node.2 ∈ mapping.children

namespace QueriedTree
open SparseMappingTree (Mapping)

inductive Call
  | addMapping (mapping : Mapping)
  | getAllDomainIds (domain : Domain)
  | doesNodeExist (domain : Domain) (domainId : DomainId)

def Call.mapping : Call → Option Mapping
  | addMapping mapping => some mapping
  | getAllDomainIds _ => none
  | doesNodeExist _ _ => none

/-- A tree takes any call. -/
def machine : Machine QueriedTree Call where
  enabled _ _ := True
  next tree
    | .addMapping mapping => tree.addMapping mapping.parent mapping.childDomain mapping.children
    | .getAllDomainIds domain => (tree.getAllDomainIds domain).2
    | .doesNodeExist domain domainId => (tree.doesNodeExist domain domainId).2

/-- One of the calls adds the mapping, and the tree takes it. -/
def Accepted (calls : List Call) (mapping : Mapping) : Prop :=
  ∃ earlier later, calls = earlier ++ .addMapping mapping :: later ∧
    (machine.after empty earlier).Accepts mapping.parent mapping.childDomain

/-- The nodes that are listed are those that exist, and those that a call named. -/
structure NodesAgree (calls : List Call) (tree : QueriedTree) : Prop where
  listed : ∀ domain domainId, domainId ∈ (tree.getAllDomainIds domain).1 ↔ (tree.doesNodeExist domain domainId).1
  once : ∀ domain, (tree.getAllDomainIds domain).1.Nodup
  named : ∀ domain domainId, (tree.doesNodeExist domain domainId).1 ↔
    ∃ mapping, Accepted calls mapping ∧ mapping.Names (domain, domainId)

/-- A child in a domain that some mapping has as its parent's is the parent of a mapping itself. -/
def ChildrenMapped (calls : List Call) : Prop :=
  ∀ mapping, Accepted calls mapping → ∀ child ∈ mapping.children,
    (∃ other, Accepted calls other ∧ other.parent.1 = mapping.childDomain) →
      ∃ own, Accepted calls own ∧ own.parent = (mapping.childDomain, child)

variable {calls : List Call} {tree : QueriedTree}

private theorem shows_after {queried : QueriedTree} {tree : SparseMappingTree}
    (shown : queried.Shows tree) (calls : List Call) :
    (machine.after queried calls).Shows (SparseMappingTree.machine.after tree (calls.filterMap Call.mapping)) := by
  induction calls generalizing queried tree with
  | nil => exact shown
  | cons call calls ih =>
    cases call with
    | addMapping mapping => exact ih (shown.addMapping mapping.parent mapping.childDomain mapping.children)
    | getAllDomainIds domain => exact ih (shown.getAllDomainIds domain).2
    | doesNodeExist domain domainId => exact ih (shown.doesNodeExist domain domainId).2

def childMap (tree : QueriedTree) (domain : Domain) : UnorderedMap DomainId (UnorderedMap Domain DomainId) :=
  (tree.childToParentMap.lookup domain).getD ∅

def parentMap (tree : QueriedTree) (domain : Domain) : UnorderedMap DomainId (List DomainId) :=
  (tree.parentToChildMap.lookup domain).getD ∅

private theorem getAllDomainIds_eq (tree : QueriedTree) (domain : Domain) :
    (tree.getAllDomainIds domain).1 =
      if (tree.parentToChildDomainMap.lookup domain).isSome then (tree.parentMap domain).keys else (tree.childMap domain).keys := by
  unfold getAllDomainIds
  split
  next => exact congrArg AList.keys (getD_emplace _ _ _)
  next => exact congrArg AList.keys (getD_emplace _ _ _)

private theorem doesNodeExist_iff (tree : QueriedTree) (domain : Domain) (domainId : DomainId) :
    (tree.doesNodeExist domain domainId).1 ↔ domainId ∈ tree.childMap domain ∨ domainId ∈ tree.parentMap domain := by
  unfold doesNodeExist
  dsimp only
  rw [getD_emplace, getD_emplace, Bool.or_eq_true, decide_eq_true_iff, decide_eq_true_iff]
  rfl

private theorem mem_emplaceParents (maps : ParentMaps) (parent : Node) (childDomain : Domain) (children : List DomainId)
    (domain : Domain) (child : DomainId) :
    child ∈ ((SparseMappingTree.emplaceParents maps parent childDomain children).lookup domain).getD ∅ ↔
      child ∈ (maps.lookup domain).getD ∅ ∨ childDomain = domain ∧ child ∈ children := by
  induction children generalizing maps with
  | nil => simp [SparseMappingTree.emplaceParents]
  | cons first children ih =>
    refine (ih (maps.emplace childDomain first parent)).trans ?_
    rw [ParentMaps.emplace, UnorderedMap.lookup_insert, List.mem_cons]
    by_cases here : domain = childDomain
    · subst here
      rw [if_pos rfl, Option.getD_some, AList.mem_insert]
      tauto
    · rw [if_neg here]
      tauto

/-- Something that no query changes and that the accepted mappings bring. -/
private theorem brought_iff (holds : QueriedTree → Prop) {brings : Mapping → Prop}
    (added : ∀ (tree : QueriedTree) (mapping : Mapping), tree.Accepts mapping.parent mapping.childDomain →
      (holds (tree.addMapping mapping.parent mapping.childDomain mapping.children) ↔ holds tree ∨ brings mapping))
    (listing : ∀ (tree : QueriedTree) domain, holds (tree.getAllDomainIds domain).2 ↔ holds tree)
    (finding : ∀ (tree : QueriedTree) domain domainId, holds (tree.doesNodeExist domain domainId).2 ↔ holds tree)
    (initially : ¬ holds empty) (calls : List Call) :
    holds (machine.after empty calls) ↔ ∃ mapping, Accepted calls mapping ∧ brings mapping := by
  have step : ∀ tree call, holds (machine.next tree call) ↔
      holds tree ∨ ∃ mapping, call = .addMapping mapping ∧ tree.Accepts mapping.parent mapping.childDomain ∧ brings mapping := by
    intro tree call
    cases call with
    | getAllDomainIds domain => exact (listing tree domain).trans (by simp)
    | doesNodeExist domain domainId => exact (finding tree domain domainId).trans (by simp)
    | addMapping mapping =>
      by_cases accepted : tree.Accepts mapping.parent mapping.childDomain
      · exact (added tree mapping accepted).trans (by simp [accepted])
      · change holds (tree.addMapping _ _ _) ↔ _
        rw [QueriedTree.addMapping, if_neg accepted]
        simp [accepted]
  rw [Machine.after_iff step, or_iff_right initially]
  constructor
  · rintro ⟨earlier, _, later, split, mapping, rfl, accepted, brings⟩
    exact ⟨mapping, ⟨earlier, later, split, accepted⟩, brings⟩
  · rintro ⟨mapping, ⟨earlier, later, split, accepted⟩, brings⟩
    exact ⟨earlier, _, later, split, mapping, rfl, accepted, brings⟩

private theorem childDomain_isSome_iff (calls : List Call) (domain : Domain) :
    ((machine.after empty calls).parentToChildDomainMap.lookup domain).isSome ↔
      ∃ mapping, Accepted calls mapping ∧ mapping.parent.1 = domain := by
  refine brought_iff (fun tree => (tree.parentToChildDomainMap.lookup domain).isSome) ?_ ?_ ?_ ?_ calls
  · intro tree mapping accepted
    rw [QueriedTree.addMapping, if_pos accepted, UnorderedMap.lookup_insert]
    split
    next same => simp [same]
    next other => simp [Ne.symm other]
  · intro tree other
    unfold QueriedTree.getAllDomainIds
    split <;> rfl
  · exact fun tree other domainId => Iff.rfl
  · simp [empty]

private theorem mem_parentMap_iff (calls : List Call) (domain : Domain) (domainId : DomainId) :
    domainId ∈ (machine.after empty calls).parentMap domain ↔
      ∃ mapping, Accepted calls mapping ∧ mapping.parent = (domain, domainId) := by
  refine brought_iff (fun tree => domainId ∈ tree.parentMap domain) ?_ ?_ ?_ ?_ calls
  · intro tree mapping accepted
    obtain ⟨⟨parentDomain, parentId⟩, childDomain, children⟩ := mapping
    rw [QueriedTree.addMapping, if_pos accepted, parentMap, ChildRows.set, UnorderedMap.lookup_insert]
    split
    next same =>
      rw [Option.getD_some, AList.mem_insert, ← same]
      change _ ∨ domainId ∈ tree.parentMap domain ↔ _
      grind
    next other =>
      change domainId ∈ tree.parentMap domain ↔ _
      grind
  · intro tree other
    unfold QueriedTree.getAllDomainIds
    split
    next => rw [parentMap, getD_emplace, parentMap]
    next => rfl
  · intro tree other otherId
    rw [QueriedTree.doesNodeExist, parentMap, getD_emplace, parentMap]
  · simp [parentMap, empty]

private theorem mem_childMap_iff (calls : List Call) (domain : Domain) (domainId : DomainId) :
    domainId ∈ (machine.after empty calls).childMap domain ↔
      ∃ mapping, Accepted calls mapping ∧ mapping.childDomain = domain ∧ domainId ∈ mapping.children := by
  refine brought_iff (fun tree => domainId ∈ tree.childMap domain) ?_ ?_ ?_ ?_ calls
  · intro tree mapping accepted
    rw [QueriedTree.addMapping, if_pos accepted]
    exact mem_emplaceParents _ _ _ _ _ _
  · intro tree other
    unfold QueriedTree.getAllDomainIds
    split
    next => rfl
    next => rw [childMap, getD_emplace, childMap]
  · intro tree other otherId
    rw [QueriedTree.doesNodeExist, childMap, getD_emplace, childMap]
  · simp [childMap, empty]

private theorem named_after (calls : List Call) (domain : Domain) (domainId : DomainId) :
    ((machine.after empty calls).doesNodeExist domain domainId).1 ↔
      ∃ mapping, Accepted calls mapping ∧ mapping.Names (domain, domainId) := by
  rw [doesNodeExist_iff, mem_childMap_iff, mem_parentMap_iff]
  constructor
  · rintro (⟨mapping, accepted, among⟩ | ⟨mapping, accepted, parent⟩)
    · exact ⟨mapping, accepted, .inr among⟩
    · exact ⟨mapping, accepted, .inl parent⟩
  · rintro ⟨mapping, accepted, parent | among⟩
    · exact .inr ⟨mapping, accepted, parent⟩
    · exact .inl ⟨mapping, accepted, among⟩

private theorem once_after (calls : List Call) (domain : Domain) : ((machine.after empty calls).getAllDomainIds domain).1.Nodup := by
  have shown := shows_after (shows_empty 0 0) calls
  rw [(shown.getAllDomainIds domain).1]
  exact SparseMappingTree.nodup_getAllDomainIds _ _

private theorem listed_iff_exists (calls : List Call) (domain : Domain) (domainId : DomainId) :
    (domainId ∈ ((machine.after empty calls).getAllDomainIds domain).1 ↔
        ((machine.after empty calls).doesNodeExist domain domainId).1) ↔
      ((∃ mapping, Accepted calls mapping ∧ mapping.childDomain = domain ∧ domainId ∈ mapping.children) →
        (∃ other, Accepted calls other ∧ other.parent.1 = domain) →
          ∃ own, Accepted calls own ∧ own.parent = (domain, domainId)) := by
  rw [doesNodeExist_iff, getAllDomainIds_eq]
  by_cases above : ∃ other, Accepted calls other ∧ other.parent.1 = domain
  · rw [if_pos ((childDomain_isSome_iff calls domain).mpr above), ← AList.mem_keys, ← mem_parentMap_iff, ← mem_childMap_iff,
      iff_or_self]
    exact ⟨fun own child _ => own child, fun own child => own child above⟩
  · have unlisted : domainId ∉ (machine.after empty calls).parentMap domain := by
      rw [mem_parentMap_iff]
      rintro ⟨own, accepted, parent⟩
      exact above ⟨own, accepted, congrArg Prod.fst parent⟩
    rw [if_neg fun isSome => above ((childDomain_isSome_iff calls domain).mp isSome), ← AList.mem_keys,
      or_iff_left unlisted]
    exact iff_of_true Iff.rfl fun _ other => absurd other above

/-- What is listed agrees with what exists exactly if a child in a domain with a child
domain is also the parent of a mapping. -/
theorem nodesAgree_iff (calls : List Call) : NodesAgree calls (machine.after empty calls) ↔ ChildrenMapped calls := by
  constructor
  · intro agree mapping accepted child among above
    exact (listed_iff_exists calls mapping.childDomain child).mp (agree.listed _ _) ⟨mapping, accepted, rfl, among⟩ above
  · intro mapped
    refine ⟨fun domain domainId => (listed_iff_exists calls domain domainId).mpr ?_, once_after calls, named_after calls⟩
    rintro ⟨mapping, accepted, rfl, among⟩ above
    exact mapped mapping accepted domainId among above

def unmappedBin : List Call := [.addMapping ⟨(2, 0), 1, [4, 5]⟩, .addMapping ⟨(1, 4), 0, [0]⟩]

theorem not_nodesAgree_unmappedBin : ¬ NodesAgree unmappedBin (machine.after empty unmappedBin) := by
  intro agree
  have listed := agree.listed 1 5
  exact absurd (listed.mpr (by decide)) (by decide)

end QueriedTree
end ShardManager

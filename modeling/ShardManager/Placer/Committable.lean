import ShardManager.Placer.Types

/-! The two-version containers of `utils/Committable.h`: a committed version and
a canary laid over it. -/

namespace ShardManager

/-- Maps, possibly of maps, read and written through a full tuple of keys. The
two instances are the overloads that the variadic templates resolve to. -/
class NestedMap (Map : Type) (Keys : Type) [DecidableEq Keys] (Val : outParam Type) where
  empty : Map
  getPtr : Map → Keys → Option Val
  setMap : Map → Val → Keys → Map
  copyChanges : Map → Map → Map
  getPtr_empty : ∀ keys, getPtr empty keys = none
  getPtr_setMap : ∀ map val keys other,
    getPtr (setMap map val keys) other = if other = keys then some val else getPtr map other
  getPtr_copyChanges : ∀ canaryMap committedMap keys,
    getPtr (copyChanges canaryMap committedMap) keys = (getPtr canaryMap keys).or (getPtr committedMap keys)

attribute [simp] NestedMap.getPtr_empty

section Instances
variable {K Keys M V : Type} [DecidableEq K] [DecidableEq Keys]

instance NestedMap.leaf : NestedMap (UnorderedMap K V) K V where
  empty := ∅
  getPtr map key := map.lookup key
  setMap map val key := map.insert key val
  copyChanges canaryMap committedMap := UnorderedMap.merge (fun val _ => val) canaryMap committedMap
  getPtr_empty key := AList.lookup_empty key
  getPtr_setMap map val key other := UnorderedMap.lookup_insert map key other val
  getPtr_copyChanges canaryMap committedMap key := by
    rw [UnorderedMap.lookup_merge]
    cases canaryMap.lookup key <;> rfl

instance NestedMap.nested [inner : NestedMap M Keys V] : NestedMap (UnorderedMap K M) (K × Keys) V where
  empty := ∅
  getPtr map keys := (map.lookup keys.1).bind (inner.getPtr · keys.2)
  setMap map val keys := map.insert keys.1 (inner.setMap ((map.lookup keys.1).getD inner.empty) val keys.2)
  copyChanges canaryMap committedMap :=
    UnorderedMap.merge (fun val committed => inner.copyChanges val (committed.getD inner.empty)) canaryMap committedMap
  getPtr_empty keys := by simp
  getPtr_setMap map val keys other := by
    obtain ⟨first, rest⟩ := keys
    obtain ⟨otherFirst, otherRest⟩ := other
    simp only [UnorderedMap.lookup_insert, Prod.mk.injEq]
    by_cases same : otherFirst = first
    · subst same
      simp only [ite_true, Option.bind_some, inner.getPtr_setMap, true_and]
      cases map.lookup otherFirst <;> simp
    · simp [same]
  getPtr_copyChanges canaryMap committedMap keys := by
    rw [UnorderedMap.lookup_merge]
    cases canaryMap.lookup keys.1 with
    | none => simp
    | some val =>
      simp only [Option.bind_some, inner.getPtr_copyChanges]
      cases committedMap.lookup keys.1 <;> simp

end Instances

structure CommittableMap (Map Keys Val : Type) where
  committedMap : Map
  canaryMap : Map

namespace CommittableMap
variable {Map Keys Val : Type} [DecidableEq Keys] [nested : NestedMap Map Keys Val]

def empty : CommittableMap Map Keys Val := ⟨nested.empty, nested.empty⟩

def getFromCanaryMap (map : CommittableMap Map Keys Val) (keys : Keys) : Option Val := nested.getPtr map.canaryMap keys

def getFromCommittedMap (map : CommittableMap Map Keys Val) (keys : Keys) : Option Val :=
  nested.getPtr map.committedMap keys

def get (map : CommittableMap Map Keys Val) (keys : Keys) : Option Val :=
  match nested.getPtr map.canaryMap keys with
  | some val => some val
  | none => nested.getPtr map.committedMap keys

def set (map : CommittableMap Map Keys Val) (isCanary : Bool) (val : Val) (keys : Keys) : CommittableMap Map Keys Val :=
  if isCanary then { map with canaryMap := nested.setMap map.canaryMap val keys }
  else { map with committedMap := nested.setMap map.committedMap val keys }

def clear (map : CommittableMap Map Keys Val) : CommittableMap Map Keys Val := { map with canaryMap := nested.empty }

def commit (map : CommittableMap Map Keys Val) : CommittableMap Map Keys Val :=
  clear { map with committedMap := nested.copyChanges map.canaryMap map.committedMap }

variable (map : CommittableMap Map Keys Val)

theorem get_eq (keys : Keys) : map.get keys = (map.getFromCanaryMap keys).or (map.getFromCommittedMap keys) := by
  unfold get getFromCanaryMap getFromCommittedMap
  cases nested.getPtr map.canaryMap keys <;> rfl

@[simp] theorem get_empty (keys : Keys) : (empty : CommittableMap Map Keys Val).get keys = none := by simp [get, empty]

@[simp] theorem committed_empty (keys : Keys) : (empty : CommittableMap Map Keys Val).getFromCommittedMap keys = none := by
  simp [getFromCommittedMap, empty]

@[simp] theorem get_set_canary (val : Val) (keys other : Keys) :
    (map.set true val keys).get other = if other = keys then some val else map.get other := by
  simp only [set, get, ite_true, nested.getPtr_setMap]
  by_cases same : other = keys <;> simp [same]

@[simp] theorem committed_set_canary (val : Val) (keys other : Keys) :
    (map.set true val keys).getFromCommittedMap other = map.getFromCommittedMap other := rfl

@[simp] theorem committedMap_set_canary (val : Val) (keys : Keys) : (map.set true val keys).committedMap = map.committedMap := rfl

@[simp] theorem committedMap_clear : map.clear.committedMap = map.committedMap := rfl

@[simp] theorem canary_clear (keys : Keys) : map.clear.getFromCanaryMap keys = none := by
  simp [getFromCanaryMap, clear]

@[simp] theorem committed_clear (keys : Keys) : map.clear.getFromCommittedMap keys = map.getFromCommittedMap keys := rfl

@[simp] theorem get_clear (keys : Keys) : map.clear.get keys = map.getFromCommittedMap keys := by simp [get_eq]

@[simp] theorem committed_commit (keys : Keys) : map.commit.getFromCommittedMap keys = map.get keys := by
  rw [get_eq]
  exact nested.getPtr_copyChanges map.canaryMap map.committedMap keys

@[simp] theorem get_commit (keys : Keys) : map.commit.get keys = map.get keys := by
  unfold commit
  rw [get_clear]
  exact committed_commit map keys

@[simp] theorem clear_clear : map.clear.clear = map.clear := rfl

@[simp] theorem clear_set_canary (val : Val) (keys : Keys) : (map.set true val keys).clear = map.clear := rfl

end CommittableMap

structure CommittableKey (Val : Type) where
  canaryVal : Option Val := none
  committedVal : Option Val := none

namespace CommittableKey
variable {Val : Type} (key : CommittableKey Val)

def get : Option Val := if key.canaryVal.isSome then key.canaryVal else key.committedVal

def set (isCanary : Bool) (val : Val) : CommittableKey Val :=
  if isCanary then { key with canaryVal := some val } else { key with committedVal := some val }

def clear : CommittableKey Val := { key with canaryVal := none }

def commit : CommittableKey Val :=
  clear (if key.canaryVal.isSome then { key with committedVal := key.canaryVal } else key)

@[simp] theorem get_set_canary (val : Val) : (key.set true val).get = some val := rfl

@[simp] theorem clear_set_canary (val : Val) : (key.set true val).clear = key.clear := rfl

@[simp] theorem committedVal_set_canary (val : Val) : (key.set true val).committedVal = key.committedVal := rfl

@[simp] theorem clear_clear : key.clear.clear = key.clear := rfl

@[simp] theorem committedVal_clear : key.clear.committedVal = key.committedVal := rfl

@[simp] theorem get_clear : key.clear.get = key.committedVal := rfl

@[simp] theorem committedVal_commit : key.commit.committedVal = key.get := by
  unfold commit get clear
  split <;> rfl

@[simp] theorem get_commit : key.commit.get = key.get := committedVal_commit key

end CommittableKey
end ShardManager

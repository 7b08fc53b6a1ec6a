import ShardManager.Lib.VersionedStore
import ShardManager.Placer.Committable

/-! The committable containers as stores in two versions. A map of maps is one finite
map over pairs of keys: a path that is missing halfway is missing. -/

namespace ShardManager

namespace CommittableMap
variable (Map Keys Val : Type) [DecidableEq Keys] [NestedMap Map Keys Val]

/-- The members of `CommittableMap`. -/
def store : VersionedStore (CommittableMap Map Keys Val) Keys Val :=
  ⟨empty, set, commit, clear, get, getFromCanaryMap, getFromCommittedMap⟩

theorem lawful : (store Map Keys Val).Lawful where
  get := get_eq
  empty keys := ⟨NestedMap.getPtr_empty keys, committed_empty keys⟩
  set map isCanary val keys other := by
    cases isCanary with
    | true =>
      have canary : (map.set true val keys).getFromCanaryMap other = if other = keys then some val else map.getFromCanaryMap other :=
        NestedMap.getPtr_setMap map.canaryMap val keys other
      simpa using ⟨canary, committed_set_canary map val keys other⟩
    | false =>
      have committed : (map.set false val keys).getFromCommittedMap other =
          if other = keys then some val else map.getFromCommittedMap other :=
        NestedMap.getPtr_setMap map.committedMap val keys other
      have canary : (map.set false val keys).getFromCanaryMap other = map.getFromCanaryMap other := rfl
      simpa using ⟨canary, committed⟩
  commit map keys := ⟨canary_clear _ keys, committed_commit map keys⟩
  clear map keys := ⟨canary_clear map keys, committed_clear map keys⟩

end CommittableMap

namespace CommittableKey
variable (Val : Type)

/-- The members of `CommittableKey`, whose only key is the empty tuple. -/
def store : VersionedStore (CommittableKey Val) Unit Val where
  empty := {}
  set key isCanary val _ := key.set isCanary val
  commit := commit
  clear := clear
  get key _ := key.get
  getFromCanary key _ := key.canaryVal
  getFromCommitted key _ := key.committedVal

theorem lawful : (store Val).Lawful where
  get key _ := by
    change key.get = key.canaryVal.or key.committedVal
    rw [get]
    cases key.canaryVal <;> rfl
  empty _ := ⟨rfl, rfl⟩
  set key isCanary val _ _ := by cases isCanary <;> exact ⟨rfl, rfl⟩
  commit key _ := ⟨rfl, committedVal_commit key⟩
  clear _ _ := ⟨rfl, rfl⟩

end CommittableKey

/-- Maps with one key, maps with two keys and single values are stores in two versions. -/
theorem committable_keepsTwoVersions (Key First Second Val : Type) [DecidableEq Key] [DecidableEq First] [DecidableEq Second] :
    (CommittableMap.store (UnorderedMap Key Val) Key Val).KeepsTwoVersions ∧
    (CommittableMap.store (UnorderedMap First (UnorderedMap Second Val)) (First × Second) Val).KeepsTwoVersions ∧
    (CommittableKey.store Val).KeepsTwoVersions :=
  ⟨(CommittableMap.lawful _ _ _).keepsTwoVersions, (CommittableMap.lawful _ _ _).keepsTwoVersions,
    (CommittableKey.lawful Val).keepsTwoVersions⟩

end ShardManager

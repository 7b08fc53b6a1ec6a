import ShardManager.Lib.UnorderedMap
import ShardManager.Lib.WrappedInt

/-! Identifiers shared by the placer. `size_t` ids are natural numbers. Signed
64-bit weights are integers: their overflow is undefined in the source. 32-bit
values are integers that pass through `toInt32` wherever the source stores them. -/

namespace ShardManager

abbrev Domain := Nat
abbrev DomainId := Nat
abbrev Metric := Nat
abbrev MetricValue := Int

/-- A node of the placement hierarchy: its level and its id within the level. -/
abbrev Node := Domain × DomainId

def kDefaultBin : DomainId := 0

/-- Ways in which the source leaves its defined behaviour: following a null
`MovementMap` pointer, `at()` on an absent key, and reading an empty optional. -/
inductive Fault where
  | nullMovementMap
  | outOfRange
  | emptyOptional
deriving DecidableEq, Repr

/-- The order in which a hash container with the given keys, in the order they
were inserted, is traversed. Nothing is known about it except that every key is
visited exactly once. -/
structure HashOrder where
  ids : List DomainId → List DomainId
  nodes : List Node → List Node
  ids_perm : ∀ keys, (ids keys).Perm keys
  nodes_perm : ∀ keys, (nodes keys).Perm keys

def HashOrder.insertion : HashOrder := ⟨id, id, fun _ => .refl _, fun _ => .refl _⟩

@[simp] theorem HashOrder.ids_singleton (order : HashOrder) (key : DomainId) : order.ids [key] = [key] :=
  List.perm_singleton.mp (order.ids_perm [key])

/-- `map.at(key)`. -/
def atKey {K V : Type} [DecidableEq K] (map : UnorderedMap K V) (key : K) : Except Fault V :=
  match map.lookup key with
  | some value => .ok value
  | none => .error .outOfRange

end ShardManager

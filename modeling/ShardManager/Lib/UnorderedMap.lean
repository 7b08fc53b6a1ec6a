import Mathlib.Data.List.AList

/-! Hash maps as association lists with distinct keys. Only the operations that
loops over maps are made of are added here; lookup and insertion are Mathlib's. -/

namespace ShardManager

abbrev UnorderedMap (K V : Type) := AList (fun _ : K => V)

/-- A hash set is a map that stores nothing under its keys. -/
abbrev UnorderedSet (K : Type) := UnorderedMap K Unit

namespace UnorderedMap
variable {K V W : Type} [DecidableEq K]

theorem lookup_insert (map : UnorderedMap K V) (key other : K) (value : V) :
    (map.insert key value).lookup other = if other = key then some value else map.lookup other := by
  split
  next same => subst same; exact AList.lookup_insert map
  next different => exact AList.lookup_insert_ne different

theorem lookup_erase (map : UnorderedMap K V) (key other : K) :
    (map.erase key).lookup other = if other = key then none else map.lookup other := by
  split
  next same => subst same; exact AList.lookup_erase other map
  next different => exact AList.lookup_erase_ne different

/-- `emplace`, which keeps a value that is already there. -/
def emplace (map : UnorderedMap K V) (key : K) (value : V) : UnorderedMap K V :=
  if key ∈ map then map else map.insert key value

theorem lookup_emplace (map : UnorderedMap K V) (key other : K) (value : V) :
    (map.emplace key value).lookup other = if other = key then some ((map.lookup key).getD value) else map.lookup other := by
  unfold emplace
  split
  next known =>
    obtain ⟨old, found⟩ := Option.isSome_iff_exists.mp (AList.lookup_isSome.mpr known)
    split
    next same => rw [same, found, Option.getD_some]
    next => rfl
  next unknown => rw [lookup_insert, AList.lookup_eq_none.mpr unknown, Option.getD_none]

theorem mem_emplace (map : UnorderedMap K V) (key : K) (value : V) : key ∈ map.emplace key value := by
  unfold emplace
  split
  next known => exact known
  next => exact (AList.mem_insert map).mpr (.inl rfl)

/-- A loop that emplaces keeps, for each key, the first of its values. -/
theorem lookup_emplaceAll {I : Type} (key : I → K) (value : I → V) (items : List I) (map : UnorderedMap K V) (other : K) :
    (items.foldl (fun map item => map.emplace (key item) (value item)) map).lookup other =
      (map.lookup other).or ((items.find? fun item => key item = other).map value) := by
  induction items generalizing map with
  | nil => simp
  | cons item items ih =>
    rw [List.foldl_cons, ih, lookup_emplace, List.find?_cons]
    by_cases same : other = key item
    · subst same
      cases map.lookup (key item) <;> simp
    · simp [same, Ne.symm same]

theorem mem_keys_iff (map : UnorderedMap K V) (key : K) :
    key ∈ map.keys ↔ ∃ value, map.lookup key = some value := by
  rw [← AList.mem_keys, ← AList.lookup_isSome, Option.isSome_iff_exists]

theorem mem_iff (map : UnorderedMap K V) (key : K) :
    key ∈ map ↔ ∃ value, map.lookup key = some value := by
  rw [← AList.lookup_isSome, Option.isSome_iff_exists]

theorem mem_entries_iff (map : UnorderedMap K V) (key : K) (value : V) :
    (⟨key, value⟩ : Sigma fun _ : K => V) ∈ map.entries ↔ map.lookup key = some value :=
  AList.mem_lookup_iff.symm

/-- The loop `for (auto& [key, value] : source) target[key] = f(value, target[key])`. -/
def merge (f : V → Option W → W) (source : UnorderedMap K V) (target : UnorderedMap K W) : UnorderedMap K W :=
  source.entries.foldl (fun target entry => target.insert entry.1 (f entry.2 (target.lookup entry.1))) target

private theorem lookup_foldl_merge (f : V → Option W → W) (entries : List (Sigma fun _ : K => V))
    (distinct : entries.NodupKeys) (target : UnorderedMap K W) (key : K) :
    (entries.foldl (fun target entry => target.insert entry.1 (f entry.2 (target.lookup entry.1))) target).lookup key =
      match entries.dlookup key with
      | some value => some (f value (target.lookup key))
      | none => target.lookup key := by
  induction entries generalizing target with
  | nil => simp
  | cons entry entries ih =>
    obtain ⟨first, value⟩ := entry
    obtain ⟨fresh, distinct⟩ := List.nodupKeys_cons.mp distinct
    have absent : entries.dlookup first = none := List.dlookup_eq_none.mpr fresh
    rw [List.foldl_cons, ih distinct, lookup_insert]
    by_cases same : key = first
    · subst same
      simp [absent]
    · have skipped : List.dlookup key (⟨first, value⟩ :: entries) = entries.dlookup key :=
        List.dlookup_cons_ne entries ⟨first, value⟩ same
      simp [skipped, same]

/-- Each key is visited once, so the loop combines it with the value the target
had before the loop, whatever the order of the visits. -/
theorem lookup_merge (f : V → Option W → W) (source : UnorderedMap K V) (target : UnorderedMap K W) (key : K) :
    (merge f source target).lookup key =
      match source.lookup key with
      | some value => some (f value (target.lookup key))
      | none => target.lookup key :=
  lookup_foldl_merge f source.entries source.nodupKeys target key

end UnorderedMap
end ShardManager

import ShardManager.Lib.UnorderedMap

/-! Two maps that a loop fills while it numbers distinct keys from 1 on: one leads from a
key to its number, the other back. -/

namespace ShardManager
variable {K : Type} [DecidableEq K]

/-- The keys have the numbers from 1 on, in their order, in both maps. -/
structure Numbered (keys : List K) (numberOf : UnorderedMap K Nat) (keyOf : UnorderedMap Nat K) : Prop where
  listed : ∀ number, keyOf.lookup number = if number = 0 then none else keys[number - 1]?
  inverse : ∀ key number, numberOf.lookup key = some number ↔ keyOf.lookup number = some key

namespace Numbered
variable {keys : List K} {numberOf : UnorderedMap K Nat} {keyOf : UnorderedMap Nat K} {key : K} {number : Nat}

theorem nil : Numbered ([] : List K) ∅ ∅ where
  listed number := by simp
  inverse key number := by simp

theorem lookup_iff (numbered : Numbered keys numberOf keyOf) :
    keyOf.lookup number = some key ↔ 0 < number ∧ keys[number - 1]? = some key := by
  rw [numbered.listed]
  split
  next none => simp [none]
  next some => exact (and_iff_right (Nat.pos_of_ne_zero some)).symm

/-- The next key gets the next number. -/
theorem snoc (numbered : Numbered keys numberOf keyOf) (fresh : key ∉ keys) :
    Numbered (keys ++ [key]) (numberOf.insert key (keys.length + 1)) (keyOf.insert (keys.length + 1) key) := by
  have lookup (other : Nat) : (keyOf.insert (keys.length + 1) key).lookup other =
      if other = 0 then none else (keys ++ [key])[other - 1]? := by
    rw [UnorderedMap.lookup_insert, numbered.listed]
    by_cases zero : other = 0
    · simp [zero]
    rw [if_neg zero, if_neg zero]
    by_cases last : other = keys.length + 1
    · simp [last]
    rw [if_neg last]
    by_cases inside : other ≤ keys.length
    · rw [List.getElem?_append_left (by omega)]
    · rw [List.getElem?_eq_none (by omega), List.getElem?_eq_none (by rw [List.length_append, List.length_singleton]; omega)]
  refine ⟨lookup, ?_⟩
  intro name other
  rw [UnorderedMap.lookup_insert, UnorderedMap.lookup_insert]
  by_cases isKey : name = key
  · subst isKey
    rw [if_pos rfl, Option.some.injEq]
    by_cases last : other = keys.length + 1
    · simp [last]
    · have unlisted : keyOf.lookup other ≠ some name := by
        intro found
        exact fresh (List.mem_of_getElem? (numbered.lookup_iff.mp found).2)
      rw [if_neg last]
      exact iff_of_false (Ne.symm last) unlisted
  · rw [if_neg isKey, numbered.inverse]
    by_cases last : other = keys.length + 1
    · have past : keyOf.lookup other ≠ some name := by
        intro found
        have inside := (List.getElem?_eq_some_iff.mp (numbered.lookup_iff.mp found).2).1
        omega
      rw [if_pos last, Option.some.injEq]
      exact iff_of_false past (Ne.symm isKey)
    · rw [if_neg last]

/-- The numbers are those up to the count of the keys. -/
theorem named_iff (numbered : Numbered keys numberOf keyOf) :
    (keyOf.lookup number).isSome ↔ 1 ≤ number ∧ number ≤ keys.length := by
  rw [numbered.listed]
  by_cases zero : number = 0
  · simp [zero]
  · rw [if_neg zero, isSome_getElem?]
    omega

theorem numbered_iff (numbered : Numbered keys numberOf keyOf) : (numberOf.lookup key).isSome ↔ key ∈ keys := by
  rw [Option.isSome_iff_exists, List.mem_iff_getElem?]
  constructor
  · intro ⟨number, found⟩
    exact ⟨number - 1, (numbered.lookup_iff.mp ((numbered.inverse key number).mp found)).2⟩
  · intro ⟨index, found⟩
    exact ⟨index + 1, (numbered.inverse key _).mpr (numbered.lookup_iff.mpr ⟨Nat.succ_pos index, found⟩)⟩

end Numbered
end ShardManager

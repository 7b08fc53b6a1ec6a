import Mathlib.Order.Bounds.Basic

/-! Extremes of sets that are found part by part: the extreme of the extremes of the
parts, those without elements left out, is the extreme of the whole. -/

namespace ShardManager
variable {ι α : Type} {le : α → α → Prop}

/-- The element that comes before all others, or none if there are no elements. -/
def ExtremeOf (le : α → α → Prop) (items : Set α) : Option α → Prop
  | none => items = ∅
  | some val => val ∈ items ∧ ∀ other ∈ items, le val other

theorem ExtremeOf.eq_some_iff {items : Set α} {found : Option α} (antisymm : ∀ first second, le first second → le second first → first = second)
    (extreme : ExtremeOf le items found) (val : α) : found = some val ↔ val ∈ items ∧ ∀ other ∈ items, le val other := by
  cases found with
  | none =>
    have empty : items = ∅ := extreme
    simp [empty]
  | some first =>
    obtain ⟨member, before⟩ := extreme
    constructor
    · intro same
      cases same
      exact ⟨member, before⟩
    · rintro ⟨inside, beforeAll⟩
      exact congrArg some (antisymm first val (before val inside) (beforeAll first member))

theorem ExtremeOf.parts {parts : List ι} {part : ι → Set α} {value : ι → Option α} {whole : Option α}
    (trans : ∀ first second third, le first second → le second third → le first third)
    (each : ∀ item ∈ parts, ExtremeOf le (part item) (value item))
    (picked : ExtremeOf le {val | val ∈ parts.filterMap value} whole) :
    ExtremeOf le {val | ∃ item ∈ parts, val ∈ part item} whole := by
  -- an element of a part is behind the extreme of the part, which is among those picked from
  have behind : ∀ item ∈ parts, ∀ other ∈ part item, ∃ best, best ∈ parts.filterMap value ∧ le best other := by
    intro item listed other member
    have own := each item listed
    cases found : value item with
    | none =>
      rw [found] at own
      have empty : part item = ∅ := own
      rw [empty] at member
      cases member
    | some best =>
      rw [found] at own
      exact ⟨best, List.mem_filterMap.mpr ⟨item, listed, found⟩, own.2 other member⟩
  cases whole with
  | none =>
    refine Set.eq_empty_of_forall_notMem ?_
    rintro other ⟨item, listed, member⟩
    obtain ⟨best, inside, _⟩ := behind item listed other member
    have empty : {val | val ∈ parts.filterMap value} = (∅ : Set α) := picked
    have absurdity : best ∈ (∅ : Set α) := empty ▸ inside
    cases absurdity
  | some val =>
    obtain ⟨inside, before⟩ := picked
    obtain ⟨item, listed, found⟩ := List.mem_filterMap.mp inside
    have own := each item listed
    rw [found] at own
    refine ⟨⟨item, listed, own.1⟩, ?_⟩
    rintro other ⟨another, alsoListed, member⟩
    obtain ⟨best, alsoInside, earlier⟩ := behind another alsoListed other member
    exact trans _ _ _ (before best alsoInside) earlier

end ShardManager

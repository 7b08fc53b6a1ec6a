import ShardManager.Lib.Worklist

/-! Heights above a bottom, where every item has at most one item below it. Without
cycles an item has one height at most, however many items are above each item. -/

namespace ShardManager
variable {D : Type} (below : D → Option D) (bottom : D)

/-- So many steps down from the item to the bottom. -/
inductive Height : Nat → D → Prop
  | bottom : Height 0 bottom
  | above {height : Nat} {item next : D} (step : below item = some next) (rest : Height height next) : Height (height + 1) item

namespace Height
variable {below bottom} {item lower upper : D} {height other : Nat}

theorem leads (at_height : Height below bottom height item) : Relation.ReflTransGen (below · = some ·) item bottom := by
  induction at_height with
  | bottom => exact .refl
  | above step _ ih => exact .head step ih

theorem unique (acyclic : Acyclic (below · = some ·)) (first : Height below bottom height item)
    (second : Height below bottom other item) : height = other := by
  induction first generalizing other with
  | bottom =>
    cases second with
    | bottom => rfl
    | above step rest => exact absurd (.head' step rest.leads) (acyclic bottom)
  | above step rest ih =>
    cases second with
    | bottom => exact absurd (.head' step rest.leads) (acyclic bottom)
    | above same second =>
      obtain rfl := Option.some.inj (step.symm.trans same)
      rw [ih second]

/-- Whatever leads to an item is higher. -/
theorem of_leads (leadsTo : Relation.TransGen (below · = some ·) upper lower) (at_height : Height below bottom height lower) :
    ∃ higher, height < higher ∧ Height below bottom higher upper := by
  induction leadsTo using Relation.TransGen.head_induction_on with
  | single step => exact ⟨height + 1, Nat.lt_succ_self height, .above step at_height⟩
  | head step _ ih =>
    obtain ⟨higher, less, above⟩ := ih
    exact ⟨higher + 1, Nat.lt_succ_of_lt less, .above step above⟩

theorem lt_of_leads (acyclic : Acyclic (below · = some ·)) (leadsTo : Relation.TransGen (below · = some ·) upper lower)
    (above : Height below bottom other upper) (at_height : Height below bottom height lower) : height < other := by
  obtain ⟨higher, less, reached⟩ := of_leads leadsTo at_height
  rwa [above.unique acyclic reached]

/-- The items with one below them bound the heights. -/
theorem le_rank (acyclic : Acyclic (below · = some ·)) (items : List D) (all : ∀ item, (below item).isSome → item ∈ items)
    (at_height : Height below bottom height item) : height ≤ rank (below · = some ·) items item := by
  induction at_height with
  | bottom => exact Nat.zero_le _
  | above step _ ih => exact Nat.succ_le_of_lt (ih.trans_lt (rank_lt acyclic step (all _ (by rw [step]; rfl))))

end Height
end ShardManager

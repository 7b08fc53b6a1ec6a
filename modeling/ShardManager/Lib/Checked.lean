import Mathlib.Data.List.Basic

/-! Loops whose body may fail. A failure ends the loop, so a fact about a
finished loop only needs the turns that succeeded. -/

namespace ShardManager.Checked
variable {ε α β γ : Type}

theorem bind_ok {first : Except ε α} {next : α → Except ε β} {result : β} (done : first >>= next = .ok result) :
    ∃ value, first = .ok value ∧ next value = .ok result := by
  cases first with
  | error failure => cases done
  | ok value => exact ⟨value, rfl, done⟩

theorem ok_bind (value : α) (next : α → Except ε β) : (Except.ok value >>= next) = next value := rfl

/-- A computation that is known to succeed has the value it succeeds with. -/
theorem ok_get (result : Except ε α) (isSome : result.toOption.isSome) : result = .ok (result.toOption.get isSome) := by
  cases result with
  | error failure => cases isSome
  | ok value => rfl

/-- A loop that finished preserved whatever each of its turns preserves. -/
theorem foldlM_invariant {body : β → α → Except ε β} (invariant : β → Prop) {items : List α} {initial final : β}
    (preserved : ∀ state, ∀ item ∈ items, ∀ after, invariant state → body state item = .ok after → invariant after)
    (start : invariant initial) (finished : items.foldlM body initial = .ok final) : invariant final := by
  induction items generalizing initial with
  | nil => cases finished; exact start
  | cons item items ih =>
    rw [List.foldlM_cons] at finished
    obtain ⟨middle, first, rest⟩ := bind_ok finished
    exact ih (fun state later member => preserved state later (by simp [member]))
      (preserved initial item (by simp) middle start first) rest

/-- Two loops over the same items stay related while their turns do. -/
theorem foldlM_related {body : β → α → Except ε β} {other : γ → α → Except ε γ} (related : β → γ → Prop)
    {items : List α} {initial final : β} {start : γ}
    (step : ∀ state, ∀ item ∈ items, ∀ after partner, related state partner → body state item = .ok after →
      ∃ next, other partner item = .ok next ∧ related after next)
    (begins : related initial start) (finished : items.foldlM body initial = .ok final) :
    ∃ last, items.foldlM other start = .ok last ∧ related final last := by
  induction items generalizing initial start with
  | nil => cases finished; exact ⟨start, rfl, begins⟩
  | cons item items ih =>
    rw [List.foldlM_cons] at finished
    obtain ⟨middle, first, rest⟩ := bind_ok finished
    obtain ⟨next, same, kept⟩ := step initial item (by simp) middle start begins first
    rw [List.foldlM_cons, same, ok_bind]
    exact ih (fun state later member => step state later (by simp [member])) kept rest

/-- A loop none of whose turns can fail finishes; the invariant may mention the
items already handled. -/
theorem foldlM_total {body : β → α → Except ε β} (invariant : List α → β → Prop) {items : List α} {initial : β}
    (step : ∀ handled item rest, items = handled ++ item :: rest → ∀ state, invariant handled state →
      ∃ after, body state item = .ok after ∧ invariant (handled ++ [item]) after)
    (start : invariant [] initial) : ∃ final, items.foldlM body initial = .ok final ∧ invariant items final := by
  suffices loop : ∀ rest handled state, items = handled ++ rest → invariant handled state →
      ∃ final, rest.foldlM body state = .ok final ∧ invariant items final by
    exact loop items [] initial rfl start
  intro rest
  induction rest with
  | nil =>
    intro handled state split holds
    rw [List.append_nil] at split
    exact ⟨state, rfl, split ▸ holds⟩
  | cons item rest ih =>
    intro handled state split holds
    obtain ⟨after, first, holds⟩ := step handled item rest split state holds
    rw [List.foldlM_cons, first, ok_bind]
    exact ih (handled ++ [item]) after (by simp [split]) holds

/-- A loop whose turns are all defined by a plain function is a plain loop. -/
theorem foldlM_ok {body : β → α → Except ε β} {turn : β → α → β} {items : List α} (initial : β)
    (defined : ∀ state, ∀ item ∈ items, body state item = .ok (turn state item)) :
    items.foldlM body initial = .ok (items.foldl turn initial) := by
  induction items generalizing initial with
  | nil => rfl
  | cons item items ih =>
    rw [List.foldlM_cons, defined initial item (by simp), ok_bind, List.foldl_cons]
    exact ih (turn initial item) fun state later member => defined state later (by simp [member])

/-- A plain loop; the invariant may mention the items already handled. -/
theorem foldl_invariant {turn : β → α → β} (invariant : List α → β → Prop) {items : List α} {initial : β}
    (step : ∀ handled item rest, items = handled ++ item :: rest → ∀ state, invariant handled state →
      invariant (handled ++ [item]) (turn state item))
    (start : invariant [] initial) : invariant items (items.foldl turn initial) := by
  suffices loop : ∀ rest handled state, items = handled ++ rest → invariant handled state →
      invariant items (rest.foldl turn state) by
    exact loop items [] initial rfl start
  intro rest
  induction rest with
  | nil =>
    intro handled state split holds
    rw [List.append_nil] at split
    exact split ▸ holds
  | cons item rest ih =>
    intro handled state split holds
    exact ih (handled ++ [item]) (turn state item) (by simp [split]) (step handled item rest split state holds)

end ShardManager.Checked

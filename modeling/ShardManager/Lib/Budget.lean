import ShardManager.Lib.Traced

/-! Computations that stay within a budget: the events that count are bounded, and a
stop is one of those that are allowed. A larger budget prolongs a computation. -/

namespace ShardManager
namespace Traced
variable {ε event α β : Type}

structure Within (counts : event → Bool) (allowed : ε → Prop) (budget : Nat) (onResult : α → Prop) (run : Traced ε event α) :
    Prop where
  spent : run.events.countP counts ≤ budget
  results : ∀ value, run.result = .ok value → onResult value
  stops : ∀ stop, run.result = .error stop → allowed stop

variable {counts : event → Bool} {allowed : ε → Prop} {budget : Nat} {onResult : α → Prop}

theorem Within.mono {run : Traced ε event α} {larger : Nat} {onOther : α → Prop} (within : Within counts allowed budget onResult run)
    (enough : budget ≤ larger) (results : ∀ value, onResult value → onOther value) : Within counts allowed larger onOther run :=
  ⟨Nat.le_trans within.spent enough, fun value done => results value (within.results value done), within.stops⟩

theorem Within.and {run : Traced ε event α} {onEvent : event → Prop} {onOther : α → Prop}
    (within : Within counts allowed budget onResult run) (satisfies : Satisfies onEvent onOther run) :
    Within counts allowed budget (fun value => onResult value ∧ onOther value) run :=
  ⟨within.spent, fun value done => ⟨within.results value done, satisfies.2 value done⟩, within.stops⟩

theorem within_pure {value : α} (holds : onResult value) :
    Within counts allowed budget onResult (Pure.pure value : Traced ε event α) := by
  refine ⟨Nat.zero_le budget, ?_, by rintro _ ⟨⟩⟩
  rintro _ ⟨⟩
  exact holds

theorem within_tell {happened : event} (affordable : counts happened = true → 1 ≤ budget) :
    Within counts allowed budget (fun _ => True) (tell happened : Traced ε event Unit) := by
  refine ⟨?_, fun _ _ => trivial, by rintro _ ⟨⟩⟩
  change List.countP counts [happened] ≤ budget
  rw [List.countP_singleton]
  split
  next counted => exact affordable counted
  next => exact Nat.zero_le budget

theorem within_error {stop : ε} (permitted : allowed stop) :
    Within counts allowed budget onResult (lift (.error stop) : Traced ε event α) := by
  refine ⟨Nat.zero_le budget, by rintro _ ⟨⟩, ?_⟩
  rintro _ ⟨⟩
  exact permitted

/-- What two computations spend one after the other is within the sum of their budgets. -/
theorem within_bind {later : Nat} {first : Traced ε event α} {next : α → Traced ε event β} {onFinal : β → Prop}
    (begins : Within counts allowed budget onResult first)
    (goesOn : ∀ value, onResult value → Within counts allowed later onFinal (next value)) :
    Within counts allowed (budget + later) onFinal (first >>= next) := by
  change Within counts allowed _ onFinal (Traced.bind first next)
  unfold Traced.bind
  cases done : first.result with
  | error stop =>
    refine ⟨Nat.le_trans begins.spent (Nat.le_add_right _ _), by rintro _ ⟨⟩, ?_⟩
    rintro _ ⟨⟩
    exact begins.stops stop done
  | ok value =>
    have rest := goesOn value (begins.results value done)
    refine ⟨?_, rest.results, rest.stops⟩
    rw [List.countP_append]
    exact Nat.add_le_add begins.spent rest.spent

/-- The second computation does what the first does, and may go on. Where both return,
the results are related. -/
structure Prolongs (related : α → β → Prop) (short : Traced ε event α) (long : Traced ε event β) : Prop where
  events : short.events <+: long.events
  results : ∀ early late, short.result = .ok early → long.result = .ok late → related early late

theorem prolongs_refl {related : α → α → Prop} (reflexive : ∀ value, related value value) (run : Traced ε event α) :
    Prolongs related run run := by
  refine ⟨List.prefix_rfl, ?_⟩
  intro early late done finished
  rw [done] at finished
  cases finished
  exact reflexive early

theorem prolongs_bind {γ δ : Type} {related : γ → δ → Prop} {first : Traced ε event α} {short : α → Traced ε event γ}
    {long : α → Traced ε event δ} (goesOn : ∀ value, first.result = .ok value → Prolongs related (short value) (long value)) :
    Prolongs related (first >>= short) (first >>= long) := by
  change Prolongs related (Traced.bind first short) (Traced.bind first long)
  unfold Traced.bind
  cases done : first.result with
  | error stop => exact ⟨List.prefix_rfl, by rintro _ _ ⟨⟩⟩
  | ok value =>
    obtain ⟨events, results⟩ := goesOn value done
    exact ⟨(List.prefix_append_right_inj first.events).mpr events, results⟩

end Traced
end ShardManager

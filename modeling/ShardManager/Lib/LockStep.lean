import Mathlib.Data.List.Forall2
import ShardManager.Lib.Traced

/-! Two computations in lock step: they log events that correspond one by one, and either
stop alike or return what corresponds. -/

namespace ShardManager.Traced
variable {ε event other α β γ δ : Type}

/-- What corresponding computations end with. -/
inductive Ends (onResult : α → β → Prop) : Except ε α → Except ε β → Prop where
  | stopped (stop : ε) : Ends onResult (.error stop) (.error stop)
  | returned {value : α} {twin : β} (corresponds : onResult value twin) : Ends onResult (.ok value) (.ok twin)

structure InStep (onEvent : event → other → Prop) (onResult : α → β → Prop) (run : Traced ε event α) (twin : Traced ε other β) :
    Prop where
  events : List.Forall₂ onEvent run.events twin.events
  ends : Ends onResult run.result twin.result

variable {onEvent : event → other → Prop} {onResult : α → β → Prop} {onFinal : γ → δ → Prop}

theorem inStep_pure {value : α} {twin : β} (corresponds : onResult value twin) :
    InStep onEvent onResult (Pure.pure value : Traced ε event α) (Pure.pure twin) :=
  ⟨.nil, .returned corresponds⟩

theorem inStep_error (stop : ε) : InStep onEvent onResult (lift (.error stop) : Traced ε event α) (lift (.error stop)) :=
  ⟨.nil, .stopped stop⟩

theorem inStep_tell {happened : event} {elsewhere : other} (corresponds : onEvent happened elsewhere) :
    InStep onEvent (fun _ _ => True) (tell happened : Traced ε event Unit) (tell elsewhere) :=
  ⟨.cons corresponds .nil, .returned trivial⟩

theorem inStep_bind {first : Traced ε event α} {twin : Traced ε other β} {next : α → Traced ε event γ} {nextTwin : β → Traced ε other δ}
    (begins : InStep onEvent onResult first twin)
    (goesOn : ∀ value twin, onResult value twin → InStep onEvent onFinal (next value) (nextTwin twin)) :
    InStep onEvent onFinal (first >>= next) (twin >>= nextTwin) := by
  obtain ⟨events, result⟩ := first
  obtain ⟨twinEvents, twinResult⟩ := twin
  obtain ⟨early, ends⟩ := begins
  cases ends with
  | stopped stop => exact ⟨early, .stopped stop⟩
  | returned corresponds =>
    have rest := goesOn _ _ corresponds
    exact ⟨List.rel_append early rest.events, rest.ends⟩

/-- What the events show, where corresponding events show the same. -/
theorem InStep.shows {run : Traced ε event α} {twin : Traced ε other β} {shown : Type} {shows : event → shown} {twinShows : other → shown}
    (inStep : InStep onEvent onResult run twin) (same : ∀ happened elsewhere, onEvent happened elsewhere → shows happened = twinShows elsewhere) :
    run.events.map shows = twin.events.map twinShows := by
  rw [← List.forall₂_eq_eq_eq, List.forall₂_map_left_iff, List.forall₂_map_right_iff]
  exact inStep.events.imp same

theorem InStep.returns {run : Traced ε event α} {twin : Traced ε other β} {shown : Type} {shows : α → shown} {twinShows : β → shown}
    (inStep : InStep onEvent onResult run twin) (same : ∀ value elsewhere, onResult value elsewhere → shows value = twinShows elsewhere) :
    run.result.map shows = twin.result.map twinShows := by
  obtain ⟨events, result⟩ := run
  obtain ⟨twinEvents, twinResult⟩ := twin
  obtain ⟨_, ends⟩ := inStep
  cases ends with
  | stopped stop => rfl
  | returned corresponds => exact congrArg Except.ok (same _ _ corresponds)

end ShardManager.Traced

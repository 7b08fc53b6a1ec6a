import ShardManager.Lib.EventRun
import ShardManager.Lib.Traced

/-! Computations whose events stand for steps of a machine. What holds in every run
of the machine then holds at every point of the computation. -/

namespace ShardManager

/-- A machine of steps that may fail. -/
def Machine.ofSteps {S E ε : Type} (allowed : S → E → Prop) (perform : S → E → Except ε S) : Machine S E where
  enabled state step := allowed state step ∧ (perform state step).isOk
  next state step := (perform state step).toOption.getD state

/-- The steps form a run, and what holds where it ends is stated. -/
def Machine.Leads {S E : Type} (machine : Machine S E) (start : S) (steps : List E) (reaches : S → Prop) : Prop :=
  machine.Runs start steps ∧ reaches (machine.after start steps)

namespace Traced
variable {S E ε event α β : Type} {machine : Machine S E} {steps : event → List E} {start : S}

/-- The steps that the events stand for form a run, and what is returned, or the stop,
fits the state at its end. -/
structure Performs (machine : Machine S E) (steps : event → List E) (onResult : α → S → Prop) (onStop : ε → S → Prop) (start : S)
    (run : Traced ε event α) : Prop where
  runs : machine.Runs start (run.events.flatMap steps)
  results : ∀ value, run.result = .ok value → onResult value (machine.after start (run.events.flatMap steps))
  stops : ∀ stop, run.result = .error stop → onStop stop (machine.after start (run.events.flatMap steps))

variable {onResult : α → S → Prop} {onStop : ε → S → Prop}

theorem Performs.mono {run : Traced ε event α} {onOther : α → S → Prop} (performs : Performs machine steps onResult onStop start run)
    (implies : ∀ value point, onResult value point → onOther value point) : Performs machine steps onOther onStop start run :=
  ⟨performs.runs, fun value done => implies value _ (performs.results value done), performs.stops⟩

theorem performs_pure {value : α} (holds : onResult value start) :
    Performs machine steps onResult onStop start (Pure.pure value : Traced ε event α) := by
  refine ⟨trivial, ?_, by rintro _ ⟨⟩⟩
  rintro _ ⟨⟩
  exact holds

theorem performs_tell {happened : event} {onTold : S → Prop} (leads : machine.Leads start (steps happened) onTold) :
    Performs machine steps (fun _ => onTold) onStop start (tell happened : Traced ε event Unit) := by
  have events : (tell happened : Traced ε event Unit).events.flatMap steps = steps happened := by
    simp [tell]
  refine ⟨?_, ?_, by rintro _ ⟨⟩⟩
  · rw [events]
    exact leads.1
  · rintro _ ⟨⟩
    rw [events]
    exact leads.2

theorem performs_ok {value : α} (holds : onResult value start) :
    Performs machine steps onResult onStop start (lift (.ok value) : Traced ε event α) := performs_pure holds

theorem performs_error {stop : ε} (holds : onStop stop start) :
    Performs machine steps onResult onStop start (lift (.error stop) : Traced ε event α) := by
  refine ⟨trivial, by rintro _ ⟨⟩, ?_⟩
  rintro _ ⟨⟩
  exact holds

theorem performs_bind {onFinal : β → S → Prop} {first : Traced ε event α} {next : α → Traced ε event β}
    (begins : Performs machine steps onResult onStop start first)
    (goesOn : ∀ value middle, onResult value middle → Performs machine steps onFinal onStop middle (next value)) :
    Performs machine steps onFinal onStop start (first >>= next) := by
  change Performs machine steps onFinal onStop start (Traced.bind first next)
  unfold Traced.bind
  cases done : first.result with
  | error stop => exact ⟨begins.runs, by rintro _ ⟨⟩, fun _ same => begins.stops _ (by rw [done, ← Except.error.inj same])⟩
  | ok value =>
    have rest := goesOn value _ (begins.results value done)
    refine ⟨?_, ?_, ?_⟩
    · rw [List.flatMap_append]
      exact begins.runs.append rest.runs
    · intro final finished
      rw [List.flatMap_append, Machine.after_append]
      exact rest.results final finished
    · intro stop stopped
      rw [List.flatMap_append, Machine.after_append]
      exact rest.stops stop stopped

/-- A loop performs the steps of its turns. The invariant may mention the items that
are still to come. -/
theorem performs_foldlM {body : β → α → Traced ε event β} (invariant : List α → β → S → Prop) {items : List α} {initial : β}
    (turn : ∀ item rest value point, invariant (item :: rest) value point →
      Performs machine steps (invariant rest) onStop point (body value item))
    (begins : invariant items initial start) :
    Performs machine steps (invariant []) onStop start (items.foldlM body initial) := by
  induction items generalizing initial start with
  | nil => exact performs_pure begins
  | cons item items ih =>
    rw [List.foldlM_cons]
    exact performs_bind (turn item items initial start begins) fun value point holds => ih holds

end Traced
end ShardManager

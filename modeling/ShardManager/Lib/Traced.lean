import Mathlib.Logic.Basic

/-! Computations that log events and may stop. What was logged before a stop is
kept, so statements about everything a computation ever reached cover the
computations that did not finish. -/

namespace ShardManager

structure Traced (ε event α : Type) where
  events : List event
  result : Except ε α

namespace Traced
variable {ε event α β : Type}

def pure (value : α) : Traced ε event α := ⟨[], .ok value⟩

def bind (first : Traced ε event α) (next : α → Traced ε event β) : Traced ε event β :=
  match first.result with
  | .ok value => ⟨first.events ++ (next value).events, (next value).result⟩
  | .error stop => ⟨first.events, .error stop⟩

instance : Monad (Traced ε event) where
  pure := Traced.pure
  bind := Traced.bind

def tell (happened : event) : Traced ε event Unit := ⟨[happened], .ok ()⟩

def lift (result : Except ε α) : Traced ε event α := ⟨[], result⟩

/-- Every event satisfies the first predicate, and a result the second. -/
def Satisfies (onEvent : event → Prop) (onResult : α → Prop) (run : Traced ε event α) : Prop :=
  (∀ happened ∈ run.events, onEvent happened) ∧ ∀ value, run.result = .ok value → onResult value

variable {onEvent : event → Prop} {onResult : α → Prop}

theorem satisfies_pure {value : α} (holds : onResult value) :
    Satisfies onEvent onResult (Pure.pure value : Traced ε event α) := by
  refine ⟨by rintro _ ⟨⟩, ?_⟩
  intro other same
  cases same
  exact holds

theorem satisfies_tell {happened : event} (holds : onEvent happened) :
    Satisfies onEvent (fun _ => True) (tell happened : Traced ε event Unit) := by
  refine ⟨?_, fun _ _ => trivial⟩
  intro other member
  rw [List.mem_singleton.mp member]
  exact holds

theorem satisfies_lift {result : Except ε α} (holds : ∀ value, result = .ok value → onResult value) :
    Satisfies onEvent onResult (lift result : Traced ε event α) :=
  ⟨by rintro _ ⟨⟩, holds⟩

theorem satisfies_bind {first : Traced ε event α} {next : α → Traced ε event β} {onFinal : β → Prop}
    (start : Satisfies onEvent onResult first) (rest : ∀ value, onResult value → Satisfies onEvent onFinal (next value)) :
    Satisfies onEvent onFinal (first >>= next) := by
  change Satisfies onEvent onFinal (Traced.bind first next)
  unfold Traced.bind
  cases done : first.result with
  | ok value =>
    obtain ⟨later, final⟩ := rest value (start.2 value done)
    refine ⟨?_, final⟩
    intro happened member
    rcases List.mem_append.mp member with early | late
    · exact start.1 happened early
    · exact later happened late
  | error stop => exact ⟨start.1, fun _ impossible => by cases impossible⟩

theorem result_bind {first : Traced ε event α} {next : α → Traced ε event β} {final : β}
    (done : (first >>= next).result = .ok final) :
    ∃ value, first.result = .ok value ∧ (next value).result = .ok final := by
  change (Traced.bind first next).result = .ok final at done
  unfold Traced.bind at done
  cases result : first.result with
  | error stop => simp [result] at done
  | ok value => exact ⟨value, rfl, by simpa [result] using done⟩

theorem result_bind_error {first : Traced ε event α} {next : α → Traced ε event β} {stop : ε}
    (stopped : (first >>= next).result = .error stop) :
    first.result = .error stop ∨ ∃ value, first.result = .ok value ∧ (next value).result = .error stop := by
  change (Traced.bind first next).result = .error stop at stopped
  unfold Traced.bind at stopped
  cases result : first.result with
  | error other =>
    simp only [result, Except.error.injEq] at stopped
    exact .inl (by rw [stopped])
  | ok value => exact .inr ⟨value, rfl, by simpa [result] using stopped⟩

/-- Without its events a computation is what it would be without logging. -/
theorem result_bind_eq (first : Traced ε event α) (next : α → Traced ε event β) :
    (first >>= next).result = first.result >>= fun value => (next value).result := by
  change (Traced.bind first next).result = _
  unfold Traced.bind
  cases first.result <;> rfl

theorem result_foldlM (body : β → α → Traced ε event β) (items : List α) (initial : β) :
    (items.foldlM body initial).result = items.foldlM (fun state item => (body state item).result) initial := by
  induction items generalizing initial with
  | nil => rfl
  | cons item items ih =>
    rw [List.foldlM_cons, List.foldlM_cons, result_bind_eq]
    exact congrArg _ (funext fun state => ih state)

theorem Satisfies.mono {run : Traced ε event α} {onOtherEvent : event → Prop} {onOther : α → Prop}
    (holds : Satisfies onEvent onResult run) (events : ∀ happened, onEvent happened → onOtherEvent happened)
    (results : ∀ value, onResult value → onOther value) : Satisfies onOtherEvent onOther run :=
  ⟨fun happened member => events happened (holds.1 happened member),
    fun value done => results value (holds.2 value done)⟩

/-- The computation does not stop, every event satisfies the first predicate, and the
result the second. -/
def Finishes (onEvent : event → Prop) (onResult : α → Prop) (run : Traced ε event α) : Prop :=
  (∀ happened ∈ run.events, onEvent happened) ∧ ∃ value, run.result = .ok value ∧ onResult value

theorem finishes_pure {value : α} : Finishes onEvent onResult (Pure.pure value : Traced ε event α) ↔ onResult value := by
  constructor
  · rintro ⟨_, _, ⟨⟩, holds⟩
    exact holds
  · exact fun holds => ⟨by rintro _ ⟨⟩, value, rfl, holds⟩

theorem finishes_tell {happened : event} {onTold : Unit → Prop} :
    Finishes onEvent onTold (tell happened : Traced ε event Unit) ↔ onEvent happened ∧ onTold () := by
  constructor
  · rintro ⟨events, _, ⟨⟩, holds⟩
    exact ⟨events happened (List.mem_singleton.mpr rfl), holds⟩
  · rintro ⟨told, holds⟩
    refine ⟨?_, (), rfl, holds⟩
    intro other member
    rw [List.mem_singleton.mp member]
    exact told

theorem not_finishes_error {stop : ε} : ¬ Finishes onEvent onResult (lift (.error stop) : Traced ε event α) := by
  rintro ⟨_, _, ⟨⟩, _⟩

theorem finishes_bind {first : Traced ε event α} {next : α → Traced ε event β} {onFinal : β → Prop} :
    Finishes onEvent onFinal (first >>= next) ↔
      Finishes onEvent (fun value => Finishes onEvent onFinal (next value)) first := by
  change Finishes onEvent onFinal (Traced.bind first next) ↔ _
  unfold Traced.bind
  cases done : first.result with
  | ok value =>
    constructor
    · rintro ⟨events, final⟩
      refine ⟨fun happened early => events happened (List.mem_append_left _ early), value, done, ?_, final⟩
      exact fun happened late => events happened (List.mem_append_right _ late)
    · rintro ⟨early, other, same, late, final⟩
      obtain rfl := Except.ok.inj (done.symm.trans same)
      exact ⟨fun happened member => (List.mem_append.mp member).elim (early happened) (late happened), final⟩
  | error stop =>
    constructor
    · rintro ⟨_, _, ⟨⟩, _⟩
    · rintro ⟨_, other, same, _⟩
      rw [done] at same
      cases same

theorem finishes_lift_ok {value : α} : Finishes onEvent onResult (lift (.ok value) : Traced ε event α) ↔ onResult value :=
  finishes_pure

theorem Finishes.mono {run : Traced ε event α} {onOther : α → Prop} (holds : Finishes onEvent onResult run)
    (results : ∀ value, onResult value → onOther value) : Finishes onEvent onOther run := by
  obtain ⟨events, value, done, result⟩ := holds
  exact ⟨events, value, done, results value result⟩

theorem finishes_foldlM {body : β → α → Traced ε event β} (invariant : List α → β → Prop) {items : List α} {initial : β}
    (step : ∀ handled item rest state, items = handled ++ item :: rest → invariant handled state →
      Finishes onEvent (invariant (handled ++ [item])) (body state item))
    (begins : invariant [] initial) : Finishes onEvent (invariant items) (items.foldlM body initial) := by
  suffices goesOn : ∀ rest handled state, items = handled ++ rest → invariant handled state →
      Finishes onEvent (invariant items) (rest.foldlM body state) from goesOn items [] initial rfl begins
  intro rest
  induction rest with
  | nil =>
    intro handled state split holds
    rw [List.foldlM_nil, finishes_pure, split, List.append_nil]
    exact holds
  | cons item rest ih =>
    intro handled state split holds
    rw [List.foldlM_cons, finishes_bind]
    refine (step handled item rest state split holds).mono fun after next => ?_
    exact ih (handled ++ [item]) after (by rw [split, List.append_cons]) next

end Traced
end ShardManager

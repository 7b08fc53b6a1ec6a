import Mathlib.Logic.Basic

/-! Machines that take events, and their runs; systems given by a relation of steps, and
the states they reach. A property that holds in every state of a run can often be
traced to a condition on the single steps of the run. -/

namespace ShardManager

section Relation
variable {S : Type} {initial : S → Prop} {step : S → S → Prop}

inductive Reachable (initial : S → Prop) (step : S → S → Prop) : S → Prop where
  | start {state : S} (begins : initial state) : Reachable initial step state
  | next {before after : S} (reached : Reachable initial step before) (taken : step before after) : Reachable initial step after

/-- What holds initially and is preserved by every step holds of every reachable state. -/
theorem Reachable.invariant {holds : S → Prop} (begins : ∀ state, initial state → holds state)
    (preserved : ∀ before after, holds before → step before after → holds after) {state : S}
    (reached : Reachable initial step state) : holds state := by
  induction reached with
  | start initially => exact begins _ initially
  | next _ taken held => exact preserved _ _ held taken

end Relation

structure Machine (S E : Type) where
  enabled : S → E → Prop
  next : S → E → S

namespace Machine
variable {S E : Type} (machine : Machine S E)

def after (start : S) (events : List E) : S := events.foldl machine.next start

/-- Every event is enabled when it happens. -/
def Runs : S → List E → Prop
  | _, [] => True
  | state, event :: events => machine.enabled state event ∧ Runs (machine.next state event) events

instance decidableRuns [∀ state event, Decidable (machine.enabled state event)] :
    ∀ state events, Decidable (machine.Runs state events)
  | _, [] => isTrue trivial
  | state, event :: events =>
    have := decidableRuns (machine.next state event) events
    inferInstanceAs (Decidable (_ ∧ _))

/-- The property holds initially and after every event. -/
def Always (holds : S → Prop) (start : S) (events : List E) : Prop :=
  ∀ earlier later, events = earlier ++ later → holds (machine.after start earlier)

/-- Every event meets the condition in the state it happens in. -/
def EachStep (condition : S → E → Prop) (start : S) (events : List E) : Prop :=
  ∀ earlier event later, events = earlier ++ event :: later → condition (machine.after start earlier) event

/-- Some event meets the condition in the state it happens in. -/
def SomeStep (condition : S → E → Prop) (start : S) (events : List E) : Prop :=
  ∃ earlier event later, events = earlier ++ event :: later ∧ condition (machine.after start earlier) event

variable {machine} {holds kept : S → Prop} {condition : S → E → Prop} {start : S} {event : E} {events : List E}

@[simp] theorem after_nil : machine.after start [] = start := rfl

@[simp] theorem after_cons : machine.after start (event :: events) = machine.after (machine.next start event) events := rfl

theorem after_append (earlier later : List E) :
    machine.after start (earlier ++ later) = machine.after (machine.after start earlier) later :=
  List.foldl_append

theorem always_nil : machine.Always holds start [] ↔ holds start := by
  constructor
  · intro always
    exact always [] [] rfl
  · intro here earlier later split
    rw [(List.append_eq_nil_iff.mp split.symm).1]
    exact here

theorem always_cons :
    machine.Always holds start (event :: events) ↔ holds start ∧ machine.Always holds (machine.next start event) events := by
  constructor
  · intro always
    exact ⟨always [] _ rfl, fun earlier later split => always (event :: earlier) later (by rw [split]; rfl)⟩
  · rintro ⟨here, always⟩ earlier later split
    cases earlier with
    | nil => exact here
    | cons first earlier =>
      obtain ⟨rfl, rest⟩ := List.cons.inj split
      exact always earlier later rest

theorem eachStep_nil : machine.EachStep condition start [] := by
  intro earlier event later split
  simp at split

theorem eachStep_cons :
    machine.EachStep condition start (event :: events) ↔
      condition start event ∧ machine.EachStep condition (machine.next start event) events := by
  constructor
  · intro each
    exact ⟨each [] event events rfl, fun earlier next later split => each (event :: earlier) next later (by rw [split]; rfl)⟩
  · rintro ⟨here, each⟩ earlier next later split
    cases earlier with
    | nil =>
      obtain ⟨rfl, rfl⟩ := List.cons.inj split
      exact here
    | cons first earlier =>
      obtain ⟨rfl, rest⟩ := List.cons.inj split
      exact each earlier next later rest

instance decidableEachStep [∀ state event, Decidable (condition state event)] :
    ∀ start events, Decidable (machine.EachStep condition start events)
  | _, [] => isTrue eachStep_nil
  | start, event :: events =>
    have := decidableEachStep (machine.next start event) events
    decidable_of_iff _ eachStep_cons.symm

theorem someStep_nil : ¬ machine.SomeStep condition start [] := by
  rintro ⟨earlier, event, later, split, _⟩
  simp at split

theorem someStep_cons :
    machine.SomeStep condition start (event :: events) ↔
      condition start event ∨ machine.SomeStep condition (machine.next start event) events := by
  constructor
  · rintro ⟨earlier, next, later, split, met⟩
    cases earlier with
    | nil =>
      obtain ⟨rfl, rfl⟩ := List.cons.inj split
      exact .inl met
    | cons first earlier =>
      obtain ⟨rfl, rest⟩ := List.cons.inj split
      exact .inr ⟨earlier, next, later, rest, met⟩
  · rintro (met | ⟨earlier, next, later, rfl, met⟩)
    · exact ⟨[], event, events, rfl, met⟩
    · exact ⟨event :: earlier, next, later, rfl, met⟩

/-- A property that is never lost holds at the end of a run if it did at the start, or
some event brought it. -/
theorem after_iff (gained : ∀ state event, holds (machine.next state event) ↔ holds state ∨ condition state event) :
    holds (machine.after start events) ↔ holds start ∨ machine.SomeStep condition start events := by
  induction events generalizing start with
  | nil => exact (or_iff_left someStep_nil).symm
  | cons event events ih => rw [after_cons, ih, gained, someStep_cons, or_assoc]

theorem Runs.split {earlier later : List E} (runs : machine.Runs start (earlier ++ later)) :
    machine.Runs start earlier ∧ machine.Runs (machine.after start earlier) later := by
  induction earlier generalizing start with
  | nil => exact ⟨trivial, runs⟩
  | cons event earlier ih =>
    obtain ⟨first, rest⟩ := ih runs.2
    exact ⟨⟨runs.1, first⟩, rest⟩

theorem Runs.append {earlier later : List E} (runs : machine.Runs start earlier)
    (goesOn : machine.Runs (machine.after start earlier) later) : machine.Runs start (earlier ++ later) := by
  induction earlier generalizing start with
  | nil => exact goesOn
  | cons event earlier ih => exact ⟨runs.1, ih runs.2 goesOn⟩

/-- What every enabled event preserves holds at the end of a run. -/
theorem Runs.invariant (preserved : ∀ state event, kept state → machine.enabled state event → kept (machine.next state event))
    (begins : kept start) (runs : machine.Runs start events) : kept (machine.after start events) := by
  induction events generalizing start with
  | nil => exact begins
  | cons event events ih => exact ih (preserved start event begins runs.1) runs.2

/-- Two conditions that agree on every enabled event agree on a run. -/
theorem Runs.eachStep_congr {others : S → E → Prop}
    (preserved : ∀ state event, kept state → machine.enabled state event → kept (machine.next state event))
    (agree : ∀ state event, kept state → machine.enabled state event → (condition state event ↔ others state event))
    (begins : kept start) (runs : machine.Runs start events) :
    machine.EachStep condition start events ↔ machine.EachStep others start events := by
  induction events generalizing start with
  | nil => exact iff_of_true eachStep_nil eachStep_nil
  | cons event events ih =>
    rw [eachStep_cons, eachStep_cons, agree start event begins runs.1, ih (preserved start event begins runs.1) runs.2]

/-- A property that is never regained holds throughout a run if it holds at its end. -/
theorem Runs.always_iff_after (lost : ∀ state event, ¬ holds state → machine.enabled state event → ¬ holds (machine.next state event))
    (runs : machine.Runs start events) : machine.Always holds start events ↔ holds (machine.after start events) := by
  constructor
  · intro always
    exact always events [] (List.append_nil events).symm
  · rintro last earlier later rfl
    refine Classical.byContradiction fun gone => ?_
    rw [after_append] at last
    exact runs.split.2.invariant lost gone last

/-- The rule below for a property that needs no invariant and no enabled events. -/
theorem always_iff_eachStep
    (exact : ∀ state event, holds state → (holds (machine.next state event) ↔ condition state event))
    (initially : holds start) : machine.Always holds start events ↔ machine.EachStep condition start events := by
  induction events generalizing start with
  | nil => exact ⟨fun _ => eachStep_nil, fun _ => always_nil.mpr initially⟩
  | cons event events ih =>
    rw [always_cons, eachStep_cons, ← exact start event initially]
    constructor
    · rintro ⟨_, always⟩
      have next := always [] events rfl
      exact ⟨next, (ih next).mp always⟩
    · rintro ⟨next, each⟩
      exact ⟨initially, (ih next).mpr each⟩

/-- Where each event keeps the property exactly if it meets the condition, a run keeps
it throughout exactly if all of its events do. -/
theorem Runs.always_iff
    (preserved : ∀ state event, kept state → machine.enabled state event → kept (machine.next state event))
    (exact : ∀ state event, kept state → holds state → machine.enabled state event →
      (holds (machine.next state event) ↔ condition state event))
    (begins : kept start) (initially : holds start) (runs : machine.Runs start events) :
    machine.Always holds start events ↔ machine.EachStep condition start events := by
  induction events generalizing start with
  | nil => exact ⟨fun _ => eachStep_nil, fun _ => always_nil.mpr initially⟩
  | cons event events ih =>
    have still := preserved start event begins runs.1
    rw [always_cons, eachStep_cons, ← exact start event begins initially runs.1]
    constructor
    · rintro ⟨_, always⟩
      have next := always [] events rfl
      exact ⟨next, (ih still next runs.2).mp always⟩
    · rintro ⟨next, each⟩
      exact ⟨initially, (ih still next runs.2).mpr each⟩

end Machine
end ShardManager

import ShardManager.Proofs.ServerRuns

/-! Every registered completion queue should have one handler that waits for a connection.
Handlers are constructed on the queue that was registered last, whichever queue the
connection came in on. -/

namespace ShardManager.SvcDiscovery
open ServerUtils

namespace AsyncServer

/-- The handler's `CONNECT` is outstanding on the queue. -/
def Waits (server : AsyncServer) (queue : Nat) (tag : HandlerId) : Prop :=
  tag < server.constructed ∧ (server.objects tag).connecting = true ∧ (server.objects tag).completionQueue = some queue

def Waiting (server : AsyncServer) : Prop := ∀ queue ∈ server.registered, ∃! tag, server.Waits queue tag

/-- Connections succeed, and on the queue that was registered last. -/
def ConnectsLast (server : AsyncServer) : Event → Prop
  | .complete tag (.connect ok) => ok = true ∧ (server.objects tag).completionQueue = server.manager.completionQueue
  | _ => True

/-- Handlers are constructed on registered queues. -/
structure Queued (server : AsyncServer) : Prop where
  wellFormed : server.WellFormed
  queues : ∀ tag < server.constructed, ∃ queue ∈ server.registered, (server.objects tag).completionQueue = some queue
  current : 0 < server.constructed → ∃ queue ∈ server.registered, server.manager.completionQueue = some queue

variable {server : AsyncServer}

private theorem Event.registered_subset {before : List Nat} {event : Event} {queue : Nat} (registered : queue ∈ before) :
    queue ∈ event.registered before := by
  cases event with
  | register thread => exact List.mem_append_left _ registered
  | _ => exact registered

private theorem Queued.current_next (queued : server.Queued) {event : Event} (enabled : server.Enabled event)
    (nonempty : 0 < (server.handle event).constructed) :
    ∃ queue ∈ (server.handle event).registered, (server.handle event).manager.completionQueue = some queue := by
  have effect := queued.wellFormed.effect enabled
  rw [effect.queue, effect.registered]
  cases event with
  | register thread => exact ⟨thread, List.mem_append_right _ (List.mem_singleton_self thread), rfl⟩
  | complete tag completion => exact queued.current (Nat.zero_lt_of_lt enabled.1)
  | write tag message => exact queued.current (Nat.zero_lt_of_lt enabled.1)
  | stop tag => exact queued.current (Nat.zero_lt_of_lt enabled)
  | removeBin serviceId binName => exact queued.current nonempty

theorem Queued.next (queued : server.Queued) {event : Event} (enabled : server.Enabled event) :
    (server.handle event).Queued := by
  have effect := queued.wellFormed.effect enabled
  have current := queued.current_next enabled
  refine ⟨queued.wellFormed.next enabled, fun tag known => ?_, current⟩
  by_cases before : tag < server.constructed
  · obtain ⟨queue, registered, on⟩ := queued.queues tag before
    rw [effect.known tag before, react_queue, effect.registered]
    exact ⟨queue, Event.registered_subset registered, on⟩
  · obtain ⟨_, _, object⟩ := effect.constructs known before
    rw [object]
    exact current (Nat.zero_lt_of_lt known)

/-- Who waits after an event: whose connection has not come in, and a new handler. -/
private theorem waits_next (wellFormed : server.WellFormed) {event : Event} (enabled : server.Enabled event) (queue : Nat)
    (tag : HandlerId) :
    (server.handle event).Waits queue tag ↔ (server.Waits queue tag ∧ ¬ event.Connects tag) ∨
      (event.Constructs ∧ tag = server.constructed ∧ event.queue server.manager.completionQueue = some queue) := by
  have effect := wellFormed.effect enabled
  unfold Waits
  by_cases before : tag < server.constructed
  · have known := Nat.lt_of_lt_of_le before effect.grows
    rw [effect.known tag before, react_connecting, react_queue]
    simp only [before, known, Nat.ne_of_lt before, true_and, false_and, and_false, or_false]
    tauto
  · constructor
    · rintro ⟨known, _, on⟩
      obtain ⟨constructs, new, object⟩ := effect.constructs known before
      rw [object] at on
      exact .inr ⟨constructs, new, effect.queue ▸ on⟩
    · rintro (⟨⟨known, _⟩, _⟩ | ⟨constructs, rfl, on⟩)
      · exact absurd known before
      · obtain ⟨_, one, object⟩ | ⟨not, _⟩ := effect.constructed
        · rw [object, effect.queue]
          exact ⟨(Nat.lt_succ_self _).trans_eq one.symm, rfl, on⟩
        · exact absurd constructs not

private theorem waiting_congr {after : AsyncServer} (registered : after.registered = server.registered)
    (waits : ∀ queue tag, after.Waits queue tag ↔ server.Waits queue tag) : after.Waiting ↔ server.Waiting := by
  simp only [Waiting, registered, waits]

/-- An event leaves one handler waiting on every queue exactly if it meets the condition. -/
private theorem waiting_next (queued : server.Queued) (waiting : server.Waiting) {event : Event} (enabled : server.Enabled event) :
    (server.handle event).Waiting ↔ server.ConnectsLast event := by
  have registered := (queued.wellFormed.effect enabled).registered
  have waits := waits_next queued.wellFormed enabled
  cases event with
  | register thread =>
    refine iff_of_true (fun queue among => ?_) trivial
    rw [registered] at among
    obtain earlier | last := List.mem_append.mp among
    · have different : thread ≠ queue := by
        rintro rfl
        exact enabled.2 earlier
      simp only [waits, Event.Connects, Event.queue, Option.some.injEq, different, and_false, or_false, not_false_iff, and_true]
      exact waiting queue earlier
    · obtain rfl := List.mem_singleton.mp last
      refine ⟨server.constructed, (waits _ _).mpr (.inr ⟨trivial, rfl, rfl⟩), fun tag waitsHere => ?_⟩
      obtain ⟨⟨known, _, on⟩, _⟩ | ⟨_, new, _⟩ := (waits _ _).mp waitsHere
      · -- no handler was constructed on a queue before it was registered
        obtain ⟨queue, earlier, same⟩ := queued.queues tag known
        rw [on, Option.some.injEq] at same
        exact absurd (same ▸ earlier) enabled.2
      · exact new
  | complete tag completion =>
    cases completion with
    | connect ok =>
      obtain ⟨known, connecting⟩ := enabled
      obtain ⟨queue, among, on⟩ := queued.queues tag known
      obtain ⟨_, _, unique⟩ := waiting queue among
      have only : ∀ other, server.Waits queue other → tag = other :=
        fun other waitsHere => (unique tag ⟨known, connecting, on⟩).trans (unique other waitsHere).symm
      change _ ↔ ok = true ∧ (server.objects tag).completionQueue = _
      rw [on]
      constructor
      · intro after
        obtain ⟨other, waitsHere, _⟩ := after queue (registered ▸ among)
        obtain ⟨before, apart⟩ | ⟨constructs, _, current⟩ := (waits _ _).mp waitsHere
        · exact absurd (only other before) apart
        · cases ok with
          | true => exact ⟨rfl, current.symm⟩
          | false => exact constructs.elim
      · rintro ⟨rfl, current⟩ other among
        rw [registered] at among
        by_cases here : other = queue
        · subst here
          refine ⟨server.constructed, (waits _ _).mpr (.inr ⟨trivial, rfl, current.symm⟩), fun another waitsHere => ?_⟩
          obtain ⟨before, apart⟩ | ⟨_, new, _⟩ := (waits _ _).mp waitsHere
          · exact absurd (only another before) apart
          · exact new
        · obtain ⟨waiter, waitsHere, alone⟩ := waiting other among
          have apart : ∀ another, server.Waits other another → tag ≠ another := by
            rintro another waitsThere rfl
            exact here (Option.some.inj (waitsThere.2.2.symm.trans on))
          refine ⟨waiter, (waits _ _).mpr (.inl ⟨waitsHere, apart waiter waitsHere⟩), fun another waitsThere => ?_⟩
          obtain ⟨before, _⟩ | ⟨_, _, current'⟩ := (waits _ _).mp waitsThere
          · exact alone another before
          · exact absurd (Option.some.inj (current'.symm.trans current.symm)) here
    | _ =>
      refine iff_of_true ((waiting_congr registered fun queue other => ?_).mpr waiting) trivial
      rw [waits]
      exact ⟨fun next => next.elim And.left fun made => made.1.elim, fun before => .inl ⟨before, id⟩⟩
  | _ =>
    refine iff_of_true ((waiting_congr registered fun queue other => ?_).mpr waiting) trivial
    rw [waits]
    exact ⟨fun next => next.elim And.left fun made => made.1.elim, fun before => .inl ⟨before, id⟩⟩

private theorem queued_start (numIoThreads : Nat) : Queued { numIoThreads } where
  wellFormed := wellFormed_start numIoThreads
  queues tag known := absurd known (Nat.not_lt_zero tag)
  current nonempty := absurd nonempty (Nat.lt_irrefl 0)

/-- In a run, one handler waits on every registered queue throughout exactly if all
connections succeed and come in on the queue that was registered last. -/
theorem waiting_iff (numIoThreads : Nat) (events : List Event) (runs : machine.Runs { numIoThreads } events) :
    machine.Always Waiting { numIoThreads } events ↔ machine.EachStep ConnectsLast { numIoThreads } events := by
  refine runs.always_iff ?_ ?_ (queued_start numIoThreads) ?_
  · exact fun _ _ queued enabled => Queued.next queued enabled
  · exact fun _ _ queued waiting enabled => waiting_next queued waiting enabled
  · exact fun queue registered => absurd registered List.not_mem_nil

def twoThreads : List Event := [.register 0, .register 1, .complete 0 (.connect true)]

theorem waiting_twoThreads :
    machine.Always Waiting { numIoThreads := 2 } twoThreads ↔ machine.EachStep ConnectsLast { numIoThreads := 2 } twoThreads :=
  waiting_iff 2 twoThreads (by decide +kernel)

/-- Nothing waits on the first queue any more. -/
theorem first_queue_deserted :
    machine.Runs { numIoThreads := 2 } twoThreads ∧ ¬ machine.Always Waiting { numIoThreads := 2 } twoThreads := by
  refine ⟨by decide +kernel, fun always => ?_⟩
  obtain ⟨tag, ⟨known, connecting, on⟩, _⟩ := always _ [] (List.append_nil _).symm 0 (by decide +kernel)
  have three : tag < 3 := known
  match tag, three with
  | 0, _ => exact absurd connecting (by decide +kernel)
  | 1, _ => exact absurd on (by decide +kernel)
  | 2, _ => exact absurd on (by decide +kernel)

end AsyncServer
end ShardManager.SvcDiscovery

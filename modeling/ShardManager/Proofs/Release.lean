import ShardManager.Proofs.ServerRuns

/-! What becomes of a handler that stops: whether its stream is finished and the manager
lets go of it. -/

namespace ShardManager.SvcDiscovery
open ServerUtils Function

/-- The event stops a handler that is not authenticated. -/
def Event.Stops (tag : HandlerId) : Event → Prop
  | .complete other completion => other = tag ∧ completion.stops = true
  | .stop other => other = tag
  | _ => False

namespace AsyncServer
variable {server : AsyncServer}

/-- `Finish` is called once on a connected stream whose handler has stopped, and a stopped
handler with nothing outstanding is forgotten. -/
structure Released (tag : HandlerId) (server : AsyncServer) : Prop where
  once : (server.objects tag).connected = true → (server.objects tag).finishes ≤ 1
  issued : (server.objects tag).connected = true → (server.objects tag).handler.hasStopped = true →
    1 ≤ (server.objects tag).finishes
  removed : (server.objects tag).handler.hasStopped = true → (server.objects tag).Idle →
    tag ∉ server.manager.requestHandlerMap

private theorem react_stopped (wellFormed : server.WellFormed) {event : Event} (enabled : server.Enabled event) (tag : HandlerId) :
    ((server.objects tag).react tag event).handler.hasStopped = true ↔
      (server.objects tag).handler.hasStopped = true ∨ event.Stops tag := by
  cases event with
  | complete other completion =>
    by_cases here : other = tag
    · subst here
      have stopped := ((wellFormed.sound other).processed_spec enabled.2).stopped
      rw [HandlerObject.react, if_pos rfl, stopped, Bool.or_eq_true, Event.Stops, and_iff_right rfl]
    · simp [HandlerObject.react, Event.Stops, here]
  | write other message =>
    by_cases here : other = tag
    · subst here
      rw [HandlerObject.react, if_pos rfl]
      exact (or_iff_left id).symm
    · simp [HandlerObject.react, Event.Stops, here]
  | stop other =>
    by_cases here : other = tag
    · subst here
      rw [HandlerObject.react, if_pos rfl, HandlerObject.stopped, RequestHandler.stop_eq _ (wellFormed.sound other).unauthenticated]
      exact iff_of_true rfl (.inr rfl)
    · simp [HandlerObject.react, Event.Stops, here]
  | _ => exact (or_iff_left id).symm

/-- What the events so far say of a handler. -/
structure History (tag : HandlerId) (events : List Event) (server : AsyncServer) : Prop where
  stopped : (server.objects tag).handler.hasStopped = true ↔ ∃ event ∈ events, event.Stops tag
  connecting : tag < server.constructed → ((server.objects tag).connecting = true ↔ ∀ event ∈ events, ¬ event.Connects tag)
  known : ∀ event ∈ events, event.Stops tag ∨ event.Connects tag → tag < server.constructed

theorem Enabled.known {event : Event} {tag : HandlerId} (enabled : server.Enabled event)
    (concerned : event.Stops tag ∨ event.Connects tag) : tag < server.constructed := by
  cases event with
  | complete other completion =>
    have same : other = tag := by
      cases concerned with
      | inl stops => exact stops.1
      | inr connects =>
        cases completion with
        | connect ok => exact connects
        | _ => exact connects.elim
    exact same ▸ enabled.1
  | stop other => exact (concerned.resolve_right id : other = tag) ▸ enabled
  | _ => exact (concerned.elim id id).elim

theorem History.next {tag : HandlerId} {events : List Event} (history : History tag events server)
    (wellFormed : server.WellFormed) {event : Event} (enabled : server.Enabled event) :
    History tag (events ++ [event]) (server.handle event) := by
  have effect := wellFormed.effect enabled
  have later : ∀ other ∈ events ++ [event], other.Stops tag ∨ other.Connects tag → tag < server.constructed := by
    intro other among concerned
    rw [List.mem_append, List.mem_singleton] at among
    obtain before | rfl := among
    · exact history.known other before concerned
    · exact enabled.known concerned
  by_cases known : tag < server.constructed
  · refine ⟨?_, fun _ => ?_, fun _ _ _ => Nat.lt_of_lt_of_le known effect.grows⟩
    · rw [effect.known tag known, react_stopped wellFormed enabled, history.stopped]
      simp only [List.mem_append, List.mem_singleton, or_and_right, exists_or, exists_eq_left]
    · rw [effect.known tag known, react_connecting, history.connecting known]
      simp only [List.mem_append, List.mem_singleton, or_imp, forall_and, forall_eq]
  · -- the handler is not constructed yet, or by this very event
    have none : ∀ other ∈ events ++ [event], ¬ (other.Stops tag ∨ other.Connects tag) :=
      fun other among concerned => known (later other among concerned)
    have active : ((server.handle event).objects tag).handler.hasStopped = false ∧
        (tag < (server.handle event).constructed → ((server.handle event).objects tag).connecting = true) := by
      by_cases constructed : tag < (server.handle event).constructed
      · obtain ⟨_, _, object⟩ := effect.constructs constructed known
        rw [object]
        exact ⟨rfl, fun _ => rfl⟩
      · rw [(wellFormed.next enabled).fresh tag (Nat.le_of_not_lt constructed)]
        exact ⟨rfl, fun inside => absurd inside constructed⟩
    refine ⟨?_, fun constructed => ?_, fun other among concerned => absurd concerned (none other among)⟩
    · rw [active.1]
      exact iff_of_false Bool.false_ne_true fun ⟨other, among, stops⟩ => none other among (.inl stops)
    · exact iff_of_true (active.2 constructed) fun other among connects => none other among (.inr connects)

private theorem history_after (numIoThreads : Nat) (tag : HandlerId) {events : List Event} (runs : machine.Runs { numIoThreads } events) :
    History tag events (machine.after { numIoThreads } events) := by
  induction events using List.reverseRecOn with
  | nil => exact ⟨by simp [RequestHandler.hasStopped], fun known => absurd known (Nat.not_lt_zero tag), by simp⟩
  | append_singleton events event ih =>
    obtain ⟨before, last⟩ := runs.split
    rw [Machine.after_append]
    exact (ih before).next (wellFormed_after numIoThreads before) last.1

/-- In a run, a handler is released whenever it should be exactly if nothing stops it or
its `CONNECT` stays outstanding. -/
theorem released_iff (numIoThreads : Nat) (events : List Event) (runs : machine.Runs { numIoThreads } events) (tag : HandlerId) :
    machine.Always (Released tag) { numIoThreads } events ↔
      ((∃ event ∈ events, event.Stops tag) → ∀ event ∈ events, ¬ event.Connects tag) := by
  constructor
  · rintro always stops event among connects
    have released := always events [] (List.append_nil _).symm
    have wellFormed := wellFormed_after numIoThreads runs
    have history := history_after numIoThreads tag runs
    have sound := wellFormed.sound tag
    have known := history.known event among (.inr connects)
    have stopped := history.stopped.mpr stops
    have answered : ¬ ((machine.after { numIoThreads } events).objects tag).connecting = true :=
      fun waiting => (history.connecting known).mp waiting event among connects
    by_cases connected : ((machine.after { numIoThreads } events).objects tag).connected = true
    · have issued := released.issued connected stopped
      rw [sound.unfinished] at issued
      exact absurd issued (Nat.not_succ_le_zero 0)
    · -- without a connection there is nothing to wait for
      obtain ⟨reads, writes⟩ := sound.quiet (Bool.eq_false_of_not_eq_true connected)
      have idle : ((machine.after { numIoThreads } events).objects tag).Idle :=
        ⟨Bool.eq_false_of_not_eq_true answered, reads, writes, Nat.eq_zero_of_add_eq_zero_left sound.unfinished⟩
      exact released.removed stopped idle ((wellFormed.present tag).mpr known)
  · rintro unconnected earlier later rfl
    obtain ⟨runs, _⟩ := runs.split
    have history := history_after numIoThreads tag runs
    have sound := (wellFormed_after numIoThreads runs).sound tag
    have waiting : ((machine.after { numIoThreads } earlier).objects tag).handler.hasStopped = true →
        ((machine.after { numIoThreads } earlier).objects tag).connecting = true := by
      intro stopped
      obtain ⟨event, among, stops⟩ := history.stopped.mp stopped
      have outstanding := unconnected ⟨event, List.mem_append_left _ among, stops⟩
      refine (history.connecting (history.known event among (.inl stops))).mpr fun other among => ?_
      exact outstanding other (List.mem_append_left _ among)
    refine ⟨fun _ => sound.unfinished.le.trans (Nat.zero_le 1), fun connected stopped => ?_, fun stopped idle => ?_⟩
    · have apart := sound.waiting (waiting stopped)
      rw [connected] at apart
      cases apart
    · have connecting := waiting stopped
      rw [idle.connect] at connecting
      cases connecting

def dropped : List Event := [.register 0, .complete 0 (.connect true), .complete 0 (.read none)]

theorem released_dropped :
    machine.Always (Released 0) { numIoThreads := 1 } dropped ↔
      ((∃ event ∈ dropped, event.Stops 0) → ∀ event ∈ dropped, ¬ event.Connects 0) :=
  released_iff 1 dropped (by decide +kernel) 0

/-- Its handler has stopped and nothing finishes the stream. -/
theorem dropped_stream_open :
    machine.Runs { numIoThreads := 1 } dropped ∧ ¬ machine.Always (Released 0) { numIoThreads := 1 } dropped := by
  refine ⟨by decide +kernel, fun always => ?_⟩
  have issued := (always _ [] (List.append_nil _).symm).issued (by decide +kernel) (by decide +kernel)
  exact absurd issued (by decide +kernel)

end AsyncServer
end ShardManager.SvcDiscovery

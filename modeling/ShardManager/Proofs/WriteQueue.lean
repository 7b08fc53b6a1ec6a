import ShardManager.ServerUtils.WriteSystem
import ShardManager.SvcDiscovery.RequestHandler
import ShardManager.UserLibs.Client

/-! Messages leave the write queue once each, in order and one at a time, for every
interleaving of the writing threads and the completion thread. -/

namespace ShardManager.ServerUtils
open Function

namespace RequestHandler
variable {W R : Type}

/-- The completion thread's part of `process` on both ends, in the steps of the system. -/
theorem process_write_server (handler : SvcDiscovery.RequestHandler) (active : handler.status = .active) :
    Handler.base (process .write true handler) = (handler.base.finishWrite true).attemptWrite := by
  obtain ⟨base, status, hasAuthenticated, shardRangeInfo, managerCalls⟩ := handler
  change status = .active at active
  subst active
  rfl

theorem process_write_client (client : UserLibs.Client) :
    Handler.base (process .write true client) = (client.base.finishWrite true).attemptWrite := rfl

theorem attemptWrite_cases (handler : RequestHandler W R) :
    (handler.msgQueue = [] ∨ handler.isWriting = true) ∧ handler.attemptWrite = handler ∨
    ∃ front rest, handler.msgQueue = front :: rest ∧ handler.isWriting = false ∧
      handler.attemptWrite = writeToStream front { handler with isWriting := true } := by
  unfold attemptWrite
  cases queue : handler.msgQueue with
  | nil => exact .inl ⟨.inl rfl, rfl⟩
  | cons front rest =>
    cases writing : handler.isWriting with
    | true => exact .inl ⟨.inr rfl, rfl⟩
    | false => exact .inr ⟨front, rest, rfl, rfl, rfl⟩

end RequestHandler

namespace WriteSystem
variable {ι W R : Type} [DecidableEq ι]

/-- The messages that left the queue were written, and besides them the front of the
queue while a write is under way; a queue at rest has somebody about to start on it.
Of a write that has failed no completion is to come. -/
structure InOrder (system : WriteSystem ι W R) : Prop where
  queued : ∃ done, system.entered = done ++ system.handler.msgQueue ∧
    system.handler.stream.written = done ++ if system.handler.isWriting then system.handler.msgQueue.take 1 else []
  front : system.handler.isWriting = true → system.handler.msgQueue ≠ []
  busy : system.handler.stream.outstandingWrites + (if system.completion = .finishing then 1 else 0) ≤
    if system.handler.isWriting then 1 else 0
  served : system.handler.isWriting = false → system.handler.msgQueue ≠ [] →
    (∃ writer, system.writers writer = .attempting) ∨ system.completion = .attempting

omit [DecidableEq ι] in
theorem Initial.inOrder {system : WriteSystem ι W R} (initial : Initial system) : InOrder system where
  queued := ⟨[], by simp [initial.none, initial.empty], by simp [initial.unwritten, initial.notWriting]⟩
  front := by simp [initial.notWriting]
  busy := by simp [initial.idle, initial.waiting, initial.notWriting]
  served := by simp [initial.empty]

/-- The completion of a write under way is to come or being processed. -/
def Completes (system : WriteSystem ι W R) : Prop :=
  system.handler.isWriting = true → 0 < system.handler.stream.outstandingWrites ∨ system.completion = .finishing

omit [DecidableEq ι] in
/-- Attempting a write keeps the order, and leaves a message at rest only to a write under way. -/
theorem InOrder.attemptWrite {system : WriteSystem ι W R} (inOrder : InOrder system) (writers : ι → WriterPhase W)
    (completion : CompletionPhase) (same : completion = .finishing ↔ system.completion = .finishing) :
    InOrder { system with handler := system.handler.attemptWrite, writers, completion } := by
  obtain ⟨⟨done, entered, written⟩, front, busy, served⟩ := inOrder
  rcases system.handler.attemptWrite_cases with ⟨idle, unchanged⟩ | ⟨message, rest, queue, notWriting, started⟩
  · rw [unchanged]
    refine ⟨⟨done, entered, written⟩, front, by simpa only [same] using busy, ?_⟩
    intro notWriting occupied
    rcases idle with empty | writing
    · exact absurd empty occupied
    · exact absurd (writing.symm.trans notWriting) (by decide)
  · rw [started]
    rw [notWriting] at written busy
    refine ⟨⟨done, entered, ?_⟩, ?_, ?_, ?_⟩
    · simp only [RequestHandler.writeToStream, written, queue]
      simp
    · intro _
      simp [RequestHandler.writeToStream, queue]
    · simp only [RequestHandler.writeToStream, same]
      simp only [Bool.false_eq_true, if_false] at busy
      simp only [if_true]
      omega
    · intro writing
      cases writing

theorem InOrder.step {before after : WriteSystem ι W R} (inOrder : InOrder before) (taken : Step before after) : InOrder after := by
  cases taken with
  | call writer msg outside =>
    obtain ⟨queued, front, busy, served⟩ := inOrder
    refine ⟨queued, front, busy, ?_⟩
    intro notWriting occupied
    rcases served notWriting occupied with ⟨other, attempting⟩ | attempting
    · refine .inl ⟨other, ?_⟩
      have different : other ≠ writer := by
        rintro rfl
        rw [outside] at attempting
        cases attempting
      exact (update_of_ne different _ _).trans attempting
    · exact .inr attempting
  | addToWriteQueue writer msg adding =>
    obtain ⟨⟨done, entered, written⟩, front, busy, _⟩ := inOrder
    refine ⟨⟨done, ?_, ?_⟩, ?_, busy, ?_⟩
    · simp only [RequestHandler.addToWriteQueue, entered, List.append_assoc]
    · simp only [RequestHandler.addToWriteQueue, written]
      by_cases writing : before.handler.isWriting
      · obtain ⟨message, rest, queue⟩ := List.exists_cons_of_ne_nil (front writing)
        simp [writing, queue]
      · simp [writing]
    · intro _
      simp [RequestHandler.addToWriteQueue]
    · intro _ _
      exact .inl ⟨writer, update_self _ _ _⟩
  | attemptWrite writer attempting => exact inOrder.attemptWrite _ _ Iff.rfl
  | takeUp waiting outstanding =>
    obtain ⟨queued, front, busy, _⟩ := inOrder
    have writing : before.handler.isWriting = true := by
      by_contra notWriting
      rw [if_neg notWriting] at busy
      omega
    refine ⟨queued, front, ?_, ?_⟩
    · simp only [RequestHandler.completeWrite]
      rw [waiting] at busy
      simp only [writing, if_true, reduceCtorEq, if_false] at busy ⊢
      omega
    · intro notWriting
      exact absurd (writing.symm.trans notWriting) (by decide)
  | finishWrite finishing =>
    obtain ⟨⟨done, entered, written⟩, front, busy, _⟩ := inOrder
    rw [if_pos finishing] at busy
    have writing : before.handler.isWriting = true := by
      by_contra notWriting
      rw [if_neg notWriting] at busy
      omega
    obtain ⟨message, rest, queue⟩ := List.exists_cons_of_ne_nil (front writing)
    rw [if_pos writing] at busy written
    rw [queue] at entered written
    refine ⟨⟨done ++ [message], ?_, ?_⟩, ?_, ?_, ?_⟩
    · simp [RequestHandler.finishWrite, queue, entered]
    · simp [RequestHandler.finishWrite, written]
    · intro again
      cases again
    · simp only [RequestHandler.finishWrite, Bool.false_eq_true, reduceCtorEq, if_false]
      omega
    · exact fun _ _ => .inr rfl
  | attemptNext attempting =>
    refine inOrder.attemptWrite _ _ ?_
    simp [attempting]

omit [DecidableEq ι] in
theorem InOrder.failWrite {system : WriteSystem ι W R} (inOrder : InOrder system) :
    InOrder { system with handler := system.handler.completeWrite } := by
  obtain ⟨queued, front, busy, served⟩ := inOrder
  refine ⟨queued, front, le_trans ?_ busy, served⟩
  exact Nat.add_le_add_right (Nat.sub_le _ _) _

theorem Completes.step {before after : WriteSystem ι W R} (completes : Completes before) (taken : Step before after) :
    Completes after := by
  -- a write under way after an attempt was so before, or has just been started
  have attempted : ∀ {system : WriteSystem ι W R}, Completes system → system.completion ≠ .finishing →
      system.handler.attemptWrite.isWriting = true → 0 < system.handler.attemptWrite.stream.outstandingWrites := by
    intro system completes unfinished writing
    rcases system.handler.attemptWrite_cases with ⟨_, unchanged⟩ | ⟨message, rest, _, _, started⟩
    · rw [unchanged] at writing ⊢
      exact (completes writing).resolve_right unfinished
    · rw [started]
      exact Nat.succ_pos _
  cases taken with
  | call writer msg outside => exact completes
  | addToWriteQueue writer msg adding => exact completes
  | attemptWrite writer attempting =>
    intro writing
    by_cases finishing : before.completion = .finishing
    · exact .inr finishing
    · exact .inl (attempted completes finishing writing)
  | takeUp waiting outstanding => exact fun _ => .inr rfl
  | finishWrite finishing => rintro ⟨⟩
  | attemptNext attempting => exact fun writing => .inl (attempted completes (by rw [attempting]; decide) writing)

/-- Any number of threads write to one handler: messages are written once each, in the
order of the queue, one at a time, and none is left behind. -/
theorem writes_in_order {system : WriteSystem ι W R} (reached : Reachable Initial Step system) :
    system.handler.stream.outstandingWrites ≤ 1 ∧
    system.handler.stream.written <+: system.entered ∧
    (∃ done, system.entered = done ++ system.handler.msgQueue ∧ done <+: system.handler.stream.written) ∧
    (0 < system.handler.stream.outstandingWrites → ∃ message,
      system.handler.msgQueue.head? = some message ∧ system.handler.stream.written.getLast? = some message) ∧
    (system.handler.stream.outstandingWrites = 0 → (∀ writer, system.writers writer = .outside) →
      system.completion = .waiting → system.handler.msgQueue = []) := by
  have inOrder : InOrder system :=
    reached.invariant (fun _ initial => initial.inOrder) fun _ _ inOrder taken => inOrder.step taken
  have completes : Completes system := by
    refine reached.invariant (fun _ initial writing => ?_) fun _ _ completes taken => completes.step taken
    cases initial.notWriting.symm.trans writing
  obtain ⟨⟨done, entered, written⟩, front, busy, served⟩ := inOrder
  refine ⟨?_, ?_, ⟨done, entered, written ▸ List.prefix_append _ _⟩, ?_, ?_⟩
  · split at busy <;> split at busy <;> omega
  · rw [written, entered, List.prefix_append_right_inj]
    split
    · exact List.take_prefix _ _
    · exact List.nil_prefix
  · intro outstanding
    have writing : system.handler.isWriting = true := by
      by_contra notWriting
      rw [if_neg notWriting] at busy
      omega
    obtain ⟨message, rest, queue⟩ := List.exists_cons_of_ne_nil (front writing)
    refine ⟨message, by rw [queue]; rfl, ?_⟩
    rw [written, if_pos writing, queue]
    simp
  · intro idle outside waiting
    by_contra occupied
    have notWriting : system.handler.isWriting = false := by
      by_contra writing
      rcases completes (Bool.eq_true_of_not_eq_false writing) with outstanding | finishing
      · exact absurd outstanding (by rw [idle]; decide)
      · cases waiting.symm.trans finishing
    rcases served notWriting occupied with ⟨writer, attempting⟩ | attempting
    · rw [outside writer] at attempting
      cases attempting
    · rw [waiting] at attempting
      cases attempting

def twoWriters : WriteSystem Bool ServerMessage ClientMessage where
  handler := { message := .notSet }
  writers _ := .outside
  completion := .waiting
  entered := []

private theorem initial_twoWriters : Initial twoWriters := ⟨rfl, rfl, rfl, rfl, fun _ => rfl, rfl, rfl⟩

/-- The first writer's message has been written, and the completion starts on the other's. -/
theorem writes_in_order_twoWriters :
    ∃ system : WriteSystem Bool ServerMessage ClientMessage,
      system.entered = [.notSet, .shardForwardRequest ⟨[], []⟩] ∧ system.handler.msgQueue = [.shardForwardRequest ⟨[], []⟩] ∧
      system.handler.stream.outstandingWrites = 1 ∧
      (system.handler.stream.outstandingWrites ≤ 1 ∧
      system.handler.stream.written <+: system.entered ∧
      (∃ done, system.entered = done ++ system.handler.msgQueue ∧ done <+: system.handler.stream.written) ∧
      (0 < system.handler.stream.outstandingWrites → ∃ message,
        system.handler.msgQueue.head? = some message ∧ system.handler.stream.written.getLast? = some message) ∧
      (system.handler.stream.outstandingWrites = 0 → (∀ writer, system.writers writer = .outside) →
        system.completion = .waiting → system.handler.msgQueue = [])) :=
  have first := Reachable.next (.next (.next (.start initial_twoWriters) (.call true .notSet rfl))
    (.addToWriteQueue true .notSet rfl)) (.attemptWrite true rfl)
  have second := Reachable.next (.next first (.call false (.shardForwardRequest ⟨[], []⟩) rfl))
    (.addToWriteQueue false (.shardForwardRequest ⟨[], []⟩) rfl)
  have completed := Reachable.next (.next (.next second (.takeUp rfl Nat.one_pos)) (.finishWrite rfl)) (.attemptNext rfl)
  ⟨_, rfl, rfl, rfl, writes_in_order (.next completed (.attemptWrite false rfl))⟩

end WriteSystem
end ShardManager.ServerUtils

import ShardManager.SvcDiscovery.RequestHandler

/-! What a server handler does with a sequence of messages before and after its client
has sent a connection request. -/

namespace ShardManager.SvcDiscovery

/-- A message that was read, and what `handleRead` made of it. -/
structure ReadStep where
  message : ClientMessage
  before : RequestHandler
  after : RequestHandler
  shouldAttemptNext : Bool

namespace ReadStep

def calls (step : ReadStep) : List ManagerCall := step.after.managerCalls.drop step.before.managerCalls.length

def registrations (step : ReadStep) : List ManagerCall := step.calls.filter fun call => decide call.IsRegistration

end ReadStep

namespace RequestHandler

def readMessage (message : ClientMessage) (handler : RequestHandler) : RequestHandler × Bool :=
  { handler with base := handler.base.completeRead message }.handleRead true

def readStep (message : ClientMessage) (handler : RequestHandler) : ReadStep :=
  ⟨message, handler, (handler.readMessage message).1, (handler.readMessage message).2⟩

def readMessages : List ClientMessage → RequestHandler → List ReadStep
  | [], _ => []
  | message :: messages, handler => handler.readStep message :: readMessages messages (handler.readMessage message).1

/-- Only a connection request registers, once, and nothing happens on a stopped stream. -/
structure Authenticates (steps : List ReadStep) : Prop where
  unauthenticated : ∀ earlier step later, steps = earlier ++ step :: later →
    (∀ other ∈ earlier ++ [step], other.message.hasConnectionRequest = false) →
      step.registrations = [] ∧ step.after.shardRangeInfo = step.before.shardRangeInfo
  once : steps.flatMap ReadStep.registrations = [] ∨ ∃ request,
    (steps.map ReadStep.message).find? ClientMessage.hasConnectionRequest = some (.connectionRequest request) ∧
      steps.flatMap ReadStep.registrations = [.registerBin request.serviceId request.binId]
  stopped : ∀ earlier step later, steps = earlier ++ step :: later → step.before.hasStopped = true →
    step.registrations = [] ∧ step.shouldAttemptNext = false

private theorem readMessage_registers (message : ClientMessage) (handler : RequestHandler) (new : handler.hasAuthenticated = false) :
    (handler.readMessage message).1.managerCalls = handler.managerCalls ++
      [.registerBin message.getConnectionRequest.serviceId message.getConnectionRequest.binId] ∧
    (handler.readMessage message).1.hasAuthenticated = false := by
  obtain ⟨base, status, hasAuthenticated, shardRangeInfo, managerCalls⟩ := handler
  change hasAuthenticated = false at new
  subst new
  cases status <;> cases message <;> exact ⟨rfl, rfl⟩

private theorem readStep_registrations (message : ClientMessage) (handler : RequestHandler) (new : handler.hasAuthenticated = false) :
    (handler.readStep message).registrations =
      [.registerBin message.getConnectionRequest.serviceId message.getConnectionRequest.binId] := by
  have registered : (handler.readStep message).after.managerCalls = (handler.readStep message).before.managerCalls ++ _ :=
    (handler.readMessage_registers message new).1
  rw [ReadStep.registrations, ReadStep.calls, registered, List.drop_left]
  rfl

/-- A new handler authenticates its client exactly if it reads nothing, or one connection request. -/
theorem authenticates_iff (handler : RequestHandler) (active : handler.status = .active) (new : handler.hasAuthenticated = false)
    (messages : List ClientMessage) :
    Authenticates (readMessages messages handler) ↔ messages = [] ∨ ∃ request, messages = [.connectionRequest request] := by
  constructor
  · intro authenticates
    cases messages with
    | nil => exact .inl rfl
    | cons message messages =>
      have registered := handler.readStep_registrations message new
      cases isRequest : message.hasConnectionRequest with
      | false =>
        have silent := (authenticates.unauthenticated [] (handler.readStep message) _ rfl (by simp [readStep, isRequest])).1
        rw [registered] at silent
        cases silent
      | true =>
        cases messages with
        | nil =>
          cases message with
          | connectionRequest request => exact .inr ⟨request, rfl⟩
          | notSet => cases isRequest
          | shardInfoUpdate update => cases isRequest
          | status status => cases isRequest
        | cons next messages =>
          have still := (handler.readMessage_registers message new).2
          have again := (handler.readMessage message).1.readStep_registrations next still
          have once := authenticates.once
          simp only [readMessages, List.flatMap_cons, registered, again] at once
          rcases once with none | ⟨request, _, one⟩
          · cases none
          · simp at one
  · rintro (rfl | ⟨request, rfl⟩)
    · exact ⟨by simp [readMessages], .inl rfl, by simp [readMessages]⟩
    · have only : ∀ earlier step later, readMessages [.connectionRequest request] handler = earlier ++ step :: later →
          step = handler.readStep (.connectionRequest request) := by
        intro earlier step later split
        have member : step ∈ readMessages [.connectionRequest request] handler := by
          rw [split]
          simp
        exact List.mem_singleton.mp member
      refine ⟨?_, .inr ⟨request, rfl, ?_⟩, ?_⟩
      · intro earlier step later split silent
        have notRequest := silent step (by simp)
        rw [only earlier step later split] at notRequest
        cases notRequest
      · change (handler.readStep _).registrations ++ [] = _
        rw [handler.readStep_registrations _ new, List.append_nil]
        rfl
      · intro earlier step later split isStopped
        rw [only earlier step later split, readStep, hasStopped, active] at isStopped
        cases isStopped

theorem authenticates_new :
    Authenticates (readMessages [.connectionRequest { serviceId := 7, binId := 3 }] {}) ↔
      [ClientMessage.connectionRequest { serviceId := 7, binId := 3 }] = [] ∨ ∃ request,
        [ClientMessage.connectionRequest { serviceId := 7, binId := 3 }] = [.connectionRequest request] :=
  authenticates_iff {} rfl rfl _

/-- A client whose first message is a status registers as bin 0 of service 0. -/
theorem status_registers : ¬ Authenticates (readMessages [.status .healthy] {}) := by
  intro authenticates
  have silent := (authenticates.unauthenticated [] (readStep (.status .healthy) {}) [] rfl
    (by simp [readStep, ClientMessage.hasConnectionRequest])).1
  exact absurd silent (by decide +kernel)

end RequestHandler
end ShardManager.SvcDiscovery

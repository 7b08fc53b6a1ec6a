import ShardManager.SvcDiscovery.AsyncServer

/-! What one event does to a server, and what holds after any of them: nothing ever
authenticates a handler, so nothing ever finishes its stream or forgets it. -/

namespace ShardManager.SvcDiscovery
open ServerUtils Function

namespace Completion

def stops : Completion → Bool
  | .connect ok => !ok
  | .read none => true
  | .read (some message) => !message.hasConnectionRequest
  | .write _ => false
  | .finish _ => false

def calls : Completion → List ManagerCall
  | .connect true => [.addHandler]
  | .connect false => []
  | .read none => []
  | .read (some message) => [.registerBin message.getConnectionRequest.serviceId message.getConnectionRequest.binId]
  | .write _ => []
  | .finish _ => [.removeRequestHandler]

end Completion

namespace RequestHandler
variable (handler : RequestHandler)

theorem stop_eq (unauthenticated : handler.hasAuthenticated = false) : handler.stop = { handler with status := .stopped } := by
  obtain ⟨base, status, hasAuthenticated, shardRangeInfo, managerCalls⟩ := handler
  change hasAuthenticated = false at unauthenticated
  subst unauthenticated
  cases status <;> rfl

private theorem stop_stream (unauthenticated : handler.hasAuthenticated = false) : handler.stop.base.stream = handler.base.stream := by
  rw [stop_eq _ unauthenticated]

private theorem attemptRead_finishes (base : ServerUtils.RequestHandler ServerMessage ClientMessage) :
    base.attemptRead.stream.outstandingFinishes = base.stream.outstandingFinishes := by
  unfold ServerUtils.RequestHandler.attemptRead
  split <;> rfl

private theorem attemptWrite_finishes (base : ServerUtils.RequestHandler ServerMessage ClientMessage) :
    base.attemptWrite.stream.outstandingFinishes = base.stream.outstandingFinishes := by
  unfold ServerUtils.RequestHandler.attemptWrite
  split
  · rfl
  · split <;> rfl

end RequestHandler

namespace HandlerObject
variable (object : HandlerObject)

def processed (object : HandlerObject) (completion : Completion) : HandlerObject :=
  { object.complete completion with
    handler := ServerUtils.process completion.op completion.ok
      { (object.complete completion).handler with managerCalls := [] } }

/-- What holds of every handler: it is not authenticated, has no `Finish` call, and does
nothing unless it is connected. -/
structure Sound (object : HandlerObject) : Prop where
  unauthenticated : object.handler.hasAuthenticated = false
  unfinished : object.finishes = 0
  waiting : object.connecting = true → object.connected = false
  quiet : object.connected = false → object.stream.outstandingReads = 0 ∧ object.stream.outstandingWrites = 0

theorem Sound.not_finish {object : HandlerObject} (sound : object.Sound) (ok : Bool) : ¬ object.Outstanding (.finish ok) := by
  intro outstanding
  have none := sound.unfinished
  unfold finishes at none
  unfold Outstanding at outstanding
  omega

/-- What processing an operation leaves of a handler and its stream. -/
structure Processed (object : HandlerObject) (completion : Completion) (after : HandlerObject) : Prop where
  unauthenticated : after.handler.hasAuthenticated = false
  stopped : after.handler.hasStopped = (object.handler.hasStopped || completion.stops)
  calls : after.handler.managerCalls = completion.calls
  finishes : after.finishes = 0
  queue : after.completionQueue = object.completionQueue

variable {object} {completion : Completion}

theorem Sound.processed_spec (sound : object.Sound) (outstanding : object.Outstanding completion) :
    Processed object completion (object.processed completion) := by
  have unfinished := sound.unfinished
  obtain ⟨⟨base, status, hasAuthenticated, shardRangeInfo, managerCalls⟩, completionQueue, connecting, connected, finished⟩ := object
  obtain rfl : hasAuthenticated = false := sound.unauthenticated
  cases completion with
  | connect ok => cases ok <;> cases status <;> exact ⟨rfl, rfl, rfl, unfinished, rfl⟩
  | read message =>
    cases message with
    | none => cases status <;> exact ⟨rfl, rfl, rfl, unfinished, rfl⟩
    | some message =>
      have same := RequestHandler.attemptRead_finishes (base.completeRead message)
      have after : finished + (base.completeRead message).attemptRead.stream.outstandingFinishes = 0 :=
        (congrArg (finished + ·) same).trans unfinished
      cases message <;> cases status <;> exact ⟨rfl, rfl, rfl, after, rfl⟩
  | write ok =>
    have same := RequestHandler.attemptWrite_finishes (base.completeWrite.finishWrite true)
    have after : finished + (base.completeWrite.finishWrite true).attemptWrite.stream.outstandingFinishes = 0 :=
      (congrArg (finished + ·) same).trans unfinished
    cases ok <;> cases status
    · exact ⟨rfl, rfl, rfl, unfinished, rfl⟩
    · exact ⟨rfl, rfl, rfl, unfinished, rfl⟩
    · exact ⟨rfl, rfl, rfl, after, rfl⟩
    · exact ⟨rfl, rfl, rfl, unfinished, rfl⟩
  | finish ok => exact absurd outstanding (sound.not_finish ok)

theorem Sound.processed (sound : object.Sound) (outstanding : object.Outstanding completion) :
    (object.processed completion).Sound := by
  have spec := sound.processed_spec outstanding
  cases completion with
  | connect ok =>
    refine ⟨spec.unauthenticated, spec.finishes, ?_, ?_⟩
    · rintro ⟨⟩
    · rintro rfl
      have stream : (object.processed (.connect false)).stream = object.stream :=
        RequestHandler.stop_stream { object.handler with managerCalls := [] } sound.unauthenticated
      rw [stream]
      exact sound.quiet (sound.waiting outstanding)
  | read message =>
    refine ⟨spec.unauthenticated, spec.finishes, sound.waiting, fun apart => ?_⟩
    have none := (sound.quiet apart).1
    unfold Outstanding at outstanding
    omega
  | write ok =>
    refine ⟨spec.unauthenticated, spec.finishes, sound.waiting, fun apart => ?_⟩
    have none := (sound.quiet apart).2
    unfold Outstanding at outstanding
    omega
  | finish ok => exact absurd outstanding (sound.not_finish ok)

def stopped (object : HandlerObject) : HandlerObject := { object with handler := object.handler.stop }

def written (object : HandlerObject) (message : ServerMessage) : HandlerObject :=
  { object with handler := { object.handler with base := object.handler.base.write message } }

theorem Sound.stopped (sound : object.Sound) : object.stopped.Sound := by
  rw [HandlerObject.stopped, object.handler.stop_eq sound.unauthenticated]
  exact ⟨sound.unauthenticated, sound.unfinished, sound.waiting, sound.quiet⟩

theorem Sound.written (sound : object.Sound) (connected : object.connected = true) (message : ServerMessage) :
    (object.written message).Sound := by
  refine ⟨sound.unauthenticated, ?_, sound.waiting, ?_⟩
  · have same := RequestHandler.attemptWrite_finishes (object.handler.base.addToWriteQueue message)
    exact (congrArg (object.finished + ·) same).trans sound.unfinished
  · intro apart
    change object.connected = false at apart
    rw [connected] at apart
    cases apart

end HandlerObject

namespace AsyncServer

/-- The handlers are those constructed so far, all of them still known to the manager. -/
structure WellFormed (server : AsyncServer) : Prop where
  sound : ∀ tag, (server.objects tag).Sound
  present : ∀ tag, tag ∈ server.manager.requestHandlerMap ↔ tag < server.constructed
  fresh : ∀ tag, server.constructed ≤ tag → server.objects tag = {}
  occupied : server.manager.Occupied

theorem wellFormed_start (numIoThreads : Nat) : WellFormed { numIoThreads } where
  sound tag := ⟨rfl, rfl, fun _ => rfl, fun _ => ⟨rfl, rfl⟩⟩
  present tag := by simp
  fresh tag _ := rfl
  occupied := by
    intro serviceId bins found
    cases found

variable {server : AsyncServer}

theorem WellFormed.addHandler (wellFormed : server.WellFormed) : server.addHandler.WellFormed where
  sound tag := by
    change (update server.objects server.constructed _ tag).Sound
    by_cases here : tag = server.constructed
    · rw [here, update_self]
      exact ⟨rfl, rfl, fun _ => rfl, fun _ => ⟨rfl, rfl⟩⟩
    · rw [update_of_ne here]
      exact wellFormed.sound tag
  present tag := by
    change tag ∈ server.manager.requestHandlerMap.insert server.constructed () ↔ tag < server.constructed + 1
    rw [AList.mem_insert, wellFormed.present, or_comm]
    exact Nat.lt_succ_iff_lt_or_eq.symm
  fresh tag beyond := by
    change server.constructed + 1 ≤ tag at beyond
    change update server.objects server.constructed _ tag = {}
    rw [update_of_ne (Nat.ne_of_gt beyond)]
    exact wellFormed.fresh tag (Nat.le_of_succ_le beyond)
  occupied := wellFormed.occupied

theorem WellFormed.perform (wellFormed : server.WellFormed) (tag : HandlerId) {call : ManagerCall}
    (keeps : call ≠ .removeRequestHandler) : (server.perform tag call).WellFormed := by
  cases call with
  | addHandler => exact wellFormed.addHandler
  | registerBin serviceId binId =>
    have map : (server.manager.registerBin tag serviceId binId).requestHandlerMap = server.manager.requestHandlerMap := by
      unfold HandlerManager.registerBin
      split <;> rfl
    refine ⟨wellFormed.sound, ?_, wellFormed.fresh, wellFormed.occupied.registerBin tag serviceId binId⟩
    intro other
    change other ∈ (server.manager.registerBin tag serviceId binId).requestHandlerMap ↔ _
    rw [map]
    exact wellFormed.present other
  | removeRequestHandler => exact absurd rfl keeps

theorem WellFormed.update (wellFormed : server.WellFormed) {tag : HandlerId} (known : tag < server.constructed)
    {object : HandlerObject} (sound : object.Sound) :
    ({ server with objects := Function.update server.objects tag object } : AsyncServer).WellFormed where
  sound other := by
    change (Function.update server.objects tag object other).Sound
    by_cases here : other = tag
    · rw [here, update_self]
      exact sound
    · rw [update_of_ne here]
      exact wellFormed.sound other
  present := wellFormed.present
  fresh other beyond := by
    change server.constructed ≤ other at beyond
    change Function.update server.objects tag object other = {}
    rw [update_of_ne (Nat.ne_of_gt (Nat.lt_of_lt_of_le known beyond))]
    exact wellFormed.fresh other beyond
  occupied := wellFormed.occupied

theorem WellFormed.handle_complete (wellFormed : server.WellFormed) {tag : HandlerId} {completion : Completion}
    (enabled : server.Enabled (.complete tag completion)) :
    server.handle (.complete tag completion) = completion.calls.foldl (AsyncServer.perform tag)
      { server with objects := Function.update server.objects tag ((server.objects tag).processed completion) } := by
  obtain ⟨known, outstanding⟩ := enabled
  have calls := ((wellFormed.sound tag).processed_spec outstanding).calls
  rw [HandlerObject.processed] at calls
  rw [handle, process, HandlerManager.getRequestHandler_of_mem _ ((wellFormed.present tag).mpr known)]
  simp only [update_self, withHandler, update_idem]
  rw [calls]
  rfl

theorem WellFormed.next (wellFormed : server.WellFormed) {event : Event} (enabled : server.Enabled event) :
    (server.handle event).WellFormed := by
  cases event with
  | register thread => exact WellFormed.addHandler ⟨wellFormed.sound, wellFormed.present, wellFormed.fresh, wellFormed.occupied⟩
  | complete tag completion =>
    rw [wellFormed.handle_complete enabled]
    obtain ⟨known, outstanding⟩ := enabled
    have changed := wellFormed.update known ((wellFormed.sound tag).processed outstanding)
    cases completion with
    | connect ok =>
      cases ok with
      | true => exact changed.addHandler
      | false => exact changed
    | read message =>
      cases message with
      | some message =>
        have keeps : ManagerCall.registerBin message.getConnectionRequest.serviceId message.getConnectionRequest.binId ≠
            .removeRequestHandler := by
          rintro ⟨⟩
        exact changed.perform tag keeps
      | none => exact changed
    | write ok => exact changed
    | finish ok => exact absurd outstanding ((wellFormed.sound tag).not_finish ok)
  | write tag message => exact wellFormed.update enabled.1 ((wellFormed.sound tag).written enabled.2 message)
  | stop tag => exact wellFormed.update enabled (wellFormed.sound tag).stopped
  | removeBin serviceId binName =>
    exact ⟨wellFormed.sound, wellFormed.present, wellFormed.fresh, wellFormed.occupied.removeBin serviceId binName⟩

theorem wellFormed_after (numIoThreads : Nat) {events : List Event} (runs : machine.Runs { numIoThreads } events) :
    (machine.after { numIoThreads } events).WellFormed :=
  runs.invariant (fun _ _ wellFormed enabled => wellFormed.next enabled) (wellFormed_start numIoThreads)

end AsyncServer

/-- What an event makes of a handler. -/
def HandlerObject.react (tag : HandlerId) (object : HandlerObject) : Event → HandlerObject
  | .complete other completion => if other = tag then object.processed completion else object
  | .write other message => if other = tag then object.written message else object
  | .stop other => if other = tag then object.stopped else object
  | _ => object

/-- The handler's `CONNECT` completes. -/
def Event.Connects (tag : HandlerId) : Event → Prop
  | .complete other (.connect _) => other = tag
  | _ => False

/-- A handler is constructed. -/
def Event.Constructs : Event → Prop
  | .register _ => True
  | .complete _ (.connect true) => True
  | _ => False

/-- The queue on which handlers are constructed after an event. -/
def Event.queue (before : Option Nat) : Event → Option Nat
  | .register thread => some thread
  | _ => before

def Event.registered (before : List Nat) : Event → List Nat
  | .register thread => before ++ [thread]
  | _ => before

namespace AsyncServer
variable {server : AsyncServer}

/-- Everything an event does to the handlers and their queues. -/
structure Effect (server : AsyncServer) (event : Event) (after : AsyncServer) : Prop where
  known : ∀ tag < server.constructed, after.objects tag = (server.objects tag).react tag event
  queue : after.manager.completionQueue = event.queue server.manager.completionQueue
  registered : after.registered = event.registered server.registered
  constructed : event.Constructs ∧ after.constructed = server.constructed + 1 ∧
      after.objects server.constructed = { completionQueue := after.manager.completionQueue, connecting := true } ∨
    ¬ event.Constructs ∧ after.constructed = server.constructed

theorem Effect.grows {event : Event} {after : AsyncServer} (effect : Effect server event after) :
    server.constructed ≤ after.constructed := by
  obtain ⟨_, one, _⟩ | ⟨_, same⟩ := effect.constructed
  · exact one ▸ Nat.le_succ server.constructed
  · exact same.ge

theorem Effect.constructs {event : Event} {after : AsyncServer} (effect : Effect server event after) {tag : HandlerId}
    (known : tag < after.constructed) (new : ¬ tag < server.constructed) :
    event.Constructs ∧ tag = server.constructed ∧
      after.objects tag = { completionQueue := after.manager.completionQueue, connecting := true } := by
  obtain ⟨constructs, one, object⟩ | ⟨_, same⟩ := effect.constructed
  · obtain rfl : tag = server.constructed := Nat.le_antisymm (Nat.le_of_lt_succ (known.trans_eq one)) (Nat.le_of_not_lt new)
    exact ⟨constructs, rfl, object⟩
  · exact absurd (same ▸ known) new

theorem react_connecting (object : HandlerObject) (tag : HandlerId) (event : Event) :
    (object.react tag event).connecting = true ↔ object.connecting = true ∧ ¬ event.Connects tag := by
  cases event with
  | complete other completion =>
    by_cases here : other = tag
    · subst here
      rw [HandlerObject.react, if_pos rfl]
      cases completion with
      | connect ok => simp [HandlerObject.processed, HandlerObject.complete, Event.Connects]
      | _ => exact (and_iff_left id).symm
    · cases completion <;> simp [HandlerObject.react, Event.Connects, here]
  | write other message =>
    rw [HandlerObject.react]
    split <;> exact (and_iff_left id).symm
  | stop other =>
    rw [HandlerObject.react]
    split <;> exact (and_iff_left id).symm
  | _ => exact (and_iff_left id).symm

theorem react_queue (object : HandlerObject) (tag : HandlerId) (event : Event) :
    (object.react tag event).completionQueue = object.completionQueue := by
  cases event with
  | complete other completion =>
    rw [HandlerObject.react]
    split
    · cases completion <;> rfl
    · rfl
  | write other message =>
    rw [HandlerObject.react]
    split <;> rfl
  | stop other =>
    rw [HandlerObject.react]
    split <;> rfl
  | _ => rfl

private theorem react_complete (tag other : HandlerId) (completion : Completion) (objects : HandlerId → HandlerObject) :
    update objects tag ((objects tag).processed completion) other = (objects other).react other (.complete tag completion) := by
  by_cases here : tag = other
  · subst here
    rw [update_self, HandlerObject.react, if_pos rfl]
  · rw [update_of_ne (Ne.symm here), HandlerObject.react, if_neg here]

private theorem registerBin_queue (manager : HandlerManager) (tag : HandlerId) (serviceId : ServiceId) (binId : BinId) :
    (manager.registerBin tag serviceId binId).completionQueue = manager.completionQueue := by
  unfold HandlerManager.registerBin
  split <;> rfl

theorem WellFormed.effect (wellFormed : server.WellFormed) {event : Event} (enabled : server.Enabled event) :
    Effect server event (server.handle event) := by
  cases event with
  | register thread =>
    refine ⟨fun tag known => ?_, rfl, rfl, .inl ⟨trivial, rfl, update_self _ _ _⟩⟩
    exact update_of_ne (Nat.ne_of_lt known) _ _
  | complete tag completion =>
    rw [wellFormed.handle_complete enabled]
    obtain ⟨inside, outstanding⟩ := enabled
    have changed := react_complete tag
    cases completion with
    | connect ok =>
      cases ok with
      | true =>
        refine ⟨fun other known => ?_, rfl, rfl, .inl ⟨trivial, rfl, update_self _ _ _⟩⟩
        exact (update_of_ne (Nat.ne_of_lt known) _ _).trans (changed other _ _)
      | false => exact ⟨fun other _ => changed other _ _, rfl, rfl, .inr ⟨id, rfl⟩⟩
    | read message =>
      cases message with
      | some message =>
        exact ⟨fun other _ => changed other _ _, registerBin_queue _ _ _ _, rfl, .inr ⟨id, rfl⟩⟩
      | none => exact ⟨fun other _ => changed other _ _, rfl, rfl, .inr ⟨id, rfl⟩⟩
    | write ok => exact ⟨fun other _ => changed other _ _, rfl, rfl, .inr ⟨id, rfl⟩⟩
    | finish ok => exact absurd outstanding ((wellFormed.sound tag).not_finish ok)
  | write tag message =>
    refine ⟨fun other _ => ?_, rfl, rfl, .inr ⟨id, rfl⟩⟩
    change Function.update server.objects tag ((server.objects tag).written message) other = _
    by_cases here : tag = other
    · subst here
      rw [update_self, HandlerObject.react, if_pos rfl]
    · rw [update_of_ne (Ne.symm here), HandlerObject.react, if_neg here]
  | stop tag =>
    refine ⟨fun other _ => ?_, rfl, rfl, .inr ⟨id, rfl⟩⟩
    change Function.update server.objects tag (server.objects tag).stopped other = _
    by_cases here : tag = other
    · subst here
      rw [update_self, HandlerObject.react, if_pos rfl]
    · rw [update_of_ne (Ne.symm here), HandlerObject.react, if_neg here]
  | removeBin serviceId binName => exact ⟨fun _ _ => rfl, rfl, rfl, .inr ⟨id, rfl⟩⟩

end AsyncServer
end ShardManager.SvcDiscovery

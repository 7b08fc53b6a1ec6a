import ShardManager.Proofs.ServerRuns

/-! The registry of connected bins over all runs of a server: whether its entries are
the live handlers that registered last. -/

namespace ShardManager.SvcDiscovery
open ServerUtils Function

namespace AsyncServer

/-- Every entry is the handler that registered last for its service and bin, and that
handler has neither stopped nor finished; every service in the registry has a bin. -/
structure RegistryLive (server : AsyncServer) : Prop where
  live : ∀ serviceId binName tag, server.manager.entry serviceId binName = some tag →
    server.lastRegistered.lookup (serviceId, binName) = some tag ∧
    (server.objects tag).handler.hasStopped = false ∧ (server.objects tag).finished = 0
  occupied : server.manager.Occupied

def Unregistered (server : AsyncServer) (tag : HandlerId) : Prop :=
  ∀ serviceId binName, server.manager.entry serviceId binName ≠ some tag

/-- What is read is a connection request, on a handler that has not stopped and for a bin
that no other handler has an entry for; a handler with an entry does not stop or finish. -/
def KeepsRegistry (server : AsyncServer) : Event → Prop
  | .complete tag (.read (some message)) =>
    message.hasConnectionRequest = true ∧ (server.objects tag).handler.hasStopped = false ∧
    ∀ other, server.manager.entry message.getConnectionRequest.serviceId message.getConnectionRequest.binId = some other →
      other = tag
  | .complete tag (.read none) => server.Unregistered tag
  | .complete tag (.connect false) => server.Unregistered tag
  | .complete tag (.finish _) => server.Unregistered tag
  | .stop tag => server.Unregistered tag
  | _ => True

variable {server : AsyncServer}

theorem RegistryLive.congr {after : AsyncServer} (live : server.RegistryLive) (occupied : after.manager.Occupied)
    (entries : ∀ serviceId binName tag, after.manager.entry serviceId binName = some tag →
      server.manager.entry serviceId binName = some tag)
    (last : after.lastRegistered = server.lastRegistered)
    (running : ∀ tag, (server.objects tag).handler.hasStopped = false → (after.objects tag).handler.hasStopped = false)
    (open' : ∀ tag, (server.objects tag).finished = 0 → (after.objects tag).finished = 0) : after.RegistryLive := by
  refine ⟨fun serviceId binName tag entry => ?_, occupied⟩
  obtain ⟨lastOne, notStopped, notFinished⟩ := live.live serviceId binName tag (entries serviceId binName tag entry)
  exact ⟨last ▸ lastOne, running tag notStopped, open' tag notFinished⟩

private theorem RegistryLive.stopped_iff (live : server.RegistryLive) (tag : HandlerId) {object : HandlerObject}
    (stopped : object.handler.hasStopped = true) :
    ({ server with objects := update server.objects tag object } : AsyncServer).RegistryLive ↔ server.Unregistered tag := by
  constructor
  · intro after serviceId binName entry
    have notStopped := (after.live serviceId binName tag entry).2.1
    change (update server.objects tag object tag).handler.hasStopped = false at notStopped
    rw [update_self, stopped] at notStopped
    cases notStopped
  · intro unregistered
    refine ⟨fun serviceId binName other entry => ?_, live.occupied⟩
    have different : other ≠ tag := by
      rintro rfl
      exact unregistered serviceId binName entry
    change _ ∧ (update server.objects tag object other).handler.hasStopped = false ∧
      (update server.objects tag object other).finished = 0
    rw [update_of_ne different]
    exact live.live serviceId binName other entry

/-- A handler changes without stopping or finishing. -/
theorem RegistryLive.update (live : server.RegistryLive) (tag : HandlerId) {object : HandlerObject}
    (running : (server.objects tag).handler.hasStopped = false → object.handler.hasStopped = false)
    (finished : object.finished = 0) :
    ({ server with objects := Function.update server.objects tag object } : AsyncServer).RegistryLive := by
  refine live.congr live.occupied (fun _ _ _ entry => entry) rfl ?_ ?_
  · intro other notStopped
    change (Function.update server.objects tag object other).handler.hasStopped = false
    by_cases here : other = tag
    · subst here
      rw [update_self]
      exact running notStopped
    · rw [update_of_ne here]
      exact notStopped
  · intro other notFinished
    change (Function.update server.objects tag object other).finished = 0
    by_cases here : other = tag
    · rw [here, update_self]
      exact finished
    · rw [update_of_ne here]
      exact notFinished

theorem RegistryLive.addHandler (live : server.RegistryLive) : server.addHandler.RegistryLive := by
  have changed : ({ server with
      objects := Function.update server.objects server.constructed
        { completionQueue := server.manager.completionQueue, connecting := true } } : AsyncServer).RegistryLive :=
    live.update server.constructed (fun _ => rfl) rfl
  exact changed.congr live.occupied (fun _ _ _ entry => entry) rfl (fun _ same => same) fun _ same => same

theorem RegistryLive.registered {tag : HandlerId} {serviceId : ServiceId} {binId : BinId}
    (after : (server.perform tag (.registerBin serviceId binId)).RegistryLive)
    (present : tag ∈ server.manager.requestHandlerMap) :
    (server.objects tag).handler.hasStopped = false ∧
    ∀ other, server.manager.entry serviceId binId = some other → other = tag := by
  have entry := server.manager.entry_registerBin present serviceId serviceId binId binId
  rw [if_pos ⟨rfl, rfl⟩] at entry
  obtain ⟨registered, notStopped, _⟩ := after.live serviceId binId _ entry
  change (server.lastRegistered.insert (serviceId, binId) tag).lookup (serviceId, binId) = _ at registered
  rw [AList.lookup_insert, Option.some.injEq] at registered
  rw [← registered] at notStopped
  refine ⟨notStopped, fun other found => ?_⟩
  rw [registered, found, Option.getD_some]

theorem RegistryLive.registerBin (live : server.RegistryLive) {tag : HandlerId} {serviceId : ServiceId} {binId : BinId}
    (present : tag ∈ server.manager.requestHandlerMap) (running : (server.objects tag).handler.hasStopped = false)
    (finished : (server.objects tag).finished = 0)
    (own : ∀ other, server.manager.entry serviceId binId = some other → other = tag) :
    (server.perform tag (.registerBin serviceId binId)).RegistryLive := by
  refine ⟨fun service bin other entry => ?_, live.occupied.registerBin tag serviceId binId⟩
  change (server.manager.registerBin tag serviceId binId).entry service bin = some other at entry
  change (server.lastRegistered.insert (serviceId, binId) tag).lookup (service, bin) = _ ∧ _
  rw [HandlerManager.entry_registerBin _ present] at entry
  rw [UnorderedMap.lookup_insert]
  by_cases here : service = serviceId ∧ bin = binId
  · obtain ⟨rfl, rfl⟩ := here
    rw [if_pos ⟨rfl, rfl⟩, Option.some.injEq] at entry
    have same : other = tag := by
      cases found : server.manager.entry service bin with
      | none => rw [← entry, found, Option.getD_none]
      | some earlier => rw [← entry, found, Option.getD_some, own earlier found]
    rw [same, if_pos rfl]
    exact ⟨rfl, running, finished⟩
  · rw [if_neg here] at entry
    rw [if_neg (by simpa using here)]
    exact live.live service bin other entry

/-- An event keeps the registry live exactly if it meets the condition. -/
private theorem registryLive_next (wellFormed : server.WellFormed) (live : server.RegistryLive) {event : Event}
    (enabled : server.Enabled event) : (server.handle event).RegistryLive ↔ server.KeepsRegistry event := by
  cases event with
  | register thread =>
    have registered : AsyncServer.RegistryLive (registerService thread { server with registered := server.registered ++ [thread] }) :=
      RegistryLive.addHandler ⟨live.live, live.occupied⟩
    exact iff_of_true registered trivial
  | complete tag completion =>
    obtain ⟨known, outstanding⟩ := enabled
    have sound := (wellFormed.sound tag).processed outstanding
    have spec := (wellFormed.sound tag).processed_spec outstanding
    have finished := Nat.eq_zero_of_add_eq_zero_right sound.unfinished
    rw [wellFormed.handle_complete ⟨known, outstanding⟩]
    cases completion with
    | connect ok =>
      cases ok with
      | true =>
        have changed := live.update tag (fun running => by rw [spec.stopped, running]; rfl) finished
        exact iff_of_true changed.addHandler trivial
      | false => exact live.stopped_iff tag (by rw [spec.stopped]; exact Bool.or_true _)
    | read message =>
      cases message with
      | none => exact live.stopped_iff tag (by rw [spec.stopped]; exact Bool.or_true _)
      | some message =>
        have present := (wellFormed.present tag).mpr known
        have here : (Function.update server.objects tag ((server.objects tag).processed (.read (some message))) tag) = _ :=
          update_self _ _ _
        constructor
        · intro after
          have registered : (AsyncServer.perform tag
              { server with objects := Function.update server.objects tag ((server.objects tag).processed (.read (some message))) }
              (.registerBin _ _)).RegistryLive := after
          obtain ⟨running, own⟩ := registered.registered present
          change (Function.update server.objects tag _ tag).handler.hasStopped = false at running
          rw [here, spec.stopped, Bool.or_eq_false_iff] at running
          exact ⟨by simpa [Completion.stops] using running.2, running.1, own⟩
        · rintro ⟨isRequest, running, own⟩
          have stays : ((server.objects tag).processed (.read (some message))).handler.hasStopped = false := by
            rw [spec.stopped, running, Completion.stops, isRequest]
            rfl
          have changed := live.update tag (fun _ => stays) finished
          exact changed.registerBin present ((congrArg (fun object => object.handler.hasStopped) here).trans stays)
            ((congrArg HandlerObject.finished here).trans finished) own
    | write ok =>
      have changed := live.update tag (fun running => by rw [spec.stopped, running]; rfl) finished
      exact iff_of_true changed trivial
    | finish ok => exact absurd outstanding ((wellFormed.sound tag).not_finish ok)
  | write tag message =>
    exact iff_of_true (live.update tag id (Nat.eq_zero_of_add_eq_zero_right (wellFormed.sound tag).unfinished)) trivial
  | stop tag =>
    refine live.stopped_iff tag ?_
    rw [RequestHandler.stop_eq _ (wellFormed.sound tag).unauthenticated]
    rfl
  | removeBin serviceId binName =>
    have changed : (server.handle (.removeBin serviceId binName)).RegistryLive := by
      refine live.congr (live.occupied.removeBin serviceId binName) ?_ rfl (fun _ same => same) fun _ same => same
      intro service bin tag entry
      change (server.manager.removeBin serviceId binName).entry service bin = some tag at entry
      rw [HandlerManager.entry_removeBin] at entry
      split at entry
      · cases entry
      · exact entry
    exact iff_of_true changed trivial

/-- In a run, the registry points at live handlers throughout exactly if every event keeps it so. -/
theorem registry_live_iff (numIoThreads : Nat) (events : List Event) (runs : machine.Runs { numIoThreads } events) :
    machine.Always RegistryLive { numIoThreads } events ↔ machine.EachStep KeepsRegistry { numIoThreads } events := by
  refine runs.always_iff ?_ ?_ (wellFormed_start numIoThreads) ⟨?_, ?_⟩
  · exact fun _ _ wellFormed enabled => wellFormed.next enabled
  · exact fun _ _ wellFormed live enabled => registryLive_next wellFormed live enabled
  · intro serviceId binName tag entry
    cases entry
  · exact (wellFormed_start numIoThreads).occupied

def connecting (tag : HandlerId) : List Event :=
  [.complete tag (.connect true), .complete tag (.read (some (.connectionRequest { serviceId := 7, binId := 3 })))]

theorem registry_live_connecting :
    machine.Always RegistryLive { numIoThreads := 1 } (.register 0 :: connecting 0) ↔
      machine.EachStep KeepsRegistry { numIoThreads := 1 } (.register 0 :: connecting 0) :=
  registry_live_iff 1 _ (by decide +kernel)

/-- A client that connects again stays behind its old handler. -/
theorem reconnected_handler_hidden :
    machine.Runs { numIoThreads := 1 } (.register 0 :: connecting 0 ++ connecting 1) ∧
    ¬ machine.Always RegistryLive { numIoThreads := 1 } (.register 0 :: connecting 0 ++ connecting 1) := by
  refine ⟨by decide +kernel, fun always => ?_⟩
  have last := ((always _ [] (List.append_nil _).symm).live 7 3 0 (by decide +kernel)).1
  exact absurd last (by decide +kernel)

end AsyncServer
end ShardManager.SvcDiscovery

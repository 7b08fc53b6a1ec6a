import Mathlib.Data.List.DropRight
import ShardManager.Proofs.Conversations
import ShardManager.Proofs.ServerRuns

/-! A server is its handlers side by side and a registry that they share. A handler goes
through its own events and no others; who asks first for a service and bin has it until
it is removed. -/

namespace ShardManager.SvcDiscovery
open ServerUtils UserLibs Function

namespace Event

def handler : Event → Option HandlerId
  | .complete tag _ => some tag
  | .write tag _ => some tag
  | .stop tag => some tag
  | _ => none

/-- Who asks to be registered for the service and bin. Without a request the ids of a message are 0. -/
def registrant (serviceId : ServiceId) (binName : BinId) : Event → Option HandlerId
  | .complete tag (.read (some message)) =>
    if serviceId = message.getConnectionRequest.serviceId ∧ binName = message.getConnectionRequest.binId then some tag else none
  | _ => none

def Removes (serviceId : ServiceId) (binName : BinId) : Event → Prop
  | .removeBin service bin => serviceId = service ∧ binName = bin
  | _ => False

instance (serviceId : ServiceId) (binName : BinId) : DecidablePred (Removes serviceId binName)
  | .removeBin _ _ => inferInstanceAs (Decidable (_ ∧ _))
  | .register _ => isFalse id
  | .complete _ _ => isFalse id
  | .write _ _ => isFalse id
  | .stop _ => isFalse id

instance : DecidablePred Constructs
  | .register _ => isTrue trivial
  | .complete _ (.connect true) => isTrue trivial
  | .complete _ (.connect false) => isFalse id
  | .complete _ (.read _) => isFalse id
  | .complete _ (.write _) => isFalse id
  | .complete _ (.finish _) => isFalse id
  | .write _ _ => isFalse id
  | .stop _ => isFalse id
  | .removeBin _ _ => isFalse id

def message (tag : HandlerId) : Event → Option ClientMessage
  | .complete other (.read (some message)) => if other = tag then some message else none
  | _ => none

end Event

/-- The first that has asked for the service and bin since they were removed. -/
def holder (serviceId : ServiceId) (binName : BinId) (events : List Event) : Option HandlerId :=
  (events.rtakeWhile fun event => ¬ event.Removes serviceId binName).findSome? (Event.registrant serviceId binName)

private theorem holder_next (serviceId : ServiceId) (binName : BinId) (events : List Event) (event : Event) :
    holder serviceId binName (events ++ [event]) =
      if event.Removes serviceId binName then none else (holder serviceId binName events).or (event.registrant serviceId binName) := by
  unfold holder
  rw [List.rtakeWhile_concat]
  by_cases removes : event.Removes serviceId binName
  · rw [if_pos removes, if_neg (by simpa using removes), List.findSome?_nil]
  · rw [if_neg removes, if_pos (by simpa using removes), List.findSome?_append,
      List.findSome?_cons, List.findSome?_nil]
    cases event.registrant serviceId binName <;> rfl

namespace HandlerObject

private theorem react_other {tag : HandlerId} (object : HandlerObject) {event : Event} (other : event.handler ≠ some tag) :
    object.react tag event = object := by
  cases event with
  | complete here completion => exact if_neg fun same => other (congrArg some same)
  | write here message => exact if_neg fun same => other (congrArg some same)
  | stop here => exact if_neg fun same => other (congrArg some same)
  | _ => rfl

end HandlerObject

namespace AsyncServer
variable {server : AsyncServer} {event : Event}

theorem Enabled.constructed (enabled : server.Enabled event) {tag : HandlerId} (own : event.handler = some tag) :
    tag < server.constructed := by
  cases event with
  | complete other completion =>
    cases own
    exact enabled.1
  | write other message =>
    cases own
    exact enabled.1
  | stop other =>
    cases own
    exact enabled
  | _ => cases own

private theorem WellFormed.entry_next (wellFormed : server.WellFormed) (enabled : server.Enabled event) (serviceId : ServiceId) (binName : BinId) :
    (server.handle event).manager.entry serviceId binName =
      if event.Removes serviceId binName then none
      else (server.manager.entry serviceId binName).or (event.registrant serviceId binName) := by
  have unchanged : server.manager.entry serviceId binName = (server.manager.entry serviceId binName).or none := Option.or_none.symm
  cases event with
  | complete tag completion =>
    have keeps : ¬ Event.Removes serviceId binName (.complete tag completion) := id
    rw [wellFormed.handle_complete enabled, if_neg keeps]
    cases completion with
    | connect ok => cases ok <;> exact unchanged
    | read message =>
      cases message with
      | none => exact unchanged
      | some message =>
        refine (server.manager.entry_registerBin ((wellFormed.present tag).mpr enabled.1) _ _ _ _).trans ?_
        simp only [Event.registrant]
        split
        next here =>
          obtain ⟨rfl, rfl⟩ := here
          cases server.manager.entry message.getConnectionRequest.serviceId message.getConnectionRequest.binId <;> rfl
        next => exact unchanged
    | write ok => exact unchanged
    | finish ok => exact absurd enabled.2 ((wellFormed.sound tag).not_finish ok)
  | removeBin service bin =>
    refine (server.manager.entry_removeBin _ _ _ _).trans ?_
    split
    next here => exact (if_pos here).symm
    next elsewhere => exact unchanged.trans (if_neg elsewhere).symm
  | _ => exact unchanged.trans (if_neg id).symm

private theorem WellFormed.numIoThreads_next (wellFormed : server.WellFormed) (enabled : server.Enabled event) :
    (server.handle event).numIoThreads = server.numIoThreads := by
  cases event with
  | complete tag completion =>
    rw [wellFormed.handle_complete enabled]
    cases completion with
    | connect ok => cases ok <;> rfl
    | read message => cases message <;> rfl
    | write ok => rfl
    | finish ok => rfl
  | _ => rfl

/-- What the handler has been through since it was constructed on the queue of a thread. -/
def ownHistory (tag : HandlerId) (thread : Nat) (events : List Event) : HandlerObject :=
  (events.filter fun event => event.handler = some tag).foldl (HandlerObject.react tag)
    { completionQueue := some thread, connecting := true }

/-- What the events so far say of a server. -/
structure Parts (numIoThreads : Nat) (events : List Event) (server : AsyncServer) : Prop where
  threads : server.numIoThreads = numIoThreads
  counted : server.constructed = events.countP fun event => event.Constructs
  queue : 0 < server.constructed → ∃ thread < numIoThreads, server.manager.completionQueue = some thread
  known : ∀ event ∈ events, ∀ tag, event.handler = some tag → tag < server.constructed
  own : ∀ tag < server.constructed, ∃ thread < numIoThreads, server.objects tag = ownHistory tag thread events
  entries : ∀ serviceId binName, server.manager.entry serviceId binName = holder serviceId binName events

/-- After an event that constructs a handler, the queue is that of a thread: the one that
registers, or one that has constructed the handler whose `CONNECT` it is. -/
private theorem Parts.queue_next {numIoThreads : Nat} {events : List Event} (parts : Parts numIoThreads events server)
    (wellFormed : server.WellFormed) (enabled : server.Enabled event) (grown : 0 < (server.handle event).constructed) :
    ∃ thread < numIoThreads, (server.handle event).manager.completionQueue = some thread := by
  have effect := wellFormed.effect enabled
  rw [effect.queue]
  cases event with
  | register thread => exact ⟨thread, parts.threads ▸ enabled.1, rfl⟩
  | complete tag completion => exact parts.queue (Nat.zero_lt_of_lt enabled.1)
  | write tag message => exact parts.queue (Nat.zero_lt_of_lt enabled.1)
  | stop tag => exact parts.queue (Nat.zero_lt_of_lt enabled)
  | removeBin serviceId binName => exact parts.queue grown

private theorem Parts.own_next {numIoThreads : Nat} {events : List Event} (parts : Parts numIoThreads events server)
    (wellFormed : server.WellFormed) (enabled : server.Enabled event) {tag : HandlerId} (inside : tag < (server.handle event).constructed) :
    ∃ thread < numIoThreads, (server.handle event).objects tag = ownHistory tag thread (events ++ [event]) := by
  have effect := wellFormed.effect enabled
  unfold ownHistory
  rw [List.filter_append]
  by_cases known : tag < server.constructed
  · obtain ⟨thread, among, same⟩ := parts.own tag known
    refine ⟨thread, among, ?_⟩
    rw [effect.known tag known, same, List.foldl_append]
    by_cases own : event.handler = some tag
    · simp [own, ownHistory]
    · rw [HandlerObject.react_other _ own]
      simp [own, ownHistory]
  · -- the handler is constructed by this very event
    obtain ⟨_, _, object⟩ := effect.constructs inside known
    obtain ⟨thread, among, queue⟩ := parts.queue_next wellFormed enabled (Nat.zero_lt_of_lt inside)
    refine ⟨thread, among, ?_⟩
    have none : ∀ other ∈ events, other.handler ≠ some tag := fun other member own => known (parts.known other member tag own)
    have notThis : event.handler ≠ some tag := fun own => known (enabled.constructed own)
    have before : events.filter (fun event => decide (event.handler = some tag)) = [] := by
      simpa [List.filter_eq_nil_iff] using none
    rw [object, queue, before]
    simp [notThis]

theorem Parts.next {numIoThreads : Nat} {events : List Event} (parts : Parts numIoThreads events server)
    (wellFormed : server.WellFormed) (enabled : server.Enabled event) :
    Parts numIoThreads (events ++ [event]) (server.handle event) := by
  have effect := wellFormed.effect enabled
  constructor
  · exact (wellFormed.numIoThreads_next enabled).trans parts.threads
  · rw [List.countP_append, ← parts.counted]
    obtain ⟨constructs, one, _⟩ | ⟨other, same⟩ := effect.constructed
    · simp [one, constructs]
    · simp [same, other]
  · exact fun grown => parts.queue_next wellFormed enabled grown
  · intro other among tag own
    rw [List.mem_append, List.mem_singleton] at among
    refine Nat.lt_of_lt_of_le ?_ effect.grows
    obtain before | rfl := among
    · exact parts.known other before tag own
    · exact enabled.constructed own
  · exact fun tag inside => parts.own_next wellFormed enabled inside
  · intro serviceId binName
    rw [wellFormed.entry_next enabled, parts.entries, holder_next]

private theorem parts_after (numIoThreads : Nat) {events : List Event} (runs : machine.Runs { numIoThreads } events) :
    Parts numIoThreads events (machine.after { numIoThreads } events) := by
  induction events using List.reverseRecOn with
  | nil =>
    exact ⟨rfl, rfl, fun some => absurd some (Nat.lt_irrefl 0), fun _ among => absurd among List.not_mem_nil,
      fun tag known => absurd known (Nat.not_lt_zero tag), fun _ _ => rfl⟩
  | append_singleton events event ih =>
    obtain ⟨before, last⟩ := runs.split
    rw [Machine.after_append]
    exact (ih before).next (wellFormed_after numIoThreads before) last.1

/-- However the threads and the clients take turns, a server is its handlers side by side
and the registry. One handler is constructed for each registered queue and each connection, all
are kept, each has gone through its own events alone, and an entry is held by the first
that asked for it since it was removed. -/
theorem server_splits (numIoThreads : Nat) (events : List Event) (runs : machine.Runs { numIoThreads } events) :
    let server := machine.after { numIoThreads } events
    server.constructed = (events.countP fun event => event.Constructs) ∧
    (∀ tag, tag ∈ server.manager.requestHandlerMap ↔ tag < server.constructed) ∧
    (∀ tag < server.constructed, ∃ thread < numIoThreads, server.objects tag = ownHistory tag thread events) ∧
    ∀ serviceId binName, server.manager.entry serviceId binName = holder serviceId binName events := by
  intro server
  have parts := parts_after numIoThreads runs
  exact ⟨parts.counted, (wellFormed_after numIoThreads runs).present, parts.own, parts.entries⟩

def client (tag : HandlerId) : List Event :=
  [.complete tag (.connect true), .complete tag (.read (some (Conversation.greeting Client.newClient))),
    .complete tag (.read (some (Conversation.dropReport [⟨0, 9⟩])))]

def twoBins : List Event := .register 0 :: client 0 ++ client 1

theorem server_splits_twoBins :
    let server := machine.after { numIoThreads := 1 } twoBins
    server.constructed = 3 ∧ (∀ tag < 3, ∃ thread < 1, server.objects tag = ownHistory tag thread twoBins) ∧
      ∀ serviceId binName, server.manager.entry serviceId binName = holder serviceId binName twoBins := by
  intro server
  obtain ⟨counted, _, own, entries⟩ := server_splits 1 twoBins (by decide +kernel)
  have three : server.constructed = 3 := counted.trans (by decide)
  rw [three] at own
  exact ⟨three, own, entries⟩

private theorem holder_read {serviceId : ServiceId} {binName : BinId} {tag : HandlerId} {events : List Event}
    (held : holder serviceId binName events = some tag) : ∃ message ∈ events.filterMap (Event.message tag),
      serviceId = message.getConnectionRequest.serviceId ∧ binName = message.getConnectionRequest.binId := by
  obtain ⟨event, among, asks⟩ := List.exists_of_findSome?_eq_some held
  have happened := (List.rtakeWhile_suffix _ events).subset among
  cases event with
  | complete other completion =>
    cases completion with
    | read message =>
      cases message with
      | some message =>
        simp only [Event.registrant, Option.ite_none_right_eq_some] at asks
        obtain ⟨ids, same⟩ := asks
        cases same
        exact ⟨message, List.mem_filterMap.mpr ⟨_, happened, if_pos rfl⟩, ids⟩
      | none => cases asks
    | _ => cases asks
  | _ => cases asks

/-- Where nothing is removed, what has been asked for is held by someone. -/
private theorem read_holder {serviceId : ServiceId} {binName : BinId} {tag : HandlerId} {events : List Event} {message : ClientMessage}
    (read : message ∈ events.filterMap (Event.message tag)) (asks : serviceId = message.getConnectionRequest.serviceId ∧
      binName = message.getConnectionRequest.binId) (kept : ∀ event ∈ events, ¬ event.Removes serviceId binName) :
    ∃ first, holder serviceId binName events = some first := by
  obtain ⟨event, happened, brought⟩ := List.mem_filterMap.mp read
  have whole : events.rtakeWhile (fun event => decide ¬ event.Removes serviceId binName) = events :=
    List.rtakeWhile_eq_self_iff.mpr fun event among => decide_eq_true (kept event among)
  rw [← Option.isSome_iff_exists, holder, whole, List.findSome?_isSome_iff]
  refine ⟨event, happened, ?_⟩
  cases event with
  | complete other completion =>
    cases completion with
    | read received =>
      cases received with
      | some received =>
        simp only [Event.message, Option.ite_none_right_eq_some] at brought
        obtain ⟨_, same⟩ := brought
        cases same
        rw [Event.registrant, if_pos asks]
        rfl
      | none => cases brought
    | _ => cases brought
  | _ => cases brought

/-- Where every stream is a conversation with a client, all clients of a service share one
entry, since they all ask for the same bin: whichever is read first is registered and the
others are not. Besides there is at most an entry for bin 0 of service 0, of a client whose answer
was taken for a request. -/
theorem clients_share_entry (numIoThreads : Nat) (events : List Event) (runs : machine.Runs { numIoThreads } events)
    (clients : HandlerId → Conversation) (reached : ∀ tag, Reachable Conversation.Initial Conversation.Step (clients tag))
    (heard : ∀ tag, events.filterMap (Event.message tag) = (clients tag).received) :
    let server := machine.after { numIoThreads } events
    (∀ serviceId binName tag, server.manager.entry serviceId binName = some tag →
      serviceId = (clients tag).client.serviceId ∧ binName = 12389098234 ∧ (clients tag).received ≠ [] ∨
      serviceId = 0 ∧ binName = 0 ∧ (clients tag).received.length = 2) ∧
    ∀ tag, (clients tag).received ≠ [] →
      (∀ event ∈ events, ¬ event.Removes (clients tag).client.serviceId 12389098234) →
      ∃ first, server.manager.entry (clients tag).client.serviceId 12389098234 = some first ∧
        (clients first).client.serviceId = (clients tag).client.serviceId := by
  intro server
  have parts := parts_after numIoThreads runs
  have entries : ∀ serviceId binName tag, server.manager.entry serviceId binName = some tag →
      serviceId = (clients tag).client.serviceId ∧ binName = 12389098234 ∧ (clients tag).received ≠ [] ∨
      serviceId = 0 ∧ binName = 0 ∧ (clients tag).received.length = 2 := by
    intro serviceId binName tag entry
    obtain ⟨message, read, rfl, rfl⟩ := holder_read ((parts.entries _ _).symm.trans entry)
    rw [heard] at read
    rcases Conversation.received_cases (reached tag) with none | one | ⟨answered, _, two⟩
    · rw [none] at read
      cases read
    · rw [one, List.mem_singleton] at read
      subst read
      exact .inl ⟨rfl, rfl, one ▸ List.cons_ne_nil _ _⟩
    · rw [two, List.mem_cons, List.mem_singleton] at read
      rcases read with rfl | rfl
      · exact .inl ⟨rfl, rfl, two ▸ List.cons_ne_nil _ _⟩
      · exact .inr ⟨rfl, rfl, congrArg List.length two⟩
  refine ⟨entries, ?_⟩
  intro tag some kept
  have greeted : Conversation.greeting (clients tag).client ∈ events.filterMap (Event.message tag) := by
    rw [heard]
    rcases Conversation.received_cases (reached tag) with none | one | ⟨answered, _, two⟩
    · exact absurd none some
    · rw [one]
      exact List.mem_cons_self
    · rw [two]
      exact List.mem_cons_self
  obtain ⟨first, held⟩ := read_holder greeted ⟨rfl, rfl⟩ kept
  have entry := (parts.entries _ _).trans held
  refine ⟨first, entry, ?_⟩
  obtain ⟨same, _⟩ | ⟨_, other, _⟩ := entries _ _ _ entry
  · exact same.symm
  · cases other

theorem clients_share_entry_twoBins :
    ∃ clients : HandlerId → Conversation, (∀ tag, twoBins.filterMap (Event.message tag) = (clients tag).received) ∧
      ∃ first, (machine.after { numIoThreads := 1 } twoBins).manager.entry (clients 1).client.serviceId 12389098234 = some first ∧
        (clients first).client.serviceId = (clients 1).client.serviceId := by
  obtain ⟨now, reached, _, received, _⟩ := Conversation.settled_answer
  have initial : Conversation.Initial { client := Client.newClient } := ⟨rfl, ⟨.notSet, rfl⟩, rfl, rfl⟩
  let clients : HandlerId → Conversation := fun tag => if tag < 2 then now else { client := Client.newClient }
  have heard : ∀ tag, twoBins.filterMap (Event.message tag) = (clients tag).received := by
    intro tag
    match tag with
    | 0 => exact received.symm
    | 1 => exact received.symm
    | tag + 2 => rfl
  have conversations : ∀ tag, Reachable Conversation.Initial Conversation.Step (clients tag) := by
    intro tag
    simp only [clients]
    split
    next => exact reached
    next => exact .start initial
  obtain ⟨_, share⟩ := clients_share_entry 1 twoBins (by decide +kernel) clients conversations heard
  refine ⟨clients, heard, share 1 ?_ ?_⟩
  · rw [← heard 1]
    exact List.cons_ne_nil _ _
  · intro event among
    simp only [twoBins, client, List.mem_cons, List.cons_append, List.nil_append, List.not_mem_nil, or_false] at among
    rcases among with rfl | rfl | rfl | rfl | rfl | rfl | rfl <;> exact id

end AsyncServer
end ShardManager.SvcDiscovery

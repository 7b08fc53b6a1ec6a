import ShardManager.Proofs.ClientRequests
import ShardManager.Proofs.ServerRuns
import ShardManager.Proofs.WriteQueue
import ShardManager.SvcDiscovery.Conversation

/-! What a client and the server's handler of its stream can say to each other, for
every interleaving of their threads and every message the server sends: the whole
conversation is the client's request, one answer and what the server makes of them. -/

namespace ShardManager.SvcDiscovery
open ServerUtils Function
open UserLibs (Client)

namespace Conversation
variable {now later : Conversation}

section Writing

private theorem writers_set {threads : List ThreadPhase} {thread : Nat} {former : ThreadPhase} (found : threads[thread]? = some former)
    (phase : ThreadPhase) : writers (threads.set thread phase) = update (writers threads) thread phase.writer := by
  obtain ⟨inside, _⟩ := List.getElem?_eq_some_iff.mp found
  funext other
  rw [update_apply, writers, List.getElem?_set]
  by_cases same : other = thread
  · subst same
    simp [inside]
  · rw [if_neg (Ne.symm same), if_neg same]
    rfl

private theorem writers_append (threads : List ThreadPhase) (message : ServerMessage) :
    writers (threads ++ [.processing message]) = writers threads := by
  funext other
  rcases Nat.lt_or_ge other threads.length with inside | outside
  · rw [writers, List.getElem?_append_left inside]
    rfl
  · rw [writers, writers, List.getElem?_append_right outside, List.getElem?_eq_none outside]
    cases other - threads.length <;> rfl

/-- Two states of a handler differ on its reading side only. -/
structure SameWriting (first second : ServerUtils.RequestHandler ClientMessage ServerMessage) : Prop where
  queue : second.msgQueue = first.msgQueue
  writing : second.isWriting = first.isWriting
  written : second.stream.written = first.stream.written
  outstanding : second.stream.outstandingWrites = first.stream.outstandingWrites

theorem SameWriting.inOrder {first second : WriteSystem Nat ClientMessage ServerMessage} (same : SameWriting first.handler second.handler)
    (inOrder : WriteSystem.InOrder first) (writers : second.writers = first.writers) (completion : second.completion = first.completion)
    (entered : second.entered = first.entered) : WriteSystem.InOrder second := by
  obtain ⟨handler, writers', completion', entered'⟩ := second
  obtain ⟨queued, front, busy, served⟩ := inOrder
  subst writers completion entered
  refine ⟨?_, ?_, ?_, ?_⟩
  · rw [same.queue, same.writing, same.written]
    exact queued
  · rw [same.queue, same.writing]
    exact front
  · rw [same.outstanding, same.writing]
    exact busy
  · rw [same.queue, same.writing]
    exact served

end Writing

def dropReport (ranges : List ShardRange) : ClientMessage := .shardInfoUpdate ⟨ranges.map (Client.shardInfo · .dropped)⟩

def report : ServerMessage → Option ClientMessage
  | .shardUpdateRequest request => some (dropReport (UserLibs.ranges request.unassignedShards ++ UserLibs.ranges request.assignedShards))
  | .shardForwardRequest request => some (dropReport (UserLibs.ranges request.forwardedShards))
  | _ => none

def greeting (client : Client) : ClientMessage :=
  .connectionRequest { serviceId := client.serviceId, serviceKey := client.serviceKey, binId := 12389098234, status := .healthy }

/-- How far a client has come that reads at most one message. -/
inductive Said (greeting : ClientMessage) : List ServerMessage → List ThreadPhase → List ClientMessage → Prop where
  | greeted : Said greeting [] [] [greeting]
  | processing (message : ServerMessage) : Said greeting [message] [.processing message] [greeting]
  | adding {message : ServerMessage} {msg : ClientMessage} (told : report message = some msg) :
      Said greeting [message] [.adding msg] [greeting]
  | attempting {message : ServerMessage} {msg : ClientMessage} (told : report message = some msg) :
      Said greeting [message] [.attempting] [greeting, msg]
  | answered {message : ServerMessage} {msg : ClientMessage} (told : report message = some msg) :
      Said greeting [message] [.ended] [greeting, msg]
  | silent {message : ServerMessage} (untold : report message = none) : Said greeting [message] [.ended] [greeting]

section Said
variable {greeted : ClientMessage} {arrived : List ServerMessage} {threads : List ThreadPhase} {entered : List ClientMessage} {thread : Nat}

private theorem found_single {phase found : ThreadPhase} (at_ : [phase][thread]? = some found) : thread = 0 ∧ phase = found := by
  cases thread with
  | zero => exact ⟨rfl, Option.some.inj at_⟩
  | succ thread => cases at_

theorem Said.answer (said : Said greeted arrived threads entered) {message : ServerMessage}
    (processing : threads[thread]? = some (.processing message)) :
    Said greeted arrived
      (threads.set thread
        (match report message with
        | some msg => .adding msg
        | none => .ended)) entered := by
  cases said with
  | greeted => cases processing
  | processing other =>
    obtain ⟨rfl, same⟩ := found_single processing
    cases same
    cases told : report message with
    | some msg => exact .adding told
    | none => exact .silent told
  | adding told => cases (found_single processing).2
  | attempting told => cases (found_single processing).2
  | answered told => cases (found_single processing).2
  | silent untold => cases (found_single processing).2

theorem Said.add (said : Said greeted arrived threads entered) {msg : ClientMessage}
    (adding : threads[thread]? = some (.adding msg)) : Said greeted arrived (threads.set thread .attempting) (entered ++ [msg]) := by
  cases said with
  | greeted => cases adding
  | processing message => cases (found_single adding).2
  | adding told =>
    obtain ⟨rfl, same⟩ := found_single adding
    cases same
    exact .attempting told
  | attempting told => cases (found_single adding).2
  | answered told => cases (found_single adding).2
  | silent untold => cases (found_single adding).2

private theorem Said.attempt (said : Said greeted arrived threads entered) (attempting : threads[thread]? = some .attempting) :
    Said greeted arrived (threads.set thread .ended) entered := by
  cases said with
  | greeted => cases attempting
  | processing message => cases (found_single attempting).2
  | adding told => cases (found_single attempting).2
  | attempting told =>
    obtain ⟨rfl, _⟩ := found_single attempting
    exact .answered told
  | answered told => cases (found_single attempting).2
  | silent untold => cases (found_single attempting).2

theorem Said.read (said : Said greeted [] threads entered) (message : ServerMessage) :
    Said greeted [message] (threads ++ [.processing message]) entered := by
  cases said
  exact .processing message

end Said

private theorem prefix_next {α : Type} {read sent : List α} {item : α} (heard : read <+: sent) (next : sent[read.length]? = some item) :
    read ++ [item] <+: sent := by
  obtain ⟨rest, rfl⟩ := heard
  rw [List.getElem?_append_right (Nat.le_refl _), Nat.sub_self] at next
  cases rest with
  | nil => cases next
  | cons first rest =>
    cases next
    exact ⟨rest, by rw [List.append_assoc]; rfl⟩

structure ClientSide (now : Conversation) : Prop where
  inOrder : WriteSystem.InOrder now.clientEnd
  noStatus : now.client.NoStatus
  unstarted : now.connecting = true →
    (∃ message, now.client.base = { message }) ∧ now.threads = [] ∧ now.completion = .waiting ∧ now.entered = [] ∧ now.arrived = []
  reading : now.connecting = false →
    now.client.base.isReading = true ∧ now.client.base.stream.outstandingReads + now.arrived.length ≤ 1
  heard : now.arrived <+: now.sent
  said : now.connecting = false → Said (greeting now.client) now.arrived now.threads now.entered

theorem NoStatus.answer {client : Client} (fresh : client.NoStatus) (message : ServerMessage) : client.answer message = report message := by
  have dropped : ∀ ranges, client.shardInfoUpdate ranges = dropReport ranges := by
    intro ranges
    obtain ⟨noStatus, noPending⟩ := fresh
    have statuses : client.getShardStatuses ranges = ranges.map fun _ => .dropped := by
      simp [Client.getShardStatuses, noStatus, noPending]
    rw [Client.shardInfoUpdate, statuses, dropReport, List.zipWith_map_right, List.zipWith_self]
  cases message with
  | notSet => rfl
  | connectionResponse response => rfl
  | shardUpdateRequest request => exact congrArg some (dropped _)
  | shardForwardRequest request => exact congrArg some (dropped _)

theorem NoStatus.sendAuthMessage {client : Client} (fresh : client.NoStatus) :
    .connectionRequest client.sendAuthMessage = greeting client := by
  obtain ⟨noStatus, noPending⟩ := fresh
  have none : client.getShardStatus = ∅ := by
    rw [Client.getShardStatus, noStatus, noPending]
    rfl
  rw [greeting, Client.sendAuthMessage, none]
  rfl

private theorem Initial.clientSide (initial : Initial now) : ClientSide now := by
  obtain ⟨unstarted, ⟨message, base⟩, noStatus, noPending⟩ := initial
  rw [unstarted]
  refine ⟨?_, ⟨noStatus, noPending⟩, fun _ => ⟨⟨message, base⟩, rfl, rfl, rfl, rfl⟩, ?_, List.nil_prefix, ?_⟩
  · exact WriteSystem.Initial.inOrder ⟨by simp [clientEnd, base], by simp [clientEnd, base], by simp [clientEnd, base],
      by simp [clientEnd, base], fun _ => rfl, rfl, rfl⟩
  · rintro ⟨⟩
  · rintro ⟨⟩

/-- What a client does between its messages leaves alone. -/
structure SameClient (before after : Client) : Prop where
  shardRangeStatus : after.shardRangeStatus = before.shardRangeStatus
  shardRangePendingStatus : after.shardRangePendingStatus = before.shardRangePendingStatus
  serviceId : after.serviceId = before.serviceId
  serviceKey : after.serviceKey = before.serviceKey

theorem SameClient.greeting {before after : Client} (same : SameClient before after) : greeting after = greeting before := by
  rw [Conversation.greeting, Conversation.greeting, same.serviceId, same.serviceKey]

theorem SameClient.noStatus {before after : Client} (same : SameClient before after) (fresh : before.NoStatus) : after.NoStatus :=
  ⟨same.shardRangeStatus.trans fresh.1, same.shardRangePendingStatus.trans fresh.2⟩

private theorem sameClient_process (op : Operation) (ok : Bool) (client : Client) : SameClient client (process op ok client) := by
  cases op with
  | connect => cases ok <;> exact ⟨rfl, rfl, rfl, rfl⟩
  | read =>
    cases ok with
    | false => exact ⟨rfl, rfl, rfl, rfl⟩
    | true =>
      obtain ⟨base, serviceId, serviceKey, shardRangeStatus, shardRangePendingStatus, isConnected, threads⟩ := client
      obtain ⟨message, isReading, msgQueue, isWriting, stream⟩ := base
      cases message <;> exact ⟨rfl, rfl, rfl, rfl⟩
  | write => cases ok <;> exact ⟨rfl, rfl, rfl, rfl⟩
  | finish => exact ⟨rfl, rfl, rfl, rfl⟩

theorem ClientSide.written (side : ClientSide now) (connected : now.connecting = false)
    (change : ServerUtils.RequestHandler ClientMessage ServerMessage → ServerUtils.RequestHandler ClientMessage ServerMessage)
    (reads : (change now.client.base).isReading = now.client.base.isReading ∧
      (change now.client.base).stream.outstandingReads = now.client.base.stream.outstandingReads)
    {threads : List ThreadPhase} {completion : CompletionPhase} {entered : List ClientMessage}
    (inOrder : WriteSystem.InOrder (clientEnd { now with client := now.modifyBase change, threads, completion, entered }))
    (said : Said (greeting now.client) now.arrived threads entered) :
    ClientSide { now with client := now.modifyBase change, threads, completion, entered } := by
  refine ⟨inOrder, side.noStatus, ?_, ?_, side.heard, fun _ => said⟩
  · intro connecting
    cases connected.symm.trans connecting
  · intro _
    obtain ⟨reading, once⟩ := side.reading connected
    exact ⟨reads.1.trans reading, by rw [← reads.2] at once; exact once⟩

private theorem ClientSide.connected_of_thread (side : ClientSide now) {thread : Nat} {phase : ThreadPhase}
    (found : now.threads[thread]? = some phase) : now.connecting = false := by
  cases connecting : now.connecting with
  | false => rfl
  | true =>
    rw [(side.unstarted connecting).2.1] at found
    cases found

private theorem ClientSide.connected_of_base (side : ClientSide now) (busy : 0 < now.client.base.stream.outstandingReads ∨
    0 < now.client.base.stream.outstandingWrites ∨ now.completion ≠ .waiting) : now.connecting = false := by
  cases connecting : now.connecting with
  | false => rfl
  | true =>
    obtain ⟨⟨message, base⟩, _, waiting, _⟩ := side.unstarted connecting
    simp [base, waiting] at busy

private theorem attemptWrite_reads (handler : ServerUtils.RequestHandler ClientMessage ServerMessage) :
    handler.attemptWrite.isReading = handler.isReading ∧
    handler.attemptWrite.stream.outstandingReads = handler.stream.outstandingReads := by
  rcases handler.attemptWrite_cases with ⟨_, unchanged⟩ | ⟨message, rest, _, _, started⟩
  · rw [unchanged]
    exact ⟨rfl, rfl⟩
  · rw [started]
    exact ⟨rfl, rfl⟩

/-- The first write of a new client, step by step. -/
private theorem inOrder_greeted {message : ServerMessage} (base : now.client.base = { message }) (waiting : now.completion = .waiting)
    (none : now.entered = []) :
    WriteSystem.InOrder (clientEnd
      { now with
        client := process .connect true now.client
        connecting := false
        entered := now.entered ++ [.connectionRequest now.client.sendAuthMessage] }) := by
  have started : (process .connect true now.client).base =
      now.client.base.attemptRead.write (.connectionRequest now.client.sendAuthMessage) := rfl
  rw [base] at started
  refine ⟨⟨[], ?_, ?_⟩, ?_, ?_, ?_⟩
  · rw [clientEnd, started, none]
    rfl
  · rw [clientEnd, started]
    rfl
  · intro _ empty
    rw [clientEnd, started] at empty
    cases empty
  · rw [clientEnd, started, waiting]
    rfl
  · intro idle
    rw [clientEnd, started] at idle
    cases idle

private theorem read_base {client : Client} (reading : client.base.isReading = true) : (process .read true client).base = client.base := by
  have unread : client.base.attemptRead = client.base := by
    rw [RequestHandler.attemptRead, if_pos reading]
  have read : (process .read true client).base = (client.processMessageSequentially client.base.message).base.attemptRead := rfl
  rw [read]
  cases client.base.message <;> exact unread

theorem ClientSide.step (side : ClientSide now) (taken : Step now later) : ClientSide later := by
  cases taken with
  | clientConnectFails connecting =>
    obtain ⟨⟨message, base⟩, threads, completion, entered, arrived⟩ := side.unstarted connecting
    have again : (process .connect false now.client).base = { message } := by
      change { now.client.base with stream := {} } = _
      rw [base]
    have writing : SameWriting now.client.base (process .connect false now.client).base := by
      rw [again, base]
      exact ⟨rfl, rfl, rfl, rfl⟩
    refine ⟨writing.inOrder side.inOrder rfl rfl rfl, side.noStatus, ?_, ?_, side.heard, ?_⟩
    · exact fun _ => ⟨⟨message, again⟩, threads, completion, entered, arrived⟩
    · exact fun connected => absurd (connecting.symm.trans connected) (by decide)
    · exact fun connected => absurd (connecting.symm.trans connected) (by decide)
  | clientConnects connecting =>
    obtain ⟨⟨message, base⟩, threads, completion, entered, arrived⟩ := side.unstarted connecting
    have same := sameClient_process .connect true now.client
    have started : (process .connect true now.client).base = now.client.base.attemptRead.write _ := rfl
    rw [base] at started
    refine ⟨inOrder_greeted base completion entered, same.noStatus side.noStatus, by rintro ⟨⟩, ?_, side.heard, ?_⟩
    · intro _
      change (process .connect true now.client).base.isReading = true ∧
        (process .connect true now.client).base.stream.outstandingReads + now.arrived.length ≤ 1
      rw [started, arrived]
      exact ⟨rfl, Nat.le_refl 1⟩
    · intro _
      change Said (greeting (process .connect true now.client)) now.arrived now.threads (now.entered ++ [.connectionRequest now.client.sendAuthMessage])
      rw [same.greeting, arrived, threads, entered, NoStatus.sendAuthMessage side.noStatus]
      exact .greeted
  | clientReads message waiting outstanding next =>
    have connected := side.connected_of_base (.inl outstanding)
    obtain ⟨reading, once⟩ := side.reading connected
    have none : now.arrived = [] := List.eq_nil_of_length_eq_zero (by omega)
    have base : (process .read true (now.modifyBase (.completeRead message))).base = now.client.base.completeRead message :=
      read_base reading
    have same := sameClient_process .read true (now.modifyBase (.completeRead message))
    have writing : SameWriting now.client.base (process .read true (now.modifyBase (.completeRead message))).base := by
      rw [base]
      exact ⟨rfl, rfl, rfl, rfl⟩
    refine ⟨writing.inOrder side.inOrder (writers_append _ _) rfl rfl, same.noStatus side.noStatus, ?_, ?_, ?_, ?_⟩
    · exact fun connecting => absurd (connecting.symm.trans connected) (by decide)
    · intro _
      change (process .read true (now.modifyBase (.completeRead message))).base.isReading = true ∧
        (process .read true (now.modifyBase (.completeRead message))).base.stream.outstandingReads + (now.arrived ++ [message]).length ≤ 1
      rw [base, none]
      refine ⟨reading, ?_⟩
      simp only [RequestHandler.completeRead, List.nil_append, List.length_singleton]
      omega
    · exact prefix_next side.heard next
    · intro _
      have said := side.said connected
      rw [none] at said
      change Said (greeting (process .read true (now.modifyBase (.completeRead message)))) (now.arrived ++ [message])
        (now.threads ++ [.processing message]) now.entered
      rw [same.greeting, none]
      exact said.read message
  | clientReadFails waiting outstanding =>
    have connected := side.connected_of_base (.inl outstanding)
    obtain ⟨reading, once⟩ := side.reading connected
    have writing : SameWriting now.client.base (now.client.base.completeRead now.client.base.message) := ⟨rfl, rfl, rfl, rfl⟩
    refine ⟨writing.inOrder side.inOrder rfl rfl rfl, side.noStatus, ?_, ?_, side.heard, fun _ => side.said connected⟩
    · exact fun connecting => absurd (connecting.symm.trans connected) (by decide)
    · intro _
      refine ⟨reading, ?_⟩
      change now.client.base.stream.outstandingReads - 1 + now.arrived.length ≤ 1
      omega
  | answer thread message processing =>
    have connected := side.connected_of_thread processing
    have said := (side.said connected).answer processing
    rw [← NoStatus.answer side.noStatus] at said
    refine ⟨?_, side.noStatus, ?_, side.reading, side.heard, fun _ => said⟩
    · have outside : writers now.threads thread = .outside := by
        rw [writers, processing]
        rfl
      rw [clientEnd]
      simp only
      rw [writers_set processing]
      cases now.client.answer message with
      | some msg => exact side.inOrder.step (.call thread msg outside)
      | none =>
        have unchanged : update (writers now.threads) thread ThreadPhase.ended.writer = writers now.threads :=
          update_eq_self_iff.mpr outside.symm
        rw [unchanged]
        exact side.inOrder
    · exact fun connecting => absurd (connecting.symm.trans connected) (by decide)
  | addToWriteQueue thread msg adding =>
    have connected := side.connected_of_thread adding
    refine side.written connected (.addToWriteQueue msg) ⟨rfl, rfl⟩ ?_ ((side.said connected).add adding)
    have held : writers now.threads thread = .adding msg := by
      rw [writers, adding]
      rfl
    rw [clientEnd]
    simp only
    rw [writers_set adding]
    exact side.inOrder.step (.addToWriteQueue thread msg held)
  | attemptWrite thread attempting =>
    have connected := side.connected_of_thread attempting
    refine side.written connected .attemptWrite (attemptWrite_reads _) ?_ ((side.said connected).attempt attempting)
    have held : writers now.threads thread = .attempting := by
      rw [writers, attempting]
      rfl
    rw [clientEnd]
    simp only
    rw [writers_set attempting]
    exact side.inOrder.step (.attemptWrite thread held)
  | takeUp waiting outstanding =>
    have connected := side.connected_of_base (.inr (.inl outstanding))
    refine side.written connected .completeWrite ⟨rfl, rfl⟩ (side.inOrder.step (.takeUp waiting outstanding)) (side.said connected)
  | finishWrite finishing =>
    have connected := side.connected_of_base (.inr (.inr (by rw [finishing]; decide)))
    exact side.written connected (.finishWrite true) ⟨rfl, rfl⟩ (side.inOrder.step (.finishWrite finishing)) (side.said connected)
  | attemptNext attempting =>
    have connected := side.connected_of_base (.inr (.inr (by rw [attempting]; decide)))
    exact side.written connected .attemptWrite (attemptWrite_reads _) (side.inOrder.step (.attemptNext attempting)) (side.said connected)
  | clientWriteFails waiting outstanding =>
    have connected := side.connected_of_base (.inr (.inl outstanding))
    exact side.written connected .completeWrite ⟨rfl, rfl⟩ side.inOrder.failWrite (side.said connected)
  | serverConnects unaccepted => exact ⟨side.inOrder, side.noStatus, side.unstarted, side.reading, side.heard, side.said⟩
  | serverSends message accepted =>
    exact ⟨side.inOrder, side.noStatus, side.unstarted, side.reading, side.heard.trans (List.prefix_append _ _), side.said⟩
  | serverReads message outstanding next => exact ⟨side.inOrder, side.noStatus, side.unstarted, side.reading, side.heard, side.said⟩
  | serverReadFails outstanding => exact ⟨side.inOrder, side.noStatus, side.unstarted, side.reading, side.heard, side.said⟩
  | serverStops => exact ⟨side.inOrder, side.noStatus, side.unstarted, side.reading, side.heard, side.said⟩

def registration (message : ClientMessage) : ManagerCall :=
  .registerBin message.getConnectionRequest.serviceId message.getConnectionRequest.binId

structure ServerSide (now : Conversation) : Prop where
  unaccepted : now.accepted = false → now.server.managerCalls = [] ∧ now.server.base.stream.outstandingReads = 0 ∧ now.received = []
  unauthenticated : now.server.hasAuthenticated = false
  calls : now.accepted = true → now.server.managerCalls = .addHandler :: now.received.map registration
  flag : now.server.base.isReading = true ↔ now.received ≠ []
  reading : now.server.base.stream.outstandingReads ≤ 1 ∧ now.server.base.stream.outstandingReads + now.received.length ≤ 2
  waiting : now.accepted = true → now.failed = false → now.received.length < 2 → now.server.base.stream.outstandingReads = 1
  stopped : now.server.status = .stopped ↔
    now.failed = true ∨ now.halted = true ∨ ∃ message ∈ now.received, message.hasConnectionRequest = false
  recorded : ∀ key info, now.server.shardRangeInfo.lookup key = some info →
    ∃ update, .shardInfoUpdate update ∈ now.received ∧ info ∈ update.shardInfos
  heard : now.received <+: now.client.base.stream.written

private theorem Initial.serverSide (initial : Initial now) : ServerSide now := by
  rw [initial.unstarted]
  refine ⟨fun _ => ⟨rfl, rfl, rfl⟩, rfl, by rintro ⟨⟩, by simp, ⟨Nat.zero_le 1, Nat.zero_le 2⟩, by rintro ⟨⟩, ?_, ?_, List.nil_prefix⟩
  · simp
  · intro key info found
    cases found

section Server
variable (handler : RequestHandler)

private theorem lookup_recordShardInfos (shardInfos : List ShardInfo) {key : Int × Int} {info : ShardInfo}
    (found : (handler.recordShardInfos shardInfos).shardRangeInfo.lookup key = some info) :
    handler.shardRangeInfo.lookup key = some info ∨ info ∈ shardInfos := by
  have loop : ∀ (shardInfos : List ShardInfo) (known : UnorderedMap (Int × Int) ShardInfo),
      (shardInfos.foldl (fun known shardInfo => known.insert shardInfo.shard.range.key shardInfo) known).lookup key = some info →
        known.lookup key = some info ∨ info ∈ shardInfos := by
    intro shardInfos
    induction shardInfos with
    | nil => exact fun _ found => .inl found
    | cons shardInfo shardInfos ih =>
      intro known found
      rcases ih _ found with before | later
      · rw [UnorderedMap.lookup_insert] at before
        split at before
        next =>
          cases before
          exact .inr List.mem_cons_self
        next => exact .inl before
      · exact .inr (List.mem_cons_of_mem _ later)
  exact loop shardInfos handler.shardRangeInfo found

/-- What a handler makes of a message; nothing ever marks it as authenticated. -/
structure ReadsMessage (before after : RequestHandler) (message : ClientMessage) : Prop where
  base : after.base = before.base.attemptRead
  hasAuthenticated : after.hasAuthenticated = false
  managerCalls : after.managerCalls = before.managerCalls ++ [registration message]
  status : after.status = .stopped ↔ before.status = .stopped ∨ message.hasConnectionRequest = false
  shardRangeInfo : ∀ key info, after.shardRangeInfo.lookup key = some info →
    before.shardRangeInfo.lookup key = some info ∨ ∃ update, message = .shardInfoUpdate update ∧ info ∈ update.shardInfos

private theorem reads_message (message : ClientMessage) (held : handler.base.message = message) (new : handler.hasAuthenticated = false) :
    ReadsMessage handler (process .read true handler) message := by
  obtain ⟨base, status, hasAuthenticated, shardRangeInfo, managerCalls⟩ := handler
  obtain ⟨current, isReading, msgQueue, isWriting, stream⟩ := base
  change current = message at held
  change hasAuthenticated = false at new
  subst held new
  cases current with
  | notSet => cases status <;> exact ⟨rfl, rfl, rfl, ⟨fun _ => .inr rfl, fun _ => rfl⟩, fun _ _ found => .inl found⟩
  | connectionRequest request =>
    cases status
    · exact ⟨rfl, rfl, rfl, ⟨by rintro ⟨⟩, by rintro (⟨⟨⟩⟩ | ⟨⟨⟩⟩)⟩, fun _ _ found => .inl found⟩
    · exact ⟨rfl, rfl, rfl, ⟨fun _ => .inl rfl, fun _ => rfl⟩, fun _ _ found => .inl found⟩
  | shardInfoUpdate update =>
    have recorded : ∀ (before : RequestHandler) (key : Int × Int) (info : ShardInfo),
        (before.recordShardInfos update.shardInfos).shardRangeInfo.lookup key = some info →
          before.shardRangeInfo.lookup key = some info ∨ ∃ other, ClientMessage.shardInfoUpdate update = .shardInfoUpdate other ∧
            info ∈ other.shardInfos := by
      intro before key info found
      rcases lookup_recordShardInfos before update.shardInfos found with old | new
      · exact .inl old
      · exact .inr ⟨update, rfl, new⟩
    cases status <;> exact ⟨rfl, rfl, rfl, ⟨fun _ => .inr rfl, fun _ => rfl⟩, fun key info found => recorded _ key info found⟩
  | status other => cases status <;> exact ⟨rfl, rfl, rfl, ⟨fun _ => .inr rfl, fun _ => rfl⟩, fun _ _ found => .inl found⟩

end Server

/-- What has been passed to `Write` stays so. -/
private theorem ClientSide.written_grows (side : ClientSide now) (taken : Step now later) :
    now.client.base.stream.written <+: later.client.base.stream.written := by
  have attempted : ∀ handler : ServerUtils.RequestHandler ClientMessage ServerMessage,
      handler.stream.written <+: handler.attemptWrite.stream.written := by
    intro handler
    rcases handler.attemptWrite_cases with ⟨_, unchanged⟩ | ⟨message, rest, _, _, started⟩
    · rw [unchanged]
    · rw [started]
      exact List.prefix_append _ _
  cases taken with
  | clientConnectFails connecting =>
    obtain ⟨⟨message, base⟩, _⟩ := side.unstarted connecting
    rw [base]
    exact List.nil_prefix
  | clientConnects connecting =>
    obtain ⟨⟨message, base⟩, _⟩ := side.unstarted connecting
    rw [base]
    exact List.nil_prefix
  | clientReads message waiting outstanding next =>
    obtain ⟨reading, _⟩ := side.reading (side.connected_of_base (.inl outstanding))
    have base : (process .read true (now.modifyBase (.completeRead message))).base = now.client.base.completeRead message :=
      read_base reading
    change _ <+: (process .read true (now.modifyBase (.completeRead message))).base.stream.written
    rw [base]
    exact List.prefix_rfl
  | clientReadFails waiting outstanding => exact List.prefix_rfl
  | answer thread message processing => exact List.prefix_rfl
  | addToWriteQueue thread msg adding => exact List.prefix_rfl
  | attemptWrite thread attempting => exact attempted _
  | takeUp waiting outstanding => exact List.prefix_rfl
  | finishWrite finishing => exact List.prefix_rfl
  | attemptNext attempting => exact attempted _
  | clientWriteFails waiting outstanding => exact List.prefix_rfl
  | serverConnects unaccepted => exact List.prefix_rfl
  | serverSends message accepted => exact List.prefix_rfl
  | serverReads message outstanding next => exact List.prefix_rfl
  | serverReadFails outstanding => exact List.prefix_rfl
  | serverStops => exact List.prefix_rfl

theorem ServerSide.unmoved (side : ServerSide now) (grows : now.client.base.stream.written <+: later.client.base.stream.written)
    (server : later.server = now.server) (accepted : later.accepted = now.accepted) (failed : later.failed = now.failed)
    (halted : later.halted = now.halted) (received : later.received = now.received) : ServerSide later := by
  obtain ⟨client, connecting, threads, completion, server', accepted', failed', halted', entered, sent, arrived, received'⟩ := later
  subst server accepted failed halted received
  exact ⟨side.unaccepted, side.unauthenticated, side.calls, side.flag, side.reading, side.waiting, side.stopped, side.recorded,
    side.heard.trans grows⟩

private theorem ServerSide.accepted_of_reading (side : ServerSide now) (outstanding : 0 < now.server.base.stream.outstandingReads) :
    now.accepted = true := by
  cases accepted : now.accepted with
  | true => rfl
  | false =>
    obtain ⟨_, idle, _⟩ := side.unaccepted accepted
    omega

theorem ServerSide.read (side : ServerSide now) {message : ClientMessage} {after : RequestHandler}
    (outstanding : 0 < now.server.base.stream.outstandingReads)
    (next : now.client.base.stream.written[now.received.length]? = some message)
    (reads : ReadsMessage { now.server with base := now.server.base.completeRead message } after message) :
    ServerSide { now with server := after, received := now.received ++ [message] } := by
  have accepted := side.accepted_of_reading outstanding
  obtain ⟨one, two⟩ := side.reading
  -- A second read is asked for after the first message, and none after the second.
  have base : after.base.isReading = true ∧ after.base.stream.outstandingReads + now.received.length = 1 := by
    rw [reads.base]
    cases reading : now.server.base.isReading with
    | true =>
      have some := List.length_pos_iff.mpr (side.flag.mp reading)
      simp only [RequestHandler.attemptRead, RequestHandler.completeRead, reading, if_true, true_and]
      omega
    | false =>
      have none : now.received = [] := by
        by_contra some
        rw [side.flag.mpr some] at reading
        cases reading
      simp only [RequestHandler.attemptRead, RequestHandler.completeRead, RequestHandler.readFromStream, reading, none,
        Bool.false_eq_true, if_false, true_and, List.length_nil]
      omega
  obtain ⟨flag, reading⟩ := base
  refine ⟨?_, reads.hasAuthenticated, ?_, ?_, ?_, ?_, ?_, ?_, prefix_next side.heard next⟩
  · exact fun unaccepted => absurd (accepted.symm.trans unaccepted) (by decide)
  · intro _
    change after.managerCalls = _
    rw [reads.managerCalls, side.calls accepted, List.map_append]
    rfl
  · exact iff_of_true flag (by simp)
  · change after.base.stream.outstandingReads ≤ 1 ∧ after.base.stream.outstandingReads + (now.received ++ [message]).length ≤ 2
    rw [List.length_append, List.length_singleton]
    omega
  · intro _ _ few
    change (now.received ++ [message]).length < 2 at few
    change after.base.stream.outstandingReads = 1
    rw [List.length_append, List.length_singleton] at few
    omega
  · change after.status = _ ↔ _
    rw [reads.status, side.stopped]
    simp only [List.mem_append, List.mem_singleton, or_and_right, exists_or, exists_eq_left, or_assoc]
  · intro key info found
    rcases reads.shardRangeInfo key info found with old | ⟨update, rfl, member⟩
    · obtain ⟨update, before, member⟩ := side.recorded key info old
      exact ⟨update, List.mem_append_left _ before, member⟩
    · exact ⟨update, List.mem_append_right _ (List.mem_singleton.mpr rfl), member⟩

theorem ServerSide.step (side : ServerSide now) (clientSide : ClientSide now) (taken : Step now later) : ServerSide later := by
  have grows := clientSide.written_grows taken
  cases taken with
  | clientConnectFails connecting => exact side.unmoved grows rfl rfl rfl rfl rfl
  | clientConnects connecting => exact side.unmoved grows rfl rfl rfl rfl rfl
  | clientReads message waiting outstanding next => exact side.unmoved grows rfl rfl rfl rfl rfl
  | clientReadFails waiting outstanding => exact side.unmoved grows rfl rfl rfl rfl rfl
  | answer thread message processing => exact side.unmoved grows rfl rfl rfl rfl rfl
  | addToWriteQueue thread msg adding => exact side.unmoved grows rfl rfl rfl rfl rfl
  | attemptWrite thread attempting => exact side.unmoved grows rfl rfl rfl rfl rfl
  | takeUp waiting outstanding => exact side.unmoved grows rfl rfl rfl rfl rfl
  | finishWrite finishing => exact side.unmoved grows rfl rfl rfl rfl rfl
  | attemptNext attempting => exact side.unmoved grows rfl rfl rfl rfl rfl
  | clientWriteFails waiting outstanding => exact side.unmoved grows rfl rfl rfl rfl rfl
  | serverConnects unaccepted =>
    obtain ⟨silent, idle, none⟩ := side.unaccepted unaccepted
    refine ⟨by rintro ⟨⟩, side.unauthenticated, ?_, side.flag, ?_, ?_, side.stopped, side.recorded, side.heard⟩
    · intro _
      change now.server.managerCalls ++ [.addHandler] = .addHandler :: now.received.map registration
      rw [silent, none]
      rfl
    · change now.server.base.stream.outstandingReads + 1 ≤ 1 ∧ now.server.base.stream.outstandingReads + 1 + now.received.length ≤ 2
      rw [idle, none]
      decide
    · intro _ _ _
      change now.server.base.stream.outstandingReads + 1 = 1
      rw [idle]
  | serverSends message accepted => exact side.unmoved grows rfl rfl rfl rfl rfl
  | serverReads message outstanding next =>
    exact side.read outstanding next (reads_message _ message rfl side.unauthenticated)
  | serverReadFails outstanding =>
    have accepted := side.accepted_of_reading outstanding
    have stopped : process .read false { now.server with base := now.server.base.completeRead now.server.base.message } =
        { now.server with base := now.server.base.completeRead now.server.base.message, status := .stopped } :=
      RequestHandler.stop_eq { now.server with base := now.server.base.completeRead now.server.base.message } side.unauthenticated
    rw [stopped]
    refine ⟨?_, side.unauthenticated, side.calls, side.flag, ?_, ?_, ?_, side.recorded, side.heard⟩
    · exact fun unaccepted => absurd (accepted.symm.trans unaccepted) (by decide)
    · obtain ⟨one, two⟩ := side.reading
      change now.server.base.stream.outstandingReads - 1 ≤ 1 ∧ now.server.base.stream.outstandingReads - 1 + now.received.length ≤ 2
      omega
    · exact fun _ impossible => by cases impossible
    · exact iff_of_true rfl (.inl rfl)
  | serverStops =>
    rw [RequestHandler.stop_eq now.server side.unauthenticated]
    exact ⟨side.unaccepted, side.unauthenticated, side.calls, side.flag, side.reading, side.waiting,
      iff_of_true rfl (.inr (.inl rfl)), side.recorded, side.heard⟩

structure Sides (now : Conversation) : Prop where
  client : ClientSide now
  server : ServerSide now

private theorem sides (reached : Reachable Initial Step now) : Sides now :=
  reached.invariant (fun _ initial => ⟨initial.clientSide, initial.serverSide⟩)
    fun _ _ held taken => ⟨held.client.step taken, held.server.step held.client taken⟩

private theorem Said.entered_eq {greeted : ClientMessage} {arrived : List ServerMessage} {threads : List ThreadPhase} {entered : List ClientMessage}
    (said : Said greeted arrived threads entered) (ended : ∀ phase ∈ threads, phase = .ended) :
    entered = greeted :: arrived.filterMap report := by
  cases said with
  | greeted => rfl
  | processing message => cases ended _ List.mem_cons_self
  | adding told => cases ended _ List.mem_cons_self
  | attempting told => cases ended _ List.mem_cons_self
  | answered told => simp [told]
  | silent untold => simp [untold]

theorem Said.entered_greets {greeted : ClientMessage} {arrived : List ServerMessage} {threads : List ThreadPhase} {entered : List ClientMessage}
    (said : Said greeted arrived threads entered) : entered <+: greeted :: arrived.filterMap report := by
  cases said with
  | greeted => exact List.prefix_rfl
  | processing message => exact ⟨_, rfl⟩
  | adding told => exact ⟨_, rfl⟩
  | attempting told => simp [told]
  | answered told => simp [told]
  | silent untold => simp [untold]

theorem ClientSide.entered_greets (side : ClientSide now) : now.entered <+: greeting now.client :: now.arrived.filterMap report := by
  cases connecting : now.connecting with
  | true =>
    rw [(side.unstarted connecting).2.2.2.1]
    exact List.nil_prefix
  | false => exact (side.said connecting).entered_greets

private theorem ClientSide.arrived_once (side : ClientSide now) : now.arrived.length ≤ 1 := by
  cases connecting : now.connecting with
  | true =>
    rw [(side.unstarted connecting).2.2.2.2]
    exact Nat.zero_le 1
  | false =>
    obtain ⟨_, once⟩ := side.reading connecting
    omega

private theorem ClientSide.written_prefix (side : ClientSide now) : now.client.base.stream.written <+: now.entered := by
  obtain ⟨done, entered, written⟩ := side.inOrder.queued
  change now.entered = done ++ now.client.base.msgQueue at entered
  change now.client.base.stream.written = done ++ if now.client.base.isWriting = true then now.client.base.msgQueue.take 1 else [] at written
  rw [entered, written, List.prefix_append_right_inj]
  split
  · exact List.take_prefix _ _
  · exact List.nil_prefix

/-- Nothing is under way: every thread has ended, no write is unfinished, and the
server has nothing to read or reads no more. -/
structure Settled (now : Conversation) : Prop where
  connected : now.connecting = false
  accepted : now.accepted = true
  unfailed : now.failed = false
  ended : ∀ phase ∈ now.threads, phase = .ended
  waiting : now.completion = .waiting
  idle : now.client.base.isWriting = false
  read : now.server.base.stream.outstandingReads = 0 ∨ now.received.length = now.client.base.stream.written.length

/-- A server that assigns a range, and reads in the answer that it is dropped. -/
def assignment : ServerMessage := .shardUpdateRequest ⟨[⟨⟨0, 9⟩, .primary, 1⟩], []⟩

theorem settled_answer : ∃ now, Reachable Initial Step now ∧ Settled now ∧
    now.received = [greeting Client.newClient, dropReport [⟨0, 9⟩]] ∧
    now.server.shardRangeInfo = AList.insert (ShardRange.mk 0 9).key (Client.shardInfo ⟨0, 9⟩ .dropped) ∅ := by
  have initial : Initial { client := Client.newClient } := ⟨rfl, ⟨.notSet, rfl⟩, rfl, rfl⟩
  have greeted := Reachable.next (.next (.next (.start initial) (Step.clientConnects rfl)) (.serverConnects rfl))
    (.serverReads (greeting Client.newClient) Nat.one_pos rfl)
  have written := Reachable.next (.next (.next greeted (.takeUp rfl Nat.one_pos)) (.finishWrite rfl)) (.attemptNext rfl)
  have asked := Reachable.next (.next written (.serverSends assignment rfl)) (.clientReads assignment rfl Nat.one_pos rfl)
  have answered := Reachable.next (.next (.next asked (.answer 0 assignment rfl)) (.addToWriteQueue 0 (dropReport [⟨0, 9⟩]) rfl))
    (.attemptWrite 0 rfl)
  have finished := Reachable.next (.next (.next answered (.takeUp rfl Nat.one_pos)) (.finishWrite rfl)) (.attemptNext rfl)
  refine ⟨_, .next finished (.serverReads (dropReport [⟨0, 9⟩]) Nat.one_pos rfl), ?_, rfl, ?_⟩
  · refine ⟨rfl, rfl, rfl, ?_, rfl, rfl, .inr rfl⟩
    intro phase member
    exact List.mem_singleton.mp member
  · rfl

/-- However the threads interleave and whatever the server sends: of its messages a
client reads at most one, and what it says is its request and the answer to that one;
the server reads what was said in order, without gap or repetition. -/
theorem conversation_said (reached : Reachable Initial Step now) :
    now.arrived <+: now.sent ∧ now.arrived.length ≤ 1 ∧ now.entered <+: greeting now.client :: now.arrived.filterMap report ∧
    now.client.base.stream.written <+: now.entered ∧ now.received <+: now.client.base.stream.written := by
  obtain ⟨clientSide, serverSide⟩ := sides reached
  exact ⟨clientSide.heard, clientSide.arrived_once, clientSide.entered_greets, clientSide.written_prefix, serverSide.heard⟩

theorem conversation_said_answer :
    ∃ now : Conversation, now.received = [greeting Client.newClient, dropReport [⟨0, 9⟩]] ∧
      now.arrived <+: now.sent ∧ now.arrived.length ≤ 1 ∧ now.entered <+: greeting now.client :: now.arrived.filterMap report ∧
      now.client.base.stream.written <+: now.entered ∧ now.received <+: now.client.base.stream.written := by
  obtain ⟨now, reached, _, received, _⟩ := settled_answer
  exact ⟨now, received, conversation_said reached⟩

private theorem received_prefix (reached : Reachable Initial Step now) :
    now.received <+: greeting now.client :: now.arrived.filterMap report := by
  obtain ⟨_, _, entered, written, received⟩ := conversation_said reached
  exact received.trans (written.trans entered)

def mentioned : ServerMessage → List ShardRange
  | .shardUpdateRequest request => UserLibs.ranges request.unassignedShards ++ UserLibs.ranges request.assignedShards
  | .shardForwardRequest request => UserLibs.ranges request.forwardedShards
  | _ => []

private theorem report_eq {message : ServerMessage} {msg : ClientMessage} (told : report message = some msg) : msg = dropReport (mentioned message) := by
  cases message with
  | notSet => cases told
  | connectionResponse response => cases told
  | shardUpdateRequest request => exact (Option.some.inj told).symm
  | shardForwardRequest request => exact (Option.some.inj told).symm

/-- The server has read nothing, the request, or the request and an answer. -/
theorem received_cases (reached : Reachable Initial Step now) :
    now.received = [] ∨ now.received = [greeting now.client] ∨
    ∃ message, now.arrived = [message] ∧ now.received = [greeting now.client, dropReport (mentioned message)] := by
  obtain ⟨rest, split⟩ := received_prefix reached
  match received : now.received, split with
  | [], _ => exact .inl rfl
  | [first], split => exact .inr (.inl (by rw [(List.cons.inj split).1]))
  | first :: second :: more, split =>
    obtain ⟨rfl, split⟩ := List.cons.inj split
    have once := (sides reached).client.arrived_once
    match arrived : now.arrived, once with
    | [], _ =>
      rw [arrived] at split
      cases split
    | [message], _ =>
      rw [arrived] at split
      cases told : report message with
      | none => simp [told] at split
      | some msg =>
        simp only [told, List.filterMap_cons, List.filterMap_nil, List.cons_append, List.cons.injEq, List.append_eq_nil_iff] at split
        obtain ⟨_, rfl, rfl, _⟩ := split
        exact .inr (.inr ⟨message, rfl, by rw [report_eq told]⟩)

/-- The server's handler registers the client under the ids of its request. The answer
makes it stop, and register bin 0 of service 0; nothing but a failed READ and a call of
`stop` stops it before. -/
theorem conversation_registers (reached : Reachable Initial Step now) :
    now.server.managerCalls <+: [.addHandler, .registerBin now.client.serviceId 12389098234, .registerBin 0 0] ∧
    (now.accepted = true → now.server.managerCalls.length = now.received.length + 1) ∧
    (now.server.status = .stopped ↔ now.failed = true ∨ now.halted = true ∨ now.received.length = 2) := by
  obtain ⟨clientSide, serverSide⟩ := sides reached
  have calls : now.server.managerCalls = if now.accepted then .addHandler :: now.received.map registration else [] := by
    cases accepted : now.accepted with
    | true => exact serverSide.calls accepted
    | false => exact (serverSide.unaccepted accepted).1
  have stopped := serverSide.stopped
  refine ⟨?_, ?_, ?_⟩
  · rw [calls]
    split
    · rcases received_cases reached with none | one | ⟨message, _, two⟩
      · simp [none]
      · rw [one]
        exact ⟨[.registerBin 0 0], rfl⟩
      · rw [two]
        exact List.prefix_rfl
    · exact List.nil_prefix
  · intro accepted
    rw [calls, if_pos accepted, List.length_cons, List.length_map]
  · rw [stopped]
    rcases received_cases reached with none | one | ⟨message, _, two⟩
    · simp [none]
    · simp [one, greeting, ClientMessage.hasConnectionRequest]
    · simp [two, greeting, dropReport, ClientMessage.hasConnectionRequest]

theorem conversation_registers_answer :
    ∃ now : Conversation, now.received = [greeting Client.newClient, dropReport [⟨0, 9⟩]] ∧
      now.server.managerCalls <+: [.addHandler, .registerBin now.client.serviceId 12389098234, .registerBin 0 0] ∧
      (now.accepted = true → now.server.managerCalls.length = now.received.length + 1) ∧
      (now.server.status = .stopped ↔ now.failed = true ∨ now.halted = true ∨ now.received.length = 2) := by
  obtain ⟨now, reached, _, received, _⟩ := settled_answer
  exact ⟨now, received, conversation_registers reached⟩

/-- All that a server comes to know of a client's shards is that the ranges of its own
first message are dropped, also those it has just assigned. -/
theorem conversation_records (reached : Reachable Initial Step now) {key : Int × Int} {info : ShardInfo}
    (found : now.server.shardRangeInfo.lookup key = some info) :
    info.status = .dropped ∧ ∃ message, now.arrived = [message] ∧ info.shard.range ∈ mentioned message := by
  obtain ⟨update, received, member⟩ := (sides reached).server.recorded key info found
  rcases received_cases reached with none | one | ⟨message, arrived, two⟩
  · rw [none] at received
    cases received
  · rw [one, List.mem_singleton] at received
    cases received
  · rw [two] at received
    simp only [List.mem_cons, greeting, reduceCtorEq, List.not_mem_nil, or_false, false_or] at received
    cases received
    obtain ⟨range, inside, rfl⟩ := List.mem_map.mp member
    exact ⟨rfl, message, arrived, inside⟩

theorem conversation_records_answer :
    ∃ now : Conversation, (Client.shardInfo ⟨0, 9⟩ .dropped).status = .dropped ∧
      ∃ message, now.arrived = [message] ∧ (Client.shardInfo ⟨0, 9⟩ .dropped).shard.range ∈ mentioned message := by
  obtain ⟨now, reached, _, _, recorded⟩ := settled_answer
  have found : now.server.shardRangeInfo.lookup (ShardRange.mk 0 9).key = some (Client.shardInfo ⟨0, 9⟩ .dropped) := by
    rw [recorded, AList.lookup_insert]
  exact ⟨now, conversation_records reached found⟩

/-- Nothing is lost on the way: when a conversation settles, the server has read the
request and the answer to the message that the client has read. -/
theorem conversation_settles (reached : Reachable Initial Step now) (settled : Settled now) :
    now.received = greeting now.client :: now.arrived.filterMap report ∧ now.client.base.msgQueue = [] := by
  obtain ⟨clientSide, serverSide⟩ := sides reached
  have entered := (clientSide.said settled.connected).entered_eq settled.ended
  have empty : now.client.base.msgQueue = [] := by
    by_contra occupied
    rcases clientSide.inOrder.served settled.idle occupied with ⟨thread, attempting⟩ | attempting
    · change writers now.threads thread = .attempting at attempting
      rw [writers] at attempting
      cases found : now.threads[thread]? with
      | none => simp [found] at attempting
      | some phase =>
        rw [found, settled.ended phase (List.mem_of_getElem? found)] at attempting
        cases attempting
    · exact absurd (settled.waiting.symm.trans attempting) (by decide)
  have written : now.client.base.stream.written = now.entered := by
    obtain ⟨done, entered, written⟩ := clientSide.inOrder.queued
    change now.entered = done ++ now.client.base.msgQueue at entered
    change now.client.base.stream.written = done ++ if now.client.base.isWriting = true then _ else [] at written
    rw [written, entered, empty, settled.idle]
    rfl
  have all : now.received = now.client.base.stream.written := by
    refine serverSide.heard.eq_of_length ?_
    rcases settled.read with exhausted | level
    · have more := serverSide.waiting settled.accepted settled.unfailed
      have few := serverSide.heard.length_le
      have short := List.length_filterMap_le report now.arrived
      have once := clientSide.arrived_once
      rw [written, entered, List.length_cons] at few ⊢
      omega
    · exact level
  exact ⟨by rw [all, written, entered], empty⟩

theorem conversation_settles_answer :
    ∃ now : Conversation, now.received = greeting now.client :: now.arrived.filterMap report ∧ now.client.base.msgQueue = [] := by
  obtain ⟨now, reached, settled, _⟩ := settled_answer
  exact ⟨now, conversation_settles reached settled⟩

end Conversation
end ShardManager.SvcDiscovery

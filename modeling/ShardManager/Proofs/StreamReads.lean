import ShardManager.SvcDiscovery.RequestHandler
import ShardManager.UserLibs.Client

/-! Reads of an open stream: whether another one is always outstanding, on both ends,
and what the server does before a client has authenticated. -/

namespace ShardManager
open ServerUtils

namespace ServerUtils
variable {H W R : Type} [Handler H W R]

def completesRead (message : R) (handler : H) : H :=
  process .read true (Handler.modifyBase (.completeRead message) handler)

/-- One read is outstanding, and the flag tells so. -/
def Reading (handler : H) : Prop :=
  (Handler.base handler).stream.outstandingReads = 1 ∧
  ((Handler.base handler).isReading = true ↔ (Handler.base handler).stream.outstandingReads ≠ 0)

/-- A read is outstanding now and after each of the messages. -/
def KeepsReading : List R → H → Prop
  | [], handler => Reading handler
  | message :: messages, handler => Reading handler ∧ KeepsReading messages (completesRead message handler)

theorem KeepsReading.now {messages : List R} {handler : H} (keeps : KeepsReading messages handler) : Reading handler := by
  cases messages with
  | nil => exact keeps
  | cons message messages => exact keeps.1

private theorem RequestHandler.write_reads {W R : Type} (handler : ServerUtils.RequestHandler W R) (msg : W) :
    (handler.write msg).isReading = handler.isReading ∧
    (handler.write msg).stream.outstandingReads = handler.stream.outstandingReads := by
  unfold write attemptWrite
  split
  · exact ⟨rfl, rfl⟩
  · split <;> exact ⟨rfl, rfl⟩

end ServerUtils

namespace UserLibs.Client

private theorem connected_reading (client : Client) (notReading : client.base.isReading = false)
    (idle : client.base.stream.outstandingReads = 0) : ServerUtils.Reading (process .connect true client) := by
  obtain ⟨flag, reads⟩ := RequestHandler.write_reads client.base.attemptRead (.connectionRequest
    ({ client with isConnected := true, base := client.base.attemptRead } : Client).sendAuthMessage)
  have base : Handler.base (process .connect true client) = client.base.attemptRead.write _ := rfl
  have started : client.base.attemptRead.isReading = true ∧ client.base.attemptRead.stream.outstandingReads = 1 := by
    simp [RequestHandler.attemptRead, RequestHandler.readFromStream, notReading, idle]
  rw [ServerUtils.Reading, base, flag, reads, started.1, started.2]
  simp

private theorem completesRead_idle (client : Client) (reading : ServerUtils.Reading client) (message : ServerMessage) :
    (Handler.base (completesRead message client)).stream.outstandingReads = 0 := by
  obtain ⟨one, flag⟩ := reading
  change client.base.stream.outstandingReads = 1 at one
  change client.base.isReading = true ↔ client.base.stream.outstandingReads ≠ 0 at flag
  have set : client.base.isReading = true := flag.mpr (by omega)
  have kept : ((client.base.completeRead message).attemptRead).stream.outstandingReads = 0 := by
    simp [RequestHandler.attemptRead, RequestHandler.completeRead, set, one]
  cases message <;> exact kept

private theorem keepsReading_iff (client : Client) (notReading : client.base.isReading = false)
    (idle : client.base.stream.outstandingReads = 0) (messages : List ServerMessage) :
    KeepsReading messages (process .connect true client) ↔ messages = [] := by
  have connected := client.connected_reading notReading idle
  cases messages with
  | nil => simpa [KeepsReading] using connected
  | cons message messages =>
    simp only [KeepsReading, reduceCtorEq, iff_false, not_and]
    intro _ later
    have one := later.now.1
    rw [completesRead_idle _ connected message] at one
    cases one

end UserLibs.Client

namespace SvcDiscovery.RequestHandler

private theorem not_keepsReading (handler : RequestHandler) (notReading : handler.base.isReading = false) (messages : List ClientMessage) :
    ¬ KeepsReading messages (process .connect true handler) := by
  intro keeps
  obtain ⟨one, flag⟩ := keeps.now
  have unset : (Handler.base (process .connect true handler)).isReading = false := notReading
  rw [unset, one] at flag
  simp at flag

end SvcDiscovery.RequestHandler

/-- A stream stays open for reading only on a client that has not read anything yet. -/
theorem open_streams_read (client : UserLibs.Client) (clientUnset : client.base.isReading = false)
    (clientIdle : client.base.stream.outstandingReads = 0) (messages : List ServerMessage) (handler : SvcDiscovery.RequestHandler)
    (handlerUnset : handler.base.isReading = false) (requests : List ClientMessage) :
    (KeepsReading messages (process .connect true client) ↔ messages = []) ∧
    ¬ KeepsReading requests (process .connect true handler) :=
  ⟨client.keepsReading_iff clientUnset clientIdle messages, handler.not_keepsReading handlerUnset requests⟩

theorem open_streams_read_new :
    (KeepsReading [] (process .connect true UserLibs.Client.newClient) ↔ ([] : List ServerMessage) = []) ∧
    ¬ KeepsReading [.connectionRequest {}] (process .connect true ({} : SvcDiscovery.RequestHandler)) :=
  open_streams_read UserLibs.Client.newClient rfl rfl [] {} rfl [.connectionRequest {}]

/-- A client that has read the answer to its first message reads nothing more. -/
theorem answered_client_idle :
    ¬ KeepsReading [.connectionResponse ⟨true⟩] (process .connect true UserLibs.Client.newClient) := by
  rintro ⟨_, one, _⟩
  exact absurd one (by decide)

end ShardManager

import ShardManager.UserLibs.Client
import Mathlib.Data.Finset.Basic

/-! A client under a sequence of requests, each processed completely: the statuses it
reports, and the ranges its application owns. -/

namespace ShardManager.UserLibs

/-- The requests of a server that change ranges. -/
inductive Request where
  | update (request : ShardUpdateRequest)
  | forward (request : ShardForwardRequest)

namespace Request

def message : Request → ServerMessage
  | .update request => .shardUpdateRequest request
  | .forward request => .shardForwardRequest request

def mentioned : Request → List ShardRange
  | .update request => ranges request.unassignedShards ++ ranges request.assignedShards
  | .forward request => ranges request.forwardedShards

/-- Ranges with one key are one range of the client. -/
def Names (shards : List Shard) (range : ShardRange) : Prop := range.key ∈ (ranges shards).map ShardRange.key

instance (shards : List Shard) (range : ShardRange) : Decidable (Names shards range) :=
  inferInstanceAs (Decidable (range.key ∈ (ranges shards).map ShardRange.key))

/-- The status a mentioned range has while the request is processed. A range on both
lists of an update is assigned. -/
def pendingStatus (request : Request) (range : ShardRange) : Option ShardRangeStatus :=
  match request with
  | .update request =>
    if Names request.assignedShards range then some .pendingAdded
    else if Names request.unassignedShards range then some .pendingDropped
    else none
  | .forward request => if Names request.forwardedShards range then some .pendingForwarding else none

/-- The status a mentioned range has once the request has succeeded. -/
def settledStatus (request : Request) (range : ShardRange) : Option ShardRangeStatus :=
  match request with
  | .update request =>
    if Names request.assignedShards range then some .added
    else if Names request.unassignedShards range then some .dropped
    else none
  | .forward request => if Names request.forwardedShards range then some .forwarding else none

private theorem pendingStatus_mentioned (request : Request) {range : ShardRange} (listed : range ∈ request.mentioned) :
    ∃ status, request.pendingStatus range = some status ∧ status ≠ .dropped := by
  cases request with
  | update request =>
    simp only [pendingStatus]
    split
    · exact ⟨_, rfl, by decide⟩
    next notAssigned =>
      have unassigned : Names request.unassignedShards range := by
        rcases List.mem_append.mp listed with old | new
        · exact List.mem_map_of_mem old
        · exact absurd (List.mem_map_of_mem new) notAssigned
      rw [if_pos unassigned]
      exact ⟨_, rfl, by decide⟩
  | forward request =>
    have forwarded : Names request.forwardedShards range := List.mem_map_of_mem listed
    exact ⟨_, if_pos forwarded, by decide⟩

private theorem statuses_none (request : Request) (idle : request.mentioned = []) (range : ShardRange) :
    request.pendingStatus range = none ∧ request.settledStatus range = none := by
  cases request with
  | update request =>
    obtain ⟨noUnassigned, noAssigned⟩ := List.append_eq_nil_iff.mp idle
    simp [pendingStatus, settledStatus, Names, noUnassigned, noAssigned]
  | forward request =>
    change ranges request.forwardedShards = [] at idle
    simp [pendingStatus, settledStatus, Names, idle]

end Request

namespace Client
variable {A : Type} (application : Application A)

/-- Both overloads of `getShardStatus` report a status; that of a dropped range is absent from the map. -/
def Reports (client : Client) (range : ShardRange) (status : ShardRangeStatus) : Prop :=
  client.getShardStatuses [range] = [status] ∧
  client.getShardStatus.lookup range.key = if status = .dropped then none else some status

/-- The reported statuses follow the requests: pending while one is processed, then
what the last successful request made of each range. -/
def FollowsRequests (application : Application A) : List Request → Client → A → (ShardRange → ShardRangeStatus) → Prop
  | [], _, _, _ => True
  | request :: requests, client, state, expected =>
    let processing := client.processMessageSequentially request.message
    let processed := processing.processMessageAsync application request.message state
    let settled := fun range => if processed.success then (request.settledStatus range).getD (expected range) else expected range
    (∀ range status, request.pendingStatus range = some status → processing.Reports range status) ∧
    (∀ range, processed.client.Reports range (settled range)) ∧
    FollowsRequests application requests processed.client processed.application settled

def NoStatus (client : Client) : Prop := client.shardRangeStatus = ∅ ∧ client.shardRangePendingStatus = ∅

theorem NoStatus.reports {client : Client} (fresh : client.NoStatus) (range : ShardRange) (status : ShardRangeStatus) :
    client.Reports range status ↔ status = .dropped := by
  obtain ⟨noStatus, noPending⟩ := fresh
  have statuses : client.getShardStatuses [range] = [.dropped] := by simp [getShardStatuses, noStatus, noPending]
  have map : client.getShardStatus.lookup range.key = none := by
    rw [getShardStatus, UnorderedMap.lookup_merge, noPending, noStatus]
    rfl
  rw [Reports, statuses, map]
  constructor
  · rintro ⟨same, _⟩
    simpa [eq_comm] using same
  · rintro rfl
    exact ⟨rfl, rfl⟩

theorem NoStatus.processed {client : Client} (fresh : client.NoStatus) (request : Request) (state : A) :
    (client.processMessageSequentially request.message).NoStatus ∧
    ((client.processMessageSequentially request.message).processMessageAsync application request.message state).client.NoStatus := by
  cases request with
  | update request =>
    refine ⟨fresh, ?_⟩
    simp only [Request.message, processMessageAsync]
    split <;> exact fresh
  | forward request =>
    refine ⟨fresh, ?_⟩
    simp only [Request.message, processMessageAsync]
    split <;> exact fresh

/-- The statuses follow a sequence of requests exactly if none of them mentions a range. -/
theorem followsRequests_iff (client : Client) (fresh : client.NoStatus) (requests : List Request) (state : A) :
    FollowsRequests application requests client state (fun _ => .dropped) ↔ ∀ request ∈ requests, request.mentioned = [] := by
  induction requests generalizing client state with
  | nil => simp [FollowsRequests]
  | cons request requests ih =>
    obtain ⟨processing, processed⟩ := fresh.processed application request state
    have kept : ∀ success : Bool, request.mentioned = [] →
        (fun range => if success then (request.settledStatus range).getD .dropped else ShardRangeStatus.dropped) =
          fun _ => .dropped := by
      intro success idle
      funext range
      rw [(request.statuses_none idle range).2]
      exact ite_self _
    rw [List.forall_mem_cons, FollowsRequests]
    constructor
    · rintro ⟨pending, _, later⟩
      have idle : request.mentioned = [] := by
        rw [List.eq_nil_iff_forall_not_mem]
        intro range listed
        obtain ⟨status, pends, notDropped⟩ := request.pendingStatus_mentioned listed
        exact notDropped ((processing.reports range status).mp (pending range status pends))
      rw [kept _ idle] at later
      exact ⟨idle, (ih _ processed _).mp later⟩
    · rintro ⟨idle, rest⟩
      refine ⟨?_, ?_, ?_⟩
      · intro range status pends
        rw [(request.statuses_none idle range).1] at pends
        cases pends
      · intro range
        rw [kept _ idle]
        exact (processed.reports range .dropped).mpr rfl
      · rw [kept _ idle]
        exact (ih _ processed _).mpr rest

def acceptingApplication : Application Unit := ⟨fun _ _ state => (true, state), fun _ _ state => (true, state)⟩

theorem followsRequests_empty :
    FollowsRequests acceptingApplication [.update ⟨[], []⟩, .forward ⟨[], ["bin"]⟩] newClient () (fun _ => .dropped) ↔
      ∀ request ∈ [Request.update ⟨[], []⟩, Request.forward ⟨[], ["bin"]⟩], request.mentioned = [] :=
  followsRequests_iff acceptingApplication newClient ⟨rfl, rfl⟩ _ ()

/-- A range that was assigned successfully is reported as dropped. -/
theorem assigned_reported_dropped :
    ¬ FollowsRequests acceptingApplication [.update ⟨[⟨⟨0, 9⟩, .primary, 1⟩], []⟩] newClient () (fun _ => .dropped) := by
  rintro ⟨_, settled, _⟩
  exact absurd (settled ⟨0, 9⟩).1 (by decide +kernel)

/-- An application that does what the parameters of `updateRanges` declare. -/
def servingApplication : Application (Finset ShardRange) where
  updateRanges assignedRanges unassignedRanges owned :=
    (true, (owned ∪ assignedRanges.toFinset) \ unassignedRanges.toFinset)
  forwardRanges _ _ owned := (true, owned)

/-- After every update the application owns what the updates assigned. -/
def ServesAssigned : List ShardUpdateRequest → Client → (owned assigned : Finset ShardRange) → Prop
  | [], _, _, _ => True
  | request :: requests, client, owned, assigned =>
    let processed := client.processMessageAsync servingApplication (.shardUpdateRequest request) owned
    let assigned := (assigned ∪ (ranges request.assignedShards).toFinset) \ (ranges request.unassignedShards).toFinset
    processed.application = assigned ∧ ServesAssigned requests processed.client processed.application assigned

private theorem swapped_iff (owned added removed : Finset ShardRange) (disjoint : Disjoint added removed) :
    (owned ∪ removed) \ added = (owned ∪ added) \ removed ↔ added = ∅ ∧ removed = ∅ := by
  constructor
  · intro same
    constructor
    · rw [Finset.eq_empty_iff_forall_notMem]
      intro range member
      have inside : range ∈ (owned ∪ added) \ removed :=
        Finset.mem_sdiff.mpr ⟨Finset.mem_union_right _ member, Finset.disjoint_left.mp disjoint member⟩
      rw [← same] at inside
      exact (Finset.mem_sdiff.mp inside).2 member
    · rw [Finset.eq_empty_iff_forall_notMem]
      intro range member
      have inside : range ∈ (owned ∪ removed) \ added :=
        Finset.mem_sdiff.mpr ⟨Finset.mem_union_right _ member, Finset.disjoint_right.mp disjoint member⟩
      rw [same] at inside
      exact (Finset.mem_sdiff.mp inside).2 member
  · rintro ⟨rfl, rfl⟩
    rfl

/-- The two lists reach the application swapped: it serves what was assigned only
while nothing is assigned or unassigned. -/
theorem servesAssigned_iff (requests : List ShardUpdateRequest)
    (disjoint : ∀ request ∈ requests,
      Disjoint (ranges request.assignedShards).toFinset (ranges request.unassignedShards).toFinset)
    (client : Client) (owned : Finset ShardRange) :
    ServesAssigned requests client owned owned ↔
      ∀ request ∈ requests, request.assignedShards = [] ∧ request.unassignedShards = [] := by
  induction requests generalizing client owned with
  | nil => simp [ServesAssigned]
  | cons request requests ih =>
    obtain ⟨apart, disjoint⟩ := List.forall_mem_cons.mp disjoint
    rw [List.forall_mem_cons, ServesAssigned]
    have swapped := swapped_iff owned _ _ apart
    have empty : ∀ shards : List Shard, (ranges shards).toFinset = ∅ ↔ shards = [] := by simp [ranges]
    rw [empty, empty] at swapped
    constructor
    · rintro ⟨same, later⟩
      rw [same] at later
      exact ⟨swapped.mp same, (ih disjoint _ _).mp later⟩
    · rintro ⟨idle, rest⟩
      have same : (client.processMessageAsync servingApplication (.shardUpdateRequest request) owned).application =
          (owned ∪ (ranges request.assignedShards).toFinset) \ (ranges request.unassignedShards).toFinset := swapped.mpr idle
      rw [same]
      exact ⟨rfl, (ih disjoint _ _).mpr rest⟩

theorem servesAssigned_empty :
    ServesAssigned [⟨[], []⟩] newClient {⟨0, 9⟩} {⟨0, 9⟩} ↔
      ∀ request ∈ [(⟨[], []⟩ : ShardUpdateRequest)], request.assignedShards = [] ∧ request.unassignedShards = [] :=
  servesAssigned_iff [⟨[], []⟩] (by simp [ranges]) newClient {⟨0, 9⟩}

/-- An application that is assigned a range and gives up another one ends up with the latter. -/
theorem swapped_ranges :
    ¬ ServesAssigned [⟨[⟨⟨0, 9⟩, .primary, 1⟩], [⟨⟨10, 19⟩, .primary, 2⟩]⟩] newClient {⟨10, 19⟩} {⟨10, 19⟩} := by
  rintro ⟨same, _⟩
  exact absurd same (by decide +kernel)

end Client
end ShardManager.UserLibs

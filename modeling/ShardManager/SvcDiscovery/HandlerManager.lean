import ShardManager.SvcDiscovery.RequestHandler

/-! `svc_discovery/HandlerManager.cpp`: the handlers a server keeps, and the registry of
the bins that have connected. A handler is its number; what a `shared_ptr` points to is
kept beside the manager. -/

namespace ShardManager.SvcDiscovery

abbrev HandlerId := Nat
abbrev ServiceId := Int
abbrev BinId := Int

/-- `completionQueue_` is not initialized by the constructor. It stands for `service_` as
well, which is written beside it and the same for every queue. -/
structure HandlerManager where
  completionQueue : Option Nat := none
  requestHandlerMap : UnorderedSet HandlerId := ∅
  serviceConnectionsMap : UnorderedMap ServiceId (UnorderedMap BinId HandlerId) := ∅

namespace HandlerManager

def getRequestHandler (tag : HandlerId) (manager : HandlerManager) : Option HandlerId :=
  if tag ∈ manager.requestHandlerMap then some tag else none

def removeRequestHandler (tag : HandlerId) (manager : HandlerManager) : HandlerManager :=
  { manager with requestHandlerMap := manager.requestHandlerMap.erase tag }

/-- `(*connectionsMap)[serviceId]`. -/
def connections (serviceId : ServiceId) (manager : HandlerManager) : UnorderedMap BinId HandlerId :=
  (manager.serviceConnectionsMap.lookup serviceId).getD ∅

/-- `emplace` keeps the handler that is already there. -/
def registerBin (tag : HandlerId) (serviceId : ServiceId) (binName : BinId) (manager : HandlerManager) : HandlerManager :=
  match manager.getRequestHandler tag with
  | none => manager
  | some requestHandler =>
    { manager with
      serviceConnectionsMap := manager.serviceConnectionsMap.insert serviceId
        ((manager.connections serviceId).emplace binName requestHandler) }

def removeBin (serviceId : ServiceId) (binName : BinId) (manager : HandlerManager) : HandlerManager :=
  let bins := (manager.connections serviceId).erase binName
  let serviceConnectionsMap := manager.serviceConnectionsMap.insert serviceId bins
  { manager with
    serviceConnectionsMap := if bins.keys.isEmpty then serviceConnectionsMap.erase serviceId else serviceConnectionsMap }

/-- The entry of the registry. -/
def entry (manager : HandlerManager) (serviceId : ServiceId) (binName : BinId) : Option HandlerId :=
  (manager.connections serviceId).lookup binName

variable (manager : HandlerManager)

theorem getRequestHandler_of_mem {tag : HandlerId} (present : tag ∈ manager.requestHandlerMap) :
    manager.getRequestHandler tag = some tag := if_pos present

theorem entry_registerBin {tag : HandlerId} (present : tag ∈ manager.requestHandlerMap) (serviceId service : ServiceId)
    (binName bin : BinId) :
    (manager.registerBin tag serviceId binName).entry service bin =
      if service = serviceId ∧ bin = binName then some ((manager.entry serviceId binName).getD tag)
      else manager.entry service bin := by
  rw [registerBin, manager.getRequestHandler_of_mem present]
  simp only [entry, connections, UnorderedMap.lookup_insert]
  by_cases sameService : service = serviceId
  · subst sameService
    simp only [if_true, Option.getD_some, UnorderedMap.lookup_emplace, true_and]
  · simp [sameService]

theorem entry_removeBin (serviceId service : ServiceId) (binName bin : BinId) :
    (manager.removeBin serviceId binName).entry service bin =
      if service = serviceId ∧ bin = binName then none else manager.entry service bin := by
  have erased := UnorderedMap.lookup_erase (manager.connections serviceId) binName bin
  rw [removeBin, entry, connections]
  simp only
  by_cases empty : ((manager.connections serviceId).erase binName).keys.isEmpty
  · have none : ((manager.connections serviceId).erase binName).lookup bin = none := by
      rw [AList.lookup_eq_none, AList.mem_keys, List.isEmpty_iff.mp empty]
      simp
    rw [if_pos empty, UnorderedMap.lookup_erase, UnorderedMap.lookup_insert]
    rw [none] at erased
    by_cases sameService : service = serviceId
    · subst sameService
      simpa [entry] using erased
    · simp [sameService, entry, connections]
  · rw [if_neg empty, UnorderedMap.lookup_insert]
    by_cases sameService : service = serviceId
    · subst sameService
      simpa [entry] using erased
    · simp [sameService, entry, connections]

/-- Services without bins are not in the registry. -/
def Occupied : Prop := ∀ serviceId bins, manager.serviceConnectionsMap.lookup serviceId = some bins → bins.keys ≠ []

theorem Occupied.registerBin {manager : HandlerManager} (occupied : manager.Occupied) (tag : HandlerId) (serviceId : ServiceId)
    (binName : BinId) : (manager.registerBin tag serviceId binName).Occupied := by
  unfold HandlerManager.registerBin
  split
  · exact occupied
  · intro service bins found
    simp only [UnorderedMap.lookup_insert] at found
    split at found
    next =>
      cases found
      exact List.ne_nil_of_mem (AList.mem_keys.mp (UnorderedMap.mem_emplace _ binName _))
    next => exact occupied service bins found

theorem Occupied.removeBin {manager : HandlerManager} (occupied : manager.Occupied) (serviceId : ServiceId) (binName : BinId) :
    (manager.removeBin serviceId binName).Occupied := by
  intro service bins found
  simp only [HandlerManager.removeBin] at found
  split at found
  next =>
    rw [UnorderedMap.lookup_erase] at found
    split at found
    next => cases found
    next other =>
      rw [UnorderedMap.lookup_insert, if_neg other] at found
      exact occupied service bins found
  next some =>
    rw [UnorderedMap.lookup_insert] at found
    split at found
    next =>
      cases found
      simpa using some
    next => exact occupied service bins found

end HandlerManager
end ShardManager.SvcDiscovery

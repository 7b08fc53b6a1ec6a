import ShardManager.Placer.IterativeLocalSearch
import ShardManager.Proofs.NodeMapping
import ShardManager.Proofs.ShardMaps
import ShardManager.Proofs.Topology

/-! The states that a manager creates. What one service gets depends on its own data and
on nothing else, so the order in which the services are visited does not matter; and as
no stage retrieves a configuration, no state has a bin to search. -/

namespace ShardManager.Psychopomp
namespace SolvingManager

/-- What a manager knows of one service. -/
structure ServiceData where
  svcConfig : ServiceConfig
  shardMapping : Option ShardMapping
  binMapping : Option BinMapping
  shardMetricsMapping : ShardMetricsMapping

def serviceData (manager : SolvingManager) (svcId : ServiceId) : ServiceData where
  svcConfig := (manager.serviceConfig.lookup svcId).getD {}
  shardMapping := manager.shardMappings.lookup svcId
  binMapping := manager.binMappings.lookup svcId
  shardMetricsMapping := (manager.shardMetricsMappings.lookup svcId).getD ∅

/-- The mapper that is built for a service; a service without shards or bins is skipped. -/
def ServiceData.nodeMapper (data : ServiceData) : Option (Except Fault NodeMapper) :=
  match data.shardMapping, data.binMapping with
  | some shardMapping, some binMapping =>
    some (NodeMapper.new data.svcConfig.nodeConfig data.svcConfig.metricConfig binMapping shardMapping data.shardMetricsMapping)
  | _, _ => none

/-- The mapper of a service for which building one succeeds. -/
def built (manager : SolvingManager) (svcId : ServiceId) : Option NodeMapper :=
  (manager.serviceData svcId).nodeMapper.bind Except.toOption

/-- The listed services get what their data make; the others keep what they have. -/
structure Creates (services : List ServiceId) (before after : SolvingManager) : Prop where
  serviceData : ∀ svcId, after.serviceData svcId = before.serviceData svcId
  nodeMappers : ∀ svcId, after.nodeMappers.lookup svcId =
    (if svcId ∈ services then before.built svcId else none).or (before.nodeMappers.lookup svcId)
  solvingStates : ∀ svcId, after.solvingStates.lookup svcId =
    ((if svcId ∈ services then before.built svcId else none).map NodeMapper.solvingState).or (before.solvingStates.lookup svcId)

theorem Creates.append {services others : List ServiceId} {first second third : SolvingManager}
    (former : Creates services first second) (latter : Creates others second third) : Creates (services ++ others) first third := by
  have same : ∀ svcId, second.built svcId = first.built svcId := by
    intro svcId
    rw [built, former.serviceData, built]
  constructor
  · intro svcId
    exact (latter.serviceData svcId).trans (former.serviceData svcId)
  · intro svcId
    rw [latter.nodeMappers, former.nodeMappers, same]
    by_cases inFirst : svcId ∈ services <;> by_cases inSecond : svcId ∈ others <;> cases first.built svcId <;>
      simp [inFirst, inSecond]
  · intro svcId
    rw [latter.solvingStates, former.solvingStates, same]
    by_cases inFirst : svcId ∈ services <;> by_cases inSecond : svcId ∈ others <;> cases first.built svcId <;>
      simp [inFirst, inSecond]

/-- An entry that `operator[]` leaves behind says what its absence said. -/
private theorem getD_lookup_subscript {V : Type} (map : UnorderedMap ServiceId V) (default : V) (svcId other : ServiceId) :
    ((map.insert svcId ((map.lookup svcId).getD default)).lookup other).getD default = (map.lookup other).getD default := by
  rw [UnorderedMap.lookup_insert]
  split
  next same => rw [same, Option.getD_some]
  next => rfl

/-- One turn of the loop: it faults where the service's mapper does, and otherwise settles the service. -/
private theorem createState_cases (manager : SolvingManager) (svcId : ServiceId) :
    (∃ fault, (manager.serviceData svcId).nodeMapper = some (.error fault) ∧ manager.createState svcId = .error fault) ∨
    (∀ fault, (manager.serviceData svcId).nodeMapper ≠ some (.error fault)) ∧
      ∃ after, manager.createState svcId = .ok after ∧ Creates [svcId] manager after := by
  have skipped (noMapper : (manager.serviceData svcId).nodeMapper = none) :
      Creates [svcId] manager
        { manager with
          shardMetricsMappings :=
            manager.shardMetricsMappings.insert svcId ((manager.shardMetricsMappings.lookup svcId).getD ∅) } := by
    have nothing : manager.built svcId = none := by rw [built, noMapper, Option.bind_none]
    constructor
    · intro other
      simp only [serviceData, getD_lookup_subscript]
    · intro other
      by_cases same : other = svcId <;> simp [same, nothing]
    · intro other
      by_cases same : other = svcId <;> simp [same, nothing]
  unfold createState
  cases shards : manager.shardMappings.lookup svcId with
  | none =>
    have noMapper : (manager.serviceData svcId).nodeMapper = none := by simp only [ServiceData.nodeMapper, serviceData, shards]
    exact .inr ⟨by simp [noMapper], _, by simp only [shards]; rfl, skipped noMapper⟩
  | some shardMapping =>
    cases bins : manager.binMappings.lookup svcId with
    | none =>
      have noMapper : (manager.serviceData svcId).nodeMapper = none := by
        simp only [ServiceData.nodeMapper, serviceData, shards, bins]
      exact .inr ⟨by simp [noMapper], _, by simp only [shards, bins]; rfl, skipped noMapper⟩
    | some binMapping =>
      simp only [shards, bins]
      cases made : (manager.serviceData svcId).nodeMapper with
      | none => simp [ServiceData.nodeMapper, serviceData, shards, bins] at made
      | some result =>
        have same := made
        simp only [ServiceData.nodeMapper, serviceData, shards, bins, Option.some.injEq] at same
        rw [same]
        cases result with
        | error fault => exact .inl ⟨fault, rfl, rfl⟩
        | ok nodeMapper =>
          have mapper : manager.built svcId = some nodeMapper := by rw [built, made]; rfl
          refine .inr ⟨by simp, _, rfl, ?_, ?_, ?_⟩
          · intro other
            simp only [serviceData, getD_lookup_subscript]
          · intro other
            simp only [UnorderedMap.lookup_insert, List.mem_singleton]
            by_cases same : other = svcId <;> simp [same, mapper]
          · intro other
            simp only [UnorderedMap.lookup_insert, List.mem_singleton]
            by_cases same : other = svcId <;> simp [same, mapper]

private theorem createStates_cases (services : List ServiceId) (manager : SolvingManager) :
    (∃ svcId ∈ services, ∃ fault, (manager.serviceData svcId).nodeMapper = some (.error fault) ∧
      services.foldlM createState manager = .error fault) ∨
    (∀ svcId ∈ services, ∀ fault, (manager.serviceData svcId).nodeMapper ≠ some (.error fault)) ∧
      ∃ after, services.foldlM createState manager = .ok after ∧ Creates services manager after := by
  induction services generalizing manager with
  | nil =>
    refine .inr ⟨fun _ impossible => absurd impossible List.not_mem_nil, manager, rfl, fun _ => rfl, ?_, ?_⟩
    · intro svcId
      simp
    · intro svcId
      simp
  | cons svcId services ih =>
    rw [List.foldlM_cons]
    rcases createState_cases manager svcId with ⟨fault, faulted, first⟩ | ⟨defined, middle, first, created⟩
    · exact .inl ⟨svcId, List.mem_cons_self, fault, faulted, by rw [first]; rfl⟩
    · rw [first, Checked.ok_bind]
      rcases ih middle with ⟨other, member, fault, faulted, rest⟩ | ⟨others, after, rest, remaining⟩
      · exact .inl ⟨other, List.mem_cons_of_mem _ member, fault, created.serviceData other ▸ faulted, rest⟩
      · refine .inr ⟨?_, after, rest, created.append remaining⟩
        intro other member
        rcases List.mem_cons.mp member with rfl | later
        · exact defined
        · exact created.serviceData other ▸ others other later

private theorem createSolvingState_cases (manager : SolvingManager) (serviceIds : UnorderedSet ServiceId) :
    (∃ svcId ∈ serviceIds, ∃ fault, (manager.serviceData svcId).nodeMapper = some (.error fault) ∧
      manager.createSolvingState serviceIds = .error fault) ∨
    (∀ svcId ∈ serviceIds, ∀ fault, (manager.serviceData svcId).nodeMapper ≠ some (.error fault)) ∧
      ∃ after, manager.createSolvingState serviceIds = .ok after ∧
        Creates serviceIds.keys { manager with solvingStates := ∅ } after :=
  createStates_cases serviceIds.keys { manager with solvingStates := ∅ }

private theorem createSolvingState_ok {manager after : SolvingManager} {serviceIds : UnorderedSet ServiceId}
    (created : manager.createSolvingState serviceIds = .ok after) :
    Creates serviceIds.keys { manager with solvingStates := ∅ } after := by
  rcases createSolvingState_cases manager serviceIds with ⟨_, _, _, _, failed⟩ | ⟨_, other, finished, creates⟩
  · rw [failed] at created
    cases created
  · rw [finished] at created
    cases created
    exact creates

private theorem createSolvingState_isOk_iff (manager : SolvingManager) (serviceIds : UnorderedSet ServiceId) :
    (∃ after, manager.createSolvingState serviceIds = .ok after) ↔
      ∀ svcId ∈ serviceIds, ∀ fault, (manager.serviceData svcId).nodeMapper ≠ some (.error fault) := by
  rcases createSolvingState_cases manager serviceIds with ⟨svcId, member, fault, faulted, failed⟩ | ⟨defined, after, finished, _⟩
  · rw [failed]
    exact iff_of_false (fun ⟨after, impossible⟩ => by cases impossible) fun defined => defined svcId member fault faulted
  · exact iff_of_true ⟨after, finished⟩ defined

/-- Creating the states of a set of services fails exactly if the mapper of one of them
cannot be built. Otherwise each service of the set gets what its own data make, and the
mappers of the others are the earlier ones: neither the other services nor the order of
the set matter. -/
theorem createSolvingState_separate (manager : SolvingManager) (serviceIds : UnorderedSet ServiceId) :
    ((∃ after, manager.createSolvingState serviceIds = .ok after) ↔
      ∀ svcId ∈ serviceIds, ∀ fault, (manager.serviceData svcId).nodeMapper ≠ some (.error fault)) ∧
    ∀ after, manager.createSolvingState serviceIds = .ok after → ∀ svcId,
      after.serviceData svcId = manager.serviceData svcId ∧
      after.nodeMappers.lookup svcId =
        (if svcId ∈ serviceIds then manager.built svcId else none).or (manager.nodeMappers.lookup svcId) ∧
      after.solvingStates.lookup svcId =
        (if svcId ∈ serviceIds then manager.built svcId else none).map NodeMapper.solvingState := by
  refine ⟨createSolvingState_isOk_iff manager serviceIds, fun after created svcId => ?_⟩
  have creates := createSolvingState_ok created
  refine ⟨creates.serviceData svcId, ?_, ?_⟩
  · rw [creates.nodeMappers]
    simp only [← AList.mem_keys]
    rfl
  · rw [creates.solvingStates]
    simp only [← AList.mem_keys, AList.lookup_empty, Option.or_none]
    rfl

/-- What holds of a manager after any stages. No stage retrieves a configuration or a
metric, and the shards of a service stay those that its mapper was built with. -/
structure Sound (manager : SolvingManager) : Prop where
  svcConfig : ∀ svcId, (manager.serviceData svcId).svcConfig = {}
  shardMetricsMapping : ∀ svcId, (manager.serviceData svcId).shardMetricsMapping = ∅
  shardMappings : ∀ svcId shardMapping, manager.shardMappings.lookup svcId = some shardMapping →
    ∃ randomGen, shardMapping = newShardMapping randomGen
  nodeMappers : ∀ svcId nodeMapper, manager.nodeMappers.lookup svcId = some nodeMapper →
    ∃ shardMapping binMapping, manager.shardMappings.lookup svcId = some shardMapping ∧
      NodeMapper.new ⟨[], ∅⟩ ⟨[]⟩ binMapping shardMapping ∅ = .ok nodeMapper
  solvingStates : ∀ svcId solvingState, manager.solvingStates.lookup svcId = some solvingState →
    ∃ nodeMapper, manager.nodeMappers.lookup svcId = some nodeMapper ∧ solvingState = nodeMapper.solvingState

theorem Sound.nodeMapper {manager : SolvingManager} (sound : Sound manager) (svcId : ServiceId) :
    (manager.serviceData svcId).nodeMapper =
      match manager.shardMappings.lookup svcId, manager.binMappings.lookup svcId with
      | some shardMapping, some binMapping => some (NodeMapper.new ⟨[], ∅⟩ ⟨[]⟩ binMapping shardMapping ∅)
      | _, _ => none := by
  unfold ServiceData.nodeMapper
  rw [sound.svcConfig, sound.shardMetricsMapping]
  rfl

theorem Sound.createSolvingState {manager after : SolvingManager} {serviceIds : UnorderedSet ServiceId} (sound : Sound manager)
    (created : manager.createSolvingState serviceIds = .ok after) : Sound after := by
  have creates := createSolvingState_ok created
  have data (svcId : ServiceId) : after.serviceData svcId = manager.serviceData svcId := creates.serviceData svcId
  have shards (svcId : ServiceId) : after.shardMappings.lookup svcId = manager.shardMappings.lookup svcId :=
    congrArg ServiceData.shardMapping (data svcId)
  have mappers (svcId : ServiceId) (nodeMapper : NodeMapper)
      (made : built { manager with solvingStates := ∅ } svcId = some nodeMapper) :
      ∃ shardMapping binMapping, after.shardMappings.lookup svcId = some shardMapping ∧
        NodeMapper.new ⟨[], ∅⟩ ⟨[]⟩ binMapping shardMapping ∅ = .ok nodeMapper := by
    change (manager.serviceData svcId).nodeMapper.bind Except.toOption = some nodeMapper at made
    rw [sound.nodeMapper] at made
    rw [shards]
    split at made
    next shardMapping binMapping known _ =>
      refine ⟨shardMapping, binMapping, known, ?_⟩
      rw [Option.bind_some] at made
      revert made
      cases NodeMapper.new ⟨[], ∅⟩ ⟨[]⟩ binMapping shardMapping ∅ <;> simp [Except.toOption]
    next => cases made
  constructor
  · intro svcId
    rw [data, sound.svcConfig]
  · intro svcId
    rw [data, sound.shardMetricsMapping]
  · intro svcId shardMapping found
    exact sound.shardMappings svcId shardMapping (shards svcId ▸ found)
  · intro svcId nodeMapper found
    rw [creates.nodeMappers, Option.or_eq_some_iff] at found
    rcases found with new | ⟨_, old⟩
    · exact mappers svcId nodeMapper (Option.ite_none_right_eq_some.mp new).2
    · rw [shards]
      exact sound.nodeMappers svcId nodeMapper old
  · intro svcId solvingState found
    rw [creates.solvingStates, AList.lookup_empty, Option.or_none, Option.map_eq_some_iff] at found
    obtain ⟨nodeMapper, new, rfl⟩ := found
    exact ⟨nodeMapper, by rw [creates.nodeMappers, new, Option.some_or], rfl⟩

private theorem populateShardMap_keeps (manager : SolvingManager) (serviceIds : UnorderedSet ServiceId)
    (randomGen : ServiceId → Nat → UInt64) :
    ∃ shardMappings, manager.populateShardMap serviceIds randomGen = { manager with shardMappings } := by
  unfold populateShardMap
  refine Checked.foldl_invariant (fun _ current => ∃ shardMappings, current = { manager with shardMappings }) ?_
    ⟨manager.shardMappings, rfl⟩
  rintro _ svcId _ _ _ ⟨shardMappings, rfl⟩
  unfold populateShards
  simp only
  split
  next => exact ⟨shardMappings, rfl⟩
  next => exact ⟨_, rfl⟩

theorem Sound.populateShardMap {manager : SolvingManager} (sound : Sound manager) (serviceIds : UnorderedSet ServiceId)
    (randomGen : ServiceId → Nat → UInt64) : Sound (manager.populateShardMap serviceIds randomGen) := by
  have lookups := lookup_populateShardMap serviceIds randomGen manager
  obtain ⟨shardMappings, populated⟩ := populateShardMap_keeps manager serviceIds randomGen
  rw [populated] at lookups ⊢
  constructor
  · exact sound.svcConfig
  · exact sound.shardMetricsMapping
  · intro svcId shardMapping found
    rw [lookups, Option.or_eq_some_iff] at found
    rcases found with old | ⟨_, new⟩
    · exact sound.shardMappings svcId shardMapping old
    · exact ⟨_, (Option.some.inj (Option.ite_none_right_eq_some.mp new).2).symm⟩
  · intro svcId nodeMapper found
    obtain ⟨shardMapping, binMapping, known, made⟩ := sound.nodeMappers svcId nodeMapper found
    exact ⟨shardMapping, binMapping, by rw [lookups, known, Option.some_or], made⟩
  · exact sound.solvingStates

theorem Sound.next {manager : SolvingManager} (sound : Sound manager) (stage : Stage) : Sound (machine.next manager stage) := by
  cases stage with
  | updateAll serviceMappings => exact ⟨sound.1, sound.2, sound.3, sound.4, sound.5⟩
  | populateServiceConfig serviceIds => exact sound
  | populateShardMap serviceIds randomGen => exact sound.populateShardMap serviceIds randomGen
  | populateShardMetricsMap serviceIds => exact sound
  | createSolvingState serviceIds =>
    change Sound ((manager.createSolvingState serviceIds).toOption.getD manager)
    cases created : manager.createSolvingState serviceIds with
    | error fault => exact sound
    | ok after => exact sound.createSolvingState created

private theorem sound_after (stages : List Stage) : Sound (machine.after {} stages) := by
  suffices run : ∀ manager : SolvingManager, Sound manager → Sound (machine.after manager stages) by
    refine run {} ⟨fun _ => rfl, fun _ => rfl, ?_, ?_, ?_⟩
    all_goals
      intro svcId value found
      cases found
  induction stages with
  | nil => exact fun manager sound => sound
  | cons stage stages ih => exact fun manager sound => ih _ (sound.next stage)

end SolvingManager

namespace NodeMapper
variable {binMapping : BinMapping} {shardMapping : ShardMapping} {shardMetricsMapping : ShardMetricsMapping}

private theorem new_of_nothing (metricConfig : MetricConfig) :
    new ⟨[], ∅⟩ metricConfig binMapping shardMapping shardMetricsMapping =
      (createMetricMapping metricConfig { nodeMapping := [[], []] }).createNodeMapping binMapping shardMapping shardMetricsMapping :=
  rfl

private theorem new_unconfigured_iff (metricConfig : MetricConfig) :
    (∃ mapper, new ⟨[], ∅⟩ metricConfig binMapping shardMapping shardMetricsMapping = .ok mapper) ↔
      ∀ bin ∈ binMapping.entries, Nameless bin.2 := by
  rw [new_of_nothing]
  exact createNodeMapping_unconfigured ⟨rfl, rfl⟩ binMapping

private theorem new_unconfigured_rows {metricConfig : MetricConfig} {mapper : NodeMapper}
    (made : new ⟨[], ∅⟩ metricConfig binMapping shardMapping shardMetricsMapping = .ok mapper) : mapper.nodeMapping = [[], []] := by
  rw [new_of_nothing] at made
  obtain ⟨⟨domainId, last⟩, finished, made⟩ := Checked.bind_ok made
  cases made
  have unconfigured : Unconfigured mapper := by
    refine Checked.foldlM_invariant (fun state => Unconfigured state.2) ?_ ⟨rfl, rfl⟩ finished
    intro state bin _ after unconfigured added
    exact ((addBin_unconfigured unconfigured bin).2 after added).2
  exact unconfigured.nodeMapping

end NodeMapper

namespace SolvingManager

/-- Whatever stages came before, states can be created exactly for services none of whose
bins names a node for the domain without a name: nothing else can fail. -/
theorem created_iff (stages : List Stage) (serviceIds : UnorderedSet ServiceId) :
    (∃ after, (machine.after {} stages).createSolvingState serviceIds = .ok after) ↔
      ∀ svcId ∈ serviceIds, svcId ∈ (machine.after {} stages).shardMappings →
        ∀ binMapping, (machine.after {} stages).binMappings.lookup svcId = some binMapping →
          ∀ bin ∈ binMapping.entries, NodeMapper.Nameless bin.2 := by
  have sound := sound_after stages
  generalize machine.after {} stages = manager at sound ⊢
  rw [createSolvingState_isOk_iff]
  refine forall₂_congr fun svcId _ => ?_
  rw [sound.nodeMapper, UnorderedMap.mem_iff]
  cases manager.shardMappings.lookup svcId with
  | none => simp
  | some shardMapping =>
    cases manager.binMappings.lookup svcId with
    | none => simp
    | some binMapping =>
      simp only [ne_eq, Option.some.injEq, exists_eq', forall_const, forall_eq']
      have buildable := @NodeMapper.new_unconfigured_iff binMapping shardMapping ∅ ⟨[]⟩
      rw [← buildable]
      cases NodeMapper.new ⟨[], ∅⟩ ⟨[]⟩ binMapping shardMapping ∅ <;> simp

/-- A state holds reports of shards that its service was given, for the ranges they were
given with. -/
theorem reports_given (stages : List Stage) (svcId : ServiceId) (solvingState : SolvingState)
    (created : (machine.after {} stages).solvingStates.lookup svcId = some solvingState) :
    ∃ shardMapping, (machine.after {} stages).shardMappings.lookup svcId = some shardMapping ∧
      ∀ shardInfo ∈ solvingState.shardInfoVector, ∃ shard, shardMapping.lookup (toShardId shardInfo.shard.id) = some shard ∧
        shardInfo.shard.range = shard.range ∧ shardInfo.shard.type = shard.type ∧
        shard.type = .secondary ∧ (shard.range.start, shard.range.end) ∈ newServiceRanges := by
  have sound := sound_after stages
  obtain ⟨nodeMapper, known, rfl⟩ := sound.solvingStates svcId solvingState created
  obtain ⟨shardMapping, binMapping, populated, made⟩ := sound.nodeMappers svcId nodeMapper known
  refine ⟨shardMapping, populated, fun shardInfo member => ?_⟩
  have collected : shardInfo ∈ nodeMapper.shardInfos := member
  rw [(NodeMapper.new_collects made).1, List.mem_map] at collected
  obtain ⟨report, reported, rfl⟩ := collected
  obtain ⟨bin, _, reported⟩ := List.mem_flatMap.mp reported
  obtain ⟨info, accepted, rfl⟩ := List.mem_map.mp reported
  have accepted := (List.mem_filter.mp accepted).2
  obtain ⟨shard, accepted⟩ := Option.isSome_iff_exists.mp accepted
  unfold NodeMapper.matchingShard at accepted
  split at accepted
  next => cases accepted
  next given found =>
    split at accepted
    next => cases accepted
    next same =>
      push Not at same
      obtain ⟨randomGen, drawn⟩ := sound.shardMappings svcId shardMapping populated
      have given_eq := found
      rw [drawn, lookup_newShardMapping] at given_eq
      obtain ⟨position, range, there, _, given_eq, _⟩ := given_eq
      refine ⟨given, found, ?_, same.1.symm, by rw [given_eq]; rfl, by rw [given_eq]; exact List.mem_of_getElem? there⟩
      have sameRange : ∀ first second : ShardRange, first.start = second.start → first.end = second.end → first = second := by
        rintro ⟨_, _⟩ ⟨_, _⟩ rfl rfl
        rfl
      exact sameRange _ _ same.2.1.symm same.2.2.symm

def firstStages : List Stage :=
  [.updateAll ((∅ : UnorderedMap ServiceId BinMapping).insert 1
      ((∅ : BinMapping).insert 4 ⟨[⟨newShard (0, 92233720368547759) 7, ⟨∅⟩, .added⟩], ∅⟩)),
    .populateShardMap ((∅ : UnorderedSet ServiceId).insert 1 ()) fun _ position => UInt64.ofNat (position + 7),
    .createSolvingState ((∅ : UnorderedSet ServiceId).insert 1 ())]

def firstState : Option SolvingState := (machine.after {} firstStages).solvingStates.lookup 1

private theorem firstState_isSome : firstState.isSome := by decide +kernel

theorem reports_given_first :
    (firstState.get firstState_isSome).shardInfoVector ≠ [] ∧
    ∃ shardMapping, (machine.after {} firstStages).shardMappings.lookup 1 = some shardMapping ∧
      ∀ shardInfo ∈ (firstState.get firstState_isSome).shardInfoVector, ∃ shard,
        shardMapping.lookup (toShardId shardInfo.shard.id) = some shard ∧
        shardInfo.shard.range = shard.range ∧ shardInfo.shard.type = shard.type ∧
        shard.type = .secondary ∧ (shard.range.start, shard.range.end) ∈ newServiceRanges :=
  ⟨by rw [ne_eq, ← List.isEmpty_iff]; decide +kernel, reports_given firstStages 1 _ (Option.some_get firstState_isSome).symm⟩

/-- No bin is there to be searched: a search on a state ends in its first iteration,
with nothing evaluated and nothing moved. -/
theorem search_idle {ι C : Type} [DecidableEq ι] [ConstraintOps C] (stages : List Stage) (svcId : ServiceId)
    (solvingState : SolvingState) (created : (machine.after {} stages).solvingStates.lookup svcId = some solvingState)
    (order : HashOrder) (constraints : List ι) (maxIterations : Nat) (draws : List Nat) (world : World ι C) :
    solvingState.assignmentTree = .empty 0 1 ∧
    (IterativeLocalSearch.solve order solvingState constraints maxIterations draws world).result =
      .ok (IterativeLocalSearch.start world draws) ∧
    ∀ event ∈ (IterativeLocalSearch.solve order solvingState constraints maxIterations draws world).events,
      event = .iteration (IterativeLocalSearch.start world draws) := by
  obtain ⟨nodeMapper, known, rfl⟩ := (sound_after stages).solvingStates svcId solvingState created
  obtain ⟨shardMapping, binMapping, _, made⟩ := (sound_after stages).nodeMappers svcId nodeMapper known
  have rows := NodeMapper.new_unconfigured_rows made
  have noBins : IterativeLocalSearch.hottestBins nodeMapper.solvingState world.binWeightInfo = [] := by
    have size : nodeMapper.solvingState.getDomainSize nodeMapper.solvingState.binDomain = 0 := by
      simp only [NodeMapper.solvingState, rows]
      rfl
    rw [IterativeLocalSearch.hottestBins, size]
    rfl
  refine ⟨?_, ?_⟩
  · simp only [NodeMapper.solvingState, rows]
    rfl
  · unfold IterativeLocalSearch.solve
    cases maxIterations with
    | zero => exact ⟨rfl, fun event impossible => absurd impossible List.not_mem_nil⟩
    | succ iterations =>
      have top : IterativeLocalSearch.tryBins order nodeMapper.solvingState constraints
          (IterativeLocalSearch.hottestBins nodeMapper.solvingState (IterativeLocalSearch.start world draws).world.binWeightInfo)
          (IterativeLocalSearch.start world draws) = pure (none, IterativeLocalSearch.start world draws) := by
        rw [show (IterativeLocalSearch.start world draws).world = world from rfl, noBins]
        rfl
      unfold IterativeLocalSearch.iterate
      rw [top]
      exact ⟨rfl, fun event member => List.mem_singleton.mp member⟩

theorem search_idle_first :
    (IterativeLocalSearch.solve .insertion (firstState.get firstState_isSome) [()] 5 [] IterativeLocalSearch.drainedWorld).result =
      .ok (IterativeLocalSearch.start IterativeLocalSearch.drainedWorld []) :=
  (search_idle firstStages 1 _ (Option.some_get firstState_isSome).symm .insertion [()] 5 [] IterativeLocalSearch.drainedWorld).2.1

end SolvingManager
end ShardManager.Psychopomp

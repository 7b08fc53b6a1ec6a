import ShardManager.Proofs.NodeIds

/-! Distinct ids. The id of a node counts domains, so two nodes of one domain share it
unless a domain is named for the first time between them. -/

namespace ShardManager.Psychopomp

/-- The ids of the calls and rows that the constructor makes and uses. -/
structure KeepsIds (events : List (Mention × DomainId)) : Prop where
  distinct : ∀ domainIndex first second id, (.name domainIndex first, id) ∈ events → (.name domainIndex second, id) ∈ events →
    first = second
  stable : ∀ domainIndex node former latter, (.name domainIndex node, former) ∈ events →
    (.name domainIndex node, latter) ∈ events → former = latter
  positive : ∀ domainIndex node id, (.name domainIndex node, id) ∈ events → id ≠ 0
  inside : ∀ domainIndex node rows id, (.row domainIndex node rows, id) ∈ events → id < rows

/-- Between any two nodes of a domain another domain is named first, and a node whose row
is used was named when the domains were fewer than the rows. -/
structure TellsApart (mentions : List Mention) : Prop where
  apart : ∀ first ∈ Mention.calls mentions, ∀ second ∈ Mention.calls mentions, first.1 = second.1 → first ≠ second →
    namedBy (Mention.calls mentions) first ≠ namedBy (Mention.calls mentions) second
  inside : ∀ domainIndex node rows, .row domainIndex node rows ∈ mentions →
    (namedBy (Mention.calls mentions) (domainIndex, node)).card < rows

namespace Mention

private theorem mem_calls {mentions : List Mention} {domainIndex : Nat} {node : String} :
    (domainIndex, node) ∈ calls mentions ↔ .name domainIndex node ∈ mentions := by
  rw [calls, List.mem_filterMap]
  constructor
  · rintro ⟨_ | _, member, same⟩
    · cases same
      exact member
    · cases same
  · exact fun member => ⟨_, member, rfl⟩

private theorem after_numbering (events : List (Mention × DomainId)) (done : List Mention) :
    numbering.after done events = done ++ events.map Prod.fst := by
  induction events generalizing done with
  | nil => simp
  | cons entry events ih =>
    rw [Machine.after_cons, ih, List.map_cons]
    exact List.append_assoc done [entry.1] _

private theorem hasId_of_runs {events : List (Mention × DomainId)} {done : List Mention} (runs : numbering.Runs done events) :
    ∀ entry ∈ events, HasId (done ++ events.map Prod.fst) entry.1.node entry.2 := by
  induction events generalizing done with
  | nil => rintro _ ⟨⟩
  | cons first events ih =>
    have split : done ++ (first :: events).map Prod.fst = (done ++ [first.1]) ++ events.map Prod.fst := by simp
    rw [split]
    intro entry member
    rcases List.mem_cons.mp member with rfl | later
    · exact HasId.append runs.1 _
    · exact ih runs.2 entry later

private theorem keepsIds_iff {events : List (Mention × DomainId)} (runs : numbering.Runs [] events) :
    KeepsIds events ↔ TellsApart (events.map Prod.fst) := by
  have has : ∀ mention id, (mention, id) ∈ events → HasId (events.map Prod.fst) mention.node id :=
    fun mention id member => hasId_of_runs runs (mention, id) member
  have noted : ∀ mention ∈ events.map Prod.fst, (mention, numbered (calls (events.map Prod.fst)) mention.node) ∈ events := by
    intro mention member
    obtain ⟨⟨_, id⟩, entry, rfl⟩ := List.mem_map.mp member
    rw [← (has _ id entry).2]
    exact entry
  constructor
  · intro keeps
    refine ⟨?_, ?_⟩
    · rintro ⟨domainIndex, first⟩ former ⟨_, second⟩ latter rfl differ same
      have former := noted _ (mem_calls.mp former)
      have latter := noted _ (mem_calls.mp latter)
      rw [node, (numbered_eq_iff _ _).mpr same] at former
      exact differ (congrArg (Prod.mk domainIndex) (keeps.distinct domainIndex first second _ former latter))
    · intro domainIndex name rows member
      exact keeps.inside domainIndex name rows _ (noted _ member)
  · intro tells
    refine ⟨?_, ?_, ?_, ?_⟩
    · intro domainIndex first second id former latter
      obtain ⟨former, firstId⟩ := has _ _ former
      obtain ⟨latter, secondId⟩ := has _ _ latter
      by_contra differ
      have different : (domainIndex, first) ≠ (domainIndex, second) := fun same => differ (congrArg Prod.snd same)
      exact tells.apart _ former _ latter rfl different ((numbered_eq_iff _ _).mp (firstId.symm.trans secondId))
    · intro domainIndex node former latter first second
      exact (has _ _ first).2.trans (has _ _ second).2.symm
    · intro domainIndex node id member
      obtain ⟨known, rfl⟩ := has _ _ member
      exact Nat.ne_of_gt (numbered_pos known)
    · intro domainIndex node rows id member
      obtain ⟨_, rfl⟩ := has _ _ member
      exact tells.inside domainIndex node rows (List.mem_map.mpr ⟨_, member, rfl⟩)

private theorem Outside.not_tellsApart {earlier : List Mention} {last : Mention} (outside : Outside earlier last) (later : List Mention) :
    ¬ TellsApart (earlier ++ last :: later) := by
  intro tells
  cases last with
  | name domainIndex node => exact outside
  | row domainIndex node rows =>
    obtain ⟨id, has, past⟩ := outside
    obtain ⟨_, rfl⟩ := has.append (.row domainIndex node rows :: later)
    exact Nat.not_lt.mpr past (tells.inside domainIndex node rows (by simp))

end Mention

/-- The ids are distinct, kept and usable as rows exactly if the mentions tell the nodes apart. -/
theorem NodeMapper.node_ids_iff (nodeConfig : NodeConfig) (metricConfig : MetricConfig) (binMapping : BinMapping)
    (shardMapping : ShardMapping) (shardMetricsMapping : ShardMetricsMapping)
    (present : ∀ domain ∈ nodeConfig.domains, domain ∈ nodeConfig.domainNodes) :
    (traced nodeConfig metricConfig binMapping shardMapping shardMetricsMapping).result =
      new nodeConfig metricConfig binMapping shardMapping shardMetricsMapping ∧
    (KeepsIds (traced nodeConfig metricConfig binMapping shardMapping shardMetricsMapping).events ↔
      TellsApart (nodeConfig.mentions binMapping)) := by
  refine ⟨traced_result nodeConfig shardMapping shardMetricsMapping metricConfig binMapping, ?_⟩
  obtain ⟨runs, results, stops⟩ := traced_notes shardMapping shardMetricsMapping present metricConfig binMapping
  generalize traced nodeConfig metricConfig binMapping shardMapping shardMetricsMapping = run at runs results stops ⊢
  rw [List.flatMap_singleton'] at runs results stops
  simp only [Mention.after_numbering, List.nil_append] at results stops
  rw [Mention.keepsIds_iff runs]
  cases ended : run.result with
  | ok mapper => rw [results mapper ended]
  | error fault =>
    rcases stops fault ended with same | ⟨earlier, last, later, noted, all, outside⟩
    · rw [same]
    · rw [noted, all]
      exact iff_of_false (outside.not_tellsApart []) (outside.not_tellsApart later)

/-- Two racks under a domain that is listed three times, so that its number, 2, is in the list. -/
def rackConfig (children : List String) : NodeConfig where
  domains := ["rack", "rack", "rack"]
  domainNodes := (∅ : UnorderedMap String (List NodeSpec)).insert "rack" [⟨"R1", children⟩, ⟨"R2", []⟩]

private theorem rackConfig_present (children : List String) :
    ∀ domain ∈ (rackConfig children).domains, domain ∈ (rackConfig children).domainNodes := by
  intro domain member
  have same : domain = "rack" := by simpa [rackConfig] using member
  rw [same]
  exact (AList.mem_insert _).mpr (.inl rfl)

private theorem rackConfig_mentions : (rackConfig ["host"]).mentions ∅ = (List.replicate 3
    [Mention.name 2 "R1", .name 3 "host", .row 2 "R1" 2, .name 2 "R2"]).flatten := rfl

/-- A host named between the racks gives the second rack another id. -/
theorem NodeMapper.node_ids_iff_host : KeepsIds (traced (rackConfig ["host"]) ⟨[]⟩ ∅ ∅ ∅).events := by
  have tells : TellsApart ((rackConfig ["host"]).mentions ∅) := by
    rw [rackConfig_mentions]
    constructor
    · decide
    · intro domainIndex node rows member
      have row : domainIndex = 2 ∧ node = "R1" ∧ rows = 2 := by simpa [List.replicate] using member
      obtain ⟨rfl, rfl, rfl⟩ := row
      decide
  exact (node_ids_iff (rackConfig ["host"]) ⟨[]⟩ ∅ ∅ ∅ (rackConfig_present ["host"])).2.mpr tells

/-- Without the host both racks get the id 1. -/
theorem NodeMapper.racks_share_id :
    (∀ domain ∈ (rackConfig []).domains, domain ∈ (rackConfig []).domainNodes) ∧
      ¬ KeepsIds (traced (rackConfig []) ⟨[]⟩ ∅ ∅ ∅).events := by
  constructor
  · exact rackConfig_present []
  intro keeps
  have events : (traced (rackConfig []) ⟨[]⟩ ∅ ∅ ∅).events = (List.replicate 3
      [(Mention.name 2 "R1", 1), (.name 2 "R2", 1)]).flatten := rfl
  rw [events] at keeps
  have same : "R1" = "R2" := keeps.distinct 2 "R1" "R2" 1 (by simp) (by simp)
  simp at same

end ShardManager.Psychopomp

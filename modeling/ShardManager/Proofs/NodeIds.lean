import ShardManager.Proofs.Mentions

/-! Whether the ids of nodes can tell them apart and be used as rows. The mentions of
nodes follow from the configuration and the bins, up to a row that is out of range. -/

namespace ShardManager.Psychopomp

namespace Mention

def node : Mention → Nat × String
  | .name domainIndex node => (domainIndex, node)
  | .row domainIndex node _ => (domainIndex, node)

def calls (mentions : List Mention) : List (Nat × String) :=
  mentions.filterMap fun
    | .name domainIndex node => some (domainIndex, node)
    | .row _ _ _ => none

private theorem calls_append (first second : List Mention) : calls (first ++ second) = calls first ++ calls second :=
  List.filterMap_append

def HasId (done : List Mention) (node : Nat × String) (id : DomainId) : Prop :=
  node ∈ calls done ∧ id = numbered (calls done) node

theorem HasId.append {done : List Mention} {node : Nat × String} {id : DomainId} (has : HasId done node id)
    (more : List Mention) : HasId (done ++ more) node id := by
  rw [HasId, calls_append, numbered_append _ has.1]
  exact ⟨List.mem_append_left _ has.1, has.2⟩

/-- The id that is mentioned is the one that the calls so far have given. -/
def numbering : Machine (List Mention) (Mention × DomainId) where
  enabled done entry := HasId (done ++ [entry.1]) entry.1.node entry.2
  next done entry := done ++ [entry.1]

/-- A row past the end. -/
def Outside (done : List Mention) : Mention → Prop
  | .name _ _ => False
  | .row domainIndex node rows => ∃ id, HasId done (domainIndex, node) id ∧ rows ≤ id

/-- The constructor stops where nothing more is to be mentioned, or at a row past the end. -/
def Stops (all done : List Mention) : Prop :=
  done = all ∨ ∃ earlier last later, done = earlier ++ [last] ∧ all = earlier ++ last :: later ∧ Outside earlier last

end Mention

namespace NodeConfig

def number (nodeConfig : NodeConfig) (domain : String) : Nat :=
  (NodeMapper.indexDomains nodeConfig.domains (nodeConfig.domains.length + 1) {}).getDomainIndex domain

def lowest (nodeConfig : NodeConfig) : String :=
  (NodeMapper.indexDomains nodeConfig.domains (nodeConfig.domains.length + 1) {}).getDomain 2

/-- The nodes that are added for a domain: those of the domain that the list has under its number. -/
def added (nodeConfig : NodeConfig) (domain : String) : Option (List NodeSpec) :=
  nodeConfig.domains[nodeConfig.number domain]?.map (NodeMapper.nodesOf nodeConfig)

def nodeMentions (domainIndex rows : Nat) (node : NodeSpec) : List Mention :=
  .name domainIndex node.name :: node.children.flatMap fun child => [.name (domainIndex + 1) child, .row domainIndex node.name rows]

/-- The mentions for some domains, and those that follow if no number is past the end of the list. -/
def domainMentions (nodeConfig : NodeConfig) (later : List Mention) : List String → List Mention
  | [] => later
  | domain :: domains =>
    match nodeConfig.added domain with
    | none => []
    | some nodes =>
      nodes.flatMap (nodeMentions (nodeConfig.number domain) nodes.length) ++ nodeConfig.domainMentions later domains

/-- The rows that the domain above the bins has after some more domains. -/
def parentRows (nodeConfig : NodeConfig) (rows : Nat) (domains : List String) : Nat :=
  domains.foldl (fun rows domain => if nodeConfig.number domain = 2 then ((nodeConfig.added domain).getD []).length else rows) rows

def binMentions (nodeConfig : NodeConfig) (bin : BinInfo) : List Mention :=
  match bin.domainToNodesMap.lookup nodeConfig.lowest with
  | none => []
  | some node => if node = "" then [] else [.name 2 node, .row 2 node (nodeConfig.parentRows 0 nodeConfig.domains)]

/-- The nodes that the constructor mentions, in this order. -/
def mentions (nodeConfig : NodeConfig) (binMapping : BinMapping) : List Mention :=
  nodeConfig.domainMentions (binMapping.entries.flatMap fun bin => nodeConfig.binMentions bin.2) nodeConfig.domains

end NodeConfig

namespace NodeMapper
open Mention

/-- What naming nodes and adding children leaves alone. -/
structure Framed (before after : NodeMapper) : Prop where
  numbers : after.domainIndexMapping = before.domainIndexMapping
  domains : after.indexDomainMapping = before.indexDomainMapping
  levels : after.nodeMapping.length = before.nodeMapping.length
  rows : ∀ domainIndex, after.rows domainIndex = before.rows domainIndex

theorem Framed.refl (mapper : NodeMapper) : Framed mapper mapper := ⟨rfl, rfl, rfl, fun _ => rfl⟩

theorem Framed.trans {first second third : NodeMapper} (former : Framed first second) (latter : Framed second third) :
    Framed first third where
  numbers := latter.numbers.trans former.numbers
  domains := latter.domains.trans former.domains
  levels := latter.levels.trans former.levels
  rows domainIndex := (latter.rows domainIndex).trans (former.rows domainIndex)

private theorem framed_assign (domainIndex : Nat) (node : String) (mapper : NodeMapper) :
    Framed mapper (mapper.assignDomainId domainIndex node).2 := ⟨rfl, rfl, rfl, fun _ => rfl⟩

private theorem rows_set (mapper : NodeMapper) (domainIndex : Nat) (level : List (List DomainId)) (other : Nat)
    (inside : domainIndex < mapper.nodeMapping.length) :
    rows { mapper with nodeMapping := mapper.nodeMapping.set domainIndex level } other =
      if other = domainIndex then level.length else mapper.rows other := by
  unfold rows
  by_cases same : other = domainIndex
  · subst same
    simp [List.getElem?_set_self inside]
  · rw [if_neg same, List.getElem?_set_ne (Ne.symm same)]

/-- A child is pushed onto a row unless the row is past the end. -/
private theorem pushChild_cases (domainIndex parentId childId : Nat) (mapper : NodeMapper) :
    (∃ after, mapper.pushChild domainIndex parentId childId = .ok after ∧ Framed mapper after ∧
      after.domainToNodeDomainIdMapping = mapper.domainToNodeDomainIdMapping) ∨
    ∃ fault, mapper.pushChild domainIndex parentId childId = .error fault ∧ mapper.rows domainIndex ≤ parentId := by
  cases level : mapper.nodeMapping[domainIndex]? with
  | none =>
    refine .inr ⟨.outOfRange, ?_, ?_⟩
    · rw [pushChild, element, level]
      rfl
    · simp [rows, level]
  | some rows =>
    have inside := (List.getElem?_eq_some_iff.mp level).1
    cases row : rows[parentId]? with
    | none =>
      refine .inr ⟨.outOfRange, ?_, ?_⟩
      · rw [pushChild, element, level, Checked.ok_bind, element, row]
        rfl
      · simpa [NodeMapper.rows, level] using row
    | some children =>
      refine .inl ⟨{ mapper with nodeMapping := mapper.nodeMapping.set domainIndex (rows.set parentId (children ++ [childId])) }, ?_, ?_, rfl⟩
      · rw [pushChild, element, level, Checked.ok_bind, element, row]
        rfl
      · refine ⟨rfl, rfl, List.length_set, ?_⟩
        intro other
        rw [rows_set mapper domainIndex _ other inside, List.length_set]
        split
        next same => simp [NodeMapper.rows, same, level]
        next => rfl

theorem Named.same {calls : List (Nat × String)} {mapper other : NodeMapper} (named : Named calls mapper)
    (same : other.domainToNodeDomainIdMapping = mapper.domainToNodeDomainIdMapping) : Named calls other where
  domains := by rw [same, named.domains]
  ids domainIndex node := by rw [nodeId, same, ← nodeId, named.ids]

section Performs
variable {all done later : List Mention} {mapper : NodeMapper}

/-- The notes of the constructor are a run of the numbering that ends in a state and a mapper. -/
abbrev Notes {α : Type} (all done : List Mention) (onResult : α → List Mention → Prop) (run : Constructing α) : Prop :=
  Traced.Performs numbering (fun entry => [entry]) onResult (fun _ => Stops all) done run

private theorem tracedDomainId_notes (named : Named (calls done) mapper) (domainIndex : Nat) (node : String) :
    Notes all done (fun result noted => noted = done ++ [.name domainIndex node] ∧ HasId noted (domainIndex, node) result.1 ∧
      Named (calls noted) result.2 ∧ Framed mapper result.2) (tracedDomainId domainIndex node mapper) := by
  have called : calls (done ++ [.name domainIndex node]) = calls done ++ [(domainIndex, node)] := calls_append _ _
  obtain ⟨id, next⟩ := named.assign domainIndex node
  rw [← called] at id next
  have has : HasId (done ++ [.name domainIndex node]) (domainIndex, node) (mapper.assignDomainId domainIndex node).1 :=
    ⟨by rw [called]; simp, id⟩
  have leads : numbering.Leads done [(.name domainIndex node, (mapper.assignDomainId domainIndex node).1)]
      (· = done ++ [.name domainIndex node]) := ⟨⟨has, trivial⟩, rfl⟩
  refine Traced.performs_bind (Traced.performs_tell leads) ?_
  rintro _ _ rfl
  exact Traced.performs_pure ⟨rfl, has, next, framed_assign domainIndex node mapper⟩

private theorem tracedChild_notes (named : Named (calls done) mapper) {domainIndex : Nat} {node : String} {parentId : DomainId}
    (has : HasId done (domainIndex, node) parentId) (childId : DomainId)
    (placed : done ++ .row domainIndex node (mapper.rows domainIndex) :: later = all) :
    Notes all done (fun after noted => noted = done ++ [.row domainIndex node (mapper.rows domainIndex)] ∧
      Named (calls noted) after ∧ Framed mapper after) (tracedChild domainIndex node parentId childId mapper) := by
  have called : calls (done ++ [.row domainIndex node (mapper.rows domainIndex)]) = calls done := by
    rw [calls_append]
    exact List.append_nil _
  have leads : numbering.Leads done [(.row domainIndex node (mapper.rows domainIndex), parentId)]
      (· = done ++ [.row domainIndex node (mapper.rows domainIndex)]) := ⟨⟨has.append _, trivial⟩, rfl⟩
  refine Traced.performs_bind (Traced.performs_tell leads) ?_
  rintro _ _ rfl
  rcases pushChild_cases domainIndex parentId childId mapper with ⟨after, pushed, framed, same⟩ | ⟨fault, failed, outside⟩
  · rw [pushed]
    exact Traced.performs_ok ⟨rfl, called ▸ named.same same, framed⟩
  · rw [failed]
    exact Traced.performs_error (.inr ⟨done, _, later, rfl, placed.symm, parentId, has, outside⟩)

private theorem tracedNode_notes (named : Named (calls done) mapper) (domainIndex : Nat) (node : NodeSpec)
    (placed : done ++ (NodeConfig.nodeMentions domainIndex (mapper.rows domainIndex) node ++ later) = all) :
    Notes all done (fun after noted => Named (calls noted) after ∧ Framed mapper after ∧ noted ++ later = all)
      (tracedNode domainIndex mapper node) := by
  refine Traced.performs_bind (tracedDomainId_notes named domainIndex node.name) ?_
  rintro ⟨parentId, first⟩ _ ⟨rfl, has, named, framed⟩
  let childMentions := fun child => [Mention.name (domainIndex + 1) child, .row domainIndex node.name (mapper.rows domainIndex)]
  -- The parent keeps its id while its children are named.
  refine (Traced.performs_foldlM (fun children current noted => Named (calls noted) current ∧ Framed mapper current ∧
    HasId noted (domainIndex, node.name) parentId ∧ noted ++ (children.flatMap childMentions ++ later) = all) ?_
    ⟨named, framed, has, ?_⟩).mono ?_
  · rintro child children current noted ⟨named, framed, has, placed⟩
    refine Traced.performs_bind (tracedDomainId_notes named (domainIndex + 1) child) ?_
    rintro ⟨childId, second⟩ _ ⟨rfl, _, named, next⟩
    have framed := framed.trans next
    have has := has.append [.name (domainIndex + 1) child]
    have same : second.rows domainIndex = mapper.rows domainIndex := framed.rows domainIndex
    have placed : (noted ++ [.name (domainIndex + 1) child]) ++ .row domainIndex node.name (second.rows domainIndex) ::
        (children.flatMap childMentions ++ later) = all := by
      rw [same, ← placed]
      simp [childMentions]
    refine (tracedChild_notes named has childId placed).mono ?_
    rintro third _ ⟨rfl, named, next⟩
    exact ⟨named, framed.trans next, has.append _, by rw [← placed]; simp⟩
  · rw [← placed]
    simp [NodeConfig.nodeMentions, childMentions]
  · rintro after noted ⟨named, framed, _, placed⟩
    exact ⟨named, framed, by simpa using placed⟩

variable {nodeConfig : NodeConfig}

/-- The domains of the mapper are those that are configured, and there are rows for every level. -/
structure Configured (nodeConfig : NodeConfig) (mapper : NodeMapper) : Prop where
  numbers : mapper.domainIndexMapping =
    (indexDomains nodeConfig.domains (nodeConfig.domains.length + 1) {}).domainIndexMapping
  names : mapper.indexDomainMapping =
    (indexDomains nodeConfig.domains (nodeConfig.domains.length + 1) {}).indexDomainMapping
  levels : mapper.nodeMapping.length = nodeConfig.domains.length + 2

theorem Configured.framed {after : NodeMapper} (configured : Configured nodeConfig mapper) (framed : Framed mapper after) :
    Configured nodeConfig after where
  numbers := framed.numbers.trans configured.numbers
  names := framed.domains.trans configured.names
  levels := framed.levels.trans configured.levels

theorem Configured.getDomainIndex (configured : Configured nodeConfig mapper) (domain : String) :
    mapper.getDomainIndex domain = nodeConfig.number domain := by
  rw [NodeMapper.getDomainIndex, configured.numbers]
  rfl

theorem Configured.getDomain (configured : Configured nodeConfig mapper) : mapper.getDomain 2 = nodeConfig.lowest := by
  rw [NodeMapper.getDomain, configured.names]
  rfl

/-- The rows of a level are replaced by as many as there are nodes. -/
private theorem resizeDomain_ok (configured : Configured nodeConfig mapper) {domainIndex : Nat}
    (inside : domainIndex < nodeConfig.domains.length) (count : Nat) :
    ∃ resized, mapper.resizeDomain domainIndex count = .ok resized ∧ Configured nodeConfig resized ∧
      resized.domainToNodeDomainIdMapping = mapper.domainToNodeDomainIdMapping ∧
      ∀ other, resized.rows other = if other = domainIndex then count else mapper.rows other := by
  have inside : domainIndex < mapper.nodeMapping.length := by
    rw [configured.levels]
    omega
  let rows := mapper.nodeMapping[domainIndex]
  have found : mapper.nodeMapping[domainIndex]? = some rows := List.getElem?_eq_getElem inside
  let level := rows.take count ++ List.replicate (count - rows.length) []
  refine ⟨{ mapper with nodeMapping := mapper.nodeMapping.set domainIndex level }, ?_, ⟨configured.numbers, configured.names, ?_⟩, rfl, ?_⟩
  · rw [resizeDomain, element, found]
    rfl
  · rw [List.length_set, configured.levels]
  · intro other
    rw [rows_set mapper domainIndex level other inside]
    congr 1
    simp only [level, List.length_append, List.length_take, List.length_replicate]
    omega

private theorem tracedNodes_notes (named : Named (calls done) mapper) (domainIndex : Nat) (nodes : List NodeSpec)
    (placed : done ++ (nodes.flatMap (NodeConfig.nodeMentions domainIndex (mapper.rows domainIndex)) ++ later) = all) :
    Notes all done (fun after noted => Named (calls noted) after ∧ Framed mapper after ∧ noted ++ later = all)
      (nodes.foldlM (tracedNode domainIndex) mapper) := by
  refine (Traced.performs_foldlM (fun rest current noted => Named (calls noted) current ∧ Framed mapper current ∧
    noted ++ (rest.flatMap (NodeConfig.nodeMentions domainIndex (mapper.rows domainIndex)) ++ later) = all) ?_
    ⟨named, .refl mapper, placed⟩).mono ?_
  · rintro node rest current noted ⟨named, framed, placed⟩
    have placed : noted ++ (NodeConfig.nodeMentions domainIndex (current.rows domainIndex) node ++
        (rest.flatMap (NodeConfig.nodeMentions domainIndex (mapper.rows domainIndex)) ++ later)) = all := by
      rw [framed.rows, ← placed, List.flatMap_cons, List.append_assoc]
    refine (tracedNode_notes named domainIndex node placed).mono ?_
    rintro after noted ⟨named, next, placed⟩
    exact ⟨named, framed.trans next, placed⟩
  · exact fun after noted holds => holds

private theorem tracedDomain_eq {domain name : String} {nodes : List NodeSpec} {resized : NodeMapper}
    (configured : Configured nodeConfig mapper) (found : nodeConfig.domains[nodeConfig.number domain]? = some name)
    (known : nodeConfig.domainNodes.lookup name = some nodes)
    (ok : mapper.resizeDomain (nodeConfig.number domain) nodes.length = .ok resized) :
    tracedDomain nodeConfig mapper domain = nodes.foldlM (tracedNode (nodeConfig.number domain)) resized := by
  have first : element nodeConfig.domains (nodeConfig.number domain) = .ok name := by
    rw [element, found]
  have second : atKey nodeConfig.domainNodes name = .ok nodes := by
    rw [atKey, known]
  rw [tracedDomain, configured.getDomainIndex, first]
  change (Traced.lift (atKey nodeConfig.domainNodes name) >>= fun nodes => _) = _
  rw [second]
  change (Traced.lift (mapper.resizeDomain (nodeConfig.number domain) nodes.length) >>= fun mapper => _) = _
  rw [ok]
  rfl

private theorem tracedDomain_notes (present : ∀ domain ∈ nodeConfig.domains, domain ∈ nodeConfig.domainNodes)
    (configured : Configured nodeConfig mapper) (named : Named (calls done) mapper) (domain : String) (domains : List String)
    (placed : done ++ nodeConfig.domainMentions later (domain :: domains) = all) :
    Notes all done (fun after noted => Named (calls noted) after ∧ Configured nodeConfig after ∧
      after.rows 2 = (if nodeConfig.number domain = 2 then ((nodeConfig.added domain).getD []).length else mapper.rows 2) ∧
      noted ++ nodeConfig.domainMentions later domains = all) (tracedDomain nodeConfig mapper domain) := by
  rw [NodeConfig.domainMentions] at placed
  cases found : nodeConfig.domains[nodeConfig.number domain]? with
  | none =>
    have stops : element nodeConfig.domains (nodeConfig.number domain) = .error .outOfRange := by
      rw [element, found]
    rw [tracedDomain, configured.getDomainIndex, stops]
    refine Traced.performs_error (.inl ?_)
    simpa [NodeConfig.added, found] using placed
  | some name =>
    obtain ⟨nodes, known⟩ := (UnorderedMap.mem_iff _ _).mp (present name (List.mem_of_getElem? found))
    have added : nodeConfig.added domain = some nodes := by
      rw [NodeConfig.added, found, Option.map_some, nodesOf, known, Option.getD_some]
    obtain ⟨resized, ok, resizes, same, rows⟩ :=
      resizeDomain_ok configured (List.getElem?_eq_some_iff.mp found).1 nodes.length
    have rowsAre : resized.rows (nodeConfig.number domain) = nodes.length := by
      rw [rows, if_pos rfl]
    rw [tracedDomain_eq configured found known ok, added]
    have placed : done ++ (nodes.flatMap (NodeConfig.nodeMentions (nodeConfig.number domain)
        (resized.rows (nodeConfig.number domain))) ++ nodeConfig.domainMentions later domains) = all := by
      rw [added] at placed
      rw [rowsAre]
      exact placed
    refine (tracedNodes_notes (named.same same) (nodeConfig.number domain) nodes placed).mono ?_
    rintro after noted ⟨named, framed, placed⟩
    refine ⟨named, resizes.framed framed, ?_, placed⟩
    rw [framed.rows, rows, Option.getD_some]
    simp only [eq_comm]

private theorem tracedDomains_notes (present : ∀ domain ∈ nodeConfig.domains, domain ∈ nodeConfig.domainNodes)
    (configured : Configured nodeConfig mapper) (named : Named (calls done) mapper) (domains : List String)
    (placed : done ++ nodeConfig.domainMentions later domains = all) :
    Notes all done (fun after noted => Named (calls noted) after ∧ Configured nodeConfig after ∧
      after.rows 2 = nodeConfig.parentRows (mapper.rows 2) domains ∧ noted ++ later = all)
      (domains.foldlM (tracedDomain nodeConfig) mapper) := by
  refine (Traced.performs_foldlM (fun rest current noted => Named (calls noted) current ∧ Configured nodeConfig current ∧
    nodeConfig.parentRows (current.rows 2) rest = nodeConfig.parentRows (mapper.rows 2) domains ∧
    noted ++ nodeConfig.domainMentions later rest = all) ?_ ⟨named, configured, rfl, placed⟩).mono ?_
  · rintro domain rest current noted ⟨named, configured, rows, placed⟩
    refine (tracedDomain_notes present configured named domain rest placed).mono ?_
    rintro after noted ⟨named, configured, resized, placed⟩
    refine ⟨named, configured, ?_, placed⟩
    rw [← rows, resized]
    rfl
  · exact fun after noted holds => holds

/-- The mapper that the bins are added to. -/
structure Binning (nodeConfig : NodeConfig) (done : List Mention) (mapper : NodeMapper) : Prop where
  named : Named (calls done) mapper
  lowest : mapper.getDomain 2 = nodeConfig.lowest
  rows : mapper.rows 2 = nodeConfig.parentRows 0 nodeConfig.domains

theorem Binning.same {other : NodeMapper} (binning : Binning nodeConfig done mapper)
    (ids : other.domainToNodeDomainIdMapping = mapper.domainToNodeDomainIdMapping)
    (domains : other.indexDomainMapping = mapper.indexDomainMapping) (rows : other.nodeMapping = mapper.nodeMapping) :
    Binning nodeConfig done other where
  named := binning.named.same ids
  lowest := by rw [getDomain, domains, ← getDomain, binning.lowest]
  rows := by rw [NodeMapper.rows, rows, ← NodeMapper.rows, binning.rows]

theorem Binning.framed {after : NodeMapper} {noted : List Mention} (binning : Binning nodeConfig done mapper)
    (framed : Framed mapper after) (named : Named (calls noted) after) : Binning nodeConfig noted after where
  named := named
  lowest := by rw [getDomain, framed.domains, ← getDomain, binning.lowest]
  rows := by rw [framed.rows, binning.rows]

variable (shardMapping : ShardMapping) (shardMetricsMapping : ShardMetricsMapping)

private theorem Binning.addShards (shardInfos : List ShardInfo) (binning : Binning nodeConfig done mapper) :
    Binning nodeConfig done (shardInfos.foldl (addShard shardMapping shardMetricsMapping) mapper) := by
  obtain ⟨domains, rows⟩ := addShards_rows shardMapping shardMetricsMapping shardInfos mapper
  exact binning.same (addShards_ids shardMapping shardMetricsMapping shardInfos mapper) domains rows

private theorem tracedBin_notes {state : Nat × NodeMapper} (binning : Binning nodeConfig done state.2)
    (bin : Sigma fun _ : Int => BinInfo) (placed : done ++ (nodeConfig.binMentions bin.2 ++ later) = all) :
    Notes all done (fun after noted => Binning nodeConfig noted after.2 ∧ noted ++ later = all)
      (tracedBin shardMapping shardMetricsMapping state bin) := by
  simp only [tracedBin]
  generalize accepted : bin.2.shardInfos.foldl (addShard shardMapping shardMetricsMapping) _ = mapper
  have binning : Binning nodeConfig done mapper := by
    rw [← accepted]
    exact Binning.addShards shardMapping shardMetricsMapping bin.2.shardInfos (binning.same rfl rfl rfl)
  rw [binning.lowest]
  cases named : bin.2.domainToNodesMap.lookup nodeConfig.lowest with
  | none =>
    have silent : nodeConfig.binMentions bin.2 = [] := by
      rw [NodeConfig.binMentions, named]
    exact Traced.performs_pure ⟨binning, by rw [← placed, silent]; rfl⟩
  | some binNode =>
    by_cases empty : binNode = ""
    · have silent : nodeConfig.binMentions bin.2 = [] := by
        rw [NodeConfig.binMentions, named]
        exact if_pos empty
      simp only [empty, if_true]
      exact Traced.performs_pure ⟨binning, by rw [← placed, silent]; rfl⟩
    · have mentioned : nodeConfig.binMentions bin.2 =
          [.name 2 binNode, .row 2 binNode (nodeConfig.parentRows 0 nodeConfig.domains)] := by
        rw [NodeConfig.binMentions, named]
        exact if_neg empty
      simp only [empty, if_false]
      refine Traced.performs_bind (tracedDomainId_notes binning.named 2 binNode) ?_
      rintro ⟨parentId, first⟩ _ ⟨rfl, has, names, framed⟩
      have binning : Binning nodeConfig _ first := binning.framed framed names
      have placed : (done ++ [.name 2 binNode]) ++ .row 2 binNode (first.rows 2) :: later = all := by
        rw [binning.rows, ← placed, mentioned]
        simp
      refine Traced.performs_bind (tracedChild_notes names has (state.1 + 1) placed) ?_
      rintro second _ ⟨rfl, names, framed⟩
      exact Traced.performs_pure ⟨binning.framed framed names, by rw [← placed]; simp⟩

private theorem tracedBins_notes {state : Nat × NodeMapper} (binning : Binning nodeConfig done state.2)
    (bins : List (Sigma fun _ : Int => BinInfo))
    (placed : done ++ bins.flatMap (fun bin => nodeConfig.binMentions bin.2) = all) :
    Notes all done (fun _ noted => noted = all) (bins.foldlM (tracedBin shardMapping shardMetricsMapping) state) := by
  refine (Traced.performs_foldlM (fun rest current noted => Binning nodeConfig noted current.2 ∧
    noted ++ rest.flatMap (fun bin => nodeConfig.binMentions bin.2) = all) ?_ ⟨binning, placed⟩).mono ?_
  · rintro bin rest current noted ⟨binning, placed⟩
    exact tracedBin_notes shardMapping shardMetricsMapping binning bin placed
  · rintro after noted ⟨_, finished⟩
    simpa using finished

/-- The notes of the constructor are a run of the numbering through the mentions, to
their end or to a row past the end. -/
theorem traced_notes (present : ∀ domain ∈ nodeConfig.domains, domain ∈ nodeConfig.domainNodes) (metricConfig : MetricConfig)
    (binMapping : BinMapping) :
    Notes (nodeConfig.mentions binMapping) [] (fun _ noted => noted = nodeConfig.mentions binMapping)
      (traced nodeConfig metricConfig binMapping shardMapping shardMetricsMapping) := by
  have unnamed := indexDomains_ids nodeConfig.domains (nodeConfig.domains.length + 1) {}
  have named : Named (calls []) { indexDomains nodeConfig.domains (nodeConfig.domains.length + 1) {} with
      nodeMapping := List.replicate (nodeConfig.domains.length + 2) [] } := by
    refine ⟨?_, ?_⟩
    · simp only [unnamed]
      rfl
    · intro domainIndex node
      rw [nodeId, unnamed]
      rfl
  have configured : Configured nodeConfig { indexDomains nodeConfig.domains (nodeConfig.domains.length + 1) {} with
      nodeMapping := List.replicate (nodeConfig.domains.length + 2) [] } := ⟨rfl, rfl, List.length_replicate⟩
  refine Traced.performs_bind (tracedDomains_notes present configured named nodeConfig.domains rfl) ?_
  rintro mapper noted ⟨named, configured, rows, placed⟩
  have empty : NodeMapper.rows { indexDomains nodeConfig.domains (nodeConfig.domains.length + 1) {} with
      nodeMapping := List.replicate (nodeConfig.domains.length + 2) [] } 2 = 0 := by
    simp only [NodeMapper.rows, List.getElem?_replicate]
    split <;> rfl
  have binning : Binning nodeConfig noted (mapper.createMetricMapping metricConfig) :=
    ⟨named.same rfl, configured.getDomain, by rw [← empty, ← rows]; rfl⟩
  refine Traced.performs_bind (tracedBins_notes shardMapping shardMetricsMapping binning binMapping.entries placed) ?_
  rintro ⟨_, final⟩ _ rfl
  exact Traced.performs_pure rfl

end Performs
end NodeMapper
end ShardManager.Psychopomp

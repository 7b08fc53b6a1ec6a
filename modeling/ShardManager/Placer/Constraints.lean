import ShardManager.Placer.ConstraintUtils

/-! The constraints of `constraints/`: each keeps an expression tree and the fault
of every node it is about, and adds the change of its faults to the shared weights. -/

namespace ShardManager

abbrev FaultMap := CommittableMap (UnorderedMap DomainId Int) DomainId Int

namespace BinWeightInfo

def addTotalWeight (info : BinWeightInfo) (weightDelta : Int) : BinWeightInfo :=
  let prevTotalWeight := info.totalWeight.get.getD 0
  { info with totalWeight := info.totalWeight.set true (prevTotalWeight + weightDelta) }

def addBinWeight (info : BinWeightInfo) (domainId : DomainId) (binWeightDelta : Int) : BinWeightInfo :=
  let prevWeight := (info.binWeightMap.get domainId).getD 0
  addTotalWeight { info with binWeightMap := info.binWeightMap.set true (prevWeight + binWeightDelta) domainId }
    binWeightDelta

end BinWeightInfo

/-- What the closures of `MetricConstraint` and `DrainConstraint` write. -/
structure FaultRecord where
  domainFaultMap : FaultMap
  binWeightInfo : BinWeightInfo

/-- `updateWeightIfPossible` once `currentWeight` is known; the two constraints
differ in nothing else. -/
def FaultRecord.record (state : SolvingState) (domain : Domain) (node : Node) (currentWeight : Int) (record : FaultRecord) :
    FaultRecord :=
  if node.1 = domain then
    let prevWeight := (record.domainFaultMap.get node.2).getD 0
    let domainFaultMap := record.domainFaultMap.set true currentWeight node.2
    let weightDelta := currentWeight - prevWeight
    if weightDelta = 0 then { record with domainFaultMap }
    else if domain = state.binDomain then ⟨domainFaultMap, record.binWeightInfo.addBinWeight node.2 weightDelta⟩
    else ⟨domainFaultMap, record.binWeightInfo.addTotalWeight weightDelta⟩
  else record

structure MetricConstraint where
  consistency : MovementConsistency
  domain : Domain
  metric : Metric
  capacity : Int
  faultWeight : Int
  expressionTree : ExpressionTree
  domainFaultMap : FaultMap

namespace MetricConstraint

/-- `currentWeight` is declared with the literal 0 and therefore an `int`: the
64-bit product is narrowed when it is stored. -/
def fault (capacity faultWeight val : Int) : Int :=
  if val > capacity then toInt32 ((val - capacity) * faultWeight) else 0

def calculate (state : SolvingState) (consistency : MovementConsistency) (domain : Domain) (metric : Metric)
    (capacity faultWeight : Int) : CalcMetricFunc FaultRecord :=
  fun assignmentTree movementMaps metricMap changedChildren node record => do
    let val ← sumOperator state assignmentTree movementMaps metricMap changedChildren node consistency metric
    pure (val, record.record state domain node (fault capacity faultWeight val))

variable (order : HashOrder) (state : SolvingState)

def new (consistency : MovementConsistency) (domain : Domain) (domainIds : List DomainId) (metric : Metric)
    (capacity faultWeight : Int) (info : BinWeightInfo) : Except Fault (MetricConstraint × BinWeightInfo) := do
  let partialTree := state.assignmentTree.createPartialTree domain domainIds
  let (expressionTree, record) ← ExpressionTree.new order state
    (calculate state consistency domain metric capacity faultWeight) partialTree ⟨.empty, info⟩
  pure ({ consistency, domain, metric, capacity, faultWeight, expressionTree := expressionTree.commitMoves
          domainFaultMap := record.domainFaultMap.commit }, record.binWeightInfo.commit)

def canaryMoves (committedMoves canaryMoves : MovementMapPtr) (constraint : MetricConstraint) (info : BinWeightInfo) :
    Except Fault (MetricConstraint × BinWeightInfo) := do
  let (expressionTree, record) ← constraint.expressionTree.canaryMoves order state
    (calculate state constraint.consistency constraint.domain constraint.metric constraint.capacity constraint.faultWeight)
    committedMoves canaryMoves ⟨constraint.domainFaultMap.clear, info⟩
  pure ({ constraint with expressionTree, domainFaultMap := record.domainFaultMap }, record.binWeightInfo)

def commitMoves (constraint : MetricConstraint) : MetricConstraint :=
  { constraint with
    expressionTree := constraint.expressionTree.commitMoves
    domainFaultMap := constraint.domainFaultMap.commit }

end MetricConstraint

structure DrainConstraint where
  consistency : MovementConsistency
  domain : Domain
  faultWeight : Int
  expressionTree : ExpressionTree
  domainFaultMap : FaultMap

namespace DrainConstraint

/-- Here the product keeps its 64 bits. -/
def fault (faultWeight val : Int) : Int := val * faultWeight

def calculate (state : SolvingState) (consistency : MovementConsistency) (domain : Domain) (faultWeight : Int) :
    CalcMetricFunc FaultRecord :=
  fun _assignmentTree movementMaps metricMap changedChildren node record => do
    let val ← shardCountOperator state movementMaps metricMap changedChildren node consistency
    pure (val, record.record state domain node (fault faultWeight val))

variable (order : HashOrder) (state : SolvingState)

def new (consistency : MovementConsistency) (domain : Domain) (domainIds : List DomainId) (faultWeight : Int)
    (info : BinWeightInfo) : Except Fault (DrainConstraint × BinWeightInfo) := do
  let partialTree := state.assignmentTree.createPartialTree domain domainIds
  let (expressionTree, record) ← ExpressionTree.new order state (calculate state consistency domain faultWeight)
    partialTree ⟨.empty, info⟩
  pure ({ consistency, domain, faultWeight, expressionTree := expressionTree.commitMoves
          domainFaultMap := record.domainFaultMap.commit }, record.binWeightInfo.commit)

def canaryMoves (committedMoves canaryMoves : MovementMapPtr) (constraint : DrainConstraint) (info : BinWeightInfo) :
    Except Fault (DrainConstraint × BinWeightInfo) := do
  let (expressionTree, record) ← constraint.expressionTree.canaryMoves order state
    (calculate state constraint.consistency constraint.domain constraint.faultWeight)
    committedMoves canaryMoves ⟨constraint.domainFaultMap.clear, info⟩
  pure ({ constraint with expressionTree, domainFaultMap := record.domainFaultMap }, record.binWeightInfo)

def commitMoves (constraint : DrainConstraint) : DrainConstraint :=
  { constraint with
    expressionTree := constraint.expressionTree.commitMoves
    domainFaultMap := constraint.domainFaultMap.commit }

end DrainConstraint

/-- `faultWeightMultiplier_` is a `double` that occurs in one product only. That
product, converted to `int64_t`, is kept as a function of its integer factor. The
conversion is undefined for products that do not fit. -/
structure LoadBalancingConstraint where
  domain : Domain
  loadBalancingDomain : Domain
  metric : Metric
  maxDelta : Int
  faultWeightMultiplier : Int → Int
  minExpressionTree : ExpressionTree
  maxExpressionTree : ExpressionTree
  domainUpdatedSet : UnorderedSet DomainId
  domainFaultMap : FaultMap

namespace LoadBalancingConstraint

/-- The product for a multiplier that is an integer: it is computed in `double`. -/
def integerMultiplier (multiplier delta : Int) : Int := roundDouble (delta * multiplier)

/-- `std::min_element`: the first element that no later one compares below. -/
def minElement (cmp : Int → Int → Bool) (first : Int) (rest : List Int) : Int :=
  rest.foldl (fun best value => if cmp value best then value else best) first

/-- The metrics that `calculate` collects from the children of a node above bins. -/
def childMetrics (metricMap : MetricsMap) (childDomain : Domain) (children : List DomainId) : List Int :=
  children.filterMap fun child => metricMap.get (childDomain, child)

/-- The sum that `calculate` takes over the children of a bin. -/
def binSum (state : SolvingState) (metric : Metric) (movementMaps : List MovementMapPtr) (binId : DomainId)
    (children : List DomainId) : Except Fault Int :=
  children.foldlM (fun sum child => do
    let counts ← shouldConsiderShard .after movementMaps child binId
    pure (if counts then toInt32 (sum + state.getShardMetric metric child) else sum)) 0

def calculate (state : SolvingState) (domain : Domain) (metric : Metric) (cmp : Int → Int → Bool) :
    CalcMetricFunc (UnorderedSet DomainId) :=
  fun assignmentTree movementMaps metricMap _changedChildren node domainUpdatedSet => do
    let (childDomain, childVector) ← assignmentTree.getChildren node.1 node.2 movementMaps
    let domainUpdatedSet := if node.1 = domain then domainUpdatedSet.insert node.2 () else domainUpdatedSet
    if node.1 = state.binDomain then
      let sum ← binSum state metric movementMaps node.2 childVector
      pure (sum, domainUpdatedSet)
    else
      match childMetrics metricMap childDomain childVector with
      | [] => pure (0, domainUpdatedSet)
      | first :: rest => pure (minElement cmp first rest, domainUpdatedSet)

def minFunc (state : SolvingState) (domain : Domain) (metric : Metric) : CalcMetricFunc (UnorderedSet DomainId) :=
  calculate state domain metric fun a b => decide (a < b)

def maxFunc (state : SolvingState) (domain : Domain) (metric : Metric) : CalcMetricFunc (UnorderedSet DomainId) :=
  calculate state domain metric fun a b => decide (a > b)

/-- The weight `updateWeights` computes for a node. -/
def nodeWeight (constraint : LoadBalancingConstraint) (minMetric : Int) (domainId : DomainId) : Int :=
  let maxMetric := (constraint.maxExpressionTree.metricsMap.get (constraint.domain, domainId)).getD 0
  let delta := toInt32 |toInt32 (maxMetric - minMetric)|
  if delta ≥ constraint.maxDelta then constraint.faultWeightMultiplier (toInt32 (delta - constraint.maxDelta)) else 0

def updateWeights (order : HashOrder) (constraint : LoadBalancingConstraint) (info : BinWeightInfo) : BinWeightInfo :=
  let minMetric := (constraint.minExpressionTree.metricsMap.get (constraint.loadBalancingDomain, 0)).getD 0
  (order.ids constraint.domainUpdatedSet.keys).foldl (fun info domainId =>
    let prevWeight := (constraint.domainFaultMap.get domainId).getD 0
    info.addBinWeight domainId (constraint.nodeWeight minMetric domainId - prevWeight)) info

def commitMoves (constraint : LoadBalancingConstraint) : LoadBalancingConstraint :=
  { constraint with
    minExpressionTree := constraint.minExpressionTree.commitMoves
    maxExpressionTree := constraint.maxExpressionTree.commitMoves
    domainFaultMap := constraint.domainFaultMap.commit }

variable (order : HashOrder) (state : SolvingState)

/-- The partial tree, with one more node over all of its top. -/
def partialTree (domain : Domain) (domainIds : List DomainId) : SparseMappingTree :=
  (state.assignmentTree.createPartialTree domain domainIds).addMapping (SolvingState.kDomainLimit, 0) domain domainIds

def new (domain : Domain) (domainIds : List DomainId) (metric : Metric) (maxDelta : Int) (faultWeightMultiplier : Int → Int)
    (info : BinWeightInfo) : Except Fault (LoadBalancingConstraint × BinWeightInfo) := do
  let loadBalancingDomain := SolvingState.kDomainLimit
  let partialTree := partialTree state domain domainIds
  let (minExpressionTree, domainUpdatedSet) ← ExpressionTree.new order state (minFunc state domain metric) partialTree ∅
  let (maxExpressionTree, domainUpdatedSet) ←
    ExpressionTree.new order state (maxFunc state domain metric) partialTree domainUpdatedSet
  let constraint : LoadBalancingConstraint :=
    { domain, loadBalancingDomain, metric, maxDelta, faultWeightMultiplier, minExpressionTree, maxExpressionTree
      domainUpdatedSet, domainFaultMap := .empty }
  let info := constraint.updateWeights order info
  pure (constraint.commitMoves, info.commit)

def canaryMoves (committedMoves canaryMoves : MovementMapPtr) (constraint : LoadBalancingConstraint) (info : BinWeightInfo) :
    Except Fault (LoadBalancingConstraint × BinWeightInfo) := do
  let (minExpressionTree, domainUpdatedSet) ← constraint.minExpressionTree.canaryMoves order state
    (minFunc state constraint.domain constraint.metric) committedMoves canaryMoves ∅
  let (maxExpressionTree, domainUpdatedSet) ← constraint.maxExpressionTree.canaryMoves order state
    (maxFunc state constraint.domain constraint.metric) committedMoves canaryMoves domainUpdatedSet
  let constraint :=
    { constraint with
      minExpressionTree, maxExpressionTree, domainUpdatedSet, domainFaultMap := constraint.domainFaultMap.clear }
  pure (constraint, constraint.updateWeights order info)

end LoadBalancingConstraint

/-- The two virtual functions the search calls on a constraint. A constraint may
change itself and the weights in any way. -/
class ConstraintOps (C : Type) where
  canaryMoves : HashOrder → SolvingState → MovementMapPtr → MovementMapPtr → C → BinWeightInfo →
    Except Fault (C × BinWeightInfo)
  commitMoves : C → C

/-- The constraints the repository defines in full. -/
inductive Constraint where
  | metric (constraint : MetricConstraint)
  | drain (constraint : DrainConstraint)
  | loadBalancing (constraint : LoadBalancingConstraint)

namespace Constraint

def canaryMoves (order : HashOrder) (state : SolvingState) (committedMoves canaryMoves : MovementMapPtr) :
    Constraint → BinWeightInfo → Except Fault (Constraint × BinWeightInfo)
  | .metric constraint, info => do
    let (constraint, info) ← constraint.canaryMoves order state committedMoves canaryMoves info
    pure (.metric constraint, info)
  | .drain constraint, info => do
    let (constraint, info) ← constraint.canaryMoves order state committedMoves canaryMoves info
    pure (.drain constraint, info)
  | .loadBalancing constraint, info => do
    let (constraint, info) ← constraint.canaryMoves order state committedMoves canaryMoves info
    pure (.loadBalancing constraint, info)

def commitMoves : Constraint → Constraint
  | .metric constraint => .metric constraint.commitMoves
  | .drain constraint => .drain constraint.commitMoves
  | .loadBalancing constraint => .loadBalancing constraint.commitMoves

def domain : Constraint → Domain
  | .metric constraint => constraint.domain
  | .drain constraint => constraint.domain
  | .loadBalancing constraint => constraint.domain

def domainFaultMap : Constraint → FaultMap
  | .metric constraint => constraint.domainFaultMap
  | .drain constraint => constraint.domainFaultMap
  | .loadBalancing constraint => constraint.domainFaultMap

/-- The arguments of the constructors, beside the state. -/
inductive Arguments where
  | metric (consistency : MovementConsistency) (domain : Domain) (domainIds : List DomainId) (metric : Metric)
      (capacity faultWeight : Int)
  | drain (consistency : MovementConsistency) (domain : Domain) (domainIds : List DomainId) (faultWeight : Int)
  | loadBalancing (domain : Domain) (domainIds : List DomainId) (metric : Metric) (maxDelta : Int)
      (faultWeightMultiplier : Int → Int)

def Arguments.domain : Arguments → Domain
  | .metric _ domain _ _ _ _ => domain
  | .drain _ domain _ _ => domain
  | .loadBalancing domain _ _ _ _ => domain

def Arguments.domainIds : Arguments → List DomainId
  | .metric _ _ domainIds _ _ _ => domainIds
  | .drain _ _ domainIds _ => domainIds
  | .loadBalancing _ domainIds _ _ _ => domainIds

def new (order : HashOrder) (state : SolvingState) (info : BinWeightInfo) : Arguments → Except Fault (Constraint × BinWeightInfo)
  | .metric consistency domain domainIds metricId capacity faultWeight => do
    let (constraint, info) ← MetricConstraint.new order state consistency domain domainIds metricId capacity faultWeight info
    pure (.metric constraint, info)
  | .drain consistency domain domainIds faultWeight => do
    let (constraint, info) ← DrainConstraint.new order state consistency domain domainIds faultWeight info
    pure (.drain constraint, info)
  | .loadBalancing domain domainIds metricId maxDelta faultWeightMultiplier => do
    let (constraint, info) ←
      LoadBalancingConstraint.new order state domain domainIds metricId maxDelta faultWeightMultiplier info
    pure (.loadBalancing constraint, info)

instance : ConstraintOps Constraint where
  canaryMoves := canaryMoves
  commitMoves := commitMoves

end Constraint
end ShardManager

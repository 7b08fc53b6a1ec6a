import ShardManager.Proofs.SearchRules

/-! The order in which an iteration of `solve` tries the bins. The pairs that are
sorted hold the weights in 32 bits, and the greater id goes first among equal ones. -/

namespace ShardManager

/-- A sorted list is sorted by another relation as well exactly if, among its members,
the order it is in implies that relation. -/
private theorem pairwise_iff_of_sorted {α : Type} {ordered other : α → α → Prop} {items : List α}
    (antisymmetric : ∀ first second, ordered first second → ordered second first → first = second)
    (sorted : items.Pairwise ordered) (distinct : items.Nodup) :
    items.Pairwise other ↔
      ∀ first ∈ items, ∀ second ∈ items, first ≠ second → ordered first second → other first second := by
  constructor
  · intro also first firstMember second secondMember different inOrder
    let placed := fun first second : α => ordered first second ∧ other first second ∨ ordered second first ∧ other second first
    have symmetric : Std.Symm placed := ⟨fun _ _ => Or.symm⟩
    -- Whichever of the two stands first, it is in both relations to the other.
    have all : items.Pairwise placed := (sorted.and also).imp fun both => .inl both
    rcases all.forall firstMember secondMember different with ⟨_, holds⟩ | ⟨reversed, _⟩
    · exact holds
    · exact absurd (antisymmetric _ _ inOrder reversed) different
  · intro implies
    refine (sorted.and distinct).imp_of_mem ?_
    rintro first second firstMember secondMember ⟨inOrder, different⟩
    exact implies first firstMember second secondMember different inOrder

namespace IterativeLocalSearch
variable (state : SolvingState) (info : BinWeightInfo)

instance : Std.Total hotter := ⟨fun _ _ => by grind [hotter]⟩

instance : IsTrans (Int × DomainId) hotter := ⟨fun _ _ _ => by grind [hotter]⟩

private theorem hotter_antisymm {first second : Int × DomainId} (less : hotter first second) (greater : hotter second first) :
    first = second := by
  grind [hotter]

/-- One bin goes before another: its weight in 32 bits is greater, or it is the same and its id is not less. -/
def Before (first second : DomainId) : Prop :=
  hotter (toInt32 (info.binWeight first), first) (toInt32 (info.binWeight second), second)

private theorem hottestBins_perm : (hottestBins state info).Perm (List.range (state.getDomainSize state.binDomain)) := by
  rw [hottestBins]
  refine ((List.perm_insertionSort hotter _).map Prod.snd).trans ?_
  rw [List.map_map]
  exact List.map_id' _ ▸ List.Perm.refl _

theorem mem_hottestBins_iff (binId : DomainId) : binId ∈ hottestBins state info ↔ binId < state.getDomainSize state.binDomain := by
  rw [(hottestBins_perm state info).mem_iff, List.mem_range]

private theorem hottestBins_sorted : (hottestBins state info).Pairwise (Before info) := by
  rw [hottestBins, List.pairwise_map]
  refine (List.pairwise_insertionSort hotter _).imp_of_mem ?_
  intro first second firstMember secondMember inOrder
  rw [List.mem_insertionSort, List.mem_map] at firstMember secondMember
  obtain ⟨hot, _, rfl⟩ := firstMember
  obtain ⟨cold, _, rfl⟩ := secondMember
  exact inOrder

/-- Of two bins, the one that weighs more also does in 32 bits, or it weighs the same
there and has the greater id. -/
def KeepsOrder (numBins : Nat) : Prop :=
  ∀ hot < numBins, ∀ cold < numBins, info.binWeight cold < info.binWeight hot →
    toInt32 (info.binWeight cold) < toInt32 (info.binWeight hot) ∨
      toInt32 (info.binWeight cold) = toInt32 (info.binWeight hot) ∧ cold < hot

instance (numBins : Nat) : Decidable (KeepsOrder info numBins) := by
  unfold KeepsOrder
  infer_instance

theorem keepsOrder_of_fits {numBins : Nat} (fits : ∀ binId < numBins, FitsInt32 (info.binWeight binId)) :
    KeepsOrder info numBins := by
  intro hot hotInside cold coldInside colder
  rw [toInt32_of_fits (fits hot hotInside), toInt32_of_fits (fits cold coldInside)]
  exact .inl colder

private theorem hottestBins_nonincreasing_iff :
    (hottestBins state info).Pairwise (fun first second => info.binWeight second ≤ info.binWeight first) ↔
      KeepsOrder info (state.getDomainSize state.binDomain) := by
  have antisymmetric : ∀ first second, Before info first second → Before info second first → first = second :=
    fun first second less greater => congrArg Prod.snd (hotter_antisymm less greater)
  have distinct := (hottestBins_perm state info).nodup_iff.mpr List.nodup_range
  rw [pairwise_iff_of_sorted antisymmetric (hottestBins_sorted state info) distinct]
  simp only [mem_hottestBins_iff]
  constructor
  · intro implies hot hotInside cold coldInside colder
    have different : cold ≠ hot := by
      rintro rfl
      exact lt_irrefl _ colder
    by_contra unkept
    have reversed : Before info cold hot := by
      unfold Before hotter
      grind
    exact absurd (implies cold coldInside hot hotInside different reversed) (not_le.mpr colder)
  · intro keeps first firstInside second secondInside _ inOrder
    by_contra lighter
    have kept := keeps second secondInside first firstInside (not_le.mp lighter)
    unfold Before hotter at inOrder
    grind

section Passed
variable {ι C : Type}

/-- The bins that are passed to `getMovementForBin` before the next iteration. -/
def passedBins : List (Event ι C) → List DomainId
  | [] => []
  | .iteration _ :: _ => []
  | .passed binId :: events => binId :: passedBins events
  | .evaluated _ _ _ :: events => passedBins events
  | .committed _ _ _ :: events => passedBins events

/-- Whether a movement is committed before the next iteration. -/
def FindsMovement : List (Event ι C) → Prop
  | [] => False
  | .iteration _ :: _ => False
  | .passed _ :: events => FindsMovement events
  | .evaluated _ _ _ :: events => FindsMovement events
  | .committed _ _ _ :: _ => True

/-- Nothing but candidates is seen of the search for one bin. -/
private def OnlyEvaluated (event : Event ι C) : Prop := ∃ committedMoves canariedMoves world,
  event = .evaluated committedMoves canariedMoves world

/-- Neither a top of an iteration nor a commit is seen within an iteration. -/
private def WithinIteration (event : Event ι C) : Prop := (∃ binId, event = .passed binId) ∨ OnlyEvaluated event

private theorem passedBins_append {within : List (Event ι C)} (inside : ∀ event ∈ within, WithinIteration event)
    (later : List (Event ι C)) :
    passedBins (within ++ later) = passedBins within ++ passedBins later ∧
      (FindsMovement (within ++ later) ↔ FindsMovement later) := by
  induction within with
  | nil => exact ⟨rfl, Iff.rfl⟩
  | cons event within ih =>
    obtain ⟨bins, moved⟩ := ih fun other member => inside other (List.mem_cons_of_mem _ member)
    obtain ⟨binId, rfl⟩ | ⟨_, _, _, rfl⟩ := inside _ List.mem_cons_self
    · exact ⟨congrArg (binId :: ·) bins, moved⟩
    · exact ⟨bins, moved⟩

private theorem passedBins_evaluated {events : List (Event ι C)} (evaluated : ∀ event ∈ events, OnlyEvaluated event) :
    passedBins events = [] := by
  induction events with
  | nil => rfl
  | cons event events ih =>
    obtain ⟨_, _, _, rfl⟩ := evaluated _ List.mem_cons_self
    exact ih fun other member => evaluated other (List.mem_cons_of_mem _ member)

variable [DecidableEq ι] [ConstraintOps C] (order : HashOrder) (constraints : List ι)

private theorem getMovementForBin_evaluates (binId : DomainId) (search : Search ι C) :
    ∀ event ∈ (getMovementForBin order state constraints binId search).events, OnlyEvaluated event := by
  have rule : EvaluationRule order state constraints (fun _ : Search ι C => True) (fun _ _ => True) OnlyEvaluated := by
    constructor
    · exact fun _ _ _ => trivial
    · exact fun search shard nextBin world _ _ _ => ⟨_, _, world, rfl⟩
    · exact fun _ _ _ _ _ _ _ _ => trivial
    · exact fun _ _ _ _ _ _ _ _ => trivial
  exact (rule.getMovementForBin binId search trivial).1

/-- The loop passes the bins in order up to the one a movement is found for, and
all of them where none is found. -/
private theorem tryBins_passes (binWeights : List DomainId) (search : Search ι C) :
    let tried := tryBins order state constraints binWeights search
    (∀ event ∈ tried.events, WithinIteration event) ∧ passedBins tried.events <+: binWeights ∧
      ∀ final, tried.result = .ok (none, final) → passedBins tried.events = binWeights := by
  induction binWeights generalizing search with
  | nil => exact ⟨by rintro _ ⟨⟩, List.prefix_rfl, fun _ _ => rfl⟩
  | cons binId binWeights ih =>
    have evaluated := getMovementForBin_evaluates state order constraints binId search
    have within : ∀ event ∈ (getMovementForBin order state constraints binId search).events, WithinIteration event :=
      fun event member => .inr (evaluated event member)
    have none := passedBins_evaluated evaluated
    simp only [tryBins, bind, Traced.bind, Traced.tell]
    cases done : (getMovementForBin order state constraints binId search).result with
    | error stop =>
      refine ⟨?_, ?_, by rintro _ ⟨⟩⟩
      · simpa using ⟨.inl ⟨binId, rfl⟩, within⟩
      · simp [passedBins, none]
    | ok outcome =>
      obtain ⟨movement, after⟩ := outcome
      cases movement with
      | some movement =>
        refine ⟨?_, ?_, by rintro _ ⟨⟩⟩
        · simpa [Pure.pure, Traced.pure] using ⟨.inl ⟨binId, rfl⟩, within⟩
        · simp [passedBins, none, Pure.pure, Traced.pure]
      | none =>
        obtain ⟨inside, begins, all⟩ := ih after
        have bins := (passedBins_append within (tryBins order state constraints binWeights after).events).1
        rw [none, List.nil_append] at bins
        refine ⟨?_, ?_, ?_⟩
        · intro event member
          simp only [List.singleton_append, List.mem_cons, List.mem_append] at member
          obtain rfl | early | late := member
          · exact .inl ⟨binId, rfl⟩
          · exact within event early
          · exact inside event late
        · simp only [List.singleton_append, passedBins, bins]
          exact List.prefix_cons_inj binId |>.mpr begins
        · intro final exhausted
          simp only [List.singleton_append, passedBins, bins]
          exact congrArg (binId :: ·) (all final exhausted)

private theorem iterate_begins (iterations : Nat) (search : Search ι C) :
    passedBins (iterate order state constraints iterations search).events = [] := by
  cases iterations with
  | zero => rfl
  | succ iterations =>
    simp only [iterate, bind, Traced.bind, Traced.tell]
    split <;> rfl

/-- Every iteration passes the bins from the hottest down to one that it moves a shard
of, and all of them where it moves none. -/
private theorem iterate_passes (iterations : Nat) (search : Search ι C) :
    let run := iterate order state constraints iterations search
    ∀ earlier top later, run.events = earlier ++ .iteration top :: later →
      passedBins later <+: hottestBins state top.world.binWeightInfo ∧
      (run.result.isOk → ¬ FindsMovement later → passedBins later = hottestBins state top.world.binWeightInfo) := by
  induction iterations generalizing search with
  | zero =>
    intro run earlier top later split
    exact absurd split.symm (by simp [run, iterate, Pure.pure, Traced.pure])
  | succ iterations ih =>
    intro run earlier top later split
    obtain ⟨inside, begins, all⟩ := tryBins_passes state order constraints (hottestBins state search.world.binWeightInfo) search
    -- What follows the events of this iteration: nothing, or a commit and the next ones.
    obtain ⟨rest, events, follows⟩ : ∃ rest, run.events =
        .iteration search :: ((tryBins order state constraints (hottestBins state search.world.binWeightInfo) search).events ++ rest) ∧
        (rest = [] ∧ (run.result.isOk → ∃ final, (tryBins order state constraints
            (hottestBins state search.world.binWeightInfo) search).result = .ok (none, final)) ∨
          ∃ movement after, run.result = (iterate order state constraints iterations after).result ∧
            rest = .committed search movement after :: (iterate order state constraints iterations after).events) := by
      simp only [run, iterate, bind, Traced.bind, Traced.tell]
      cases done : (tryBins order state constraints (hottestBins state search.world.binWeightInfo) search).result with
      | error stop => exact ⟨[], by simp, .inl ⟨rfl, fun ok => by cases ok⟩⟩
      | ok outcome =>
        obtain ⟨movement, after⟩ := outcome
        cases movement with
        | none => exact ⟨[], by simp [Pure.pure, Traced.pure], .inl ⟨rfl, fun _ => ⟨after, rfl⟩⟩⟩
        | some movement =>
          refine ⟨_, ?_, .inr ⟨movement, _, rfl, rfl⟩⟩
          simp
    rw [events] at split
    cases earlier with
    | nil =>
      obtain ⟨same, rfl⟩ := List.cons.inj split
      cases same
      obtain ⟨bins, moved⟩ := passedBins_append inside rest
      rw [bins, moved]
      obtain ⟨rfl, exhausted⟩ | ⟨movement, after, _, rfl⟩ := follows
      · rw [passedBins, List.append_nil]
        exact ⟨begins, fun returned _ => (exhausted returned).elim all⟩
      · rw [passedBins, iterate_begins, List.append_nil]
        exact ⟨begins, fun _ unmoved => absurd trivial unmoved⟩
    | cons first earlier =>
      obtain ⟨between, rfl, tail⟩ | ⟨between, tried, tail⟩ := List.append_eq_append_iff.mp (List.cons.inj split).2
      · obtain ⟨rfl, _⟩ | ⟨movement, after, result, rfl⟩ := follows
        · exact absurd tail.symm (by simp)
        · cases between with
          | nil => cases tail
          | cons second between =>
            rw [result]
            exact ih after between top later (List.cons.inj tail).2
      · cases between with
        | nil =>
          obtain ⟨rfl, _⟩ | ⟨movement, after, _, rfl⟩ := follows
          · cases tail
          · cases tail
        | cons second between =>
          obtain ⟨rfl, _⟩ := List.cons.inj tail
          obtain ⟨_, ⟨⟩⟩ | ⟨_, _, _, ⟨⟩⟩ := inside (.iteration top) (tried ▸ by simp)

/-- In every iteration of every run the bins are passed in the order of `hottestBins`,
up to one that a shard of is moved, and all of them where none is. All bins are in that
order, and their weights never increase exactly if the narrowed weights and the ids
keep the order of the weights. -/
theorem hottest_first_iff (maxIterations : Nat) (draws : List Nat) (world : World ι C) :
    let run := solve order state constraints maxIterations draws world
    ∀ earlier top later, run.events = earlier ++ .iteration top :: later →
      let info := top.world.binWeightInfo
      let numBins := state.getDomainSize state.binDomain
      passedBins later <+: hottestBins state info ∧
      (run.result.isOk → ¬ FindsMovement later → passedBins later = hottestBins state info) ∧
      (hottestBins state info).Perm (List.range numBins) ∧
      ((hottestBins state info).Pairwise (fun first second => info.binWeight second ≤ info.binWeight first) ↔
        KeepsOrder info numBins) := by
  intro run earlier top later split info numBins
  obtain ⟨begins, all⟩ := iterate_passes state order constraints maxIterations (start world draws) earlier top later split
  exact ⟨begins, all, hottestBins_perm state info, hottestBins_nonincreasing_iff state info⟩

end Passed

def emptyBins : SolvingState := (SolvingState.new [] [] [[[], []]]).withEmptyMovementMap

/-- Committed weights of `2 ^ 31` for bin 0 and 1 for bin 1. -/
def heavyBin : BinWeightInfo := ((BinWeightInfo.empty.addBinWeight 0 2147483648).addBinWeight 1 1).commit

def heavyWorld : World Unit Constraint := ⟨fun _ => .drain drainedBin.1, heavyBin⟩

def heavyRun : Run Unit Constraint (Search Unit Constraint) := solve .insertion emptyBins [()] 1 [] heavyWorld

private theorem heavyRun_eq :
    heavyRun = ⟨[.iteration (start heavyWorld []), .passed 1, .passed 0], .ok (start heavyWorld [])⟩ := by
  have sorted : hottestBins emptyBins heavyBin = [1, 0] := by decide +kernel
  unfold heavyRun solve iterate
  rw [show (start heavyWorld []).world.binWeightInfo = heavyBin from rfl, sorted]
  rfl

theorem heavy_bin_last :
    heavyRun.events = [.iteration (start heavyWorld []), .passed 1, .passed 0] ∧
      (start heavyWorld []).world.binWeightInfo.binWeight 1 < (start heavyWorld []).world.binWeightInfo.binWeight 0 := by
  exact ⟨by rw [heavyRun_eq], by decide⟩

theorem hottest_first_iff_emptyBins :
    hottestBins emptyBins heavyBin = [1, 0] ∧ [1, 0].Perm (List.range 2) ∧
      ¬ [1, 0].Pairwise fun first second => heavyBin.binWeight second ≤ heavyBin.binWeight first := by
  have begins : heavyRun.events = [] ++ .iteration (start heavyWorld []) :: [.passed 1, .passed 0] := by rw [heavyRun_eq]; rfl
  obtain ⟨_, all, perm, ordered⟩ := hottest_first_iff emptyBins .insertion [()] 1 [] heavyWorld [] _ _ begins
  have passed : [1, 0] = hottestBins emptyBins heavyBin := by
    refine all ?_ (by simp [FindsMovement])
    change heavyRun.result.isOk
    rw [heavyRun_eq]
    rfl
  change (hottestBins emptyBins heavyBin).Perm (List.range 2) at perm
  change (hottestBins emptyBins heavyBin).Pairwise (fun first second => heavyBin.binWeight second ≤ heavyBin.binWeight first) ↔
    KeepsOrder heavyBin 2 at ordered
  rw [← passed] at perm ordered
  exact ⟨passed.symm, perm, fun sorted => absurd (ordered.mp sorted) (by decide)⟩

end IterativeLocalSearch
end ShardManager

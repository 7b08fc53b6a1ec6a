import ShardManager.Proofs.Improvement

/-! The commits of a run, one after another: what each of them does to the
committed moves and to one constraint, wherever it stands among the others. -/

namespace ShardManager.IterativeLocalSearch
variable {ι C : Type} [DecidableEq ι] [ConstraintOps C] (order : HashOrder) (state : SolvingState) (constraints : List ι)

/-- A commit of the search: an accepted candidate, evaluated from the world at the
top of its iteration, and the commits of all constraints. -/
structure CommitStep (before : Search ι C) (movement : MovementMap) (after : Search ι C) : Prop where
  candidate : ∃ shard nextBin, Candidate state before.committedMoves shard nextBin ∧
    movement = .addMovement {} shard nextBin
  moves : after.committedMoves = before.committedMoves.addMovements movement
  world : ∃ world, evaluate order state constraints before.committedMoves movement before.world = .ok world ∧
    after.world = commitAll constraints world

variable {order state constraints}

omit [DecidableEq ι] [ConstraintOps C] in
private theorem mem_history {events : List (Event ι C)} {before after : Search ι C} {movement : MovementMap} :
    (before, movement, after) ∈ history events ↔ .committed before movement after ∈ events := by
  rw [history, List.mem_filterMap]
  constructor
  · rintro ⟨happened, member, chosen⟩
    cases happened with
    | committed before movement after => cases chosen; exact member
    | iteration _ => cases chosen
    | passed _ => cases chosen
    | evaluated _ _ _ => cases chosen
  · intro member
    exact ⟨_, member, rfl⟩

/-- Every run of `solve` is a chain of commits. -/
theorem solve_commits [LawfulConstraint C] (maxIterations : Nat) (draws : List Nat) (world : World ι C) :
    Follows (CommitStep order state constraints) (start world draws)
      (history (solve order state constraints maxIterations draws world).events) := by
  refine iterate_history ?_ maxIterations _
  intro top
  refine ⟨_, _, improvement_rule top _ (by rintro _ _ _ _ _ _ ⟨⟩),
    ⟨.refl _, rfl, rfl⟩, ?_⟩
  rintro movement search ⟨shard, nextBin, candidate, rfl, evaluated, _, _⟩ sameMoves
  exact ⟨⟨shard, nextBin, candidate, rfl⟩, by rw [← sameMoves]; rfl, search.world, evaluated, rfl⟩

section Follows
variable {step : Search ι C → MovementMap → Search ι C → Prop} {search : Search ι C}
  {commits : List (Search ι C × MovementMap × Search ι C)}

omit [DecidableEq ι] [ConstraintOps C] in
theorem Follows.invariant (invariant : Search ι C → Prop)
    (preserved : ∀ before movement after, step before movement after → invariant before → invariant after)
    (follows : Follows step search commits) (begins : invariant search) :
    ∀ commit ∈ commits, invariant commit.1 ∧ invariant commit.2.2 := by
  induction commits generalizing search with
  | nil => simp
  | cons commit commits ih =>
    obtain ⟨before, movement, after⟩ := commit
    obtain ⟨rfl, taken, later⟩ := follows
    have kept := preserved _ _ _ taken begins
    intro other member
    rcases List.mem_cons.mp member with rfl | member
    · exact ⟨begins, kept⟩
    · exact ih later kept other member

end Follows

/-- The loop over the constraints canaries the moves on every one of them, each as
it was committed before the loop. -/
private theorem updateWeights_visited [LawfulConstraint C] {committedMoves canariedMoves : MovementMap} {world after : World ι C}
    {target : ι} (object : C)
    (same : LawfulConstraint.rollback (world.objects target) = LawfulConstraint.rollback object)
    (visited : target ∈ constraints ∨ ∃ info final, ConstraintOps.canaryMoves order state (some committedMoves)
      (some canariedMoves) object info = .ok (world.objects target, final))
    (updated : updateWeights order state constraints committedMoves canariedMoves world = .ok after) :
    ∃ info final, ConstraintOps.canaryMoves order state (some committedMoves) (some canariedMoves) object info =
      .ok (after.objects target, final) := by
  induction constraints generalizing world with
  | nil =>
    cases updated
    simpa using visited
  | cons constraint constraints ih =>
    rw [updateWeights, List.foldlM_cons] at updated
    obtain ⟨middle, turn, rest⟩ := Checked.bind_ok updated
    obtain ⟨⟨changed, info⟩, canaried, turn⟩ := Checked.bind_ok turn
    cases turn
    by_cases here : target = constraint
    · subst here
      have kept := (LawfulConstraint.rollback_canaryMoves _ _ _ _ _ _ _ _ canaried).1
      rw [← LawfulConstraint.canaryMoves_rollback, same, LawfulConstraint.canaryMoves_rollback] at canaried
      refine ih ?_ (.inr ⟨world.binWeightInfo, info, ?_⟩) rest
      · simpa using kept.trans same
      · simpa using canaried
    · refine ih ?_ ?_ rest
      · simpa [here] using same
      · simpa [here] using visited

theorem updateWeights_target [LawfulConstraint C] {committedMoves canariedMoves : MovementMap} {world after : World ι C}
    (updated : updateWeights order state constraints committedMoves canariedMoves world = .ok after) {target : ι}
    (listed : target ∈ constraints) :
    ∃ info final, ConstraintOps.canaryMoves order state (some committedMoves) (some canariedMoves) (world.objects target) info =
      .ok (after.objects target, final) :=
  updateWeights_visited (world.objects target) rfl (.inl listed) updated

theorem evaluate_target [LawfulConstraint C] {committedMoves canariedMoves : MovementMap} {world after : World ι C}
    (evaluated : evaluate order state constraints committedMoves canariedMoves world = .ok after) {target : ι}
    (listed : target ∈ constraints) :
    ∃ info final, ConstraintOps.canaryMoves order state (some committedMoves) (some canariedMoves) (world.objects target) info =
      .ok (after.objects target, final) :=
  updateWeights_target evaluated listed

theorem commitAll_target (world : World ι C) (target : ι) :
    (commitAll constraints world).objects target = ConstraintOps.commitMoves^[constraints.count target] (world.objects target) := by
  induction constraints generalizing world with
  | nil => rfl
  | cons constraint constraints ih =>
    refine (ih (commit world constraint)).trans ?_
    by_cases here : constraint = target
    · subst here
      simp [commit]
    · simp [commit, here, Ne.symm here]

theorem CommitStep.target [LawfulConstraint C] {before after : Search ι C} {movement : MovementMap}
    (step : CommitStep order state constraints before movement after) {target : ι} (listed : target ∈ constraints) :
    ∃ object info final count, ConstraintOps.canaryMoves order state (some before.committedMoves) (some movement)
        (before.world.objects target) info = .ok (object, final) ∧
      after.world.objects target = ConstraintOps.commitMoves^[count] (ConstraintOps.commitMoves object) := by
  obtain ⟨world, evaluated, committed⟩ := step.world
  obtain ⟨info, final, canaried⟩ := evaluate_target evaluated listed
  obtain ⟨count, more⟩ := Nat.exists_eq_succ_of_ne_zero (List.count_pos_iff.mpr listed).ne'
  exact ⟨_, info, final, count, canaried, by rw [committed, commitAll_target, more, Function.iterate_succ_apply]⟩

/-- An assertion about the committed moves and the committed version of one
constraint, kept by every accepted candidate. -/
structure Tracks (order : HashOrder) (state : SolvingState) (holds : MovementMap → C → Prop) : Prop where
  accepted : ∀ moves shard nextBin object info after final, Candidate state moves shard nextBin → holds moves object →
    ConstraintOps.canaryMoves order state (some moves) (some (.addMovement {} shard nextBin)) object info = .ok (after, final) →
      holds (moves.addMovements (.addMovement {} shard nextBin)) (ConstraintOps.commitMoves after)
  again : ∀ moves object, holds moves (ConstraintOps.commitMoves object) →
    holds moves (ConstraintOps.commitMoves (ConstraintOps.commitMoves object))

omit [DecidableEq ι] in
theorem Tracks.committed {holds : MovementMap → C → Prop} (tracks : Tracks order state holds) {moves : MovementMap} {object : C}
    (first : holds moves (ConstraintOps.commitMoves object)) (count : Nat) :
    holds moves (ConstraintOps.commitMoves^[count + 1] object) := by
  induction count with
  | zero => exact first
  | succ count ih =>
    rw [Function.iterate_succ_apply'] at ih ⊢
    rw [Function.iterate_succ_apply']
    exact tracks.again _ _ ih

theorem Tracks.step [LawfulConstraint C] {holds : MovementMap → C → Prop} (tracks : Tracks order state holds) {target : ι}
    (listed : target ∈ constraints) {before after : Search ι C} {movement : MovementMap}
    (step : CommitStep order state constraints before movement after)
    (held : holds before.committedMoves (before.world.objects target)) :
    holds after.committedMoves (after.world.objects target) := by
  obtain ⟨shard, nextBin, candidate, rfl⟩ := step.candidate
  obtain ⟨object, info, final, count, canaried, committed⟩ := step.target listed
  have first := tracks.accepted _ _ _ _ _ _ _ candidate held canaried
  rw [committed, step.moves, ← Function.iterate_succ_apply]
  exact tracks.committed first count

omit [DecidableEq ι] in
theorem Tracks.and {first second : MovementMap → C → Prop} (left : Tracks order state first) (right : Tracks order state second) :
    Tracks order state fun moves object => first moves object ∧ second moves object where
  accepted _ _ _ _ _ _ _ candidate held canaried :=
    ⟨left.accepted _ _ _ _ _ _ _ candidate held.1 canaried, right.accepted _ _ _ _ _ _ _ candidate held.2 canaried⟩
  again _ _ held := ⟨left.again _ _ held.1, right.again _ _ held.2⟩

theorem Tracks.solve [LawfulConstraint C] {holds : MovementMap → C → Prop} (tracks : Tracks order state holds) {target : ι}
    (listed : target ∈ constraints) {maxIterations : Nat} {draws : List Nat} {world : World ι C}
    (begins : holds {} (world.objects target)) {before after : Search ι C} {movement : MovementMap}
    (happened : .committed before movement after ∈ (solve order state constraints maxIterations draws world).events) :
    holds after.committedMoves (after.world.objects target) := by
  have run : Follows (CommitStep order state constraints) (start world draws)
      (history (IterativeLocalSearch.solve order state constraints maxIterations draws world).events) :=
    solve_commits maxIterations draws world
  exact (run.invariant (fun search => holds search.committedMoves (search.world.objects target))
    (fun before movement after step held => tracks.step listed step held) begins _ (mem_history.mpr happened)).2

/-- Every evaluation of a run canaries the tracked version of the constraint. -/
theorem Tracks.solve_evaluated [LawfulConstraint C] {holds : MovementMap → C → Prop} (tracks : Tracks order state holds)
    (rolled : ∀ moves object other, LawfulConstraint.rollback other = LawfulConstraint.rollback object → holds moves object →
      holds moves other)
    {target : ι} (listed : target ∈ constraints) {maxIterations : Nat} {draws : List Nat} {world : World ι C}
    (begins : holds {} (world.objects target)) {committedMoves canariedMoves : MovementMap} {view : World ι C}
    (happened : .evaluated committedMoves canariedMoves view ∈
      (IterativeLocalSearch.solve order state constraints maxIterations draws world).events) :
    ∃ shard nextBin object info final, Candidate state committedMoves shard nextBin ∧
      canariedMoves = .addMovement {} shard nextBin ∧ holds committedMoves object ∧
      ConstraintOps.canaryMoves order state (some committedMoves) (some canariedMoves) object info =
        .ok (view.objects target, final) := by
  let Canaried (moves canariedMoves : MovementMap) (view : World ι C) : Prop := ∃ shard nextBin object info final,
    Candidate state moves shard nextBin ∧ canariedMoves = .addMovement {} shard nextBin ∧ holds moves object ∧
    ConstraintOps.canaryMoves order state (some moves) (some canariedMoves) object info = .ok (view.objects target, final)
  let onEvent : Event ι C → Prop := fun
    | .evaluated moves canariedMoves view => Canaried moves canariedMoves view
    | _ => True
  have canaried : ∀ (search : Search ι C) shard nextBin view, holds search.committedMoves (search.world.objects target) →
      Candidate state search.committedMoves shard nextBin →
      evaluate order state constraints search.committedMoves (.addMovement {} shard nextBin) search.world = .ok view →
        Canaried search.committedMoves (.addMovement {} shard nextBin) view := by
    intro search shard nextBin view held candidate evaluated
    obtain ⟨info, final, called⟩ := evaluate_target evaluated listed
    exact ⟨shard, nextBin, _, info, final, candidate, rfl, held, called⟩
  have run : Traced.Satisfies onEvent (fun _ => True) (iterate order state constraints maxIterations (start world draws)) := by
    refine iterate_satisfies (fun search => holds search.committedMoves (search.world.objects target)) _ (fun _ => trivial) ?_
      (fun _ _ => trivial)
      maxIterations (start world draws) begins
    intro top held
    refine ⟨trivial, fun search => holds search.committedMoves (search.world.objects target),
      fun movement search => Canaried search.committedMoves movement search.world, ⟨?_, ?_, ?_, ?_⟩, held, fun _ _ => trivial, ?_⟩
    · exact fun _ _ kept => kept
    · exact fun search shard nextBin view kept candidate evaluated => canaried search shard nextBin view kept candidate evaluated
    · intro search shard nextBin view kept candidate evaluated _
      obtain ⟨_, _, object, _, _, _, _, before, called⟩ := canaried search shard nextBin view kept candidate evaluated
      exact rolled _ _ _ (LawfulConstraint.rollback_canaryMoves _ _ _ _ _ _ _ _ called).1 before
    · exact fun search shard nextBin view kept candidate evaluated _ => canaried search shard nextBin view kept candidate evaluated
    · rintro movement search ⟨shard, nextBin, object, info, final, candidate, rfl, before, called⟩ _
      refine ⟨trivial, ?_⟩
      obtain ⟨count, more⟩ := Nat.exists_eq_succ_of_ne_zero (List.count_pos_iff.mpr listed).ne'
      have first := tracks.accepted _ _ _ _ _ _ _ candidate before called
      change holds _ ((commitAll constraints search.world).objects target)
      rw [commitAll_target, more]
      exact tracks.committed first count
  exact run.1 _ happened

end ShardManager.IterativeLocalSearch

import ShardManager.Lib.EventRun
import ShardManager.Placer.MockShardBin

/-! What a mock bin reports at any time, against the shards that were added and dropped
before. The schedule forgets: a poll erases what is gone, and a drop that finds nothing
starts at the epoch. -/

namespace ShardManager
namespace MockShardBin

inductive Call
  | addShard (shardId : UInt32)
  | dropShard (shardId : UInt32)
  | getActiveShards

/-- The latest `addShard` of a shard, and each `dropShard` since, the last one first. -/
structure Stay where
  added : TimePoint
  dropped : List TimePoint

def Stay.up (stay : Stay) (bin : MockShardBin) : TimePoint := stay.added + seconds bin.addTime

def Stay.Active (stay : Stay) (bin : MockShardBin) (now : TimePoint) : Prop :=
  stay.up bin ≤ now ∧ (stay.dropped = [] ∨ ∃ drop ∈ stay.dropped, now ≤ drop + seconds bin.dropTime)

/-- A bin after some calls, the same bin without the polls among them, and what the
calls were about. -/
structure Watched where
  bin : MockShardBin
  unpolled : MockShardBin
  stays : UnorderedMap UInt32 Stay
  now : TimePoint

def watched (never : TimePoint) : Machine Watched (TimePoint × Call) where
  enabled state call := state.now ≤ call.1 ∧
    match call.2 with
    | .dropShard shardId => shardId ∈ state.stays
    | _ => True
  next state
    | (now, .addShard shardId) =>
      ⟨state.bin.addShard never now shardId, state.unpolled.addShard never now shardId,
        state.stays.insert shardId ⟨now, []⟩, now⟩
    | (now, .dropShard shardId) =>
      ⟨state.bin.dropShard now shardId, state.unpolled.dropShard now shardId,
        match state.stays.lookup shardId with
        | none => state.stays
        | some stay => state.stays.insert shardId ⟨stay.added, now :: stay.dropped⟩,
        now⟩
    | (now, .getActiveShards) => ⟨(state.bin.getActiveShards now).2, state.unpolled, state.stays, now⟩

def begin (dropTime addTime : Int) (start : TimePoint) : Watched :=
  ⟨new dropTime addTime, new dropTime addTime, ∅, start⟩

/-- The poll reports the shards that are up, as it would without the polls before it, and
forgets none that is being added. -/
structure ExactPoll (state : Watched) (now : TimePoint) : Prop where
  active : ∀ shardId, shardId ∈ (state.bin.getActiveShards now).1 ↔
    ∃ stay, state.stays.lookup shardId = some stay ∧ stay.Active state.bin now
  once : (state.bin.getActiveShards now).1.Nodup
  unpolled : ∀ shardId, shardId ∈ (state.bin.getActiveShards now).1 ↔ shardId ∈ (state.unpolled.getActiveShards now).1
  remembered : ∀ shardId stay, state.stays.lookup shardId = some stay → stay.dropped = [] → now < stay.up state.bin →
    shardId ∈ (state.bin.getActiveShards now).2.shardSchedule

/-- Each shard is gone since its last drop, or the poll comes in the very instant in which
it is up. In that instant its entry has not ended where it was not dropped, and no
earlier poll has erased the time where it was, unless the clock is not past the epoch. -/
def Timely (never : TimePoint) (state : Watched) (now : TimePoint) : Prop :=
  ∀ shardId stay, state.stays.lookup shardId = some stay →
    match stay.dropped with
    | [] => now = stay.up state.bin ∧ now ≤ never
    | drop :: _ => drop + seconds state.bin.dropTime < now ∨ now = stay.up state.bin ∧
      (now ≤ 0 ∨ ∃ gone, state.bin.shardSchedule.lookup shardId = some (stay.up state.bin, gone))

def Exact (state : Watched) (call : TimePoint × Call) : Prop := call.2 = .getActiveShards → ExactPoll state call.1

def TimelyCall (never : TimePoint) (state : Watched) (call : TimePoint × Call) : Prop :=
  call.2 = .getActiveShards → Timely never state call.1

section Invariant
variable {never now later : TimePoint} {dropTime addTime : Int} {bin : MockShardBin} {stay : Stay}
  {entry unpolled : Option (TimePoint × TimePoint)}

def Stay.gone (never : TimePoint) (dropTime : Int) (stay : Stay) : TimePoint :=
  match stay.dropped with
  | [] => never
  | drop :: _ => drop + seconds dropTime

/-- The entries of a shard in the two bins. -/
structure Entered (never : TimePoint) (dropTime addTime : Int) (now : TimePoint) (stay : Stay)
    (entry unpolled : Option (TimePoint × TimePoint)) : Prop where
  past : ∀ drop ∈ stay.dropped, drop ≤ now
  ordered : stay.dropped.Pairwise fun last earlier => earlier ≤ last
  unpolled : unpolled = some (stay.added + seconds addTime, stay.gone never dropTime)
  entry : entry = none ∧ stay.gone never dropTime < now ∨ ∃ first, entry = some (first, stay.gone never dropTime) ∧
    (first = stay.added + seconds addTime ∨ first = 0 ∧ stay.dropped ≠ [])

private theorem Entered.wait (entered : Entered never dropTime addTime now stay entry unpolled) (waits : now ≤ later) :
    Entered never dropTime addTime later stay entry unpolled where
  past drop dropped := Int.le_trans (entered.past drop dropped) waits
  ordered := entered.ordered
  unpolled := entered.unpolled
  entry := entered.entry.imp_left fun erased => ⟨erased.1, Int.lt_of_lt_of_le erased.2 waits⟩

private theorem entered_add (never now : TimePoint) (dropTime addTime : Int) :
    Entered never dropTime addTime now ⟨now, []⟩ (some (now + seconds addTime, never)) (some (now + seconds addTime, never)) where
  past := by rintro _ ⟨⟩
  ordered := .nil
  unpolled := rfl
  entry := .inr ⟨_, rfl, .inl rfl⟩

theorem Entered.drop (entered : Entered never dropTime addTime now stay entry unpolled) (waits : now ≤ later) :
    Entered never dropTime addTime later ⟨stay.added, later :: stay.dropped⟩
      (some ((entry.getD (0, 0)).1, later + seconds dropTime)) (some ((unpolled.getD (0, 0)).1, later + seconds dropTime)) where
  past drop dropped := by
    rcases List.mem_cons.mp dropped with rfl | before
    · exact Int.le_refl _
    · exact Int.le_trans (entered.past drop before) waits
  ordered := List.pairwise_cons.mpr ⟨fun drop before => Int.le_trans (entered.past drop before) waits, entered.ordered⟩
  unpolled := by rw [entered.unpolled]; rfl
  entry := by
    right
    rcases entered.entry with ⟨rfl, _⟩ | ⟨first, rfl, start⟩
    · exact ⟨0, rfl, .inr ⟨rfl, by simp⟩⟩
    · exact ⟨first, rfl, start.imp_right fun epoch => ⟨epoch.1, by simp⟩⟩

private theorem Entered.poll (entered : Entered never dropTime addTime now stay entry unpolled) (waits : now ≤ later) :
    Entered never dropTime addTime later stay (entry.filter fun times => later ≤ times.2) unpolled where
  past drop dropped := Int.le_trans (entered.past drop dropped) waits
  ordered := entered.ordered
  unpolled := entered.unpolled
  entry := by
    rcases entered.entry with ⟨rfl, ended⟩ | ⟨first, rfl, start⟩
    · exact .inl ⟨rfl, Int.lt_of_lt_of_le ended waits⟩
    · by_cases stays : later ≤ stay.gone never dropTime
      · exact .inr ⟨first, Option.filter_some_pos (by simpa using stays), start⟩
      · exact .inl ⟨Option.filter_some_neg (by simpa using stays), Int.not_le.mp stays⟩

def Reported (entry : Option (TimePoint × TimePoint)) (now : TimePoint) : Prop :=
  ∃ times, entry = some times ∧ now ≤ times.2 ∧ now ≤ times.1

private theorem Entered.reported_unpolled (entered : Entered never dropTime addTime now stay entry unpolled) (later : TimePoint) :
    Reported unpolled later ↔ later ≤ stay.gone never dropTime ∧ later ≤ stay.added + seconds addTime := by
  rw [Reported, entered.unpolled]
  constructor
  · rintro ⟨_, ⟨⟩, active⟩
    exact active
  · exact fun active => ⟨_, rfl, active⟩

theorem Entered.reported (entered : Entered never dropTime addTime now stay entry unpolled) (waits : now ≤ later) :
    Reported entry later ↔ later ≤ stay.gone never dropTime ∧ later ≤ (entry.getD (0, 0)).1 := by
  rcases entered.entry with ⟨rfl, ended⟩ | ⟨first, rfl, _⟩
  · refine iff_of_false ?_ fun active => Int.not_le.mpr (Int.lt_of_lt_of_le ended waits) active.1
    rintro ⟨_, ⟨⟩, _⟩
  · constructor
    · rintro ⟨_, ⟨⟩, active⟩
      exact active
    · exact fun active => ⟨_, rfl, active⟩

private theorem Entered.active_iff (entered : Entered never bin.dropTime bin.addTime now stay entry unpolled) (later : TimePoint) :
    stay.Active bin later ↔ stay.up bin ≤ later ∧ (stay.dropped = [] ∨ later ≤ stay.gone never bin.dropTime) := by
  obtain ⟨added, dropped⟩ := stay
  refine and_congr_right fun _ => ?_
  cases dropped with
  | nil => simp
  | cons last earlier =>
    simp only [reduceCtorEq, false_or]
    constructor
    · rintro ⟨drop, dropped, before⟩
      have latest : drop ≤ last := by
        rcases List.mem_cons.mp dropped with rfl | older
        · exact Int.le_refl _
        · exact (List.pairwise_cons.mp entered.ordered).1 drop older
      exact Int.le_trans before (Int.add_le_add_right latest _)
    · exact fun before => ⟨last, List.mem_cons_self, before⟩

/-- An undropped shard is reported at the right times only if it is polled in the instant
in which it is up: earlier it is not to be reported, but reported, and later the reverse. -/
private theorem exact_undropped_iff {up : TimePoint} (entry : Option (TimePoint × TimePoint))
    (present : entry = none ∧ never < later ∨ entry = some (up, never)) :
    ((later ≤ never ∧ later ≤ (entry.getD (0, 0)).1 ↔ up ≤ later) ∧
        (later < up → ∃ times, entry = some times ∧ later ≤ times.2)) ↔
      later = up ∧ later ≤ never := by
  rcases present with ⟨rfl, ended⟩ | rfl
  · refine iff_of_false ?_ fun timely => Int.not_le.mpr ended timely.2
    rintro ⟨active, remembered⟩
    by_cases adding : later < up
    · obtain ⟨_, ⟨⟩, _⟩ := remembered adding
    · exact Int.not_le.mpr ended (active.mpr (Int.not_lt.mp adding)).1
  · constructor
    · rintro ⟨active, remembered⟩
      have waited : up ≤ later := by
        refine Int.not_lt.mp fun adding => ?_
        obtain ⟨_, ⟨⟩, stays⟩ := remembered adding
        exact Int.not_lt.mpr (active.mp ⟨stays, Int.le_of_lt adding⟩) adding
      obtain ⟨stays, early⟩ := active.mpr waited
      exact ⟨Int.le_antisymm early waited, stays⟩
    · rintro ⟨rfl, stays⟩
      exact ⟨iff_of_true ⟨stays, Int.le_refl _⟩ (Int.le_refl _), fun adding => absurd adding (Int.lt_irrefl _)⟩

/-- A dropped shard that is not gone is reported while its entry starts later, and the
polls before matter if they erased that start. -/
private theorem exact_dropped_iff {up first gone : TimePoint} (stays : later ≤ gone) (start : first = up ∨ first = 0) :
    ((later ≤ gone ∧ later ≤ first ↔ up ≤ later ∧ later ≤ gone) ∧ (later ≤ gone ∧ later ≤ first ↔ later ≤ gone ∧ later ≤ up)) ↔
      later = up ∧ (later ≤ 0 ∨ first = up) := by
  constructor
  · rintro ⟨active, unpolled⟩
    have instant : later = up := by
      rcases Int.le_total up later with waited | early
      · exact Int.le_antisymm (unpolled.mp (active.mpr ⟨waited, stays⟩)).2 waited
      · exact Int.le_antisymm early (active.mp (unpolled.mpr ⟨stays, early⟩)).1
    have reported := (active.mpr ⟨Int.le_of_eq instant.symm, stays⟩).2
    refine ⟨instant, ?_⟩
    rcases start with same | epoch
    · exact .inr same
    · exact .inl (epoch ▸ reported)
  · rintro ⟨instant, early⟩
    have reported : later ≤ first := by
      rcases early with past | kept
      · rcases start with same | epoch
        · exact same ▸ Int.le_of_eq instant
        · exact epoch ▸ past
      · exact kept ▸ Int.le_of_eq instant
    exact ⟨iff_of_true ⟨stays, reported⟩ ⟨Int.le_of_eq instant.symm, stays⟩,
      iff_of_true ⟨stays, reported⟩ ⟨stays, Int.le_of_eq instant⟩⟩

/-- What the poll does to a single shard is as it should be exactly if the poll is timely. -/
private theorem Entered.exact_iff (entered : Entered never bin.dropTime bin.addTime now stay entry unpolled) (waits : now ≤ later) :
    ((Reported entry later ↔ stay.Active bin later) ∧ (Reported entry later ↔ Reported unpolled later) ∧
        (stay.dropped = [] → later < stay.up bin → ∃ times, entry = some times ∧ later ≤ times.2)) ↔
      match stay.dropped with
      | [] => later = stay.up bin ∧ later ≤ never
      | drop :: _ => drop + seconds bin.dropTime < later ∨
        later = stay.up bin ∧ (later ≤ 0 ∨ ∃ gone, entry = some (stay.up bin, gone)) := by
  rw [entered.reported waits, entered.reported_unpolled, entered.active_iff]
  have entries := entered.entry
  obtain ⟨added, dropped⟩ := stay
  cases dropped with
  | nil =>
    simp only [Stay.gone, Stay.up, true_or, and_true, true_imp_iff, ne_eq, not_true_eq_false, and_false, or_false] at entries ⊢
    have present : entry = none ∧ never < later ∨ entry = some (added + seconds bin.addTime, never) := by
      rcases entries with ⟨erased, ended⟩ | ⟨_, found, rfl⟩
      · exact .inl ⟨erased, Int.lt_of_lt_of_le ended waits⟩
      · exact .inr found
    -- the polls before have erased nothing that this one would report
    have unpolled : (later ≤ never ∧ later ≤ (entry.getD (0, 0)).1 ↔ later ≤ never ∧ later ≤ added + seconds bin.addTime) := by
      rcases present with ⟨rfl, ended⟩ | rfl
      · exact and_congr_right fun stays => absurd stays (Int.not_le.mpr ended)
      · exact Iff.rfl
    rw [← exact_undropped_iff entry present, and_iff_right unpolled]
  | cons last earlier =>
    simp only [Stay.gone, Stay.up, reduceCtorEq, false_or, false_imp_iff, and_true] at entries ⊢
    by_cases ended : last + seconds bin.dropTime < later
    · have silent : ∀ first, ¬ (later ≤ last + seconds bin.dropTime ∧ first) := fun _ stays => Int.not_le.mpr ended stays.1
      refine iff_of_true ⟨iff_of_false (silent _) fun active => ?_, iff_of_false (silent _) (silent _)⟩ (.inl ended)
      exact Int.not_le.mpr ended active.2
    · rcases entries with ⟨_, before⟩ | ⟨first, rfl, start⟩
      · exact absurd (Int.lt_of_lt_of_le before waits) ended
      · rw [or_iff_right ended]
        refine (exact_dropped_iff (Int.not_lt.mp ended) (start.imp_right And.left)).trans ?_
        simp

end Invariant

/-- The schedules of both bins have the shards that were added, as far as they are not erased. -/
structure Tracks (never : TimePoint) (state : Watched) : Prop where
  dropTime : state.unpolled.dropTime = state.bin.dropTime
  addTime : state.unpolled.addTime = state.bin.addTime
  unknown : ∀ shardId, state.stays.lookup shardId = none →
    state.bin.shardSchedule.lookup shardId = none ∧ state.unpolled.shardSchedule.lookup shardId = none
  entered : ∀ shardId stay, state.stays.lookup shardId = some stay →
    Entered never state.bin.dropTime state.bin.addTime state.now stay (state.bin.shardSchedule.lookup shardId)
      (state.unpolled.shardSchedule.lookup shardId)

variable {never now : TimePoint} {state : Watched}

private theorem tracks_begin (never : TimePoint) (dropTime addTime : Int) (start : TimePoint) :
    Tracks never (begin dropTime addTime start) where
  dropTime := rfl
  addTime := rfl
  unknown _ _ := ⟨rfl, rfl⟩
  entered _ _ found := by cases found

/-- A call that enters a shard into both schedules leaves the others as they are. -/
private theorem Tracks.enter (tracks : Tracks never state) (waits : state.now ≤ now) (shardId : UInt32) {stay : Stay}
    {entry unpolled : TimePoint × TimePoint}
    (entered : Entered never state.bin.dropTime state.bin.addTime now stay (some entry) (some unpolled)) :
    Tracks never ⟨{ state.bin with shardSchedule := state.bin.shardSchedule.insert shardId entry },
      { state.unpolled with shardSchedule := state.unpolled.shardSchedule.insert shardId unpolled },
      state.stays.insert shardId stay, now⟩ where
  dropTime := tracks.dropTime
  addTime := tracks.addTime
  unknown other unknown := by
    simp only [UnorderedMap.lookup_insert] at unknown ⊢
    split at unknown
    next => cases unknown
    next different =>
      rw [if_neg different, if_neg different]
      exact tracks.unknown other unknown
  entered other found known := by
    simp only [UnorderedMap.lookup_insert] at known ⊢
    split at known
    next same =>
      cases known
      rw [if_pos same, if_pos same]
      exact entered
    next different =>
      rw [if_neg different, if_neg different]
      exact (tracks.entered other found known).wait waits

theorem Tracks.addShard (tracks : Tracks never state) (waits : state.now ≤ now) (shardId : UInt32) :
    Tracks never ((watched never).next state (now, .addShard shardId)) := by
  have entered : Entered never state.bin.dropTime state.bin.addTime now ⟨now, []⟩ (some (now + seconds state.bin.addTime, never))
      (some (now + seconds state.unpolled.addTime, never)) := by
    rw [tracks.addTime]
    exact entered_add never now _ _
  exact tracks.enter waits shardId entered

theorem Tracks.dropShard (tracks : Tracks never state) (waits : state.now ≤ now) {shardId : UInt32} {dropped : Stay}
    (known : state.stays.lookup shardId = some dropped) :
    Tracks never ((watched never).next state (now, .dropShard shardId)) := by
  have entered : Entered never state.bin.dropTime state.bin.addTime now ⟨dropped.added, now :: dropped.dropped⟩
      (some (((state.bin.shardSchedule.lookup shardId).getD (0, 0)).1, now + seconds state.bin.dropTime))
      (some (((state.unpolled.shardSchedule.lookup shardId).getD (0, 0)).1, now + seconds state.unpolled.dropTime)) := by
    rw [tracks.dropTime]
    exact (tracks.entered shardId dropped known).drop waits
  simp only [watched, known]
  exact tracks.enter waits shardId entered

theorem Tracks.getActiveShards (tracks : Tracks never state) (waits : state.now ≤ now) :
    Tracks never ((watched never).next state (now, .getActiveShards)) where
  dropTime := tracks.dropTime
  addTime := tracks.addTime
  unknown other unknown := by
    simp only [watched]
    rw [lookup_getActiveShards, (tracks.unknown other unknown).1]
    exact ⟨rfl, (tracks.unknown other unknown).2⟩
  entered other stay found := by
    simp only [watched]
    rw [lookup_getActiveShards]
    exact (tracks.entered other stay found).poll waits

theorem Tracks.next (tracks : Tracks never state) {call : TimePoint × Call} (enabled : (watched never).enabled state call) :
    Tracks never ((watched never).next state call) := by
  obtain ⟨now, call⟩ := call
  obtain ⟨waits, known⟩ := enabled
  cases call with
  | addShard shardId => exact tracks.addShard waits shardId
  | dropShard shardId =>
    obtain ⟨stay, found⟩ := (UnorderedMap.mem_iff _ _).mp known
    exact tracks.dropShard waits found
  | getActiveShards => exact tracks.getActiveShards waits

private theorem Tracks.exactPoll_iff (tracks : Tracks never state) (waits : state.now ≤ now) :
    ExactPoll state now ↔ Timely never state now := by
  have reported : ∀ (bin : MockShardBin) shardId, shardId ∈ (bin.getActiveShards now).1 ↔
      Reported (bin.shardSchedule.lookup shardId) now := fun _ _ => mem_getActiveShards
  constructor
  · intro exact shardId stay found
    have entered := tracks.entered shardId stay found
    refine (entered.exact_iff waits).mp ⟨?_, ?_, ?_⟩
    · rw [← reported, exact.active, found]
      simp
    · rw [← reported, ← reported]
      exact exact.unpolled shardId
    · intro undropped adding
      have remembered := exact.remembered shardId stay found undropped adding
      rw [UnorderedMap.mem_iff, lookup_getActiveShards] at remembered
      simpa [Option.filter_eq_some_iff] using remembered
  · intro timely
    have exactly := fun shardId stay found =>
      ((tracks.entered shardId stay found).exact_iff waits).mpr (timely shardId stay found)
    refine ⟨fun shardId => ?_, nodup_getActiveShards _ _, fun shardId => ?_, fun shardId stay found undropped adding => ?_⟩
    · rw [reported]
      cases found : state.stays.lookup shardId with
      | none => simp [Reported, (tracks.unknown shardId found).1]
      | some stay => simpa using (exactly shardId stay found).1
    · rw [reported, reported]
      cases found : state.stays.lookup shardId with
      | none => rw [(tracks.unknown shardId found).1, (tracks.unknown shardId found).2]
      | some stay => exact (exactly shardId stay found).2.1
    · rw [UnorderedMap.mem_iff, lookup_getActiveShards]
      simpa [Option.filter_eq_some_iff] using (exactly shardId stay found).2.2 undropped adding

/-- In any run the polls are exact if and only if they are timely. -/
theorem exact_iff_timely (never : TimePoint) (dropTime addTime : Int) (start : TimePoint) (calls : List (TimePoint × Call))
    (runs : (watched never).Runs (begin dropTime addTime start) calls) :
    (watched never).EachStep Exact (begin dropTime addTime start) calls ↔
      (watched never).EachStep (TimelyCall never) (begin dropTime addTime start) calls :=
  runs.eachStep_congr (fun _ _ tracks enabled => tracks.next enabled)
    (fun _ _ tracks enabled => imp_congr_right fun _ => tracks.exactPoll_iff enabled.1) (tracks_begin never dropTime addTime start)

def addedAndDropped : List (TimePoint × Call) :=
  [(0, .addShard 7), (seconds 1, .getActiveShards), (seconds 2, .dropShard 7), (seconds 9, .getActiveShards)]

theorem exact_iff_timely_addedAndDropped :
    (watched (seconds 100)).EachStep Exact (begin 5 1 0) addedAndDropped ↔
      (watched (seconds 100)).EachStep (TimelyCall (seconds 100)) (begin 5 1 0) addedAndDropped :=
  exact_iff_timely (seconds 100) 5 1 0 addedAndDropped
    ⟨⟨by decide, trivial⟩, ⟨by decide, trivial⟩, ⟨by decide, by decide⟩, ⟨by decide, trivial⟩, trivial⟩

/-- A second after it is up, a shard that nobody dropped is not reported. -/
theorem not_exact_upShard :
    ¬ ∃ never, (watched never).EachStep Exact (begin 5 1 0) [(0, .addShard 7), (seconds 2, .getActiveShards)] := by
  rintro ⟨never, exact⟩
  have poll := exact [(0, .addShard 7)] (seconds 2, .getActiveShards) [] rfl rfl
  have reported := (poll.active 7).mpr ⟨⟨0, []⟩, rfl, (by decide : 0 + seconds 1 ≤ seconds 2), .inl rfl⟩
  obtain ⟨_, ⟨⟩, _, up⟩ := mem_getActiveShards.mp reported
  exact absurd up (by decide : ¬ seconds 2 ≤ 0 + seconds 1)

end MockShardBin
end ShardManager

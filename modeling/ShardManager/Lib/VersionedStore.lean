import ShardManager.Lib.EventRun
import Mathlib.Data.Finmap

/-! Stores in two versions: what is committed, and a canary laid over it. Whatever a
store is made of, five equations on single calls make it behave, over any sequence of
calls, as two finite maps do. -/

namespace ShardManager

/-- The calls that change a store in two versions. -/
inductive StoreCall (K V : Type) where
  | set (isCanary : Bool) (val : V) (key : K)
  | commit
  | clear

/-- The members of a store that is kept in a state. -/
structure VersionedStore (S K V : Type) where
  empty : S
  set : S → Bool → V → K → S
  commit : S → S
  clear : S → S
  get : S → K → Option V
  getFromCanary : S → K → Option V
  getFromCommitted : S → K → Option V

/-- Two finite maps. -/
structure Versions (K V : Type) where
  canary : Finmap fun _ : K => V
  committed : Finmap fun _ : K => V

/-- The store that two finite maps are. -/
def Versions.store (K V : Type) [DecidableEq K] : VersionedStore (Versions K V) K V where
  empty := ⟨∅, ∅⟩
  set versions isCanary val key :=
    if isCanary then { versions with canary := versions.canary.insert key val }
    else { versions with committed := versions.committed.insert key val }
  commit versions := ⟨∅, versions.canary ∪ versions.committed⟩
  clear versions := { versions with canary := ∅ }
  get versions key := (versions.canary.lookup key).or (versions.committed.lookup key)
  getFromCanary versions key := versions.canary.lookup key
  getFromCommitted versions key := versions.committed.lookup key

namespace VersionedStore
variable {S K V : Type} (store : VersionedStore S K V)

def machine : Machine S (StoreCall K V) where
  enabled _ _ := True
  next state
    | .set isCanary val key => store.set state isCanary val key
    | .commit => store.commit state
    | .clear => store.clear state

/-- The state after some calls on a new store. -/
def after (calls : List (StoreCall K V)) : S := store.machine.after store.empty calls

theorem after_append (earlier later : List (StoreCall K V)) :
    store.after (earlier ++ later) = store.machine.after (store.after earlier) later := Machine.after_append _ _

theorem after_concat (calls : List (StoreCall K V)) (call : StoreCall K V) :
    store.after (calls ++ [call]) = store.machine.next (store.after calls) call := store.after_append calls [call]

variable [DecidableEq K]

/-- The last value that is set under a key in the committed version. -/
def lastCommitted (key : K) : List (StoreCall K V) → Option V
  | [] => none
  | .set false val other :: later => (lastCommitted key later).or (if key = other then some val else none)
  | _ :: later => lastCommitted key later

/-- What the single calls do to the two versions. -/
structure Lawful : Prop where
  get : ∀ state key, store.get state key = (store.getFromCanary state key).or (store.getFromCommitted state key)
  empty : ∀ key, store.getFromCanary store.empty key = none ∧ store.getFromCommitted store.empty key = none
  set : ∀ state isCanary val key other,
    store.getFromCanary (store.set state isCanary val key) other =
        (if isCanary = true ∧ other = key then some val else store.getFromCanary state other) ∧
      store.getFromCommitted (store.set state isCanary val key) other =
        if isCanary = false ∧ other = key then some val else store.getFromCommitted state other
  commit : ∀ state key, store.getFromCanary (store.commit state) key = none ∧
    store.getFromCommitted (store.commit state) key = store.get state key
  clear : ∀ state key, store.getFromCanary (store.clear state) key = none ∧
    store.getFromCommitted (store.clear state) key = store.getFromCommitted state key

/-- After any calls, the store reads as two finite maps would, and its calls do to its
values what they are named after. -/
structure KeepsTwoVersions : Prop where
  reads : ∀ calls key, store.get (store.after calls) key = (Versions.store K V).get ((Versions.store K V).after calls) key ∧
    store.getFromCanary (store.after calls) key = (Versions.store K V).getFromCanary ((Versions.store K V).after calls) key ∧
    store.getFromCommitted (store.after calls) key = (Versions.store K V).getFromCommitted ((Versions.store K V).after calls) key
  commit : ∀ calls key, store.get (store.after (calls ++ [.commit])) key = store.get (store.after calls) key ∧
    store.getFromCanary (store.after (calls ++ [.commit])) key = none
  clear : ∀ calls key, store.get (store.after (calls ++ [.clear])) key = store.getFromCommitted (store.after calls) key
  sinceCommit : ∀ earlier later key, .commit ∉ later →
    store.getFromCommitted (store.after (earlier ++ .commit :: later)) key =
        (lastCommitted key later).or (store.get (store.after (earlier ++ [.commit])) key) ∧
      store.getFromCommitted (store.after later) key = lastCommitted key later
  others : ∀ calls isCanary val key other, other ≠ key →
    store.get (store.after (calls ++ [.set isCanary val key])) other = store.get (store.after calls) other ∧
      store.getFromCanary (store.after (calls ++ [.set isCanary val key])) other = store.getFromCanary (store.after calls) other ∧
      store.getFromCommitted (store.after (calls ++ [.set isCanary val key])) other =
        store.getFromCommitted (store.after calls) other

end VersionedStore

private theorem lookup_noVals {K V : Type} [DecidableEq K] (key : K) : (∅ : Finmap fun _ : K => V).lookup key = none :=
  Finmap.lookup_empty key

theorem Versions.lawful (K V : Type) [DecidableEq K] : (Versions.store K V).Lawful where
  get _ _ := rfl
  empty key := ⟨lookup_noVals key, lookup_noVals key⟩
  set state isCanary val key other := by
    have insert : ∀ map : Finmap fun _ : K => V, (map.insert key val).lookup other =
        if other = key then some val else map.lookup other := by
      intro map
      split
      next same => rw [same, Finmap.lookup_insert]
      next different => exact Finmap.lookup_insert_of_ne map different
    cases isCanary <;> simp [Versions.store, insert]
  commit state key := by
    refine ⟨lookup_noVals key, ?_⟩
    change (state.canary ∪ state.committed).lookup key = (state.canary.lookup key).or (state.committed.lookup key)
    by_cases inCanary : key ∈ state.canary
    · obtain ⟨val, found⟩ := Finmap.mem_iff.mp inCanary
      rw [Finmap.lookup_union_left inCanary, found, Option.some_or]
    · rw [Finmap.lookup_union_right inCanary, Finmap.lookup_eq_none.mpr inCanary, Option.none_or]
  clear state key := ⟨lookup_noVals key, rfl⟩

namespace VersionedStore
section Lawful
variable {S T K V : Type} [DecidableEq K] {store : VersionedStore S K V} {other : VersionedStore T K V}

/-- Two states read alike. -/
def Alike (store : VersionedStore S K V) (other : VersionedStore T K V) (state : S) (otherState : T) : Prop :=
  ∀ key, store.getFromCanary state key = other.getFromCanary otherState key ∧
    store.getFromCommitted state key = other.getFromCommitted otherState key

theorem Alike.get (lawful : store.Lawful) (otherLawful : other.Lawful) {state : S} {otherState : T}
    (alike : Alike store other state otherState) (key : K) : store.get state key = other.get otherState key := by
  rw [lawful.get, otherLawful.get, (alike key).1, (alike key).2]

theorem Alike.next (lawful : store.Lawful) (otherLawful : other.Lawful) {state : S} {otherState : T}
    (alike : Alike store other state otherState) (call : StoreCall K V) :
    Alike store other (store.machine.next state call) (other.machine.next otherState call) := by
  intro key
  cases call with
  | set isCanary val set =>
    obtain ⟨canary, committed⟩ := lawful.set state isCanary val set key
    obtain ⟨otherCanary, otherCommitted⟩ := otherLawful.set otherState isCanary val set key
    change store.getFromCanary (store.set state isCanary val set) key = other.getFromCanary (other.set otherState isCanary val set) key ∧
      store.getFromCommitted (store.set state isCanary val set) key = other.getFromCommitted (other.set otherState isCanary val set) key
    rw [canary, committed, otherCanary, otherCommitted, (alike key).1, (alike key).2]
    exact ⟨rfl, rfl⟩
  | commit =>
    obtain ⟨canary, committed⟩ := lawful.commit state key
    obtain ⟨otherCanary, otherCommitted⟩ := otherLawful.commit otherState key
    exact ⟨canary.trans otherCanary.symm, committed.trans ((alike.get lawful otherLawful key).trans otherCommitted.symm)⟩
  | clear =>
    obtain ⟨canary, committed⟩ := lawful.clear state key
    obtain ⟨otherCanary, otherCommitted⟩ := otherLawful.clear otherState key
    exact ⟨canary.trans otherCanary.symm, committed.trans ((alike key).2.trans otherCommitted.symm)⟩

theorem alike_after (lawful : store.Lawful) (otherLawful : other.Lawful) (calls : List (StoreCall K V)) :
    Alike store other (store.after calls) (other.after calls) := by
  induction calls using List.reverseRecOn with
  | nil =>
    intro key
    obtain ⟨canary, committed⟩ := lawful.empty key
    obtain ⟨otherCanary, otherCommitted⟩ := otherLawful.empty key
    exact ⟨canary.trans otherCanary.symm, committed.trans otherCommitted.symm⟩
  | append_singleton calls call ih =>
    rw [after_concat, after_concat]
    exact ih.next lawful otherLawful call

/-- Until the next commit the committed version changes by the committed sets only. -/
theorem Lawful.committed_after (lawful : store.Lawful) {calls : List (StoreCall K V)} (uncommitted : .commit ∉ calls) (state : S)
    (key : K) : store.getFromCommitted (store.machine.after state calls) key =
      (lastCommitted key calls).or (store.getFromCommitted state key) := by
  induction calls generalizing state with
  | nil => rfl
  | cons call calls ih =>
    rw [Machine.after_cons, ih fun later => uncommitted (List.mem_cons_of_mem call later)]
    cases call with
    | set isCanary val set =>
      have committed := (lawful.set state isCanary val set key).2
      change (lastCommitted key calls).or (store.getFromCommitted (store.set state isCanary val set) key) = _
      rw [committed]
      cases isCanary with
      | true => rfl
      | false =>
        rw [lastCommitted, Option.or_assoc]
        by_cases same : key = set <;> simp [same]
    | commit => exact absurd List.mem_cons_self uncommitted
    | clear => exact congrArg _ (lawful.clear state key).2

theorem Lawful.keepsTwoVersions (lawful : store.Lawful) : store.KeepsTwoVersions where
  reads calls key := by
    have alike := alike_after lawful (Versions.lawful K V) calls
    exact ⟨alike.get lawful (Versions.lawful K V) key, alike key⟩
  commit calls key := by
    obtain ⟨canary, committed⟩ := lawful.commit (store.after calls) key
    rw [after_concat, lawful.get]
    change (store.getFromCanary (store.commit _) key).or (store.getFromCommitted (store.commit _) key) = _ ∧
      store.getFromCanary (store.commit _) key = none
    rw [canary, committed]
    exact ⟨rfl, rfl⟩
  clear calls key := by
    obtain ⟨canary, committed⟩ := lawful.clear (store.after calls) key
    rw [after_concat, lawful.get]
    change (store.getFromCanary (store.clear _) key).or (store.getFromCommitted (store.clear _) key) = _
    rw [canary, committed]
    rfl
  sinceCommit earlier later key uncommitted := by
    have kept : store.get (store.after (earlier ++ [.commit])) key = store.getFromCommitted (store.after (earlier ++ [.commit])) key := by
      rw [lawful.get, after_concat]
      change (store.getFromCanary (store.commit _) key).or _ = _
      rw [(lawful.commit (store.after earlier) key).1]
      rfl
    constructor
    · have split : earlier ++ .commit :: later = (earlier ++ [.commit]) ++ later := by simp
      rw [split, store.after_append (earlier ++ [StoreCall.commit]) later, lawful.committed_after uncommitted, kept]
    · rw [after, lawful.committed_after uncommitted, (lawful.empty key).2, Option.or_none]
  others calls isCanary val key other different := by
    obtain ⟨canary, committed⟩ := lawful.set (store.after calls) isCanary val key other
    rw [if_neg fun both => different both.2] at canary committed
    rw [after_concat, lawful.get, lawful.get]
    change (store.getFromCanary (store.set _ _ _ _) other).or (store.getFromCommitted (store.set _ _ _ _) other) = _ ∧
      store.getFromCanary (store.set _ _ _ _) other = _ ∧ store.getFromCommitted (store.set _ _ _ _) other = _
    rw [canary, committed]
    exact ⟨rfl, rfl, rfl⟩

end Lawful
end VersionedStore
end ShardManager

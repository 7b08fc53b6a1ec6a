import Mathlib.Algebra.Ring.Nat
import Mathlib.Data.Finset.Card
import Mathlib.Logic.Relation

/-! Worklists that keep no record of what they have visited: the first item is taken
away, and its successors, if it has any to be followed, are put at the end. Where no
item leads back to itself the list runs empty, after as many turns as there are ways
from the first items downwards, and what was expanded by then is what they lead to. -/

namespace ShardManager

section Rank
variable {D : Type} {leadsTo : D → D → Prop}

def Acyclic (leadsTo : D → D → Prop) : Prop := ∀ item, ¬ Relation.TransGen leadsTo item item

open Classical in
/-- How many of some items an item leads to, itself included. -/
noncomputable def rank (leadsTo : D → D → Prop) (items : List D) (item : D) : Nat :=
  (items.toFinset.filter (Relation.ReflTransGen leadsTo item)).card

/-- An item leads to more than the items after it do. -/
theorem rank_lt (acyclic : Acyclic leadsTo) {items : List D} {item next : D} (edge : leadsTo item next)
    (member : item ∈ items) : rank leadsTo items next < rank leadsTo items item := by
  classical
  refine Finset.card_lt_card ((Finset.ssubset_iff_of_subset ?_).mpr ⟨item, ?_, ?_⟩)
  · intro other inside
    rw [Finset.mem_filter] at inside ⊢
    exact ⟨inside.1, .head edge inside.2⟩
  · rw [Finset.mem_filter, List.mem_toFinset]
    exact ⟨member, .refl⟩
  · rw [Finset.mem_filter]
    rintro ⟨_, back⟩
    exact acyclic item (.head' edge back)

theorem rank_le_length (items : List D) (item : D) : rank leadsTo items item ≤ items.length := by
  classical
  exact (Finset.card_filter_le _ _).trans (List.toFinset_card_le items)

/-- A number that decreases along the edges rules out cycles. -/
theorem acyclic_of_lt (height : D → Nat) (decreases : ∀ item next, leadsTo item next → height next < height item) :
    Acyclic leadsTo := by
  have below : ∀ item next, Relation.TransGen leadsTo item next → height next < height item := by
    intro item next path
    induction path with
    | single edge => exact decreases _ _ edge
    | tail _ edge ih => exact (decreases _ _ edge).trans ih
  exact fun item cycle => lt_irrefl _ (below item item cycle)

end Rank

section Traversal
variable {N : Type}

structure Traversal (N : Type) where
  waiting : List N
  expanded : List N

variable (expand : N → Option (List N))

namespace Traversal

def step : Traversal N → Traversal N
  | ⟨[], expanded⟩ => ⟨[], expanded⟩
  | ⟨item :: waiting, expanded⟩ =>
    match expand item with
    | none => ⟨waiting, expanded⟩
    | some successors => ⟨waiting ++ successors, expanded ++ [item]⟩

def run : Nat → Traversal N → Traversal N
  | 0, traversal => traversal
  | turns + 1, traversal => run turns (step expand traversal)

/-- Turns that an item and everything after it take, down to a depth. -/
def turns : Nat → N → Nat
  | 0, _ => 1
  | depth + 1, item =>
    match expand item with
    | none => 1
    | some successors => 1 + (successors.map (turns depth)).sum

/-- The items that some items lead to, themselves included. -/
inductive Reaches (start : List N) : N → Prop
  | start {item : N} (given : item ∈ start) : Reaches start item
  | next {item successor : N} {successors : List N} (reached : Reaches start item)
      (follows : expand item = some successors) (listed : successor ∈ successors) : Reaches start successor

variable {expand} {height : N → Nat}

section Turns
variable (descends : ∀ item successors, expand item = some successors → ∀ successor ∈ successors, height successor < height item)
include descends

private theorem turns_deeper (depth : Nat) (item : N) (enough : height item < depth) :
    turns expand depth item = turns expand (depth + 1) item := by
  induction depth generalizing item with
  | zero => exact absurd enough (Nat.not_lt_zero _)
  | succ depth ih =>
    rw [turns, turns]
    cases follows : expand item with
    | none => rfl
    | some successors =>
      have same : ∀ successor ∈ successors, turns expand depth successor = turns expand (depth + 1) successor :=
        fun successor listed => ih successor ((descends item successors follows successor listed).trans_le (Nat.lt_succ_iff.mp enough))
      simp only
      rw [List.map_congr_left same]

/-- An item takes one turn and those of its successors. -/
theorem turns_eq {depth : Nat} (item : N) (enough : height item < depth) {successors : List N}
    (follows : expand item = some successors) :
    turns expand depth item = 1 + (successors.map (turns expand depth)).sum := by
  cases depth with
  | zero => exact absurd enough (Nat.not_lt_zero _)
  | succ depth =>
    have same : ∀ successor ∈ successors, turns expand depth successor = turns expand (depth + 1) successor :=
      fun successor listed =>
        turns_deeper descends depth successor ((descends item successors follows successor listed).trans_le (Nat.lt_succ_iff.mp enough))
    rw [turns, follows]
    simp only
    rw [List.map_congr_left same]

theorem run_empty {depth : Nat} (deep : ∀ item, height item < depth) (count : Nat) (traversal : Traversal N)
    (enough : (traversal.waiting.map (turns expand depth)).sum ≤ count) : (run expand count traversal).waiting = [] := by
  induction count generalizing traversal with
  | zero =>
    obtain ⟨_ | ⟨item, waiting⟩, expanded⟩ := traversal
    · rfl
    · have positive : 0 < turns expand depth item := by
        cases depth with
        | zero => exact Nat.one_pos
        | succ depth =>
          rw [turns]
          split <;> omega
      simp only [List.map_cons, List.sum_cons] at enough
      omega
  | succ count ih =>
    apply ih
    obtain ⟨_ | ⟨item, waiting⟩, expanded⟩ := traversal
    · simp [step]
    · simp only [List.map_cons, List.sum_cons] at enough
      rw [step]
      cases follows : expand item with
      | none =>
        have one : turns expand depth item = 1 := by
          cases depth with
          | zero => rfl
          | succ depth => rw [turns, follows]
        simp only
        omega
      | some successors =>
        rw [turns_eq descends item (deep item) follows] at enough
        simp only [List.map_append, List.sum_append]
        omega

end Turns

/-- Where the first items lead is where the expanded and the waiting ones do. -/
structure Covers (expand : N → Option (List N)) (start : List N) (traversal : Traversal N) : Prop where
  given : ∀ item ∈ start, item ∈ traversal.expanded ∨ item ∈ traversal.waiting ∨ expand item = none
  closed : ∀ item ∈ traversal.expanded, ∃ successors, expand item = some successors ∧ ∀ successor ∈ successors,
    successor ∈ traversal.expanded ∨ successor ∈ traversal.waiting ∨ expand successor = none
  reached : ∀ item, item ∈ traversal.expanded ∨ item ∈ traversal.waiting → Reaches expand start item

theorem covers_start (start : List N) : Covers expand start ⟨start, []⟩ where
  given item member := .inr (.inl member)
  closed item member := by cases member
  reached item member := by
    rcases member with expanded | waiting
    · cases expanded
    · exact .start waiting

theorem Covers.step {start : List N} {traversal : Traversal N} (covers : Covers expand start traversal) :
    Covers expand start (traversal.step expand) := by
  obtain ⟨_ | ⟨item, waiting⟩, expanded⟩ := traversal
  · exact covers
  · rw [Traversal.step]
    cases follows : expand item with
    | none =>
      have moved : ∀ other, other ∈ expanded ∨ other ∈ item :: waiting ∨ expand other = none →
          other ∈ expanded ∨ other ∈ waiting ∨ expand other = none := by
        rintro other (done | pending | leaf)
        · exact .inl done
        · rcases List.mem_cons.mp pending with rfl | later
          · exact .inr (.inr follows)
          · exact .inr (.inl later)
        · exact .inr (.inr leaf)
      refine ⟨fun other member => moved other (covers.given other member), fun other done => ?_, fun other member => ?_⟩
      · obtain ⟨successors, known, closed⟩ := covers.closed other done
        exact ⟨successors, known, fun successor listed => moved successor (closed successor listed)⟩
      · exact covers.reached other (member.imp_right (List.mem_cons_of_mem item))
    | some successors =>
      have moved : ∀ other, other ∈ expanded ∨ other ∈ item :: waiting ∨ expand other = none →
          other ∈ expanded ++ [item] ∨ other ∈ waiting ++ successors ∨ expand other = none := by
        rintro other (done | pending | leaf)
        · exact .inl (List.mem_append_left _ done)
        · rcases List.mem_cons.mp pending with rfl | later
          · exact .inl (List.mem_append_right _ (List.mem_singleton_self _))
          · exact .inr (.inl (List.mem_append_left _ later))
        · exact .inr (.inr leaf)
      have here : Reaches expand start item := covers.reached item (.inr List.mem_cons_self)
      refine ⟨fun other member => moved other (covers.given other member), fun other done => ?_, fun other member => ?_⟩
      · rcases List.mem_append.mp done with old | new
        · obtain ⟨others, known, closed⟩ := covers.closed other old
          exact ⟨others, known, fun successor listed => moved successor (closed successor listed)⟩
        · rw [List.mem_singleton.mp new]
          exact ⟨successors, follows, fun successor listed => .inr (.inl (List.mem_append_right _ listed))⟩
      · rcases member with done | pending
        · rcases List.mem_append.mp done with old | new
          · exact covers.reached other (.inl old)
          · exact List.mem_singleton.mp new ▸ here
        · rcases List.mem_append.mp pending with old | new
          · exact covers.reached other (.inr (List.mem_cons_of_mem item old))
          · exact .next here follows new

theorem Covers.run {start : List N} {traversal : Traversal N} (covers : Covers expand start traversal) (count : Nat) :
    Covers expand start (traversal.run expand count) := by
  induction count generalizing traversal with
  | zero => exact covers
  | succ count ih => exact ih covers.step

/-- Once nothing waits, what was expanded is what can be reached and expanded. -/
theorem Covers.mem_expanded_iff {start : List N} {traversal : Traversal N} (covers : Covers expand start traversal)
    (done : traversal.waiting = []) (item : N) :
    item ∈ traversal.expanded ↔ Reaches expand start item ∧ (expand item).isSome := by
  have settled : ∀ other, other ∈ traversal.expanded ∨ other ∈ traversal.waiting ∨ expand other = none →
      other ∈ traversal.expanded ∨ expand other = none := by
    rw [done]
    rintro other (inside | pending | leaf)
    · exact .inl inside
    · cases pending
    · exact .inr leaf
  constructor
  · intro inside
    obtain ⟨successors, follows, _⟩ := covers.closed item inside
    exact ⟨covers.reached item (.inl inside), Option.isSome_iff_exists.mpr ⟨successors, follows⟩⟩
  · rintro ⟨reached, isSome⟩
    have inside : item ∈ traversal.expanded ∨ expand item = none := by
      clear isSome
      induction reached with
      | start given => exact settled _ (covers.given _ given)
      | next _ follows listed ih =>
        rcases ih with inside | leaf
        · obtain ⟨successors, known, closed⟩ := covers.closed _ inside
          rw [follows, Option.some.injEq] at known
          exact settled _ (closed _ (known ▸ listed))
        · rw [leaf] at follows
          cases follows
    rcases inside with inside | leaf
    · exact inside
    · rw [leaf] at isSome
      cases isSome

end Traversal
end Traversal
end ShardManager

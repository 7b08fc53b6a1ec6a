import Mathlib.Algebra.BigOperators.Group.Finset.Basic

/-! Values of the nodes of a layered forest, each the sum of the values of its
children. Nobody has to sum again: a node may be patched by what its children
changed, and the patches add up to the same values. -/

namespace ShardManager
variable {ι A B : Type} [AddCommGroup A] [AddCommGroup B] (children : Nat → ι → Finset ι)

/-- The values computed from scratch, from those of the lowest level up. -/
def rollup (lowest : ι → A) : Nat → ι → A
  | 0, node => lowest node
  | level + 1, node => ∑ child ∈ children level node, rollup lowest level child

/-- The lowest level changes by given amounts, every other node by what its
children changed. -/
structure Patched (delta : ι → A) (before after : Nat → ι → A) : Prop where
  lowest : ∀ node, after 0 node = before 0 node + delta node
  above : ∀ level node, after (level + 1) node =
    before (level + 1) node + ∑ child ∈ children level node, (after level child - before level child)

variable {children}

theorem rollup_add (first second : ι → A) (level : Nat) (node : ι) :
    rollup children (fun node => first node + second node) level node =
      rollup children first level node + rollup children second level node := by
  induction level generalizing node with
  | zero => rfl
  | succ level ih => simp only [rollup, ih, Finset.sum_add_distrib]

/-- Homomorphisms, such as the reduction of integers to residues, commute with sums. -/
theorem map_rollup (hom : A →+ B) (lowest : ι → A) (level : Nat) (node : ι) :
    hom (rollup children lowest level node) = rollup children (fun node => hom (lowest node)) level node := by
  induction level generalizing node with
  | zero => rfl
  | succ level ih => simp only [rollup, map_sum, ih]

variable {delta : ι → A} {before after : Nat → ι → A}

/-- Patching adds to every node the sum of the changes below it. -/
theorem Patched.eq (patched : Patched children delta before after) (level : Nat) (node : ι) :
    after level node = before level node + rollup children delta level node := by
  induction level generalizing node with
  | zero => exact patched.lowest node
  | succ level ih =>
    rw [patched.above, rollup]
    congr 1
    refine Finset.sum_congr rfl fun child _ => ?_
    rw [ih, add_sub_cancel_left]

/-- Patched sums are the sums of the patched lowest level. -/
theorem Patched.rollup (patched : Patched children delta before after) {lowest : ι → A}
    (summed : ∀ level node, before level node = ShardManager.rollup children lowest level node) (level : Nat) (node : ι) :
    after level node = ShardManager.rollup children (fun node => lowest node + delta node) level node := by
  rw [patched.eq, summed, rollup_add]

end ShardManager

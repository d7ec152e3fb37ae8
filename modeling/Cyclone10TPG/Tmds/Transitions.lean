import Cyclone10TPG.Sync.Serial
import Cyclone10TPG.Tmds.Disparity

/-!
# Transitions

What TMDS is named after. The differential code of a pixel has one transition for each of its bits
1 to 7 that is not the flag `XNOR`, and the flag is the level that most of the bits have; so there
are at most three (`transitions_qM`), and at most two more at the flags of the word. The four
control codes have at least seven. A receiver tells video from blanking by that alone.
-/

namespace Cyclone10
namespace Tmds

open Sync

/-! ### Data words -/

/-- `XNOR` by the number of ones. -/
theorem xnor_iff (vd : BitVec 8) :
    xnor vd = true ↔ 4 < (nb1s vd).toNat ∨ ((nb1s vd).toNat = 4 ∧ vd.getLsbD 0 = false) := by
  rw [xnor, Bool.or_eq_true, decide_eq_true_iff, Bool.and_eq_true, beq_iff_eq, beq_iff_eq,
    BitVec.lt_def, ← BitVec.toNat_inj]
  rfl

/-- The ones of a pixel, bit 0 on its own. -/
theorem toNat_nb1s (vd : BitVec 8) : (nb1s vd).toNat =
    (vd.getLsbD 0).toNat + Nat.count (fun i => vd.getLsbD (i + 1) = true) 7 := by
  have hcount : ∀ b : Bool, (if b = true then 1 else 0) = b.toNat := by decide
  have hle : ∀ i, (vd.getLsbD i).toNat ≤ 1 := fun i => Bool.toNat_le _
  have h₀ := hle 0; have h₁ := hle 1; have h₂ := hle 2; have h₃ := hle 3
  have h₄ := hle 4; have h₅ := hle 5; have h₆ := hle 6; have h₇ := hle 7
  simp only [nb1s, bitSum, BitVec.toNat_add, toNat_bit, Nat.count_succ, Nat.count_zero, hcount,
    Nat.reduceAdd]
  omega

/-- `XNOR` is the level that at most three of the bits 1 to 7 differ from. -/
theorem count_ne_xnor (vd : BitVec 8) :
    Nat.count (fun i => vd.getLsbD (i + 1) ≠ xnor vd) 7 ≤ 3 := by
  have hones := toNat_nb1s vd
  have hx := xnor_iff vd
  have hbit := Bool.toNat_le (vd.getLsbD 0)
  cases hk : xnor vd with
  | true =>
    -- the bits that differ are the zeros, of which there are at most four, or three and bit 0
    have hzeros := count_ne_add_count (fun i => vd.getLsbD (i + 1)) true 7
    rw [hk] at hx
    rcases hx.mp rfl with hlt | ⟨heq, hzero⟩
    · omega
    · rw [hzero, Bool.toNat_false] at hones
      omega
  | false =>
    -- the bits that differ are the ones, of which there are at most three, or three and bit 0
    simp only [ne_eq, Bool.not_eq_false]
    rw [hk] at hx
    have hnot : ¬ (4 < (nb1s vd).toNat ∨ (nb1s vd).toNat = 4 ∧ vd.getLsbD 0 = false) :=
      fun h => absurd (hx.mpr h) (by decide)
    cases hzero : vd.getLsbD 0 with
    | true =>
      rw [hzero, Bool.toNat_true] at hones
      omega
    | false =>
      rw [hzero] at hnot
      simp only [and_true] at hnot
      omega

/-- **The transitions of the differential code.** -/
theorem transitions_qM (vd : BitVec 8) : transitions (chain (xnor vd) vd) ≤ 3 := by
  rw [transitions_chain]
  exact count_ne_xnor vd

/-- A data word has at most five transitions. -/
theorem transitions_tmdsData (vd : BitVec 8) (acc : BitVec 4) :
    transitions (tmdsData vd acc) ≤ 5 := by
  have hbits : ∀ i < 8, (tmdsData vd acc).getLsbD i =
      (invertQM vd acc ^^ (chain (xnor vd) vd).getLsbD i) := by
    intro i hi
    rw [tmdsData_eq, BitVec.getLsbD_append, if_pos hi]
    cases invertQM vd acc <;> simp [hi]
  -- inversion changes no transition, and the flags come last
  have hcode : Nat.count (fun i => (tmdsData vd acc).getLsbD i ≠ (tmdsData vd acc).getLsbD (i + 1))
      7 ≤ transitions (chain (xnor vd) vd) := by
    refine Nat.count_mono_left fun i hi hne heq => hne ?_
    rw [hbits i (by omega), hbits (i + 1) (by omega), heq]
  have hqM := transitions_qM vd
  rw [transitions, Nat.count_succ, Nat.count_succ]
  split <;> split <;> omega

/-! ### Control codes -/

theorem transitions_tmdsCode (cd : BitVec 2) : 7 ≤ transitions (tmdsCode cd) := by
  revert cd
  decide

/-! ### Runs -/

/-- **Transitions tell video from blanking**, in every cycle: the word of a pixel has at most five,
and a control word has at least seven. -/
theorem transitions_run (r₀ : Regs) (inp : ℕ → Sample) (t : ℕ) :
    if (inp t).vde then transitions (run step r₀ inp (t + 1)).tmds ≤ 5
    else 7 ≤ transitions (run step r₀ inp (t + 1)).tmds := by
  rw [run_succ, step]
  cases (inp t).vde with
  | true => exact transitions_tmdsData _ _
  | false => exact transitions_tmdsCode _

end Tmds
end Cyclone10

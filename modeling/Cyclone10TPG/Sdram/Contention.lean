import Cyclone10TPG.Sdram.ReadPath

/-!
# No contention on the data pins

`zs_dq` is driven from two sides: by the pad, while `oe` is high, and by the SDRAM, three
cycles after a RD. The controller has no check that keeps the two apart. They are apart since a
change of direction needs another row activation, so that at least five cycles lie between a RD
and the next WR (`spaced_rd_wr`), and by then `rd_valid` has forgotten the RD.
-/

namespace Cyclone10
namespace Sdram

section Run

variable {s₀ : Regs} {inp : ℕ → Input}

/-- The pad drives the data pins exactly in the cycle of a WR. -/
theorem oe_iff (t : ℕ) :
    (regsAt s₀ inp t).main.oe = true ↔ (pinsAt s₀ inp t).Issues .wr := by
  constructor
  · exact issues_wr_of_oe
  · intro hwr
    cases t with
    | zero => exact absurd hwr (not_issues_zero s₀ inp _)
    | succ t =>
      -- the pins are those of `MAIN_WRITE`, which drives data
      obtain ⟨-, hx, hp⟩ := (inv_regsAt s₀ inp t).origin hwr
      have hdq : (regsAt s₀ inp (t + 1)).pins.dq ≠ none := by
        rw [regsAt_succ, hp]
        simp [Regs.columnPins, Regs.column, hx]
      by_contra hoe
      exact hdq (if_neg hoe)

/-- The code of WR is in the command register only with the chip select. -/
theorem code_wr_iff (t : ℕ) :
    (regsAt s₀ inp t).main.mCmd.code = .wr ↔ (pinsAt s₀ inp t).Issues .wr := by
  constructor
  · intro hcode
    cases t with
    | zero => exact absurd hcode (by simp [regsAt, Regs.reset, MainRegs.reset])
    | succ t => exact (inv_regsAt s₀ inp t).issues_of_code false hcode
  · intro hwr
    exact congrArg Cmd.code hwr

/-- In the cycle of a WR, no RD has been on the pins for five cycles. -/
theorem not_rd_of_wr {t k : ℕ} (hwr : (pinsAt s₀ inp t).Issues .wr) (hk : k ≤ t)
    (ht : t ≤ k + 4) : ¬ (pinsAt s₀ inp k).Issues .rd := by
  intro hrd
  rcases Nat.eq_or_lt_of_le hk with rfl | hlt
  · -- one command at a time
    have hcode : CmdCode.rd = CmdCode.wr := congrArg Cmd.code (hrd.symm.trans hwr)
    exact absurd hcode (by decide)
  · have hspace : k + 5 ≤ t := spaced_rd_wr k t hlt hrd hwr
    omega

theorem rdStrobe_of_wr {t k : ℕ} (hwr : (pinsAt s₀ inp t).Issues .wr) (hk : k ≤ t)
    (ht : t ≤ k + 4) : (regsAt s₀ inp k).rdStrobe = false := by
  by_contra hstrobe
  exact not_rd_of_wr hwr hk ht ((rdStrobe_iff k).mp (Bool.eq_true_of_not_eq_false hstrobe))

/-- Nothing is left of a read in the shift register when a WR comes. -/
theorem rdValid_of_wr {t : ℕ} (hwr : (pinsAt s₀ inp t).Issues .wr) :
    (regsAt s₀ inp t).rdValid = 0 := by
  refine BitVec.eq_of_getLsbD_eq fun i hi => ?_
  show (regsAt s₀ inp t).rdValid.getLsbD i = (0#3).getLsbD i
  rw [BitVec.getLsbD_zero]
  rcases Nat.lt_or_ge i t with hit | hit
  · -- bit `i` is the read strobe of `i + 1` cycles ago
    obtain ⟨k, rfl⟩ := Nat.exists_eq_add_of_lt hit
    rw [show i + k + 1 = k + i + 1 by omega] at hwr ⊢
    rw [rdValid_add k hi]
    exact rdStrobe_of_wr hwr (by omega) (by omega)
  · exact rdValid_of_le hi hit

theorem zaValid_of_wr {t : ℕ} (hwr : (pinsAt s₀ inp t).Issues .wr) :
    (regsAt s₀ inp t).zaValid = false := by
  rcases Nat.lt_or_ge t 4 with ht | ht
  · exact zaValid_of_lt_four ht
  · obtain ⟨k, rfl⟩ := Nat.exists_eq_add_of_le' ht
    rw [zaValid_add_four]
    exact rdStrobe_of_wr hwr (Nat.le_add_right k 4) le_rfl

/-! ### The main result -/

/-- Nothing of a read is in flight in cycle `t`: not on the pins, not in the last four cycles,
and not in the registers that track it. -/
structure NoReadInFlight (s₀ : Regs) (inp : ℕ → Input) (t : ℕ) : Prop where
  rdStrobe : (regsAt s₀ inp t).rdStrobe = false
  rdValid : (regsAt s₀ inp t).rdValid = 0
  zaValid : (regsAt s₀ inp t).zaValid = false
  noRd : ∀ k ≤ t, t ≤ k + 4 → ¬ (pinsAt s₀ inp k).Issues .rd

/-- **No contention**, for every input stream and in every cycle of every run from reset: the
pad drives the data pins exactly when the command register holds WR, which is then also on the
pins, and no read is in flight when it does. -/
theorem no_contention (s₀ : Regs) (inp : ℕ → Input) (t : ℕ) :
    ((regsAt s₀ inp t).main.oe = true ↔ (regsAt s₀ inp t).main.mCmd.code = .wr) ∧
      ((regsAt s₀ inp t).main.oe = true ↔ (pinsAt s₀ inp t).Issues .wr) ∧
      ((regsAt s₀ inp t).main.oe = true → NoReadInFlight s₀ inp t) := by
  refine ⟨(oe_iff t).trans (code_wr_iff t).symm, oe_iff t, fun hoe => ?_⟩
  have hwr := (oe_iff t).mp hoe
  exact {
    rdStrobe := rdStrobe_of_wr hwr le_rfl (Nat.le_add_right t 4)
    rdValid := rdValid_of_wr hwr
    zaValid := zaValid_of_wr hwr
    noRd := fun k hk ht => not_rd_of_wr hwr hk ht }

end Run

end Sdram
end Cyclone10

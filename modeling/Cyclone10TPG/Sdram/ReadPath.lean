import Cyclone10TPG.Sdram.Issue
import Cyclone10TPG.Sdram.Spacing

/-!
# The way back from a read

A read command is tracked by the shift register `rd_valid` and announced by `za_valid` four
cycles after it (`zaValid_add_four`), together with what was on the data pins in the cycle
before. In that cycle the pad listens: it drives the pins only in the cycle of a WR, and no
WR follows a RD so soon. One cycle after the RD, when the SDRAM samples the mask, the mask is
low (`dqm_of_rd`).
-/

namespace Cyclone10
namespace Sdram

open Sync

/-! ### The shift register -/

section Shift

variable (v : BitVec 3) (b : Bool)

theorem shift_getLsbD_zero : (v <<< 1 ||| (0b00#2 ++ BitVec.ofBool b)).getLsbD 0 = b := by
  cases b <;> simp

theorem shift_getLsbD_succ {i : ℕ} (hi : i < 2) :
    (v <<< 1 ||| (0b00#2 ++ BitVec.ofBool b)).getLsbD (i + 1) = v.getLsbD i := by
  rw [BitVec.getLsbD_or, BitVec.getLsbD_shiftLeft, BitVec.getLsbD_append, if_neg (by omega)]
  simp [show i + 1 < 3 by omega]

end Shift

/-! ### One clock edge -/

section Step

variable {s : Regs} {i : Input}

/-- The code of a column command is on the pins only with the chip select. -/
theorem Inv.issues_of_code (h : Inv s) (rnw : Bool)
    (hcode : (Sdram.step s i).pins.cmd.code = columnCode rnw) :
    (Sdram.step s i).pins.Issues (columnCode rnw) := by
  have hne : columnCode rnw ≠ .nop ∧ columnCode rnw ≠ .act ∧ columnCode rnw ≠ .pre ∧
      columnCode rnw ≠ .arf ∧ columnCode rnw ≠ .lmr := by
    cases rnw <;> decide
  obtain ⟨hnop, hact, hpre, harf, hlmr⟩ := hne
  cases pinsStep s i with
  | nop hissue hc => exact absurd (hcode.symm.trans hc) hnop
  | ini hs hd hcmd =>
    rw [hcmd] at hcode
    rcases h.ini.code with hc | hc | hc | hc <;> rw [hc] at hcode
    · exact absurd hcode.symm hnop
    · exact absurd hcode.symm hpre
    · exact absurd hcode.symm harf
    · exact absurd hcode.symm hlmr
  | act hs hcmd => rw [hcmd] at hcode; exact absurd hcode.symm hact
  | column rnw' hs hx hp =>
    have hcs := Regs.csnDecode_of_csN ((mainInv_column hs).mp h.main).1.csN
    rw [hp] at hcode ⊢
    simp only [Regs.columnPins, Regs.column, hx, Bool.false_eq_true, if_false] at hcode
    simp only [Pins.Issues, Regs.columnPins, Regs.column, hx, hcs, Bool.false_eq_true, if_false,
      hcode]
  | pre hs hcmd => rw [hcmd] at hcode; exact absurd hcode.symm hpre
  | arf hs hcmd => rw [hcmd] at hcode; exact absurd hcode.symm harf

/-- A column state that drives the data pins issues WR. -/
theorem issues_wr_of_column (h : Inv s) {rnw : Bool} (hs : s.main.mState = columnState rnw)
    (hoe : (s.column rnw).oe = true) : (s.column rnw).mCmd = ⟨false, .wr⟩ := by
  have hcs := Regs.csnDecode_of_csN ((mainInv_column hs).mp h.main).1.csN
  simp only [Regs.column, Bool.and_eq_true, Bool.not_eq_true'] at hoe
  simp [Regs.column, hoe.1, hoe.2, hcs, columnCode]

theorem Inv.issues_wr_of_oe (h : Inv s) (hoe : (Sdram.step s i).main.oe = true) :
    (Sdram.step s i).pins.Issues .wr := by
  obtain ⟨m, hm, hstep⟩ := exists_mainStep s i
  rw [Pins.Issues, Regs.pins, hm]
  rw [hm] at hoe
  cases hstep with
  | columnBail rnw hs => exact issues_wr_of_column h hs hoe
  | columnStream rnw hs => exact issues_wr_of_column h hs hoe
  | columnEnd rnw hs => exact issues_wr_of_column h hs hoe
  | _ => exact absurd hoe (by simp)

/-- The states in which a RD can be on the pins. -/
def Regs.Reading (s : Regs) : Prop :=
  s.main.mState = .read ∨ s.main.mState = .spinOffReadWriteCycle ∨ s.main.mState = .waitUntilSafe

/-- The word served by a read carries no mask. -/
theorem Inv.served_unmasked (h : Inv s) {rnw : Bool} (hs : s.main.mState = columnState rnw) :
    s.served.Unmasked := by
  rw [Regs.served]
  split
  · exact h.unmasked_fEntry (Regs.fEmpty_of_fSelect ‹_›)
  · exact ((mainInv_column hs).mp h.main).1.unmasked

/-- A RD on the pins carries no mask. -/
theorem Inv.reading_of_rd (h : Inv s) (hrd : (Sdram.step s i).pins.Issues .rd) :
    (Sdram.step s i).Reading ∧ (Sdram.step s i).pins.dqm = 0 := by
  obtain ⟨hs, -, hp⟩ := h.origin hrd
  refine ⟨?_, ?_⟩
  · cases hpend : s.pending <;> cases hr : s.refreshRequest <;>
      simp [Regs.Reading, Sdram.step, mainFsm, hs, hpend, hr, MainRegs.loadActive]
  · have hcol : s.main.mState = columnState true := hs
    rw [hp]
    exact h.served_unmasked hcol (served_eq h hcol).1

/-- The mask stays low for one more cycle. -/
theorem Inv.dqm_step (h : Inv s) (hs : s.Reading) (hdqm : s.pins.dqm = 0) :
    (Sdram.step s i).pins.dqm = 0 := by
  obtain ⟨m, hm, hstep⟩ := exists_mainStep s i
  rw [Regs.pins, hm]
  have column : ∀ rnw, s.main.mState = columnState rnw → s.served.dqm = 0 := by
    intro rnw hcol
    cases rnw with
    | true => exact h.served_unmasked hcol (served_eq h hcol).1
    | false => rcases hs with hs | hs | hs <;> exact absurd (hs.symm.trans hcol) (by decide)
  cases hstep with
  | activate hact => rcases hs with hs | hs | hs <;> exact absurd (hs.symm.trans hact) (by decide)
  | columnBail rnw hcol => exact column rnw hcol
  | columnStream rnw hcol => exact column rnw hcol
  | columnEnd rnw hcol => exact column rnw hcol
  | _ => exact hdqm

end Step

/-! ### The tracking of a read -/

section Run

variable {s₀ : Regs} {inp : ℕ → Input}

/-- The shift register remembers a read strobe for three cycles. -/
theorem rdValid_add (t : ℕ) {i : ℕ} (hi : i < 3) :
    (regsAt s₀ inp (t + i + 1)).rdValid.getLsbD i = (regsAt s₀ inp t).rdStrobe := by
  induction i with
  | zero => exact shift_getLsbD_zero _ _
  | succ i ih =>
    rw [← ih (Nat.lt_of_succ_lt hi)]
    exact shift_getLsbD_succ _ _ (Nat.lt_of_succ_lt_succ hi)

/-- Reset has cleared it. -/
theorem rdValid_of_le {t i : ℕ} (hi : i < 3) (ht : t ≤ i) :
    (regsAt s₀ inp t).rdValid.getLsbD i = false := by
  induction i generalizing t with
  | zero =>
    obtain rfl := Nat.le_zero.mp ht
    exact BitVec.getLsbD_zero
  | succ i ih =>
    cases t with
    | zero => exact BitVec.getLsbD_zero
    | succ t =>
      rw [← ih (Nat.lt_of_succ_lt hi) (Nat.le_of_succ_le_succ ht)]
      exact shift_getLsbD_succ _ _ (Nat.lt_of_succ_lt_succ hi)

theorem zaValid_add_four (t : ℕ) :
    (regsAt s₀ inp (t + 4)).zaValid = (regsAt s₀ inp t).rdStrobe :=
  rdValid_add t (i := 2) (by decide)

/-- No read comes back in the first four cycles. -/
theorem zaValid_of_lt_four {t : ℕ} (ht : t < 4) : (regsAt s₀ inp t).zaValid = false := by
  cases t with
  | zero => rfl
  | succ t =>
    exact rdValid_of_le (i := 2) (by decide) (Nat.le_of_lt_succ (Nat.lt_of_succ_lt_succ ht))

/-! ### The pads -/

theorem rdStrobe_iff (t : ℕ) :
    (regsAt s₀ inp t).rdStrobe = true ↔ (pinsAt s₀ inp t).Issues .rd := by
  cases t with
  | zero =>
    have hno : (regsAt s₀ inp 0).rdStrobe = false := rfl
    exact ⟨fun h => absurd (h.symm.trans hno) (by decide),
      fun h => absurd h (not_issues_zero s₀ inp _)⟩
  | succ t =>
    rw [Regs.rdStrobe, beq_iff_eq]
    exact ⟨(inv_regsAt s₀ inp t).issues_of_code true, fun h => congrArg Cmd.code h⟩

/-- The pad drives the data pins only in the cycle of a WR. -/
theorem issues_wr_of_oe {t : ℕ} (hoe : (regsAt s₀ inp t).main.oe = true) :
    (pinsAt s₀ inp t).Issues .wr := by
  cases t with
  | zero => exact absurd hoe (by simp [regsAt, Regs.reset, MainRegs.reset])
  | succ t => exact (inv_regsAt s₀ inp t).issues_wr_of_oe hoe

/-- The mask is low one cycle after a RD. -/
theorem dqm_of_rd {t : ℕ} (hrd : (pinsAt s₀ inp t).Issues .rd) :
    (pinsAt s₀ inp (t + 1)).dqm = 0 := by
  cases t with
  | zero => exact absurd hrd (not_issues_zero s₀ inp _)
  | succ t =>
    obtain ⟨hs, hdqm⟩ := (inv_regsAt s₀ inp t).reading_of_rd hrd
    exact (inv_regsAt s₀ inp (t + 1)).dqm_step hs hdqm

/-- No WR follows a RD in less than five cycles. -/
theorem spaced_rd_wr : Spaced (pinsAt s₀ inp) .rd .wr 5 :=
  phaseAge_rd.spaced (by decide) (by decide) (by rintro p p' ⟨rfl, -⟩; decide) s₀ inp

/-- **The word that comes back** is what the outside drives three cycles after the RD. -/
theorem zaData_add_four {t : ℕ} (hrd : (pinsAt s₀ inp t).Issues .rd) :
    (regsAt s₀ inp (t + 4)).zaData = (inp (t + 3)).zsDq := by
  have hoe : (regsAt s₀ inp (t + 3)).main.oe = false := by
    by_contra hoe
    have hwr := issues_wr_of_oe (Bool.eq_true_of_not_eq_false hoe)
    have hspace : t + 5 ≤ t + 3 := spaced_rd_wr t (t + 3) (by omega) hrd hwr
    omega
  change (regsAt s₀ inp (t + 3)).zsDqBuffered (inp (t + 3)).zsDq = _
  rw [Regs.zsDqBuffered, hoe, if_neg Bool.false_ne_true]

end Run

end Sdram
end Cyclone10

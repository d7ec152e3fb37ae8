import Cyclone10TPG.Sdram.Protocol
import Cyclone10TPG.Sdram.Startup

/-!
# Initialisation is the same in every run

Two runs of the controller from different registers before reset, under different inputs. The
FIFO, `i_refs`, the `active_*` registers and the storage of the FIFO differ from the first
cycle on, and the FIFO already takes requests. `Lockstep` is what does not differ until
`init_done`: the timer, the initialisation FSM, and the pins. `i_refs` is the one register in
it that reset leaves alone; it is cleared in `powerup`, before anything reads it.

The common trace is then read off one run: it is the initialisation sequence, with nothing in
the first 20000 cycles.
-/

namespace Cyclone10
namespace Sdram

open Sync

/-! ### Statement -/

/-- The pins that select, command and address the SDRAM, and `oe`. -/
structure Control where
  cmd : Cmd
  addr : BitVec 13
  ba : Bank
  dqm : BitVec 2
  oe : Bool
  deriving Repr, DecidableEq

def Regs.control (s : Regs) : Control where
  cmd := s.pins.cmd
  addr := s.pins.addr
  ba := s.pins.ba
  dqm := s.pins.dqm
  oe := s.main.oe

/-- `init_done` is up in cycle `T` for the first time. -/
def FirstDone (regs : ℕ → Regs) (T : ℕ) : Prop :=
  (regs T).initDone = true ∧ ∀ t < T, (regs t).initDone = false

/-- **The trace of the initialisation**, up to cycle `T`: one PRE, eight ARF and one LMR. -/
structure InitTrace (pins : ℕ → Pins) (T : ℕ) : Prop where
  commands : commands pins (T + 1) = .pre :: List.replicate 8 .arf ++ [.lmr]
  /-- PRE is for all banks. -/
  pre : ∀ t ≤ T, (pins t).Issues .pre → (pins t).addr.getLsbD 10 = true
  /-- The mode register is set to burst length 1 and CAS latency 3. -/
  lmr : ∀ t ≤ T, (pins t).Issues .lmr → (pins t).ba = 0 ∧ (pins t).addr = 0x030#13
  late : ∀ t < 20000, (pins t).cmd.event = none

/-! ### Lockstep -/

/-- What two runs agree on until initialisation is done. -/
structure Lockstep (s s' : Regs) : Prop where
  refreshCounter : s.refreshCounter = s'.refreshCounter
  initDone : s.initDone = s'.initDone
  /-- The initialisation FSM, but for the `i_refs` that reset has left. -/
  ini : { s.ini with iRefs := s'.ini.iRefs } = s'.ini
  iRefs : s.ini.iState ≠ .powerup → s.ini.iRefs = s'.ini.iRefs
  control : s.control = s'.control

theorem Lockstep.reset (s s' : Regs) : Lockstep s.reset s'.reset where
  refreshCounter := rfl
  initDone := rfl
  ini := rfl
  iRefs := fun h => absurd rfl h
  control := rfl

section Step

variable {s s' : Regs}

/-- In `powerup` the old `i_refs` is not read. -/
theorem initFsm_powerup (hs : s.ini.iState = .powerup) (n : ℕ) :
    initFsm { s with ini := { s.ini with iRefs := n } } = initFsm s := by
  simp [initFsm, hs]

/-- The initialisation FSM reads nothing but its own registers and the timer. -/
theorem initFsm_congr (hc : s.refreshCounter = s'.refreshCounter) (hini : s.ini = s'.ini) :
    initFsm s = initFsm s' := by
  unfold initFsm
  rw [hc, hini]

theorem Lockstep.initFsm_eq (h : Lockstep s s') : initFsm s = initFsm s' := by
  by_cases hs : s.ini.iState = .powerup
  · rw [← initFsm_powerup hs s'.ini.iRefs]
    exact initFsm_congr h.refreshCounter h.ini
  · refine initFsm_congr h.refreshCounter ?_
    rw [← h.ini, ← h.iRefs hs]

/-- Until initialisation is done, the edge leaves bank, mask and `oe` as reset has. -/
theorem control_step (h : Inv s) (hd : s.initDone = false) (i : Input) :
    (step s i).control = ⟨s.ini.iCmd, s.ini.iAddr, s.control.ba, s.control.dqm, false⟩ := by
  have hs := (h.undone hd).1
  unfold Regs.control
  rw [h.pins_of_undone hd]
  simp [Regs.pins, step, mainFsm, hs, hd]

/-- **Lockstep until initialisation is done**, whatever the inputs. -/
theorem Lockstep.step (h : Inv s) (h' : Inv s') (hd : s.initDone = false) (hl : Lockstep s s')
    (i i' : Input) : Lockstep (Sdram.step s i) (Sdram.step s' i') := by
  have hd' : s'.initDone = false := hl.initDone ▸ hd
  have hini : (Sdram.step s i).ini = (Sdram.step s' i').ini := hl.initFsm_eq
  have hstate : s.ini.iState = s'.ini.iState := by rw [← hl.ini]
  constructor
  · rw [refreshCounter_step, refreshCounter_step, hl.refreshCounter]
  · show (s.initDone || s.ini.iState == .terminated) = (s'.initDone || s'.ini.iState == .terminated)
    rw [hl.initDone, hstate]
  · rw [hini]
  · intro _
    rw [hini]
  · have hcmd : s.ini.iCmd = s'.ini.iCmd := by rw [← hl.ini]
    have haddr : s.ini.iAddr = s'.ini.iAddr := by rw [← hl.ini]
    rw [control_step h hd, control_step h' hd', hcmd, haddr, hl.control]

end Step

/-! ### The trace -/

section Run

variable {s₀ : Regs} {inp : ℕ → Input}

/-- Initialisation ends, and it ends once. -/
theorem exists_firstDone (s₀ : Regs) (inp : ℕ → Input) : ∃ T, FirstDone (regsAt s₀ inp) T := by
  have hex : ∃ T, (regsAt s₀ inp T).initDone = true := ⟨_, initDone_regsAt s₀ inp (Nat.le_refl _)⟩
  refine ⟨Nat.find hex, Nat.find_spec hex, fun t ht => ?_⟩
  exact Bool.eq_false_of_not_eq_true (Nat.find_min hex ht)

theorem lockstep_regsAt (s₀ s₀' : Regs) (inp inp' : ℕ → Input) {T : ℕ}
    (hT : FirstDone (regsAt s₀ inp) T) :
    ∀ t ≤ T, Lockstep (regsAt s₀ inp t) (regsAt s₀' inp' t) := by
  refine run_lockstep (Lockstep.reset s₀ s₀') fun t ht hl => ?_
  exact hl.step (inv_regsAt s₀ inp t) (inv_regsAt s₀' inp' t) (hT.2 t ht) (inp t) (inp' t)

/-- Until initialisation is done, the bank pins are low. -/
theorem ba_of_undone {t : ℕ} (hd : ∀ k < t, (regsAt s₀ inp k).initDone = false) :
    (pinsAt s₀ inp t).ba = 0 := by
  induction t with
  | zero => rfl
  | succ t ih =>
    rw [← ih fun k hk => hd k (Nat.lt_succ_of_lt hk), pinsAt, regsAt_succ,
      (inv_regsAt s₀ inp t).pins_of_undone (hd t (Nat.lt_succ_self t))]
    rfl

/-- A command before `init_done` has the address that the initialisation FSM gives with it. -/
theorem addr_of_undone {t : ℕ} {c : CmdCode} (hd : (regsAt s₀ inp t).initDone = false)
    (hc : (pinsAt s₀ inp (t + 1)).Issues c) :
    (pinsAt s₀ inp (t + 1)).addr = if c = .lmr then modeRegister else 0x1FFF#13 := by
  have h := inv_regsAt s₀ inp t
  have hpins : pinsAt s₀ inp (t + 1) = _ := h.pins_of_undone hd (inp t)
  have hcmd : (regsAt s₀ inp t).ini.iCmd = ⟨false, c⟩ := by
    rw [Pins.Issues, hpins] at hc
    exact hc
  have haddr := h.iniAddr
  unfold InitRegs.AddrOk at haddr
  rw [hcmd] at haddr
  rw [hpins]
  exact haddr

/-- At the end of initialisation the sequence has been given, and nothing else. -/
theorem commands_firstDone {T : ℕ} (hT : FirstDone (regsAt s₀ inp) T) :
    commands (pinsAt s₀ inp) (T + 1) = initSeq := by
  obtain ⟨hdone, hundone⟩ := hT
  cases T with
  | zero => exact absurd hdone (by simp [regsAt, Regs.reset])
  | succ T =>
    have hd := hundone T (Nat.lt_succ_self T)
    -- `init_done` rises since the initialisation FSM has terminated
    have hterm : (regsAt s₀ inp T).ini.iState = .terminated := by
      simpa [regsAt_succ, step, hd] using hdone
    rw [(startInv_regsAt s₀ inp T).commands_eq hd]
    simp [InitRegs.script, hterm]

theorem initTrace_firstDone {T : ℕ} (hT : FirstDone (regsAt s₀ inp) T) :
    InitTrace (pinsAt s₀ inp) T := by
  refine ⟨commands_firstDone hT, ?_, ?_, ?_⟩
  · rintro (_ | t) ht hpre
    · exact absurd hpre (not_issues_zero s₀ inp _)
    · rw [addr_of_undone (hT.2 t ht) hpre]
      decide
  · rintro (_ | t) ht hlmr
    · exact absurd hlmr (not_issues_zero s₀ inp _)
    · refine ⟨ba_of_undone fun k hk => hT.2 k (Nat.lt_of_lt_of_le hk ht), ?_⟩
      rw [addr_of_undone (hT.2 t ht) hlmr]
      decide
  · intro t ht
    exact event_of_lt s₀ inp (Nat.lt_add_right 3 ht)

/-- **Initialisation is independent of traffic and of the state before reset**: any two runs
show the same on the command and address pins up to the first cycle with `init_done`, which is
the same for both, and what they show is the initialisation sequence. -/
theorem initialisation (s₀ s₀' : Regs) (inp inp' : ℕ → Input) :
    ∃ T, FirstDone (regsAt s₀ inp) T ∧ FirstDone (regsAt s₀' inp') T ∧
      (∀ t ≤ T, (regsAt s₀ inp t).control = (regsAt s₀' inp' t).control) ∧
      InitTrace (pinsAt s₀ inp) T := by
  obtain ⟨T, hT⟩ := exists_firstDone s₀ inp
  have hlock := lockstep_regsAt s₀ s₀' inp inp' hT
  refine ⟨T, hT, ⟨?_, ?_⟩, fun t ht => (hlock t ht).control, initTrace_firstDone hT⟩
  · rw [← (hlock T le_rfl).initDone]
    exact hT.1
  · intro t ht
    rw [← (hlock t (Nat.le_of_lt ht)).initDone]
    exact hT.2 t ht

end Run

end Sdram
end Cyclone10

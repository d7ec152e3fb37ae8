import Cyclone10TPG.Sync.Since
import Cyclone10TPG.Sdram.Invariant

/-!
# Open rows and closed banks

The controller has no register for the state of the SDRAM banks. Here that state is read
off the history of the pins:

* `RowOpened pins b r t`: before cycle `t`, row `r` of bank `b` was activated, and no ACT,
  PRE or ARF has followed;
* `Precharged pins t`: before cycle `t`, all banks were precharged, and no ACT has followed.

`BankInv` says, state by state of the main FSM, which of the two holds after the command
of the current cycle. `MAIN_IDLE` and the wait before it are the interesting states. They
are entered with all banks closed, and also, when a refresh interrupts a burst, with a row
open. In the second case the refresh request is up and unacknowledged, and stays so until
the banks are closed.
-/

namespace Cyclone10
namespace Sdram

open Sync

/-! ### Runs and bank states -/

/-- The registers in cycle `t` of the run from reset. -/
def regsAt (s₀ : Regs) (inp : ℕ → Input) : ℕ → Regs := run step s₀.reset inp

/-- The pins in cycle `t` of the run from reset. -/
def pinsAt (s₀ : Regs) (inp : ℕ → Input) (t : ℕ) : Pins := (regsAt s₀ inp t).pins

theorem regsAt_succ (s₀ : Regs) (inp : ℕ → Input) (t : ℕ) :
    regsAt s₀ inp (t + 1) = step (regsAt s₀ inp t) (inp t) := rfl

theorem inv_regsAt (s₀ : Regs) (inp : ℕ → Input) (t : ℕ) : Inv (regsAt s₀ inp t) :=
  inv_run s₀ inp t

/-- Nothing is on the pins in cycle `0`. -/
theorem not_issues_zero (s₀ : Regs) (inp : ℕ → Input) (c : CmdCode) :
    ¬ (pinsAt s₀ inp 0).Issues c := fun h => by
  have hcs : (pinsAt s₀ inp 0).cmd.csN = true := rfl
  rw [h] at hcs
  exact Bool.false_ne_true hcs

/-- The pins carry PRE with `zs_addr[10]` high: all banks are precharged. -/
def Pins.PrechargesAll (p : Pins) : Prop := p.Issues .pre ∧ p.addr.getLsbD 10 = true

instance (p : Pins) : Decidable p.PrechargesAll :=
  inferInstanceAs (Decidable (p.Issues .pre ∧ p.addr.getLsbD 10 = true))

/-- Row `r` of bank `b` has been activated and is still the open row before cycle `t`. -/
def RowOpened (pins : ℕ → Pins) (b : Bank) (r : Row) : ℕ → Prop :=
  Since (fun k => (pins k).Issues .act ∧ (pins k).ba = b ∧ (pins k).addr = r)
    (fun k => ¬ (pins k).Issues .act ∧ ¬ (pins k).Issues .pre ∧ ¬ (pins k).Issues .arf)

/-- All banks have been precharged, and none activated since, before cycle `t`. -/
def Precharged (pins : ℕ → Pins) : ℕ → Prop :=
  Since (fun k => (pins k).PrechargesAll) (fun k => ¬ (pins k).Issues .act)

/-! ### One cycle -/

section OneCycle

variable {pins : ℕ → Pins} {b : Bank} {r : Row} {t : ℕ}

/-- The commands that leave an open row open. -/
def CmdCode.keepsRow : CmdCode → Bool
  | .act | .pre | .arf => false
  | _ => true

theorem RowOpened.keep (h : RowOpened pins b r t) (c : CmdCode) (hc : (pins t).cmd.code = c)
    (hk : c.keepsRow = true) : RowOpened pins b r (t + 1) := by
  refine Since.keep h ⟨fun h => ?_, fun h => ?_, fun h => ?_⟩ <;>
    rw [Pins.Issues] at h <;> rw [← hc, h] at hk <;> exact absurd hk (by decide)

theorem Precharged.keep (h : Precharged pins t) (c : CmdCode) (hc : (pins t).cmd.code = c)
    (hk : c ≠ .act) : Precharged pins (t + 1) := by
  refine Since.keep h fun h => hk ?_
  rw [Pins.Issues] at h
  rw [← hc, h]

end OneCycle

/-! ### The chip select -/

/-- A request being served has the chip select low. -/
theorem Regs.csnDecode_of_csN {s : Regs} (h : s.main.activeCsN = false) : s.csnDecode = false := by
  simp [Regs.csnDecode, Regs.fCsN, h]

/-! ### The invariant -/

/-- The bank state after the command of the current cycle, state by state of the main
FSM: `opened b r` is "row `r` of bank `b` is open", `closed` is "all banks are closed". -/
def BankInv (s : Regs) (opened : Bank → Row → Prop) (closed : Prop) : Prop :=
  let served := opened s.activeBank (rowOf s.main.active.addr)
  -- a request that is up and not yet acknowledged
  let refreshing := s.refreshRequest = true ∧ s.main.ackRefreshRequest = false
  match s.main.mState with
  | .idle =>
    if s.initDone then refreshing ∨ closed
    else s.ini.iState = .powerup ∨ s.ini.iState = .precharge ∨ s.ini.iCmd = ⟨false, .pre⟩ ∨ closed
  | .bankActivate => closed
  | .waitUntilSafe =>
    match s.main.mNext with
    | .read | .write => served
    | .idle => refreshing ∨ closed
    | .autoRefresh => closed
    | _ => True
  | .read | .write | .spinOffReadWriteCycle | .prepareBankCloseAll => served
  | .autoRefresh => closed
  | .bankCloseAll | .undefined => True

theorem bankInv_column {s : Regs} {opened : Bank → Row → Prop} {closed : Prop} (rnw : Bool)
    (hs : s.main.mState = columnState rnw) :
    BankInv s opened closed ↔ opened s.activeBank (rowOf s.main.active.addr) := by
  cases rnw <;> simp [BankInv, hs, columnState]

section Step

variable {pins : ℕ → Pins} {t : ℕ} {s : Regs} {i : Input}

/-- A request that is up and unacknowledged is still up one cycle later. -/
theorem request_step (h : Inv s) (i : Input) (hr : s.refreshRequest = true)
    (ha : s.main.ackRefreshRequest = false) : (step s i).refreshRequest = true := by
  refine refreshRequest_step_of_request i hr ha ?_
  by_contra hd
  rw [(h.undone (by simpa using hd)).2.2] at hr
  exact Bool.false_ne_true hr

/-- The step of `BankInv` while the initialisation FSM owns the pins. -/
private theorem BankInv.step_idleInit (h : Inv s) (hs : s.main.mState = .idle)
    (hd : s.initDone = false) (hpins : pins (t + 1) = (Sdram.step s i).pins)
    (hb : BankInv s (RowOpened pins · · (t + 1)) (Precharged pins (t + 1))) :
    BankInv (Sdram.step s i) (RowOpened pins · · (t + 2)) (Precharged pins (t + 2)) := by
  have hs' : (Sdram.step s i).main.mState = .idle := by simp [Sdram.step, mainFsm, hs, hd]
  have hcmd : (pins (t + 1)).cmd = s.ini.iCmd := by rw [hpins, h.pins_of_undone hd]
  have haddr : (pins (t + 1)).addr = s.ini.iAddr := by rw [hpins, h.pins_of_undone hd]
  have hact : (pins (t + 1)).cmd.code ≠ .act := by
    rw [hcmd]; rcases h.ini.code with hc | hc | hc | hc <;> simp [hc]
  simp only [BankInv, hs, hd, Bool.false_eq_true, if_false] at hb
  -- what the banks are after this cycle, by the command the initialisation FSM has issued
  have key : Precharged pins (t + 2) ∨ s.ini.iState = .powerup ∨ s.ini.iState = .precharge := by
    rcases hb with hb | hb | hb | hb
    · exact Or.inr (Or.inl hb)
    · exact Or.inr (Or.inr hb)
    · refine Or.inl (Since.now ⟨?_, ?_⟩)
      · rw [Pins.Issues, hcmd, hb]
      · rw [haddr, h.iniAddr, hb]
        decide
    · exact Or.inl (hb.keep _ rfl hact)
  simp only [BankInv, hs']
  cases hd' : (Sdram.step s i).initDone with
  | true =>
    have hterm : s.ini.iState = .terminated := by simpa [Sdram.step, hd] using hd'
    simp only [hterm, reduceCtorEq, or_false] at key
    exact Or.inr key
  | false =>
    rw [if_neg Bool.false_ne_true]
    rcases key with hp | hp | hp
    · exact Or.inr (Or.inr (Or.inr hp))
    · by_cases hc : s.refreshCounter = 0
      · exact Or.inr (Or.inl (by simp [Sdram.step, initFsm, hp, hc]))
      · exact Or.inl (by simp [Sdram.step, initFsm, hp, hc])
    · exact Or.inr (Or.inr (Or.inl (by simp [Sdram.step, initFsm, hp])))

/-- The pins of a column state leave the open row open. -/
theorem column_keepsRow (s : Regs) (rnw : Bool) : (s.column rnw).mCmd.code.keepsRow = true := by
  cases hx : s.exhausted <;> cases rnw <;> simp [Regs.column, hx, columnCode, CmdCode.keepsRow]

theorem initDone_step (s : Regs) (i : Input) (hd : s.initDone = true) :
    (step s i).initDone = true := by
  simp [step, hd]

/-- **Preservation of the bank state.** -/
theorem BankInv.step (h : Inv s) (hpins : pins (t + 1) = (Sdram.step s i).pins)
    (hb : BankInv s (RowOpened pins · · (t + 1)) (Precharged pins (t + 1))) :
    BankInv (Sdram.step s i) (RowOpened pins · · (t + 2)) (Precharged pins (t + 2)) := by
  obtain ⟨m, hm, hstep⟩ := exists_mainStep s i
  have hcmd : (pins (t + 1)).cmd = m.mCmd := by rw [hpins, Regs.pins, hm]
  have hmain := h.main
  cases hstep with
  | idleInit hs hd => exact BankInv.step_idleInit h hs hd hpins hb
  | idleRefresh hs hd hr => simp only [BankInv, hm]
  | idleAccept hs hd hr he =>
    -- no refresh is asked for, so this is the idle state with closed banks
    simp only [BankInv, hs, hd, hr, if_true, Bool.false_eq_true, false_and, false_or] at hb
    simp only [BankInv, hm]
    exact hb.keep .nop (by rw [hcmd]) (by decide)
  | idleStay hs hd hr he =>
    simp only [BankInv, hs, hd, hr, if_true, Bool.false_eq_true, false_and, false_or] at hb
    simp only [BankInv, hm, hs, initDone_step s i hd, if_true]
    exact Or.inr (hb.keep .nop (by rw [hcmd]) (by decide))
  | activate hs =>
    simp only [MainInv, hs] at hmain
    -- ACT is on the pins, with bank and row of the active word
    have hopen : RowOpened pins s.activeBank (rowOf s.main.active.addr) (t + 2) := by
      refine Since.now ⟨?_, ?_, ?_⟩
      · rw [Pins.Issues, hcmd, Regs.csnDecode_of_csN hmain.2.1.csN]
      · rw [hpins, Regs.pins, hm]
      · rw [hpins, Regs.pins, hm]
    simp only [BankInv, hm, Regs.activeBank]
    cases s.main.active.rnw <;> exact hopen
  | waitMore csN hs hc =>
    simp only [BankInv, hm, hs] at hb ⊢
    have hnop : (pins (t + 1)).cmd.code = .nop := by rw [hcmd]
    cases hn : s.main.mNext <;> simp only [hn] at hb ⊢
    case idle =>
      exact hb.imp (fun hr => ⟨request_step h i hr.1 hr.2, hr.2⟩) (·.keep .nop hnop (by decide))
    case autoRefresh => exact hb.keep .nop hnop (by decide)
    case read => simpa only [Regs.activeBank, hm] using hb.keep .nop hnop rfl
    case write => simpa only [Regs.activeBank, hm] using hb.keep .nop hnop rfl
  | waitDone csN hs hc =>
    have hd := h.initDone_of_ne_idle (by simp [hs])
    simp only [MainInv, hs] at hmain
    simp only [BankInv, hs] at hb
    have hnop : (pins (t + 1)).cmd.code = .nop := by rw [hcmd]
    cases hn : s.main.mNext <;> simp only [hn] at hb hmain
    case idle =>
      simp only [BankInv, hm, hn, initDone_step s i hd, if_true]
      exact hb.imp (fun hr => ⟨request_step h i hr.1 hr.2, hr.2⟩) (·.keep .nop hnop (by decide))
    case autoRefresh =>
      simp only [BankInv, hm, hn]
      exact hb.keep .nop hnop (by decide)
    case read =>
      simpa only [BankInv, hm, hn, Regs.activeBank] using hb.keep .nop hnop rfl
    case write =>
      simpa only [BankInv, hm, hn, Regs.activeBank] using hb.keep .nop hnop rfl
    all_goals exact absurd hmain.2 id
  | columnBail rnw hs hp hr =>
    -- a row is open, but the refresh that interrupts is still unacknowledged
    have hserv := ((mainInv_column hs).mp hmain).1
    simp only [BankInv, hm]
    exact Or.inl ⟨request_step h i hr hserv.ack, hserv.ack⟩
  | columnStream rnw hs hp hr =>
    -- the next word is in the row that is open
    obtain ⟨-, -, hbank, hrow, -⟩ := s.pending_iff.mp hp
    have hopen := (((bankInv_column rnw hs).mp hb).keep _ (by rw [hcmd]) (column_keepsRow s rnw))
    refine (bankInv_column rnw (by rw [hm]; exact hs)).mpr ?_
    simp only [Regs.activeBank, hm]
    rw [← hbank, ← hrow]
    exact hopen
  | columnEnd rnw hs hp =>
    have hopen := (((bankInv_column rnw hs).mp hb).keep _ (by rw [hcmd]) (column_keepsRow s rnw))
    simp only [BankInv, hm, Regs.activeBank]
    exact hopen
  | prepareMore hs hc =>
    simp only [BankInv, hs] at hb
    simpa only [BankInv, hm, hs, Regs.activeBank] using hb.keep .nop (by rw [hcmd]) rfl
  | prepareDone hs hc => simp only [BankInv, hm]
  | close hs =>
    simp only [MainInv, hs] at hmain
    -- PRE is on the pins, with `zs_addr[10]` high and the chip select low
    have haddr : (pins (t + 1)).addr = 0x1FFF#13 := by rw [hpins, Regs.pins, hm]
    have hclosed : Precharged pins (t + 2) := by
      refine Since.now ⟨?_, by rw [haddr]; decide⟩
      rw [Pins.Issues, hcmd]
      rcases hmain.2.2.2 with ⟨-, hr⟩ | ⟨-, hcs⟩
      · simp [hr]
      · simp [Regs.csnDecode_of_csN hcs]
    rcases hmain.2.2.2 with ⟨hn, -⟩ | ⟨hn, -⟩
    · simpa only [BankInv, hm, hn] using hclosed
    · simp only [BankInv, hm, hn]
      exact Or.inr hclosed
  | refresh hs =>
    simp only [BankInv, hs] at hb
    simp only [BankInv, hm]
    exact Or.inr (hb.keep .arf (by rw [hcmd]) (by decide))
  | spinBail hs hr =>
    simp only [MainInv, hs] at hmain
    simp only [BankInv, hm]
    exact Or.inl ⟨request_step h i hr hmain.2.ack, hmain.2.ack⟩
  | spinResume hs hr hp =>
    obtain ⟨-, -, hbank, hrow, -⟩ := s.pending_iff.mp hp
    simp only [BankInv, hs] at hb
    refine (bankInv_column s.fEntry.rnw (by rw [hm])).mpr ?_
    simp only [Regs.activeBank, hm]
    rw [← hbank, ← hrow]
    exact hb.keep .nop (by rw [hcmd]) rfl
  | spinClose hs hr he hp =>
    simp only [BankInv, hs] at hb
    simpa only [BankInv, hm, Regs.activeBank] using hb.keep .nop (by rw [hcmd]) rfl
  | spinStay hs hr he =>
    simp only [BankInv, hs] at hb
    simpa only [BankInv, hm, hs, Regs.activeBank] using hb.keep .nop (by rw [hcmd]) rfl
  | undefined hs => simp only [MainInv, hs] at hmain

end Step

/-- **The bank state holds in every cycle** of every run from reset. -/
theorem bankInv_regsAt (s₀ : Regs) (inp : ℕ → Input) (t : ℕ) :
    BankInv (regsAt s₀ inp t) (RowOpened (pinsAt s₀ inp) · · (t + 1))
      (Precharged (pinsAt s₀ inp) (t + 1)) := by
  induction t with
  | zero => exact Or.inl rfl
  | succ t ih => exact BankInv.step (inv_regsAt s₀ inp t) rfl ih

end Sdram
end Cyclone10

import Cyclone10TPG.Sdram.Banks
import Cyclone10TPG.Sdram.Command

/-!
# The timing automaton

What decides when a command comes is little of the state: the state of the FSM that owns
the pins, its wait counter, whether a refresh waits, and the direction of the burst. A
`Phase` keeps just that, and `PhaseStep p l p'` is the transition system on phases, where
the label `l` is the command that the edge puts on the pins.

`phaseStep` is the simulation: every clock edge of the controller is a step of the
automaton. A statement on when commands can follow each other is then one about the
automaton, with no data in it.
-/

namespace Cyclone10
namespace Sdram

open Sync

/-! ### Phases -/

/-- Where the controller stands in its timing. The first six phases are those of the
initialisation FSM. -/
inductive Phase
  /-- Before the first PRE. -/
  | power
  /-- `count` cycles to wait after PRE. -/
  | initPre (count : ℕ)
  /-- Before an ARF or the LMR. -/
  | initGap
  | initArf (count : ℕ)
  | initLmr (count : ℕ)
  | initEnd
  /-- `MAIN_IDLE`; a refresh `waits` or not. -/
  | idle (waits : Bool)
  | activate
  /-- The wait between ACT and the column state. -/
  | recover (rnw : Bool) (count : ℕ)
  | column (rnw : Bool)
  | spin (rnw : Bool)
  | prepare (count : ℕ)
  /-- `MAIN_BANK_CLOSE_ALL`, on the way to a refresh or to another request. -/
  | close (refresh : Bool)
  /-- The wait between PRE and ARF. -/
  | closed
  | refresh
  /-- The wait before `MAIN_IDLE`; `acked` after a refresh. -/
  | settle (count : ℕ) (waits acked : Bool)
  deriving Repr, DecidableEq

def InitRegs.phase (r : InitRegs) : Phase :=
  match r.iState with
  | .powerup | .precharge | .undefined => .power
  | .waitUntilSafe =>
    if r.iNext = .terminated then .initLmr r.iCount
    else if r.iRefs = 0 then .initPre r.iCount
    else .initArf r.iCount
  | .autorefresh | .modeRegisterSet => .initGap
  | .terminated => .initEnd

/-- A request is up and has not been acknowledged. -/
def Regs.refreshWaits (s : Regs) : Bool := s.refreshRequest && !s.main.ackRefreshRequest

def Regs.mainPhase (s : Regs) : Phase :=
  match s.main.mState with
  | .idle | .undefined => .idle s.refreshWaits
  | .bankActivate => .activate
  | .waitUntilSafe =>
    match s.main.mNext with
    | .read => .recover true s.main.mCount
    | .write => .recover false s.main.mCount
    | .autoRefresh => .closed
    | _ => .settle s.main.mCount s.refreshWaits s.main.ackRefreshRequest
  | .read => .column true
  | .write => .column false
  | .prepareBankCloseAll => .prepare s.main.mCount
  | .bankCloseAll => .close (s.main.mNext == .autoRefresh)
  | .autoRefresh => .refresh
  | .spinOffReadWriteCycle => .spin s.main.active.rnw

def Regs.phase (s : Regs) : Phase := if s.initDone then s.mainPhase else s.ini.phase

/-! ### Steps -/

/-- The transitions between phases, with the command that each puts on the pins. The
commands of the initialisation FSM reach the pins one cycle late, so the wait has then
already begun. -/
inductive PhaseStep : Phase → Option CmdCode → Phase → Prop
  | powerStay : PhaseStep .power none .power
  | powerPre : PhaseStep .power none (.initPre 2)
  | initPre : PhaseStep (.initPre 2) (some .pre) (.initPre 1)
  | initPreDone : PhaseStep (.initPre 1) none .initGap
  | initGapArf : PhaseStep .initGap none (.initArf 7)
  | initArf : PhaseStep (.initArf 7) (some .arf) (.initArf 6)
  | initArfMore (c : ℕ) (h : 1 < c) (h7 : c < 7) : PhaseStep (.initArf c) none (.initArf (c - 1))
  | initArfDone : PhaseStep (.initArf 1) none .initGap
  | initGapLmr : PhaseStep .initGap none (.initLmr 4)
  | initLmr : PhaseStep (.initLmr 4) (some .lmr) (.initLmr 3)
  | initLmrMore (c : ℕ) (h : 1 < c) (h4 : c < 4) : PhaseStep (.initLmr c) none (.initLmr (c - 1))
  | initLmrDone : PhaseStep (.initLmr 1) none .initEnd
  | initEnd : PhaseStep .initEnd none (.idle false)
  | idleRefresh : PhaseStep (.idle true) none (.close true)
  | idleAccept : PhaseStep (.idle false) none .activate
  | idleStay (w : Bool) : PhaseStep (.idle false) none (.idle w)
  | activate (rnw : Bool) : PhaseStep .activate (some .act) (.recover rnw 2)
  | recoverMore (rnw : Bool) (c : ℕ) (h : 1 < c) :
    PhaseStep (.recover rnw c) none (.recover rnw (c - 1))
  | recoverDone (rnw : Bool) (c : ℕ) (h : c ≤ 1) : PhaseStep (.recover rnw c) none (.column rnw)
  | columnStream (rnw : Bool) (l : Option CmdCode) (hl : l = none ∨ l = some (columnCode rnw)) :
    PhaseStep (.column rnw) l (.column rnw)
  | columnEnd (rnw : Bool) (l : Option CmdCode) (hl : l = none ∨ l = some (columnCode rnw)) :
    PhaseStep (.column rnw) l (.spin rnw)
  | columnBail (rnw : Bool) (l : Option CmdCode) (hl : l = none ∨ l = some (columnCode rnw)) :
    PhaseStep (.column rnw) l (.settle (if rnw then 1 else 3) true false)
  | spinStay (rnw : Bool) : PhaseStep (.spin rnw) none (.spin rnw)
  | spinResume (rnw : Bool) : PhaseStep (.spin rnw) none (.column rnw)
  | spinBail (rnw : Bool) : PhaseStep (.spin rnw) none (.settle 2 true false)
  | spinClose (rnw : Bool) : PhaseStep (.spin rnw) none (.prepare 2)
  | prepareMore (c : ℕ) (h : 1 < c) : PhaseStep (.prepare c) none (.prepare (c - 1))
  | prepareDone (c : ℕ) (h : c ≤ 1) : PhaseStep (.prepare c) none (.close false)
  | closeRefresh : PhaseStep (.close true) (some .pre) .closed
  | closeIdle (w : Bool) : PhaseStep (.close false) (some .pre) (.settle 1 w false)
  | closed : PhaseStep .closed none .refresh
  | refresh : PhaseStep .refresh (some .arf) (.settle 7 false true)
  | settleMore (c : ℕ) (w w' a : Bool) (h : 1 < c) (hw : w = true → w' = true) :
    PhaseStep (.settle c w a) none (.settle (c - 1) w' a)
  | settleDone (c : ℕ) (w w' a : Bool) (h : c ≤ 1) (hw : w = true → w' = true) :
    PhaseStep (.settle c w a) none (.idle w')

theorem PhaseStep.of_eq {p p' q q' : Phase} {l l' : Option CmdCode} (h : PhaseStep p l q)
    (hp : p' = p) (hl : l' = l) (hq : q' = q) : PhaseStep p' l' q' := by
  rw [hp, hl, hq]
  exact h

/-- The transitions that put the command `c` on the pins. -/
def IssueStep (p p' : Phase) : CmdCode → Prop
  | .pre => p = .initPre 2 ∧ p' = .initPre 1 ∨ p = .close true ∧ p' = .closed ∨
      p = .close false ∧ ∃ w, p' = .settle 1 w false
  | .arf => p = .initArf 7 ∧ p' = .initArf 6 ∨ p = .refresh ∧ p' = .settle 7 false true
  | .lmr => p = .initLmr 4 ∧ p' = .initLmr 3
  | .act => p = .activate ∧ ∃ rnw, p' = .recover rnw 2
  | .rd => p = .column true ∧ (p' = .column true ∨ p' = .spin true ∨ p' = .settle 1 true false)
  | .wr => p = .column false ∧ (p' = .column false ∨ p' = .spin false ∨ p' = .settle 3 true false)
  | .bst | .nop => False

theorem PhaseStep.issue {p p' : Phase} {c : CmdCode} (h : PhaseStep p (some c) p') :
    IssueStep p p' c := by
  cases h with
  | initPre => exact Or.inl ⟨rfl, rfl⟩
  | initArf => exact Or.inl ⟨rfl, rfl⟩
  | initLmr => exact ⟨rfl, rfl⟩
  | activate rnw => exact ⟨rfl, rnw, rfl⟩
  | columnStream rnw l hl =>
    obtain rfl : c = columnCode rnw := by simpa using hl
    cases rnw <;> exact ⟨rfl, Or.inl rfl⟩
  | columnEnd rnw l hl =>
    obtain rfl : c = columnCode rnw := by simpa using hl
    cases rnw <;> exact ⟨rfl, Or.inr (Or.inl rfl)⟩
  | columnBail rnw l hl =>
    obtain rfl : c = columnCode rnw := by simpa using hl
    cases rnw <;> exact ⟨rfl, Or.inr (Or.inr rfl)⟩
  | closeRefresh => exact Or.inr (Or.inl ⟨rfl, rfl⟩)
  | closeIdle w => exact Or.inr (Or.inr ⟨rfl, w, rfl⟩)
  | refresh => exact Or.inr ⟨rfl, rfl⟩

/-- ARF comes after the wait that follows PRE. -/
theorem PhaseStep.to_refresh {p : Phase} {l : Option CmdCode} (h : PhaseStep p l .refresh) :
    p = .closed := by
  cases h
  rfl

theorem PhaseStep.to_closed {p : Phase} {l : Option CmdCode} (h : PhaseStep p l .closed) :
    l = some .pre := by
  cases h
  rfl

/-! ### The simulation -/

section Step

variable {s : Regs} {i : Input}

/-- The event of `i_cmd`, while it waits after the command `c`. -/
theorem InitRegs.Waits.event {r : InitRegs} {n : ℕ} {c : CmdCode} (h : r.Waits n c)
    (hc : c ≠ .nop) : r.iCmd.event = if r.iCount = n then some c else none := by
  rw [h.2.2]
  by_cases hn : r.iCount = n <;> simp [Cmd.event, hn, hc]

/-- The initialisation FSM steps as the automaton does. -/
theorem InitInv.phaseStep {r : InitRegs} (hstep : InitStep s r) (h : InitInv s.ini)
    (hterm : s.ini.iState ≠ .terminated) : PhaseStep s.ini.phase s.ini.iCmd.event r.phase := by
  cases hstep with
  | powerupStay hs hc =>
    simp only [InitInv, hs] at h
    exact PhaseStep.powerStay.of_eq (by simp [InitRegs.phase, hs]) (by rw [h]; rfl)
      (by simp [InitRegs.phase, hs])
  | powerupDone hs hc =>
    simp only [InitInv, hs] at h
    exact PhaseStep.powerStay.of_eq (by simp [InitRegs.phase, hs]) (by rw [h]; rfl) rfl
  | precharge hs =>
    simp only [InitInv, hs] at h
    exact PhaseStep.powerPre.of_eq (by simp [InitRegs.phase, hs]) (by rw [h.1]; rfl)
      (by simp [InitRegs.phase, h.2])
  | autorefresh hs =>
    simp only [InitInv, hs] at h
    have hlt : (s.ini.iRefs + 1) % 16 = s.ini.iRefs + 1 := Nat.mod_eq_of_lt (by omega)
    refine PhaseStep.initGapArf.of_eq (by simp [InitRegs.phase, hs]) (by rw [h.1]; rfl) ?_
    by_cases h7 : s.ini.iRefs = 7 <;> simp [InitRegs.phase, hlt, h7]
  | waitMore hs hc =>
    -- both waits for ARF: before the next one, and before the LMR
    have arf : s.ini.Waits 7 .arf → s.ini.iRefs ≠ 0 → s.ini.iNext ≠ .terminated →
        PhaseStep s.ini.phase s.ini.iCmd.event
          (InitRegs.phase { s.ini with
            iAddr := 0x1FFF#13, iCmd := ⟨false, .nop⟩, iCount := s.ini.iCount - 1 }) := by
      intro hw hrefs hn
      have hphase : s.ini.phase = .initArf s.ini.iCount := by
        simp [InitRegs.phase, hs, hn, hrefs]
      rw [hphase, hw.event (by decide)]
      simp only [InitRegs.phase, hs, if_neg hn, if_neg hrefs]
      by_cases h7 : s.ini.iCount = 7
      · rw [if_pos h7, h7]
        exact PhaseStep.initArf
      · rw [if_neg h7]
        exact PhaseStep.initArfMore _ hc (lt_of_le_of_ne hw.2.1 h7)
    simp only [InitInv, hs] at h
    cases hn : s.ini.iNext <;> simp only [hn] at h
    case autorefresh =>
      -- the wait after PRE, or after one of the first seven ARFs
      rcases h with ⟨hrefs, hw⟩ | ⟨hrefs, -, hw⟩
      · obtain hcount : s.ini.iCount = 2 := Nat.le_antisymm hw.2.1 hc
        exact PhaseStep.initPre.of_eq (by simp [InitRegs.phase, hs, hn, hrefs, hcount])
          (by rw [hw.event (by decide), if_pos hcount])
          (by simp [InitRegs.phase, hs, hn, hrefs, hcount])
      · simpa only [hn] using arf hw (by omega) (by simp [hn])
    case modeRegisterSet => simpa only [hn] using arf h.2 (by omega) (by simp [hn])
    case terminated =>
      -- the LMR itself is in `i_cmd` in the first cycle of its wait
      have hphase : s.ini.phase = .initLmr s.ini.iCount := by simp [InitRegs.phase, hs, hn]
      rw [hphase, h.2.event (by decide)]
      simp only [InitRegs.phase, hs, hn, if_true]
      by_cases h4 : s.ini.iCount = 4
      · rw [if_pos h4, h4]
        exact PhaseStep.initLmr
      · rw [if_neg h4]
        exact PhaseStep.initLmrMore _ hc (lt_of_le_of_ne h.2.2.1 h4)
  | waitDone hs hc =>
    -- the last cycle of a wait: the counter is at 1 and `i_cmd` is NOP
    simp only [InitInv, hs] at h
    cases hn : s.ini.iNext <;> simp only [hn] at h
    case autorefresh =>
      rcases h with ⟨hrefs, hw⟩ | ⟨hrefs, -, hw⟩
      · obtain hcount : s.ini.iCount = 1 := Nat.le_antisymm hc hw.1
        exact PhaseStep.initPreDone.of_eq (by simp [InitRegs.phase, hs, hn, hrefs, hcount])
          (by rw [hw.event (by decide), hcount]; rfl) rfl
      · obtain hcount : s.ini.iCount = 1 := Nat.le_antisymm hc hw.1
        have hne : s.ini.iRefs ≠ 0 := by omega
        exact PhaseStep.initArfDone.of_eq (by simp [InitRegs.phase, hs, hn, hne, hcount])
          (by rw [hw.event (by decide), hcount]; rfl) rfl
    case modeRegisterSet =>
      obtain hcount : s.ini.iCount = 1 := Nat.le_antisymm hc h.2.1
      exact PhaseStep.initArfDone.of_eq (by simp [InitRegs.phase, hs, hn, h.1, hcount])
        (by rw [h.2.event (by decide), hcount]; rfl) rfl
    case terminated =>
      obtain hcount : s.ini.iCount = 1 := Nat.le_antisymm hc h.2.1
      exact PhaseStep.initLmrDone.of_eq (by simp [InitRegs.phase, hs, hn, hcount])
        (by rw [h.2.event (by decide), hcount]; rfl) rfl
  | terminated hs => exact absurd hs hterm
  | modeRegisterSet hs =>
    simp only [InitInv, hs] at h
    exact PhaseStep.initGapLmr.of_eq (by simp [InitRegs.phase, hs]) (by rw [h.1]; rfl)
      (by simp [InitRegs.phase])
  | undefined hs => simp only [InitInv, hs] at h

theorem mainPhase_column {rnw : Bool} (hs : s.main.mState = columnState rnw) :
    s.mainPhase = .column rnw := by
  cases rnw <;> simp [Regs.mainPhase, hs, columnState]

/-- A refresh that waits goes on waiting, as long as the acknowledge does not rise. -/
theorem refreshWaits_step (h : Inv s) (i : Input)
    (hack : (step s i).main.ackRefreshRequest = s.main.ackRefreshRequest)
    (hw : s.refreshWaits = true) : (step s i).refreshWaits = true := by
  simp only [Regs.refreshWaits, Bool.and_eq_true, Bool.not_eq_true'] at hw ⊢
  exact ⟨request_step h i hw.1 hw.2, hack.trans hw.2⟩

/-- In `MAIN_IDLE` a request is never acknowledged. -/
theorem Inv.refreshWaits_idle (h : Inv s) (hs : s.main.mState = .idle) :
    s.refreshWaits = s.refreshRequest := by
  have hmain := h.main
  simp only [MainInv, hs] at hmain
  cases hack : s.main.ackRefreshRequest with
  | false => simp [Regs.refreshWaits, hack]
  | true => simp [Regs.refreshWaits, hmain.2 hack]

/-- The command of a column state, or NOP. -/
theorem event_column (h : Inv s) {rnw : Bool} (hs : s.main.mState = columnState rnw) :
    (s.column rnw).mCmd.event = none ∨ (s.column rnw).mCmd.event = some (columnCode rnw) := by
  have hcs := Regs.csnDecode_of_csN ((mainInv_column hs).mp h.main).1.csN
  cases hx : s.exhausted with
  | true => exact Or.inl (by simp [Regs.column, Cmd.event, hx])
  | false =>
    refine Or.inr ?_
    cases rnw <;> simp [Regs.column, Cmd.event, hx, hcs, columnCode]

/-- The main FSM steps as the automaton does. -/
theorem mainPhaseStep (h : Inv s) (hd : s.initDone = true) (i : Input) :
    PhaseStep s.mainPhase (step s i).pins.cmd.event (step s i).mainPhase := by
  obtain ⟨m, hm, hstep⟩ := exists_mainStep s i
  have hcmd : (step s i).pins.cmd = m.mCmd := by rw [Regs.pins, hm]
  have hmain := h.main
  have nop : ∀ b : Bool, Cmd.event ⟨b, .nop⟩ = none := fun b => by cases b <;> rfl
  cases hstep with
  | idleInit hs hd' => exact absurd (hd.symm.trans hd') (by decide)
  | idleRefresh hs hd hr =>
    -- in `MAIN_IDLE` the phase shows the request itself
    have hw := h.refreshWaits_idle hs
    exact PhaseStep.idleRefresh.of_eq (by simp [Regs.mainPhase, hs, hw, hr]) (by rw [hcmd, nop])
      (by simp [Regs.mainPhase, hm])
  | idleAccept hs hd hr he =>
    have hw := h.refreshWaits_idle hs
    exact PhaseStep.idleAccept.of_eq (by simp [Regs.mainPhase, hs, hw, hr]) (by rw [hcmd, nop])
      (by simp [Regs.mainPhase, hm])
  | idleStay hs hd hr he =>
    have hw := h.refreshWaits_idle hs
    exact (PhaseStep.idleStay (step s i).refreshWaits).of_eq
      (by simp [Regs.mainPhase, hs, hw, hr]) (by rw [hcmd, nop]) (by simp [Regs.mainPhase, hm, hs])
  | activate hs =>
    simp only [MainInv, hs] at hmain
    refine (PhaseStep.activate s.main.active.rnw).of_eq (by simp [Regs.mainPhase, hs]) ?_ ?_
    · rw [hcmd, Regs.csnDecode_of_csN hmain.2.1.csN]
      rfl
    · cases hrnw : s.main.active.rnw <;> simp [Regs.mainPhase, hm, hrnw, columnState]
  | waitMore csN hs hc =>
    simp only [MainInv, hs] at hmain
    cases hn : s.main.mNext <;> simp only [hn] at hmain
    case read =>
      exact (PhaseStep.recoverMore true _ hc).of_eq (by simp [Regs.mainPhase, hs, hn])
        (by rw [hcmd, nop]) (by simp [Regs.mainPhase, hm, hs, hn])
    case write =>
      exact (PhaseStep.recoverMore false _ hc).of_eq (by simp [Regs.mainPhase, hs, hn])
        (by rw [hcmd, nop]) (by simp [Regs.mainPhase, hm, hs, hn])
    -- the wait before a refresh has one cycle only
    case autoRefresh => omega
    case idle =>
      -- a refresh that waits keeps waiting
      have hw := refreshWaits_step h i (by rw [hm])
      exact (PhaseStep.settleMore _ _ _ _ hc hw).of_eq (by simp [Regs.mainPhase, hs, hn]; rfl)
        (by rw [hcmd, nop]) (by simp [Regs.mainPhase, hm, hs, hn])
    all_goals exact absurd hmain.2 id
  | waitDone csN hs hc =>
    simp only [MainInv, hs] at hmain
    cases hn : s.main.mNext <;> simp only [hn] at hmain
    case read =>
      exact (PhaseStep.recoverDone true _ hc).of_eq (by simp [Regs.mainPhase, hs, hn])
        (by rw [hcmd, nop]) (by simp [Regs.mainPhase, hm, hn])
    case write =>
      exact (PhaseStep.recoverDone false _ hc).of_eq (by simp [Regs.mainPhase, hs, hn])
        (by rw [hcmd, nop]) (by simp [Regs.mainPhase, hm, hn])
    case autoRefresh =>
      exact PhaseStep.closed.of_eq (by simp [Regs.mainPhase, hs, hn])
        (by rw [hcmd, nop]) (by simp [Regs.mainPhase, hm, hn])
    case idle =>
      have hw := refreshWaits_step h i (by rw [hm])
      exact (PhaseStep.settleDone _ _ _ _ hc hw).of_eq (by simp [Regs.mainPhase, hs, hn]; rfl)
        (by rw [hcmd, nop]) (by simp [Regs.mainPhase, hm, hn])
    all_goals exact absurd hmain.2 id
  | columnBail rnw hs hp hr =>
    -- the refresh that interrupts the burst waits from now on
    have hserv := ((mainInv_column hs).mp hmain).1
    refine (PhaseStep.columnBail rnw _ (event_column h hs)).of_eq (mainPhase_column hs)
      (by rw [hcmd]) ?_
    have hw : (step s i).refreshWaits = true :=
      refreshWaits_step h i (by rw [hm]; rfl) (by simp [Regs.refreshWaits, hr, hserv.ack])
    have hack : (step s i).main.ackRefreshRequest = false := by rw [hm]; exact hserv.ack
    simp only [Regs.mainPhase, hw, hack]
    rw [hm]
  | columnStream rnw hs hp hr =>
    exact (PhaseStep.columnStream rnw _ (event_column h hs)).of_eq (mainPhase_column hs)
      (by rw [hcmd]) (mainPhase_column (by rw [hm]; exact hs))
  | columnEnd rnw hs hp =>
    have hrnw := ((mainInv_column hs).mp hmain).2
    exact (PhaseStep.columnEnd rnw _ (event_column h hs)).of_eq (mainPhase_column hs)
      (by rw [hcmd]) (by simp [Regs.mainPhase, hm, Regs.column, hrnw])
  | prepareMore hs hc =>
    exact (PhaseStep.prepareMore _ hc).of_eq (by simp [Regs.mainPhase, hs]) (by rw [hcmd, nop])
      (by simp [Regs.mainPhase, hm, hs])
  | prepareDone hs hc =>
    simp only [MainInv, hs] at hmain
    exact (PhaseStep.prepareDone _ hc).of_eq (by simp [Regs.mainPhase, hs]) (by rw [hcmd, nop])
      (by simp [Regs.mainPhase, hm, hmain.2.2])
  | close hs =>
    simp only [MainInv, hs] at hmain
    -- before a refresh the chip select is forced, otherwise it is the active one
    obtain ⟨-, hack, hcount, ⟨hn, hr⟩ | ⟨hn, hcs⟩⟩ := hmain
    · exact PhaseStep.closeRefresh.of_eq (by simp [Regs.mainPhase, hs, hn])
        (by rw [hcmd, hr]; rfl) (by simp [Regs.mainPhase, hm, hn])
    · refine (PhaseStep.closeIdle (step s i).refreshWaits).of_eq
        (by simp [Regs.mainPhase, hs, hn]) ?_ (by simp [Regs.mainPhase, hm, hn, hack, hcount])
      rw [hcmd, Regs.csnDecode_of_csN hcs, Bool.and_false]
      rfl
  | refresh hs =>
    -- the acknowledge ends the waiting
    have hw : (step s i).refreshWaits = false := by simp [Regs.refreshWaits, hm]
    exact PhaseStep.refresh.of_eq (by simp [Regs.mainPhase, hs]) (by rw [hcmd]; rfl)
      (by simp [Regs.mainPhase, hm, hw])
  | spinBail hs hr =>
    simp only [MainInv, hs] at hmain
    have hw : (step s i).refreshWaits = true :=
      refreshWaits_step h i (by rw [hm]) (by simp [Regs.refreshWaits, hr, hmain.2.ack])
    exact (PhaseStep.spinBail s.main.active.rnw).of_eq (by simp [Regs.mainPhase, hs])
      (by rw [hcmd, nop]) (by simp [Regs.mainPhase, hm, hw, hmain.2.ack])
  | spinResume hs hr hp =>
    obtain ⟨-, hrnw, -⟩ := s.pending_iff.mp hp
    exact (PhaseStep.spinResume s.main.active.rnw).of_eq (by simp [Regs.mainPhase, hs])
      (by rw [hcmd, nop]) (by rw [hrnw]; exact mainPhase_column (by rw [hm]))
  | spinClose hs hr he hp =>
    exact (PhaseStep.spinClose s.main.active.rnw).of_eq (by simp [Regs.mainPhase, hs])
      (by rw [hcmd, nop]) (by simp [Regs.mainPhase, hm])
  | spinStay hs hr he =>
    exact (PhaseStep.spinStay s.main.active.rnw).of_eq (by simp [Regs.mainPhase, hs])
      (by rw [hcmd, nop]) (by simp [Regs.mainPhase, hm, hs])
  | undefined hs => simp only [MainInv, hs] at hmain

/-- **The simulation**: every clock edge is a step of the automaton. -/
theorem phaseStep (h : Inv s) (i : Input) :
    PhaseStep s.phase (step s i).pins.cmd.event (step s i).phase := by
  cases hd : s.initDone with
  | true =>
    rw [Regs.phase, if_pos hd, Regs.phase, if_pos (initDone_step s i hd)]
    exact mainPhaseStep h hd i
  | false =>
    have hidle := (h.undone hd).1
    have hcmd : (step s i).pins.cmd = s.ini.iCmd := by
      simp [Regs.pins, step, mainFsm, hidle, hd]
    rw [Regs.phase, if_neg (by simp [hd]), hcmd]
    by_cases hterm : s.ini.iState = .terminated
    · -- the hand-over to the main FSM, which idles, and no request is up yet
      have hini := h.ini
      simp only [InitInv, hterm] at hini
      exact PhaseStep.initEnd.of_eq (by simp [InitRegs.phase, hterm]) (by rw [hini.1]; rfl)
        (by simp [Regs.phase, Regs.mainPhase, Regs.refreshWaits, step, mainFsm, hidle, hd, hterm])
    · have hd' : (step s i).initDone = false := by simp [step, hd, hterm]
      rw [Regs.phase, if_neg (by simp [hd'])]
      exact InitInv.phaseStep (initStep s) h.ini hterm

end Step

end Sdram
end Cyclone10

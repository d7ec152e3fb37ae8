import Cyclone10TPG.Sdram.Controller

/-!
# The transitions of the two state machines

`mainFsm` and `initFsm` compute the next registers by nested case distinctions. Here each
path through them is one rule of a transition relation, `MainStep` and `InitStep`, whose
rules carry the guards of the path and the registers it leaves. `mainStep` and `initStep`
say that the functions take one of these transitions; every invariant of the controller
is derived from the rules, by cases, and never unfolds the functions again.

The states `MAIN_READ` and `MAIN_WRITE` differ in the command, in driving `zs_dq`, and in
the wait before an interrupting refresh. They share their three rules: `columnBail`,
`columnStream` and `columnEnd`, with the direction as a parameter.
-/

namespace Cyclone10
namespace Sdram

/-! ### The column states -/

/-- The state that issues column commands in the direction `rnw`. -/
def columnState (rnw : Bool) : MainState := if rnw then .read else .write

/-- The column command in the direction `rnw`. -/
def columnCode (rnw : Bool) : CmdCode := if rnw then .rd else .wr

namespace Regs

variable (s : Regs)

/-- The word that a column state serves: the FIFO word while it is being popped, and
otherwise the active one. -/
def served : Entry := if s.fSelect then s.fEntry else s.main.active

/-- A column state has nothing to issue: a pop was announced, but the FIFO word cannot be
served. The active word has been issued already. -/
def exhausted : Bool := s.main.fPop && !s.pending

/-- The registers a column state leaves before it decides where to go. -/
def column (rnw : Bool) : MainRegs :=
  { s.main with
    fPop := false
    oe := !rnw && !s.exhausted
    mCmd := ⟨s.csnDecode, if s.exhausted then .nop else columnCode rnw⟩
    mBank := bankOf s.served.addr
    mAddr := 0b0000#4 ++ colOf s.served.addr
    mData := if rnw then s.main.mData else s.served.data
    mDqm := s.served.dqm }

end Regs

/-! ### The main FSM -/

/-- The transitions of the main FSM. -/
inductive MainStep (s : Regs) : MainRegs → Prop
  /-- The initialisation FSM owns the pins. -/
  | idleInit (hs : s.main.mState = .idle) (hd : s.initDone = false) :
    MainStep s
      { s.main with
        fPop := false
        oe := false
        mAddr := s.ini.iAddr
        mState := .idle
        mNext := .idle
        mCmd := s.ini.iCmd }
  | idleRefresh (hs : s.main.mState = .idle) (hd : s.initDone = true)
      (hr : s.refreshRequest = true) :
    MainStep s
      { s.main with
        fPop := false
        oe := false
        mCmd := ⟨false, .nop⟩
        ackRefreshRequest := false
        mState := .bankCloseAll
        mNext := .autoRefresh
        mCount := 1
        activeCsN := true }
  | idleAccept (hs : s.main.mState = .idle) (hd : s.initDone = true)
      (hr : s.refreshRequest = false) (he : s.fEmpty = false) :
    MainStep s
      { s.main with
        fPop := true
        oe := false
        mCmd := ⟨true, .nop⟩
        ackRefreshRequest := false
        activeCsN := false
        active := s.fEntry
        mState := .bankActivate }
  | idleStay (hs : s.main.mState = .idle) (hd : s.initDone = true)
      (hr : s.refreshRequest = false) (he : s.fEmpty = true) :
    MainStep s
      { s.main with
        fPop := false
        oe := false
        mCmd := ⟨true, .nop⟩
        ackRefreshRequest := false }
  | activate (hs : s.main.mState = .bankActivate) :
    MainStep s
      { s.main with
        fPop := false
        oe := false
        mState := .waitUntilSafe
        mCmd := ⟨s.csnDecode, .act⟩
        mBank := s.activeBank
        mAddr := rowOf s.main.active.addr
        mData := s.main.active.data
        mDqm := s.main.active.dqm
        mCount := 2
        mNext := columnState s.main.active.rnw }
  | waitMore (csN : Bool) (hs : s.main.mState = .waitUntilSafe) (hc : 1 < s.main.mCount) :
    MainStep s
      { s.main with
        fPop := false
        oe := false
        mCmd := ⟨csN, .nop⟩
        mCount := s.main.mCount - 1 }
  | waitDone (csN : Bool) (hs : s.main.mState = .waitUntilSafe) (hc : s.main.mCount ≤ 1) :
    MainStep s
      { s.main with
        fPop := false
        oe := false
        mCmd := ⟨csN, .nop⟩
        mState := s.main.mNext }
  /-- A refresh interrupts a burst. -/
  | columnBail (rnw : Bool) (hs : s.main.mState = columnState rnw) (hp : s.pending = true)
      (hr : s.refreshRequest = true) :
    MainStep s
      { s.column rnw with
        mState := .waitUntilSafe
        mNext := .idle
        mCount := if rnw then 1 else 3 }
  /-- The burst goes on with the FIFO word. -/
  | columnStream (rnw : Bool) (hs : s.main.mState = columnState rnw) (hp : s.pending = true)
      (hr : s.refreshRequest = false) :
    MainStep s
      { s.column rnw with
        fPop := true
        activeCsN := false
        active := s.fEntry }
  | columnEnd (rnw : Bool) (hs : s.main.mState = columnState rnw) (hp : s.pending = false) :
    MainStep s { s.column rnw with mState := .spinOffReadWriteCycle }
  | prepareMore (hs : s.main.mState = .prepareBankCloseAll) (hc : 1 < s.main.mCount) :
    MainStep s
      { s.main with
        fPop := false
        oe := false
        mCmd := ⟨s.csnDecode, .nop⟩
        mCount := s.main.mCount - 1 }
  | prepareDone (hs : s.main.mState = .prepareBankCloseAll) (hc : s.main.mCount ≤ 1) :
    MainStep s
      { s.main with
        fPop := false
        oe := false
        mCmd := ⟨s.csnDecode, .nop⟩
        mState := .bankCloseAll
        mCount := 1 }
  | close (hs : s.main.mState = .bankCloseAll) :
    MainStep s
      { s.main with
        fPop := false
        oe := false
        mState := .waitUntilSafe
        mAddr := 0x1FFF#13
        mCmd := ⟨!s.refreshRequest && s.csnDecode, .pre⟩ }
  | refresh (hs : s.main.mState = .autoRefresh) :
    MainStep s
      { s.main with
        fPop := false
        oe := false
        ackRefreshRequest := true
        mState := .waitUntilSafe
        mCmd := ⟨false, .arf⟩
        mCount := 7
        mNext := .idle }
  | spinBail (hs : s.main.mState = .spinOffReadWriteCycle) (hr : s.refreshRequest = true) :
    MainStep s
      { s.main with
        fPop := false
        oe := false
        mCmd := ⟨s.csnDecode, .nop⟩
        mState := .waitUntilSafe
        mNext := .idle
        mCount := 2 }
  | spinResume (hs : s.main.mState = .spinOffReadWriteCycle) (hr : s.refreshRequest = false)
      (hp : s.pending = true) :
    MainStep s
      { s.main with
        fPop := true
        oe := false
        mCmd := ⟨s.csnDecode, .nop⟩
        activeCsN := false
        active := s.fEntry
        mState := columnState s.fEntry.rnw }
  /-- The FIFO word needs another row, bank or direction. -/
  | spinClose (hs : s.main.mState = .spinOffReadWriteCycle) (hr : s.refreshRequest = false)
      (he : s.fEmpty = false) (hp : s.pending = false) :
    MainStep s
      { s.main with
        fPop := false
        oe := false
        mCmd := ⟨s.csnDecode, .nop⟩
        mState := .prepareBankCloseAll
        mNext := .idle
        mCount := 2 }
  | spinStay (hs : s.main.mState = .spinOffReadWriteCycle) (hr : s.refreshRequest = false)
      (he : s.fEmpty = true) :
    MainStep s
      { s.main with
        fPop := false
        oe := false
        mCmd := ⟨s.csnDecode, .nop⟩ }
  | undefined (hs : s.main.mState = .undefined) :
    MainStep s
      { s.main with
        fPop := false
        oe := false
        mCmd := ⟨true, .nop⟩ }

theorem MainStep.of_eq {s : Regs} {m m' : MainRegs} (h : MainStep s m) (he : m' = m) :
    MainStep s m' :=
  he ▸ h

/-- A word that can be served makes the pop go through. -/
theorem Regs.exhausted_of_pending {s : Regs} (hp : s.pending = true) : s.exhausted = false := by
  simp [Regs.exhausted, hp]

/-- The branch `MAIN_READ` or `MAIN_WRITE`. -/
private theorem mainStep_column (s : Regs) (rnw : Bool) (hs : s.main.mState = columnState rnw) :
    MainStep s (mainFsm s) := by
  -- the source selects bank, mask and column one by one, `served` all at once
  have hbank : s.column rnw = { s.column rnw with
      mBank := if s.fSelect then s.fBank else s.activeBank
      mDqm := if s.fSelect then s.fEntry.dqm else s.main.active.dqm
      mAddr := s.casAddr } := by
    simp only [Regs.column, Regs.served, Regs.fBank, Regs.activeBank, Regs.casAddr]
    cases s.fSelect <;> rfl
  -- pending and refresh, pending alone, and not pending
  cases hp : s.pending with
  | true =>
    have hx := Regs.exhausted_of_pending hp
    cases hr : s.refreshRequest with
    | true =>
      refine (MainStep.columnBail rnw hs hp hr).of_eq ?_
      rw [hbank]
      cases rnw <;> simp [mainFsm, hs, hp, hr, hx, columnState, columnCode, Regs.column,
        Regs.served]
      split <;> rfl
    | false =>
      refine (MainStep.columnStream rnw hs hp hr).of_eq ?_
      rw [hbank]
      cases rnw <;> simp [mainFsm, hs, hp, hr, hx, columnState, columnCode, Regs.column,
        Regs.served, MainRegs.loadActive, Regs.fCsN]
      split <;> rfl
  | false =>
    refine (MainStep.columnEnd rnw hs hp).of_eq ?_
    rw [hbank]
    cases rnw <;> cases hf : s.main.fPop <;> simp [mainFsm, hs, hp, hf, columnState, columnCode,
      Regs.column, Regs.exhausted, Regs.served] <;> split <;> rfl

/-- The main FSM takes one of its transitions. -/
theorem mainStep (s : Regs) : MainStep s (mainFsm s) := by
  cases hs : s.main.mState with
  | idle =>
    cases hd : s.initDone with
    | false => exact (MainStep.idleInit hs hd).of_eq (by simp [mainFsm, hs, hd])
    | true =>
      cases hr : s.refreshRequest with
      | true => exact (MainStep.idleRefresh hs hd hr).of_eq (by simp [mainFsm, hs, hd, hr])
      | false =>
        cases he : s.fEmpty with
        | true => exact (MainStep.idleStay hs hd hr he).of_eq (by simp [mainFsm, hs, hd, hr, he])
        | false =>
          exact (MainStep.idleAccept hs hd hr he).of_eq
            (by simp [mainFsm, hs, hd, hr, he, MainRegs.loadActive, Regs.fCsN])
  | bankActivate =>
    exact (MainStep.activate hs).of_eq (by simp [mainFsm, hs, columnState])
  | waitUntilSafe =>
    by_cases hc : 1 < s.main.mCount
    · refine (MainStep.waitMore (if s.main.mNext = .autoRefresh then false else s.csnDecode)
        hs hc).of_eq ?_
      by_cases hn : s.main.mNext = .autoRefresh <;> simp [mainFsm, hs, hc, hn]
    · refine (MainStep.waitDone (if s.main.mNext = .autoRefresh then false else s.csnDecode)
        hs (Nat.not_lt.mp hc)).of_eq ?_
      by_cases hn : s.main.mNext = .autoRefresh <;> simp [mainFsm, hs, hc, hn]
  | read => exact mainStep_column s true hs
  | write => exact mainStep_column s false hs
  | prepareBankCloseAll =>
    by_cases hc : 1 < s.main.mCount
    · exact (MainStep.prepareMore hs hc).of_eq (by simp [mainFsm, hs, hc])
    · exact (MainStep.prepareDone hs (Nat.not_lt.mp hc)).of_eq (by simp [mainFsm, hs, hc])
  | bankCloseAll =>
    refine (MainStep.close hs).of_eq ?_
    cases hr : s.refreshRequest <;> simp [mainFsm, hs, hr]
  | autoRefresh => exact (MainStep.refresh hs).of_eq (by simp [mainFsm, hs])
  | spinOffReadWriteCycle =>
    cases hr : s.refreshRequest with
    | true => exact (MainStep.spinBail hs hr).of_eq (by simp [mainFsm, hs, hr])
    | false =>
      cases he : s.fEmpty with
      | true => exact (MainStep.spinStay hs hr he).of_eq (by simp [mainFsm, hs, hr, he])
      | false =>
        -- with a word in the FIFO, `pending` is the conjunction that the source spells out
        have hpend : s.pending = (s.csnMatch && s.rnwMatch && s.bankMatch && s.rowMatch) := by
          simp [Regs.pending, he]
        cases hp : s.pending with
        | true =>
          exact (MainStep.spinResume hs hr hp).of_eq
            (by simp only [mainFsm, hs, hr, he, ← hpend, hp]
                simp [MainRegs.loadActive, Regs.fCsN, columnState])
        | false =>
          exact (MainStep.spinClose hs hr he hp).of_eq
            (by simp only [mainFsm, hs, hr, he, ← hpend, hp]; simp)
  | undefined =>
    exact (MainStep.undefined hs).of_eq (by simp [mainFsm, hs])

/-! ### The initialisation FSM -/

/-- The transitions of the initialisation FSM. -/
inductive InitStep (s : Regs) : InitRegs → Prop
  | powerupStay (hs : s.ini.iState = .powerup) (hc : s.refreshCounter ≠ 0) :
    InitStep s { s.ini with iAddr := 0x1FFF#13, iCmd := ⟨true, .nop⟩, iRefs := 0 }
  | powerupDone (hs : s.ini.iState = .powerup) (hc : s.refreshCounter = 0) :
    InitStep s
      { s.ini with
        iAddr := 0x1FFF#13
        iCmd := ⟨true, .nop⟩
        iRefs := 0
        iState := .precharge }
  | precharge (hs : s.ini.iState = .precharge) :
    InitStep s
      { s.ini with
        iAddr := 0x1FFF#13
        iState := .waitUntilSafe
        iCmd := ⟨false, .pre⟩
        iCount := 2
        iNext := .autorefresh }
  | autorefresh (hs : s.ini.iState = .autorefresh) :
    InitStep s
      { s.ini with
        iAddr := 0x1FFF#13
        iCmd := ⟨false, .arf⟩
        iRefs := (s.ini.iRefs + 1) % 16
        iState := .waitUntilSafe
        iCount := 7
        iNext := if s.ini.iRefs = 7 then .modeRegisterSet else .autorefresh }
  | waitMore (hs : s.ini.iState = .waitUntilSafe) (hc : 1 < s.ini.iCount) :
    InitStep s
      { s.ini with
        iAddr := 0x1FFF#13
        iCmd := ⟨false, .nop⟩
        iCount := s.ini.iCount - 1 }
  | waitDone (hs : s.ini.iState = .waitUntilSafe) (hc : s.ini.iCount ≤ 1) :
    InitStep s
      { s.ini with
        iAddr := 0x1FFF#13
        iCmd := ⟨false, .nop⟩
        iState := s.ini.iNext }
  | terminated (hs : s.ini.iState = .terminated) :
    InitStep s { s.ini with iAddr := 0x1FFF#13 }
  | modeRegisterSet (hs : s.ini.iState = .modeRegisterSet) :
    InitStep s
      { s.ini with
        iState := .waitUntilSafe
        iCmd := ⟨false, .lmr⟩
        iAddr := modeRegister
        iCount := 4
        iNext := .terminated }
  | undefined (hs : s.ini.iState = .undefined) :
    InitStep s { s.ini with iAddr := 0x1FFF#13, iState := .powerup }

theorem InitStep.of_eq {s : Regs} {r r' : InitRegs} (h : InitStep s r) (he : r' = r) :
    InitStep s r' :=
  he ▸ h

/-- The initialisation FSM takes one of its transitions. -/
theorem initStep (s : Regs) : InitStep s (initFsm s) := by
  cases hs : s.ini.iState with
  | powerup =>
    by_cases hc : s.refreshCounter = 0
    · exact (InitStep.powerupDone hs hc).of_eq (by simp [initFsm, hs, hc])
    · exact (InitStep.powerupStay hs hc).of_eq (by simp [initFsm, hs, hc])
  | precharge => exact (InitStep.precharge hs).of_eq (by simp [initFsm, hs])
  | autorefresh => exact (InitStep.autorefresh hs).of_eq (by simp [initFsm, hs])
  | waitUntilSafe =>
    by_cases hc : 1 < s.ini.iCount
    · exact (InitStep.waitMore hs hc).of_eq (by simp [initFsm, hs, hc])
    · exact (InitStep.waitDone hs (Nat.not_lt.mp hc)).of_eq (by simp [initFsm, hs, hc])
  | terminated => exact (InitStep.terminated hs).of_eq (by simp [initFsm, hs])
  | modeRegisterSet => exact (InitStep.modeRegisterSet hs).of_eq (by simp [initFsm, hs])
  | undefined => exact (InitStep.undefined hs).of_eq (by simp [initFsm, hs])

/-! ### The clock edge -/

/-- The registers of the main FSM after the edge, with the transition to them. -/
theorem exists_mainStep (s : Regs) (i : Input) : ∃ m, (step s i).main = m ∧ MainStep s m :=
  ⟨_, rfl, mainStep s⟩

/-- The registers of the initialisation FSM after the edge, with the transition to them. -/
theorem exists_initStep (s : Regs) (i : Input) : ∃ r, (step s i).ini = r ∧ InitStep s r :=
  ⟨_, rfl, initStep s⟩

end Sdram
end Cyclone10

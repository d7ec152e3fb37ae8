import Cyclone10TPG.Sdram.Efifo

/-!
# The SDRAM controller

`W9825G6KH_SDRAMController_100MHz_CL3`, one register record per `always` block and one
step per rising edge of `clk`, with `reset_n` high.

* `Efifo` is the input FIFO, `InitRegs` the registers of the initialisation FSM,
  `MainRegs` those of the main FSM; `Regs` holds these and the single registers around
  them. `initFsm`, `mainFsm` and `step` compute the values after the edge.
* The wires (`pending`, `fSelect`, `csnDecode`, …) are functions of `Regs`.
* The registers `active_rnw`, `active_addr`, `active_dqm` and `active_data` are always
  loaded together from the FIFO word, so they are one field `active`.
* `reset` gives the registers after reset. The FIFO storage, `i_refs` and the `active_*`
  registers have no reset and keep what they held.
* The pad `RAMdataIF` puts `m_data` on `zs_dq` when `oe` is high and reads `zs_dq` back
  at all times; `Input.zsDq` is what the outside drives on the pins.

The chip select `az_cs` is not read by the controller and `zs_cke` is constant, so neither
is modelled.
-/

namespace Cyclone10
namespace Sdram

/-! ### Commands, words and addresses -/

/-- The SDRAM commands, the values 0 to 7 of `{zs_ras_n, zs_cas_n, zs_we_n}`. -/
inductive CmdCode
  | lmr | arf | pre | act | wr | rd | bst | nop
  deriving Repr, DecidableEq, Inhabited

/-- A 4-bit command register: `{cs_n, ras_n, cas_n, we_n}`. -/
structure Cmd where
  csN : Bool
  code : CmdCode
  deriving Repr, DecidableEq, Inhabited

abbrev Word := BitVec 16
abbrev Bank := BitVec 2
abbrev Row := BitVec 13
abbrev Col := BitVec 9

/-- `{addr[23], addr[9]}`. -/
def bankOf (addr : BitVec 24) : Bank :=
  BitVec.ofBool (addr.getLsbD 23) ++ BitVec.ofBool (addr.getLsbD 9)

/-- `addr[22:10]`. -/
def rowOf (addr : BitVec 24) : Row := addr.extractLsb' 10 13

/-- `addr[8:0]`. -/
def colOf (addr : BitVec 24) : Col := addr.extractLsb' 0 9

/-- A 43-bit FIFO word: `{rnw, addr, dqm, data}`. -/
structure Entry where
  rnw : Bool
  addr : BitVec 24
  dqm : BitVec 2
  data : Word
  deriving Repr, DecidableEq, Inhabited

/-! ### Registers -/

/-- The states of the initialisation FSM. `undefined` stands for the codes that no
`localparam` names. -/
inductive InitState
  | powerup | precharge | autorefresh | waitUntilSafe | terminated | modeRegisterSet
  | undefined
  deriving Repr, DecidableEq, Inhabited

/-- The states of the main FSM. `undefined` stands for the codes that no `localparam`
names. -/
inductive MainState
  | idle | bankActivate | waitUntilSafe | read | write
  | prepareBankCloseAll | bankCloseAll | autoRefresh | spinOffReadWriteCycle
  | undefined
  deriving Repr, DecidableEq, Inhabited

/-- The registers of the initialisation FSM. -/
structure InitRegs where
  iState : InitState
  iNext : InitState
  iCmd : Cmd
  iAddr : BitVec 13
  iCount : ℕ
  iRefs : ℕ
  deriving Repr, DecidableEq, Inhabited

/-- The registers of the main FSM. -/
structure MainRegs where
  mState : MainState
  mNext : MainState
  mCmd : Cmd
  mBank : Bank
  mAddr : BitVec 13
  mData : Word
  mDqm : BitVec 2
  mCount : ℕ
  ackRefreshRequest : Bool
  fPop : Bool
  oe : Bool
  activeCsN : Bool
  active : Entry
  deriving Repr, DecidableEq, Inhabited

/-- All registers of the controller. -/
structure Regs where
  fifo : Efifo Entry
  refreshCounter : ℕ
  refreshRequest : Bool
  zaCannotrefresh : Bool
  initDone : Bool
  ini : InitRegs
  main : MainRegs
  rdValid : BitVec 3
  zaData : Word
  zaValid : Bool
  deriving Repr, DecidableEq, Inhabited

/-- The inputs of one cycle: the Avalon side, and what the outside drives on `zs_dq`. -/
structure Input where
  azAddr : BitVec 24
  azBeN : BitVec 2
  azData : Word
  azRdN : Bool
  azWrN : Bool
  zsDq : Word
  deriving Repr, DecidableEq

/-! ### Wires -/

namespace Regs

variable (s : Regs)

def fEmpty : Bool := s.fifo.empty

/-- The FIFO word at the read pointer. -/
def fEntry : Entry := s.fifo.rdData

/-- `f_cs_n` is tied low. -/
def fCsN : Bool := false

def fBank : Bank := bankOf s.fEntry.addr

def activeBank : Bank := bankOf s.main.active.addr

def csnMatch : Bool := s.main.activeCsN == fCsN

def rnwMatch : Bool := s.main.active.rnw == s.fEntry.rnw

def bankMatch : Bool := s.activeBank == s.fBank

def rowMatch : Bool := rowOf s.main.active.addr == rowOf s.fEntry.addr

/-- The FIFO word can be served under the active row, in the active direction. -/
def pending : Bool := s.csnMatch && s.rnwMatch && s.bankMatch && s.rowMatch && !s.fEmpty

/-- The FIFO is read in this cycle. -/
def fSelect : Bool := s.main.fPop && s.pending

def csnDecode : Bool := if s.fSelect then fCsN else s.main.activeCsN

/-- The column address, zero-extended to the 13 address pins. -/
def casAddr : BitVec 13 :=
  if s.fSelect then 0b0000#4 ++ colOf s.fEntry.addr else 0b0000#4 ++ colOf s.main.active.addr

/-- `za_waitrequest` is the `full` flag of the FIFO. -/
def zaWaitrequest : Bool := s.fifo.full

def rdStrobe : Bool := s.main.mCmd.code == .rd

/-- `zs_dq_buffered`, what the pad reads back: the driven data while `oe` is high, and
otherwise what the outside drives. -/
def zsDqBuffered (zsDq : Word) : Word := if s.main.oe then s.main.mData else zsDq

end Regs

/-- The word written to the FIFO: `{az_wr_n, az_addr, (az_wr_n ? 2'b00 : az_be_n), az_data}`. -/
def Input.wrData (i : Input) : Entry where
  rnw := i.azWrN
  addr := i.azAddr
  dqm := if i.azWrN then 0b00#2 else i.azBeN
  data := i.azData

/-- The FIFO is written in this cycle. -/
def Regs.fifoWr (s : Regs) (i : Input) : Bool := (!i.azWrN || !i.azRdN) && !s.zaWaitrequest

/-! ### Reset -/

/-- The registers of the initialisation FSM after reset. `i_refs` has no reset. -/
def InitRegs.reset (r : InitRegs) : InitRegs :=
  { r with
    iState := .powerup
    iNext := .powerup
    iCmd := ⟨true, .nop⟩
    iAddr := 0x1FFF#13
    iCount := 0 }

/-- The registers of the main FSM after reset. The `active_*` registers have no reset. -/
def MainRegs.reset (m : MainRegs) : MainRegs :=
  { m with
    mState := .idle
    mNext := .idle
    mCmd := ⟨true, .nop⟩
    mBank := 0
    mAddr := 0
    mData := 0
    mDqm := 0
    mCount := 0
    ackRefreshRequest := false
    fPop := false
    oe := false }

/-- The registers after `reset_n` has been low. -/
def Regs.reset (s : Regs) : Regs where
  fifo := s.fifo.reset
  refreshCounter := 20000
  refreshRequest := false
  zaCannotrefresh := false
  initDone := false
  ini := s.ini.reset
  main := s.main.reset
  rdValid := 0
  zaData := 0
  zaValid := false

/-! ### The initialisation FSM -/

/-- The mode register contents: write mode, CAS latency 3, addressing mode, burst length 1. -/
def modeRegister : BitVec 13 := 0b000#3 ++ 0b0#1 ++ 0b00#2 ++ 0b011#3 ++ 0b0#1 ++ 0b000#3

/-- The initialisation FSM after the edge. -/
def initFsm (s : Regs) : InitRegs :=
  let r := { s.ini with iAddr := 0x1FFF#13 }
  match s.ini.iState with
  | .powerup =>
    let r := { r with iCmd := ⟨true, .nop⟩, iRefs := 0 }
    -- wait for the refresh count-down after reset
    if s.refreshCounter == 0 then { r with iState := .precharge } else r
  | .precharge =>
    { r with
      iState := .waitUntilSafe
      iCmd := ⟨false, .pre⟩
      iCount := 2
      iNext := .autorefresh }
  | .autorefresh =>
    { r with
      iCmd := ⟨false, .arf⟩
      iRefs := (s.ini.iRefs + 1) % 16
      iState := .waitUntilSafe
      iCount := 7
      iNext := if s.ini.iRefs == 7 then .modeRegisterSet else .autorefresh }
  | .waitUntilSafe =>
    let r := { r with iCmd := ⟨false, .nop⟩ }
    if s.ini.iCount > 1 then { r with iCount := s.ini.iCount - 1 }
    else { r with iState := s.ini.iNext }
  | .terminated => { r with iState := .terminated }
  | .modeRegisterSet =>
    { r with
      iState := .waitUntilSafe
      iCmd := ⟨false, .lmr⟩
      iAddr := modeRegister
      iCount := 4
      iNext := .terminated }
  | .undefined => { r with iState := .powerup }

/-! ### The main FSM -/

/-- Loads the FIFO word into the active registers and asks the FIFO to move on. -/
def MainRegs.loadActive (m : MainRegs) (s : Regs) : MainRegs :=
  { m with fPop := true, activeCsN := Regs.fCsN, active := s.fEntry }

/-- The main FSM after the edge. -/
def mainFsm (s : Regs) : MainRegs :=
  let m := { s.main with fPop := false, oe := false }
  match s.main.mState with
  | .idle =>
    if s.initDone then
      -- hold the bus if another cycle ended to auto refresh
      let m := { m with mCmd := if s.refreshRequest then ⟨false, .nop⟩ else ⟨true, .nop⟩ }
      let m := { m with ackRefreshRequest := false }
      if s.refreshRequest then
        { m with
          mState := .bankCloseAll
          mNext := .autoRefresh
          mCount := 1
          activeCsN := true }
      else if !s.fEmpty then { m.loadActive s with mState := .bankActivate }
      else m
    else
      -- still initialising: the other FSM owns the pins
      { m with mAddr := s.ini.iAddr, mState := .idle, mNext := .idle, mCmd := s.ini.iCmd }
  | .bankActivate =>
    { m with
      mState := .waitUntilSafe
      mCmd := ⟨s.csnDecode, .act⟩
      mBank := s.activeBank
      mAddr := rowOf s.main.active.addr
      mData := s.main.active.data
      mDqm := s.main.active.dqm
      mCount := 2
      mNext := if s.main.active.rnw then .read else .write }
  | .waitUntilSafe =>
    let m :=
      if s.main.mNext == .autoRefresh then { m with mCmd := ⟨false, .nop⟩ }
      else { m with mCmd := ⟨s.csnDecode, .nop⟩ }
    if s.main.mCount > 1 then { m with mCount := s.main.mCount - 1 }
    else { m with mState := s.main.mNext }
  | .read =>
    let m :=
      { m with
        mCmd := ⟨s.csnDecode, .rd⟩
        mBank := if s.fSelect then s.fBank else s.activeBank
        mDqm := if s.fSelect then s.fEntry.dqm else s.main.active.dqm
        mAddr := s.casAddr }
    if s.pending then
      if s.refreshRequest then
        { m with mState := .waitUntilSafe, mNext := .idle, mCount := 1 }
      else m.loadActive s
    else
      -- end the spin cycle correctly if there is nothing to read
      let m := if !s.pending && s.main.fPop then { m with mCmd := ⟨s.csnDecode, .nop⟩ } else m
      { m with mState := .spinOffReadWriteCycle }
  | .write =>
    let m :=
      { m with
        mCmd := ⟨s.csnDecode, .wr⟩
        oe := true
        mData := if s.fSelect then s.fEntry.data else s.main.active.data
        mDqm := if s.fSelect then s.fEntry.dqm else s.main.active.dqm
        mBank := if s.fSelect then s.fBank else s.activeBank
        mAddr := s.casAddr }
    if s.pending then
      if s.refreshRequest then
        { m with mState := .waitUntilSafe, mNext := .idle, mCount := 3 }
      else m.loadActive s
    else
      let m :=
        if !s.pending && s.main.fPop then { m with mCmd := ⟨s.csnDecode, .nop⟩, oe := false }
        else m
      { m with mState := .spinOffReadWriteCycle }
  | .prepareBankCloseAll =>
    let m := { m with mCmd := ⟨s.csnDecode, .nop⟩ }
    if s.main.mCount > 1 then { m with mCount := s.main.mCount - 1 }
    else { m with mState := .bankCloseAll, mCount := 1 }
  | .bankCloseAll =>
    { m with
      mState := .waitUntilSafe
      mAddr := 0x1FFF#13
      mCmd := if s.refreshRequest then ⟨false, .pre⟩ else ⟨s.csnDecode, .pre⟩ }
  | .autoRefresh =>
    { m with
      ackRefreshRequest := true
      mState := .waitUntilSafe
      mCmd := ⟨false, .arf⟩
      mCount := 7
      mNext := .idle }
  | .spinOffReadWriteCycle =>
    let m := { m with mCmd := ⟨s.csnDecode, .nop⟩ }
    if s.refreshRequest then
      { m with mState := .waitUntilSafe, mNext := .idle, mCount := 2 }
    else if !s.fEmpty then
      if s.csnMatch && s.rnwMatch && s.bankMatch && s.rowMatch then
        { m.loadActive s with mState := if s.fEntry.rnw then .read else .write }
      else { m with mState := .prepareBankCloseAll, mNext := .idle, mCount := 2 }
    else m
  | .undefined => { m with mState := s.main.mState, mCmd := ⟨true, .nop⟩ }

/-! ### One clock edge -/

/-- All registers after the edge that ends a cycle with inputs `i`. -/
def step (s : Regs) (i : Input) : Regs where
  fifo := s.fifo.step s.fSelect (s.fifoWr i) i.wrData
  refreshCounter := if s.refreshCounter == 0 then 599 else s.refreshCounter - 1
  refreshRequest :=
    (s.refreshCounter == 0 || s.refreshRequest) && !s.main.ackRefreshRequest && s.initDone
  zaCannotrefresh := s.refreshCounter == 0 && s.refreshRequest
  initDone := s.initDone || s.ini.iState == .terminated
  ini := initFsm s
  main := mainFsm s
  rdValid := s.rdValid <<< 1 ||| (0b00#2 ++ BitVec.ofBool s.rdStrobe)
  zaData := s.zsDqBuffered i.zsDq
  zaValid := s.rdValid.getLsbD 2

/-! ### The SDRAM pins -/

/-- The registered SDRAM pins during one cycle: `{zs_cs_n, zs_ras_n, zs_cas_n, zs_we_n}`,
`zs_addr`, `zs_ba`, `zs_dqm`, and the data driven on `zs_dq`, if any. -/
structure Pins where
  cmd : Cmd
  addr : BitVec 13
  ba : Bank
  dqm : BitVec 2
  dq : Option Word
  deriving Repr, DecidableEq

/-- The pins driven from the registers. -/
def Regs.pins (s : Regs) : Pins where
  cmd := s.main.mCmd
  addr := s.main.mAddr
  ba := s.main.mBank
  dqm := s.main.mDqm
  dq := if s.main.oe then some s.main.mData else none

/-- The command `c` is on the pins, with `zs_cs_n` low. -/
def Pins.Issues (p : Pins) (c : CmdCode) : Prop := p.cmd = ⟨false, c⟩

instance (p : Pins) (c : CmdCode) : Decidable (p.Issues c) :=
  inferInstanceAs (Decidable (p.cmd = ⟨false, c⟩))

end Sdram
end Cyclone10

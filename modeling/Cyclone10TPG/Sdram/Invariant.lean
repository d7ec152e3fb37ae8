import Cyclone10TPG.Sync.Run
import Cyclone10TPG.Sdram.Transition

/-!
# The invariant of the controller

`Inv` says what the registers can be in a reachable state. Its three parts are the FIFO
(`Efifo.Valid`, and that the FIFO holds no masked read), the initialisation FSM
(`InitInv`) and the main FSM (`MainInv`), each a statement per state of its FSM.

Two facts in `MainInv` are not visible in any one register.

* In `MAIN_BANK_ACTIVATE` the FIFO word and the active word are the same, so the pop
  announced by `f_pop` goes through.
* From the moment the main FSM sets out to refresh until `ack_refresh_request` rises, the
  request stays up; while the acknowledge is up there is no request, but for the first
  cycle of the wait after the refresh.

`Inv.step` is preservation, proved FSM by FSM from the transition rules; `inv_run` is the
invariant over whole runs.
-/

namespace Cyclone10
namespace Sdram

/-! ### Statement -/

/-- The queue of requests in the FIFO, oldest first. -/
def Regs.queue (s : Regs) : List Entry := s.fifo.contents

/-- A read carries no byte mask. -/
def Entry.Unmasked (e : Entry) : Prop := e.rnw = true → e.dqm = 0

/-- The initialisation FSM waits up to `n` cycles after the command `c`, which is in
`i_cmd` in the first of them only. -/
def InitRegs.Waits (r : InitRegs) (n : ℕ) (c : CmdCode) : Prop :=
  1 ≤ r.iCount ∧ r.iCount ≤ n ∧ r.iCmd = ⟨false, if r.iCount = n then c else .nop⟩

/-- What the registers of the initialisation FSM can be, state by state. -/
def InitInv (r : InitRegs) : Prop :=
  match r.iState with
  | .powerup => r.iCmd = ⟨true, .nop⟩
  | .precharge => r.iCmd = ⟨true, .nop⟩ ∧ r.iRefs = 0
  | .autorefresh => r.iCmd = ⟨false, .nop⟩ ∧ r.iRefs ≤ 7
  | .modeRegisterSet => r.iCmd = ⟨false, .nop⟩ ∧ r.iRefs = 8
  | .terminated => r.iCmd = ⟨false, .nop⟩ ∧ r.iRefs = 8
  | .waitUntilSafe =>
    match r.iNext with
    | .autorefresh =>
      (r.iRefs = 0 ∧ r.Waits 2 .pre) ∨ (1 ≤ r.iRefs ∧ r.iRefs ≤ 7 ∧ r.Waits 7 .arf)
    | .modeRegisterSet => r.iRefs = 8 ∧ r.Waits 7 .arf
    | .terminated => r.iRefs = 8 ∧ r.Waits 4 .lmr
    | _ => False
  | .undefined => False

/-- The address that goes with a command of the initialisation FSM. -/
def InitRegs.AddrOk (r : InitRegs) : Prop :=
  r.iAddr = if r.iCmd.code = .lmr then modeRegister else 0x1FFF#13

/-- The main FSM serves the active request: it is selected, no refresh is being
acknowledged, and a read carries no mask. -/
structure MainRegs.Serving (m : MainRegs) : Prop where
  csN : m.activeCsN = false
  ack : m.ackRefreshRequest = false
  unmasked : m.active.Unmasked

/-- What the registers of the main FSM can be, state by state, next to the refresh request
`rr` and the queue `q`. -/
def MainInv (m : MainRegs) (rr : Bool) (q : List Entry) : Prop :=
  match m.mState with
  | .idle => m.fPop = false ∧ (m.ackRefreshRequest = true → rr = false)
  | .bankActivate => m.fPop = true ∧ m.Serving ∧ q.head? = some m.active
  | .waitUntilSafe =>
    m.fPop = false ∧
      match m.mNext with
      | .idle => m.ackRefreshRequest = true → rr = true → m.mCount = 7
      | .autoRefresh => m.ackRefreshRequest = false ∧ rr = true ∧ m.mCount = 1
      | .read => m.Serving ∧ m.active.rnw = true
      | .write => m.Serving ∧ m.active.rnw = false
      | _ => False
  | .read => m.Serving ∧ m.active.rnw = true
  | .write => m.Serving ∧ m.active.rnw = false
  | .prepareBankCloseAll => m.fPop = false ∧ m.Serving ∧ m.mNext = .idle
  | .bankCloseAll =>
    m.fPop = false ∧ m.ackRefreshRequest = false ∧ m.mCount = 1 ∧
      (m.mNext = .autoRefresh ∧ rr = true ∨ m.mNext = .idle ∧ m.activeCsN = false)
  | .autoRefresh => m.fPop = false ∧ m.ackRefreshRequest = false ∧ rr = true
  | .spinOffReadWriteCycle => m.fPop = false ∧ m.Serving
  | .undefined => False

/-- **The invariant** of the controller. -/
structure Inv (s : Regs) : Prop where
  fifo : s.fifo.Valid
  unmasked : ∀ e ∈ s.queue, e.Unmasked
  ini : InitInv s.ini
  iniAddr : s.ini.AddrOk
  /-- `init_done` is only set once the initialisation FSM has terminated. -/
  done : s.initDone = true → s.ini.iState = .terminated
  /-- Until then the main FSM idles and nothing is requested. -/
  undone : s.initDone = false → s.main.mState = .idle ∧ s.main.ackRefreshRequest = false ∧
    s.refreshRequest = false
  main : MainInv s.main s.refreshRequest s.queue

theorem Inv.reset (s : Regs) : Inv s.reset where
  fifo := Efifo.Valid.reset _
  unmasked := fun _ he => absurd he (List.not_mem_nil)
  ini := rfl
  iniAddr := rfl
  done := fun h => absurd h (by simp [Regs.reset])
  undone := fun _ => ⟨rfl, rfl, rfl⟩
  main := ⟨rfl, fun _ => rfl⟩

/-! ### The FIFO -/

/-- `pending`, clause by clause. -/
theorem Regs.pending_iff (s : Regs) :
    s.pending = true ↔ s.main.activeCsN = false ∧ s.main.active.rnw = s.fEntry.rnw ∧
      bankOf s.main.active.addr = bankOf s.fEntry.addr ∧
      rowOf s.main.active.addr = rowOf s.fEntry.addr ∧ s.fEmpty = false := by
  simp [Regs.pending, Regs.csnMatch, Regs.rnwMatch, Regs.bankMatch, Regs.rowMatch, Regs.fCsN,
    Regs.activeBank, Regs.fBank, and_assoc]

theorem Regs.fEmpty_of_pending {s : Regs} (h : s.pending = true) : s.fEmpty = false :=
  (s.pending_iff.mp h).2.2.2.2

theorem Regs.fEmpty_of_fSelect {s : Regs} (h : s.fSelect = true) : s.fEmpty = false := by
  simp only [Regs.fSelect, Bool.and_eq_true] at h
  exact Regs.fEmpty_of_pending h.2

/-- A write finds the FIFO with room. -/
theorem Regs.full_of_fifoWr {s : Regs} {i : Input} (h : s.fifoWr i = true) :
    s.fifo.full = false := by
  simp only [Regs.fifoWr, Bool.and_eq_true, Bool.not_eq_true'] at h
  exact h.2

theorem Regs.fSelect_of_fPop {s : Regs} (h : s.main.fPop = false) : s.fSelect = false := by
  simp [Regs.fSelect, h]

namespace Inv

variable {s : Regs}

theorem head?_queue (h : Inv s) (he : s.fEmpty = false) : s.queue.head? = some s.fEntry :=
  h.fifo.head?_contents he

theorem fEntry_mem (h : Inv s) (he : s.fEmpty = false) : s.fEntry ∈ s.queue :=
  List.mem_of_mem_head? (h.head?_queue he)

theorem unmasked_fEntry (h : Inv s) (he : s.fEmpty = false) : s.fEntry.Unmasked :=
  h.unmasked _ (h.fEntry_mem he)

/-- **The queue after a clock edge**: the oldest word leaves on `f_select`, and an accepted
request enters. -/
theorem fifo_step (h : Inv s) (i : Input) :
    (step s i).fifo.Valid ∧
      (step s i).queue =
        (if s.fSelect then s.queue.tail else s.queue) ++ if s.fifoWr i then [i.wrData] else [] :=
  h.fifo.step i.wrData Regs.fEmpty_of_fSelect Regs.full_of_fifoWr

theorem queue_step (h : Inv s) (i : Input) :
    (step s i).queue =
      (if s.fSelect then s.queue.tail else s.queue) ++ if s.fifoWr i then [i.wrData] else [] :=
  (h.fifo_step i).2

/-- A queue that is not popped keeps its oldest word. -/
theorem head?_queue_step (h : Inv s) (i : Input) {e : Entry} (hs : s.fSelect = false)
    (he : s.queue.head? = some e) : (step s i).queue.head? = some e := by
  rw [h.queue_step i, hs]
  simp [List.head?_append, he]

theorem unmasked_step (h : Inv s) (i : Input) : ∀ e ∈ (step s i).queue, e.Unmasked := by
  intro e he
  rw [h.queue_step i, List.mem_append] at he
  -- an older word, or the one that enters
  rcases he with he | he
  · refine h.unmasked e ?_
    split at he
    · exact List.mem_of_mem_tail he
    · exact he
  · split at he
    · obtain rfl := List.mem_singleton.mp he
      intro hr
      have hw : i.azWrN = true := hr
      simp [Input.wrData, hw]
    · exact absurd he (List.not_mem_nil)

end Inv

/-! ### The initialisation FSM -/

theorem InitRegs.Waits.next {r r' : InitRegs} {n : ℕ} {c : CmdCode} (h : r.Waits n c)
    (hc : 1 < r.iCount) (hc' : r'.iCount = r.iCount - 1) (hcmd : r'.iCmd = ⟨false, .nop⟩) :
    r'.Waits n c := by
  obtain ⟨-, hle, -⟩ := h
  refine ⟨by omega, by omega, ?_⟩
  rw [hcmd, if_neg (by omega)]

theorem InitInv.step {s : Regs} {r : InitRegs} (hstep : InitStep s r) (h : InitInv s.ini) :
    InitInv r := by
  cases hstep with
  | powerupStay hs hc => simp only [InitInv, hs]
  | powerupDone hs hc => exact ⟨rfl, rfl⟩
  | precharge hs =>
    simp only [InitInv, hs] at h
    exact Or.inl ⟨h.2, by simp [InitRegs.Waits]⟩
  | autorefresh hs =>
    simp only [InitInv, hs] at h
    -- seven refreshes at most lie behind, so `i_refs` does not overflow
    have hlt : (s.ini.iRefs + 1) % 16 = s.ini.iRefs + 1 := Nat.mod_eq_of_lt (by omega)
    by_cases h7 : s.ini.iRefs = 7
    · simp [InitInv, InitRegs.Waits, h7]
    · simp only [InitInv, if_neg h7, hlt]
      exact Or.inr ⟨by omega, by omega, by simp [InitRegs.Waits]⟩
  | waitMore hs hc =>
    simp only [InitInv, hs] at h ⊢
    -- the counter moves on, and the command gives way to NOP
    cases hn : s.ini.iNext <;> simp only [hn] at h ⊢
    case autorefresh =>
      refine h.imp (fun h => ⟨h.1, h.2.next hc rfl rfl⟩)
        fun h => ⟨h.1, h.2.1, h.2.2.next hc rfl rfl⟩
    case modeRegisterSet => exact ⟨h.1, h.2.next hc rfl rfl⟩
    case terminated => exact ⟨h.1, h.2.next hc rfl rfl⟩
  | waitDone hs hc =>
    -- the counter has run out, so the NOP is in `i_cmd`
    simp only [InitInv, hs] at h ⊢
    cases hn : s.ini.iNext <;> simp only [hn] at h ⊢
    case autorefresh => exact ⟨trivial, by omega⟩
    case modeRegisterSet => exact ⟨trivial, h.1⟩
    case terminated => exact ⟨trivial, h.1⟩
  | terminated hs =>
    simp only [InitInv, hs] at h ⊢
    exact h
  | modeRegisterSet hs =>
    simp only [InitInv, hs] at h
    exact ⟨h.2, by simp [InitRegs.Waits]⟩
  | undefined hs =>
    simp only [InitInv, hs] at h

/-- The initialisation FSM issues neither ACT, RD nor WR. -/
theorem InitInv.code {r : InitRegs} (h : InitInv r) :
    r.iCmd.code = .nop ∨ r.iCmd = ⟨false, .pre⟩ ∨ r.iCmd = ⟨false, .arf⟩ ∨
      r.iCmd = ⟨false, .lmr⟩ := by
  have hw : ∀ {n c}, r.Waits n c → r.iCmd.code = .nop ∨ r.iCmd = ⟨false, c⟩ := by
    rintro n c ⟨-, -, hcmd⟩
    by_cases hn : r.iCount = n
    · right; rw [hcmd, if_pos hn]
    · left; rw [hcmd, if_neg hn]
  -- state by state: only the waits have a command in `i_cmd`
  unfold InitInv at h
  cases hs : r.iState <;> simp only [hs] at h
  case waitUntilSafe =>
    cases hn : r.iNext <;> simp only [hn] at h
    case autorefresh => rcases h with ⟨-, h⟩ | ⟨-, -, h⟩ <;> rcases hw h <;> tauto
    case modeRegisterSet => rcases hw h.2 <;> tauto
    case terminated => rcases hw h.2 <;> tauto
  case powerup => exact Or.inl (by rw [h])
  all_goals exact Or.inl (by rw [h.1])

theorem InitRegs.AddrOk.step {s : Regs} {r : InitRegs} (hstep : InitStep s r)
    (hini : InitInv s.ini) : r.AddrOk := by
  cases hstep with
  | terminated hs =>
    simp only [InitInv, hs] at hini
    simp [InitRegs.AddrOk, hini.1]
  | undefined hs => simp only [InitInv, hs] at hini
  | _ => simp [InitRegs.AddrOk]

/-! ### The refresh handshake -/

/-- While the acknowledge is up, the request is withdrawn. -/
theorem refreshRequest_step_of_ack {s : Regs} (i : Input)
    (h : s.main.ackRefreshRequest = true) : (step s i).refreshRequest = false := by
  simp [step, h]

/-- Without an acknowledge, a request stays. -/
theorem refreshRequest_step_of_request {s : Regs} (i : Input) (hr : s.refreshRequest = true)
    (ha : s.main.ackRefreshRequest = false) (hd : s.initDone = true) :
    (step s i).refreshRequest = true := by
  simp [step, hr, ha, hd]

/-! ### The main FSM -/

/-- The main FSM leaves `MAIN_IDLE` only after initialisation. -/
theorem Inv.initDone_of_ne_idle {s : Regs} (h : Inv s) (hs : s.main.mState ≠ .idle) :
    s.initDone = true := by
  cases hd : s.initDone with
  | true => rfl
  | false => exact absurd (h.undone hd).1 hs

theorem mainInv_column {m : MainRegs} {rr : Bool} {q : List Entry} {rnw : Bool}
    (hs : m.mState = columnState rnw) : MainInv m rr q ↔ m.Serving ∧ m.active.rnw = rnw := by
  cases rnw <;> simp [MainInv, hs, columnState]

/-- The acknowledge is up in `MAIN_IDLE` and in the wait before it only. -/
theorem MainInv.state_of_ack {m : MainRegs} {rr : Bool} {q : List Entry} (h : MainInv m rr q)
    (ha : m.ackRefreshRequest = true) :
    m.mState = .idle ∨ (m.mState = .waitUntilSafe ∧ m.mNext = .idle) := by
  have serving : ∀ {P : Prop}, m.Serving → P := fun hserv =>
    absurd (ha.symm.trans hserv.ack) Bool.false_ne_true.symm
  unfold MainInv at h
  cases hs : m.mState <;> simp only [hs] at h
  case idle => exact Or.inl rfl
  case waitUntilSafe =>
    cases hn : m.mNext <;> simp only [hn] at h
    case idle => exact Or.inr ⟨rfl, rfl⟩
    case autoRefresh => exact absurd (ha.symm.trans h.2.1) Bool.false_ne_true.symm
    case read => exact serving h.2.1
    case write => exact serving h.2.1
    all_goals exact absurd h.2 id
  case bankActivate => exact serving h.2.1
  case read => exact serving h.1
  case write => exact serving h.1
  case prepareBankCloseAll => exact serving h.2.1
  case bankCloseAll => exact absurd (ha.symm.trans h.2.1) Bool.false_ne_true.symm
  case autoRefresh => exact absurd (ha.symm.trans h.2.1) Bool.false_ne_true.symm
  case spinOffReadWriteCycle => exact serving h.2

/-- The active word of a state that serves requests keeps its properties as long as it is
kept, selected and unacknowledged. -/
theorem MainRegs.Serving.keep {m m' : MainRegs} (h : m.Serving)
    (hcs : m'.activeCsN = m.activeCsN) (hack : m'.ackRefreshRequest = m.ackRefreshRequest)
    (hact : m'.active = m.active) : m'.Serving :=
  ⟨hcs.trans h.csN, hack.trans h.ack, hact ▸ h.unmasked⟩

theorem MainInv.step {s : Regs} (i : Input) {m : MainRegs} (hstep : MainStep s m) (h : Inv s) :
    MainInv m (step s i).refreshRequest (step s i).queue := by
  have hmain := h.main
  cases hstep with
  | idleInit hs hd =>
    -- before the end of initialisation there is no acknowledge
    refine ⟨rfl, fun hack => ?_⟩
    rw [(h.undone hd).2.1] at hack
    exact absurd hack Bool.false_ne_true
  | idleRefresh hs hd hr =>
    simp only [MainInv, hs] at hmain
    -- a request that is up in `MAIN_IDLE` cannot be the one just acknowledged
    have hack : s.main.ackRefreshRequest = false := by
      by_contra hne
      rw [hmain.2 (by simpa using hne)] at hr
      exact absurd hr Bool.false_ne_true
    exact ⟨rfl, rfl, rfl, Or.inl ⟨rfl, refreshRequest_step_of_request i hr hack hd⟩⟩
  | idleAccept hs hd hr he =>
    -- the FIFO is not popped yet, so its oldest word stays where it is
    simp only [MainInv, hs] at hmain
    exact ⟨rfl, ⟨rfl, rfl, h.unmasked_fEntry he⟩,
      h.head?_queue_step i (Regs.fSelect_of_fPop hmain.1) (h.head?_queue he)⟩
  | idleStay hs hd hr he =>
    simp only [MainInv, hs] at hmain ⊢
    exact ⟨trivial, fun hack => absurd hack Bool.false_ne_true⟩
  | activate hs =>
    -- the wait after ACT leads to the column state of the active direction
    simp only [MainInv, hs] at hmain
    have hserv := hmain.2.1
    refine ⟨rfl, ?_⟩
    cases hrnw : s.main.active.rnw
    · exact ⟨hserv.keep rfl rfl rfl, rfl⟩
    · exact ⟨hserv.keep rfl rfl rfl, rfl⟩
  | waitMore csN hs hc =>
    have hd := h.initDone_of_ne_idle (by simp [hs])
    simp only [MainInv, hs] at hmain ⊢
    obtain ⟨-, hmain⟩ := hmain
    refine ⟨trivial, ?_⟩
    cases hn : s.main.mNext <;> simp only [hn] at hmain ⊢
    case idle =>
      -- the acknowledge has withdrawn the request by now
      intro hack hr
      rw [refreshRequest_step_of_ack i hack] at hr
      exact absurd hr Bool.false_ne_true
    case autoRefresh => omega
    case read => exact ⟨hmain.1.keep rfl rfl rfl, hmain.2⟩
    case write => exact ⟨hmain.1.keep rfl rfl rfl, hmain.2⟩
  | waitDone csN hs hc =>
    have hd := h.initDone_of_ne_idle (by simp [hs])
    simp only [MainInv, hs] at hmain
    obtain ⟨-, hmain⟩ := hmain
    cases hn : s.main.mNext <;> simp only [hn] at hmain
    case idle => exact ⟨rfl, fun hack => refreshRequest_step_of_ack i hack⟩
    case autoRefresh =>
      -- the request survives the wait, as nothing acknowledges it
      exact ⟨rfl, hmain.1, refreshRequest_step_of_request i hmain.2.1 hmain.1 hd⟩
    case read => exact ⟨hmain.1.keep rfl rfl rfl, hmain.2⟩
    case write => exact ⟨hmain.1.keep rfl rfl rfl, hmain.2⟩
  | columnBail rnw hs hp hr =>
    -- no acknowledge is up in a column state, and the bail raises none
    have hserv := ((mainInv_column hs).mp hmain).1
    refine ⟨rfl, fun hack => ?_⟩
    exact absurd (hserv.ack.symm.trans hack) Bool.false_ne_true
  | columnStream rnw hs hp hr =>
    -- a pending word has the direction of the active one
    obtain ⟨hserv, hrnw⟩ := (mainInv_column hs).mp hmain
    obtain ⟨-, hmatch, -, -, he⟩ := s.pending_iff.mp hp
    refine (mainInv_column ?_).mpr ⟨⟨rfl, hserv.ack, h.unmasked_fEntry he⟩, hmatch.symm.trans hrnw⟩
    exact hs
  | columnEnd rnw hs hp =>
    exact ⟨rfl, ((mainInv_column hs).mp hmain).1.keep rfl rfl rfl⟩
  | prepareMore hs hc =>
    simp only [MainInv, hs] at hmain ⊢
    exact ⟨trivial, hmain.2.1.keep rfl rfl rfl, hmain.2.2⟩
  | prepareDone hs hc =>
    simp only [MainInv, hs] at hmain
    exact ⟨rfl, hmain.2.1.ack, rfl, Or.inr ⟨hmain.2.2, hmain.2.1.csN⟩⟩
  | close hs =>
    have hd := h.initDone_of_ne_idle (by simp [hs])
    simp only [MainInv, hs] at hmain
    obtain ⟨-, hack, hc, ⟨hn, hr⟩ | ⟨hn, -⟩⟩ := hmain
    -- on the way to a refresh, or to a request for another row
    · simp only [MainInv, hn]
      exact ⟨trivial, hack, refreshRequest_step_of_request i hr hack hd, hc⟩
    · simp only [MainInv, hn]
      exact ⟨trivial, fun hack' => absurd (hack.symm.trans hack') Bool.false_ne_true⟩
  | refresh hs => exact ⟨rfl, fun _ _ => rfl⟩
  | spinBail hs hr =>
    simp only [MainInv, hs] at hmain
    exact ⟨rfl, fun hack => absurd (hmain.2.ack.symm.trans hack) Bool.false_ne_true⟩
  | spinResume hs hr hp =>
    -- the column state is that of the FIFO word, which is now active
    simp only [MainInv, hs] at hmain
    exact (mainInv_column rfl).mpr
      ⟨⟨rfl, hmain.2.ack, h.unmasked_fEntry (Regs.fEmpty_of_pending hp)⟩, rfl⟩
  | spinClose hs hr he hp =>
    simp only [MainInv, hs] at hmain
    exact ⟨rfl, hmain.2.keep rfl rfl rfl, rfl⟩
  | spinStay hs hr he =>
    simp only [MainInv, hs] at hmain ⊢
    exact ⟨trivial, hmain.2.keep rfl rfl rfl⟩
  | undefined hs => simp only [MainInv, hs] at hmain

/-! ### The whole controller -/

theorem Inv.step {s : Regs} (h : Inv s) (i : Input) : Inv (step s i) where
  fifo := (h.fifo_step i).1
  unmasked := h.unmasked_step i
  ini := h.ini.step (initStep s)
  iniAddr := InitRegs.AddrOk.step (initStep s) h.ini
  done := by
    intro hd
    -- `init_done` is already up, or rises now
    have hterm : s.ini.iState = .terminated := by
      simp only [Sdram.step, Bool.or_eq_true, beq_iff_eq] at hd
      exact hd.elim h.done id
    simp [Sdram.step, initFsm, hterm]
  undone := by
    intro hd
    have hd' : s.initDone = false := by
      simp only [Sdram.step, Bool.or_eq_false_iff] at hd
      exact hd.1
    obtain ⟨hs, hack, -⟩ := h.undone hd'
    simp [Sdram.step, mainFsm, hs, hd', hack]
  main := MainInv.step i (mainStep s) h

/-- Until initialisation is done, the edge puts the command and address of the initialisation
FSM on the pins, and leaves bank and mask alone. -/
theorem Inv.pins_of_undone {s : Regs} (h : Inv s) (hd : s.initDone = false) (i : Input) :
    (Sdram.step s i).pins = ⟨s.ini.iCmd, s.ini.iAddr, s.main.mBank, s.main.mDqm, none⟩ := by
  have hs := (h.undone hd).1
  simp [Regs.pins, Sdram.step, mainFsm, hs, hd]

/-- **The invariant holds in every cycle** of every run from reset. -/
theorem inv_run (s₀ : Regs) (inp : ℕ → Input) (t : ℕ) : Inv (Sync.run step s₀.reset inp t) :=
  Sync.run_invariant (Inv.reset s₀) (fun _ i h => h.step i) t

end Sdram
end Cyclone10

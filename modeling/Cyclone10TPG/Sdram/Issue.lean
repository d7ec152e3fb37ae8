import Cyclone10TPG.Sdram.Banks
import Cyclone10TPG.Sdram.Command

/-!
# Every accepted request is issued once, in order

The list of accepted requests (`accepted`) against the list of column commands on the pins
(`issued`). A column command is decoded from the pins alone: direction, bank and column
from the command itself, the row from the last ACT, the data from what is driven.

The requests that have been accepted and not yet issued are `Regs.unissued`: the FIFO
contents, and before them the active word in the states in which it has left the FIFO and
still waits for its command. In `MAIN_BANK_ACTIVATE` the active word is still at the head
of the FIFO, and during a burst it is either at the head as well or has been issued, so
there it is not counted on its own.

`unissued_step` is conservation over one clock edge: what is unissued before, together with
what is accepted, is what is issued followed by what is unissued after.
-/

namespace Cyclone10
namespace Sdram

open Sync

/-! ### Requests and column commands -/

/-- A word of the SDRAM: bank, row and column. -/
structure Cell where
  bank : Bank
  row : Row
  col : Col
  deriving Repr, DecidableEq

/-- The address split of the controller. -/
def cellOf (addr : BitVec 24) : Cell := ⟨bankOf addr, rowOf addr, colOf addr⟩

/-- A request, as it shows on the pins. `data` is the data of a write. -/
structure Access where
  rnw : Bool
  cell : Cell
  dqm : BitVec 2
  data : Option Word
  deriving Repr, DecidableEq

/-- The request on the Avalon inputs. -/
def Input.access (i : Input) : Access where
  rnw := i.azWrN
  cell := cellOf i.azAddr
  dqm := if i.azWrN then 0 else i.azBeN
  data := if i.azWrN then none else some i.azData

/-- The request in a FIFO word. -/
def Entry.access (e : Entry) : Access where
  rnw := e.rnw
  cell := cellOf e.addr
  dqm := e.dqm
  data := if e.rnw then none else some e.data

/-- The master never asserts `az_rd_n` and `az_wr_n` together. -/
def Input.Exclusive (i : Input) : Prop := i.azRdN = true ∨ i.azWrN = true

/-- A request is accepted when `za_waitrequest` is low and exactly one of `az_rd_n` and
`az_wr_n` is low. -/
def Regs.accepts (s : Regs) (i : Input) : Bool := !s.zaWaitrequest && (i.azRdN != i.azWrN)

/-- The requests accepted before cycle `n`. -/
def accepted (s₀ : Regs) (inp : ℕ → Input) (n : ℕ) : List Access :=
  log (fun t => if (regsAt s₀ inp t).accepts (inp t) then some (inp t).access else none) n

/-- The row of the last ACT before cycle `t`. -/
def lastActRow (pins : ℕ → Pins) : ℕ → Row
  | 0 => 0
  | t + 1 => if (pins t).Issues .act then (pins t).addr else lastActRow pins t

/-- The column command on the pins, when `row` is the activated row. -/
def Pins.columnAccess (p : Pins) (row : Row) : Option Access :=
  if p.Issues .rd then some ⟨true, ⟨p.ba, row, p.addr.extractLsb' 0 9⟩, p.dqm, none⟩
  else if p.Issues .wr then some ⟨false, ⟨p.ba, row, p.addr.extractLsb' 0 9⟩, p.dqm, p.dq⟩
  else none

/-- The column commands on the pins before cycle `n`. -/
def issued (pins : ℕ → Pins) (n : ℕ) : List Access :=
  log (fun t => (pins t).columnAccess (lastActRow pins t)) n

/-- The active word has left the FIFO and its column command is still to come. -/
def Regs.activeUnissued (s : Regs) : Bool :=
  match s.main.mState with
  | .waitUntilSafe => s.main.mNext == .read || s.main.mNext == .write
  | .read | .write => !s.main.fPop
  | _ => false

/-- The words accepted and not yet issued. -/
def Regs.unissued (s : Regs) : List Entry :=
  if s.activeUnissued then s.main.active :: s.queue else s.queue

/-! ### The FIFO at the head -/

namespace Inv

variable {s : Regs}

theorem queue_eq_cons (h : Inv s) (he : s.fEmpty = false) : s.queue = s.fEntry :: s.queue.tail :=
  (List.cons_head?_tail (h.head?_queue he)).symm

theorem fEmpty_of_head? (h : Inv s) {e : Entry} (hq : s.queue.head? = some e) :
    s.fEmpty = false := by
  cases he : s.fEmpty with
  | false => rfl
  | true => rw [show s.queue = [] from h.fifo.empty_iff.mp he] at hq; cases hq

theorem fEntry_of_head? (h : Inv s) {e : Entry} (hq : s.queue.head? = some e) : s.fEntry = e := by
  rw [h.head?_queue (h.fEmpty_of_head? hq)] at hq
  exact Option.some.inj hq

/-- In `MAIN_BANK_ACTIVATE` the announced pop goes through, and removes the active word. -/
theorem fSelect_of_bankActivate (h : Inv s) (hs : s.main.mState = .bankActivate) :
    s.fSelect = true ∧ s.queue = s.main.active :: s.queue.tail := by
  have hmain := h.main
  simp only [MainInv, hs] at hmain
  obtain ⟨hpop, hserv, hq⟩ := hmain
  have he := h.fEmpty_of_head? hq
  have hentry := h.fEntry_of_head? hq
  refine ⟨?_, ?_⟩
  · have hp : s.pending = true :=
      s.pending_iff.mpr ⟨hserv.csN, by rw [hentry], by rw [hentry], by rw [hentry], he⟩
    simp [Regs.fSelect, hpop, hp]
  · rw [← hentry]
    exact h.queue_eq_cons he

end Inv

/-! ### Conservation -/

section Step

variable {s : Regs} {i : Input}

theorem activeUnissued_column (rnw : Bool) (hs : s.main.mState = columnState rnw) :
    s.activeUnissued = !s.main.fPop := by
  cases rnw <;> simp [Regs.activeUnissued, hs, columnState]

/-- In a column state, what is issued comes off the front of what is unissued, and the
rest is what the FIFO holds after the pop. -/
theorem unissued_column (h : Inv s) {rnw : Bool} (hs : s.main.mState = columnState rnw) :
    s.unissued = s.issue.toList ++ if s.fSelect then s.queue.tail else s.queue := by
  rw [Regs.unissued, activeUnissued_column rnw hs, issue_column hs]
  cases hpop : s.main.fPop with
  | false =>
    -- the active word is due
    simp [Regs.exhausted, Regs.served, Regs.fSelect, hpop]
  | true =>
    cases hp : s.pending with
    | true =>
      -- the FIFO word is popped and issued
      have hq := h.queue_eq_cons (Regs.fEmpty_of_pending hp)
      simpa [Regs.exhausted, Regs.served, Regs.fSelect, hpop, hp] using hq
    | false =>
      -- nothing is left to issue
      simp [Regs.exhausted, Regs.fSelect, hpop, hp]

/-- **Conservation over one clock edge.** -/
theorem unissued_step (h : Inv s) (i : Input) :
    s.unissued ++ (if s.fifoWr i then [i.wrData] else []) =
      s.issue.toList ++ (step s i).unissued := by
  obtain ⟨m, hm, hstep⟩ := exists_mainStep s i
  have hmain := h.main
  have hq := h.queue_step i
  -- a transition that neither pops nor issues keeps what is unissued
  have quiet : s.main.fPop = false → s.issue = none →
      (step s i).activeUnissued = s.activeUnissued → m.active = s.main.active →
      s.unissued ++ (if s.fifoWr i then [i.wrData] else []) =
        s.issue.toList ++ (step s i).unissued := by
    intro hpop hissue hact hactive
    rw [Regs.unissued, Regs.unissued, hact, hq, hm, hactive, hissue, Regs.fSelect_of_fPop hpop]
    cases s.activeUnissued <;> simp
  cases hstep with
  | idleAccept hs hd hr he =>
    -- the word becomes active, but it is still in the FIFO and counts there
    simp only [MainInv, hs] at hmain
    simp [Regs.unissued, Regs.activeUnissued, Regs.issue, hs, hm, hq,
      Regs.fSelect_of_fPop hmain.1]
  | activate hs =>
    -- the word leaves the FIFO, and from now on it is the active one that counts
    obtain ⟨hsel, hcons⟩ := h.fSelect_of_bankActivate hs
    have hact : (step s i).activeUnissued = true := by
      cases hrnw : s.main.active.rnw <;> simp [Regs.activeUnissued, hm, hrnw, columnState]
    have hact₀ : s.activeUnissued = false := by simp [Regs.activeUnissued, hs]
    rw [Regs.unissued, Regs.unissued, hact, hact₀, hq, hsel, hm, if_neg Bool.false_ne_true, hcons]
    simp [Regs.issue, hs]
  | waitDone csN hs hc =>
    simp only [MainInv, hs] at hmain
    refine quiet hmain.1 (by simp [Regs.issue, hs]) ?_ rfl
    -- the column state has not announced a pop, so the active word is still due
    obtain ⟨-, hmain⟩ := hmain
    cases hn : s.main.mNext <;> simp only [hn] at hmain <;>
      simp [Regs.activeUnissued, hs, hm, hn]
  | columnBail rnw hs hp hr =>
    -- the word that is pending stays in the FIFO
    rw [unissued_column h hs, List.append_assoc, ← hq]
    simp [Regs.unissued, Regs.activeUnissued, hm]
  | columnStream rnw hs hp hr =>
    -- the next word is loaded, but it is still in the FIFO and counts there
    have hact : (step s i).activeUnissued = false := by
      rw [activeUnissued_column rnw (by rw [hm]; exact hs), hm]
      rfl
    rw [unissued_column h hs, List.append_assoc, ← hq, Regs.unissued, hact,
      if_neg Bool.false_ne_true]
  | columnEnd rnw hs hp =>
    rw [unissued_column h hs, List.append_assoc, ← hq]
    simp [Regs.unissued, Regs.activeUnissued, hm]
  | close hs =>
    simp only [MainInv, hs] at hmain
    refine quiet hmain.1 (by simp [Regs.issue, hs]) ?_ rfl
    rcases hmain.2.2.2 with ⟨hn, -⟩ | ⟨hn, -⟩ <;> simp [Regs.activeUnissued, hs, hm, hn]
  | spinResume hs hr hp =>
    simp only [MainInv, hs] at hmain
    have hact : (step s i).activeUnissued = false := by
      rw [activeUnissued_column s.fEntry.rnw (by rw [hm]), hm]
      rfl
    rw [Regs.unissued, Regs.unissued, hact, hq, Regs.fSelect_of_fPop hmain.1]
    simp [Regs.activeUnissued, Regs.issue, hs]
  -- the other transitions announced no pop, and the active word stays what it is
  | idleInit hs | idleRefresh hs | idleStay hs | waitMore csN hs | prepareMore hs | prepareDone hs
  | refresh hs | spinBail hs | spinClose hs | spinStay hs =>
    simp only [MainInv, hs] at hmain
    exact quiet hmain.1 (by simp [Regs.issue, hs]) (by simp [Regs.activeUnissued, hs, hm]) rfl
  | undefined hs => simp only [MainInv, hs] at hmain

/-! ### The pins -/

theorem columnAccess_eq_none {p : Pins} {row : Row} (c : CmdCode) (hc : p.cmd.code = c)
    (hne : c ≠ .rd ∧ c ≠ .wr) : p.columnAccess row = none := by
  have hno : ∀ c', c ≠ c' → ¬ p.Issues c' := by
    intro c' hcc h
    rw [Pins.Issues] at h
    exact hcc (by rw [← hc, h])
  rw [Pins.columnAccess, if_neg (hno _ hne.1), if_neg (hno _ hne.2)]

/-- The word served has the direction, bank and row of the active word. -/
theorem served_eq (h : Inv s) {rnw : Bool} (hs : s.main.mState = columnState rnw) :
    s.served.rnw = rnw ∧ bankOf s.served.addr = s.activeBank ∧
      rowOf s.served.addr = rowOf s.main.active.addr := by
  have hrnw := ((mainInv_column hs).mp h.main).2
  rw [Regs.served, Regs.activeBank]
  cases hsel : s.fSelect with
  | false => exact ⟨hrnw, rfl, rfl⟩
  | true =>
    have hp : s.pending = true := by
      simp only [Regs.fSelect, Bool.and_eq_true] at hsel
      exact hsel.2
    obtain ⟨-, hr, hb, hrow, -⟩ := s.pending_iff.mp hp
    exact ⟨hr.symm.trans hrnw, hb.symm, hrow.symm⟩

/-- The column on the address pins, under the four zeros above it. -/
theorem extractLsb'_casAddr (c : Col) : (0b0000#4 ++ c).extractLsb' 0 9 = c := by
  refine BitVec.eq_of_getElem_eq fun i hi => ?_
  rw [BitVec.getElem_extractLsb', Nat.zero_add, BitVec.getLsbD_append, if_pos hi,
    BitVec.getLsbD_eq_getElem hi]

/-- In a column state, the column command decodes to the request issued. -/
theorem columnAccess_columnPins (h : Inv s) {rnw : Bool} (hs : s.main.mState = columnState rnw) :
    (s.columnPins rnw).columnAccess (rowOf s.main.active.addr) = s.issue.map Entry.access := by
  obtain ⟨hr, -, hrow⟩ := served_eq h hs
  have hcs : s.csnDecode = false :=
    Regs.csnDecode_of_csN ((mainInv_column hs).mp h.main).1.csN
  rw [issue_column hs]
  cases hx : s.exhausted with
  | true =>
    have hnop : (s.columnPins rnw).cmd.code = .nop := by simp [Regs.columnPins, Regs.column, hx]
    rw [columnAccess_eq_none .nop hnop (by decide)]
    rfl
  | false =>
    cases rnw <;>
      simp [Pins.columnAccess, Pins.Issues, Regs.columnPins, Regs.column, hx, hcs, columnCode,
        Entry.access, cellOf, hr, hrow, extractLsb'_casAddr, colOf, bankOf]

/-- What the edge puts on the pins is what is issued, when `row` is the row of the active
word. -/
theorem columnAccess_step (h : Inv s) (i : Input) {row : Row}
    (hrow : ∀ rnw, s.main.mState = columnState rnw → row = rowOf s.main.active.addr) :
    (step s i).pins.columnAccess row = s.issue.map Entry.access := by
  -- only a column state puts a column command on the pins
  cases pinsStep s i with
  | nop hissue hcode =>
    rw [columnAccess_eq_none .nop hcode (by decide), hissue]
    rfl
  | ini hs hd hcmd =>
    have hissue : s.issue = none := by simp [Regs.issue, hs]
    rw [columnAccess_eq_none s.ini.iCmd.code (by rw [hcmd]), hissue]
    · rfl
    · rcases h.ini.code with hc | hc | hc | hc <;> simp [hc]
  | act hs hcmd =>
    rw [columnAccess_eq_none .act (by rw [hcmd]) (by decide)]
    simp [Regs.issue, hs]
  | column rnw hs hx hp =>
    rw [hp, hrow rnw hs]
    exact columnAccess_columnPins h hs
  | pre hs hcmd =>
    rw [columnAccess_eq_none .pre (by rw [hcmd]) (by decide)]
    simp [Regs.issue, hs]
  | arf hs hcmd =>
    rw [columnAccess_eq_none .arf (by rw [hcmd]) (by decide)]
    simp [Regs.issue, hs]

/-- Without a column command on the pins nothing has been issued. -/
theorem issue_eq_none (h : Inv s) (hrd : ¬ (step s i).pins.Issues .rd)
    (hwr : ¬ (step s i).pins.Issues .wr) : s.issue = none := by
  cases pinsStep s i with
  | nop hissue hcode => exact hissue
  | ini hs => simp [Regs.issue, hs]
  | act hs => simp [Regs.issue, hs]
  | column rnw hs hx hp =>
    have hcs := Regs.csnDecode_of_csN ((mainInv_column hs).mp h.main).1.csN
    rw [hp] at hrd hwr
    cases rnw <;> simp [Pins.Issues, Regs.columnPins, Regs.column, hx, hcs, columnCode] at hrd hwr
  | pre hs => simp [Regs.issue, hs]
  | arf hs => simp [Regs.issue, hs]

end Step

/-! ### Whole runs -/

/-- The row of a bank that is open is the row of the last ACT. -/
theorem RowOpened.lastActRow_eq {pins : ℕ → Pins} {b : Bank} {r : Row} {t : ℕ}
    (h : RowOpened pins b r t) : lastActRow pins t = r := by
  refine Since.induction h (P := fun t => lastActRow pins t = r) ?_ ?_
  · rintro k ⟨hact, -, haddr⟩
    rw [lastActRow, if_pos hact, haddr]
  · rintro k ⟨hact, -, -⟩ ih
    rw [lastActRow, if_neg hact, ih]

section Run

variable (s₀ : Regs) (inp : ℕ → Input)

/-- The FIFO words written before cycle `n`. -/
def acceptedWords (n : ℕ) : List Entry :=
  log (fun t => if (regsAt s₀ inp t).fifoWr (inp t) then some (inp t).wrData else none) n

/-- The FIFO words whose column command has been set before cycle `n`, so that it is on the
pins up to cycle `n`. -/
def issuedWords (n : ℕ) : List Entry := log (fun t => (regsAt s₀ inp t).issue) n

/-- **Conservation over a run**: what has been accepted is what has been issued, followed
by what is unissued. -/
theorem acceptedWords_eq (t : ℕ) :
    acceptedWords s₀ inp t = issuedWords s₀ inp t ++ (regsAt s₀ inp t).unissued := by
  induction t with
  | zero => rfl
  | succ t ih =>
    have hstep := unissued_step (inv_regsAt s₀ inp t) (inp t)
    rw [acceptedWords, log_succ, ← acceptedWords, issuedWords, log_succ, ← issuedWords, ih,
      regsAt_succ, List.append_assoc, List.append_assoc, ← hstep]
    cases (regsAt s₀ inp t).fifoWr (inp t) <;> simp

/-- The column command on the pins is that of the word issued in the cycle before. -/
theorem columnAccess_regsAt (t : ℕ) :
    (pinsAt s₀ inp (t + 1)).columnAccess (lastActRow (pinsAt s₀ inp) (t + 1)) =
      (regsAt s₀ inp t).issue.map Entry.access := by
  refine columnAccess_step (inv_regsAt s₀ inp t) (inp t) ?_
  intro rnw hs
  exact RowOpened.lastActRow_eq ((bankInv_column rnw hs).mp (bankInv_regsAt s₀ inp t))

/-- The column commands on the pins are those of the issued words. -/
theorem issued_eq (t : ℕ) :
    issued (pinsAt s₀ inp) (t + 1) = (issuedWords s₀ inp t).map Entry.access := by
  rw [issuedWords, ← log_map]
  refine log_delay ?_ (columnAccess_regsAt s₀ inp) t
  intro k hk
  obtain rfl := Nat.lt_one_iff.mp hk
  exact columnAccess_eq_none .nop rfl (by decide)

variable {s₀ inp}

/-- The column command of the pins in cycle `t` serves the word `e`, in the row that the
last ACT has opened. -/
structure ColumnCommand (pins : ℕ → Pins) (t : ℕ) (e : Entry) : Prop where
  bank : (pins t).ba = bankOf e.addr
  row : RowOpened pins (bankOf e.addr) (rowOf e.addr) t
  addr : (pins t).addr = 0b0000#4 ++ colOf e.addr
  dqm : (pins t).dqm = e.dqm
  dq : (pins t).dq = if e.rnw then none else some e.data

/-- **Every column command serves the word that is issued**, in its direction. -/
theorem columnCommand {t : ℕ} (rnw : Bool)
    (hiss : (pinsAt s₀ inp (t + 1)).Issues (columnCode rnw)) :
    ∃ e, (regsAt s₀ inp t).issue = some e ∧ e.rnw = rnw ∧
      ColumnCommand (pinsAt s₀ inp) (t + 1) e := by
  have h := inv_regsAt s₀ inp t
  obtain ⟨hs, hx, hp⟩ : (regsAt s₀ inp t).main.mState = columnState rnw ∧
      (regsAt s₀ inp t).exhausted = false ∧
      pinsAt s₀ inp (t + 1) = (regsAt s₀ inp t).columnPins rnw := by
    cases rnw <;> exact h.origin hiss
  obtain ⟨hrnw, hbank, hrow⟩ := served_eq h hs
  refine ⟨(regsAt s₀ inp t).served, ?_, hrnw, ?_⟩
  · rw [issue_column hs, hx, if_neg Bool.false_ne_true]
  · refine ⟨by rw [hp]; rfl, ?_, by rw [hp]; rfl, by rw [hp]; rfl, ?_⟩
    · rw [hbank, hrow]
      exact (bankInv_column rnw hs).mp (bankInv_regsAt s₀ inp t)
    · rw [hp, hrnw]
      cases rnw <;> simp [Regs.columnPins, Regs.column, hx]

/-- For a master that never asserts both strobes, the FIFO is written exactly when a
request is accepted, so any record of the accepted requests is one of the words written. -/
theorem log_accepts {β : Type} (hx : ∀ t, (inp t).Exclusive) {f : Input → β} {g : Entry → β}
    (hfg : ∀ i, g i.wrData = f i) (n : ℕ) :
    log (fun t => if (regsAt s₀ inp t).accepts (inp t) then some (f (inp t)) else none) n =
      (acceptedWords s₀ inp n).map g := by
  rw [acceptedWords, ← log_map]
  refine log_congr fun k _ => ?_
  have hwr : (regsAt s₀ inp k).accepts (inp k) = (regsAt s₀ inp k).fifoWr (inp k) := by
    rcases hx k with h | h <;> simp [Regs.accepts, Regs.fifoWr, h, Bool.and_comm]
  rw [hwr]
  cases (regsAt s₀ inp k).fifoWr (inp k) with
  | false => rfl
  | true => exact congrArg some (hfg (inp k)).symm

/-- At most three requests are unissued. -/
theorem length_unissued_le (s₀ : Regs) (inp : ℕ → Input) (t : ℕ) :
    (regsAt s₀ inp t).unissued.length ≤ 3 := by
  have hlen : (regsAt s₀ inp t).queue.length ≤ 2 := (inv_regsAt s₀ inp t).fifo.length_contents_le
  unfold Regs.unissued
  split
  · rw [List.length_cons]
    omega
  · omega

/-- **Exactly-once, in-order issue.** In every cycle `t`, the column commands that have
appeared on the pins are a prefix of the accepted requests, and the rest, at most three,
are the one that the active registers hold unissued followed by those in the FIFO. In
`MAIN_BANK_ACTIVATE` the active request is the one at the head of the FIFO. -/
theorem accepted_eq_issued_append (s₀ : Regs) (inp : ℕ → Input) (hx : ∀ t, (inp t).Exclusive)
    (t : ℕ) :
    accepted s₀ inp t =
        issued (pinsAt s₀ inp) (t + 1) ++ (regsAt s₀ inp t).unissued.map Entry.access ∧
      (regsAt s₀ inp t).unissued.length ≤ 3 ∧
      ((regsAt s₀ inp t).main.mState = .bankActivate →
        (regsAt s₀ inp t).queue.head? = some (regsAt s₀ inp t).main.active) := by
  refine ⟨?_, length_unissued_le s₀ inp t, ?_⟩
  · have hacc : accepted s₀ inp t = (acceptedWords s₀ inp t).map Entry.access :=
      log_accepts hx (f := Input.access) (fun _ => rfl) t
    rw [hacc, acceptedWords_eq, issued_eq, List.map_append]
  · intro hs
    rw [((inv_regsAt s₀ inp t).fSelect_of_bankActivate hs).2]
    rfl

/-- A master that writes once, in the first cycle, and then asks for nothing. -/
def oneWrite (t : ℕ) : Input :=
  { azAddr := 0x800201#24, azBeN := 0b10#2, azData := 0xBEEF#16, azRdN := true, azWrN := t != 0,
    zsDq := 0 }

end Run

end Sdram
end Cyclone10

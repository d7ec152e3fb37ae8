import Cyclone10TPG.Sdram.Device
import Cyclone10TPG.Sdram.ReadPath

/-!
# End-to-end memory consistency

The controller and the SDRAM together are a memory: the words that come back with `za_valid`
are those that an ideal memory of 2^24 words returns for the accepted requests.

Two simulations meet here. On the write side, the SDRAM holds at every moment what the ideal
memory holds after the words issued so far (`mem_eq_memExec`). On the read side, a word comes
back four cycles after its RD: the shift register `rd_valid` marks the cycle, the pad does
not drive the data pins then, and the mask is low (`readEvent_add_five`). What has been
issued is a prefix of what has been accepted, and so is what has come back.
-/

namespace Cyclone10
namespace Sdram

open Sync

/-! ### The ideal memory -/

/-- A write of the lanes of a word whose byte enable, active low, is set. -/
abbrev MaskedWord := BitVec 2 × Word

/-- The word that a masked write leaves. -/
def putMasked (w : MaskedWord) (old : Word) : Word := mergeLanes w.1 w.2 old

/-- The request on the Avalon inputs as a memory operation. -/
def Input.op (i : Input) : MemOp (BitVec 24) MaskedWord :=
  if i.azWrN then .read i.azAddr else .write i.azAddr (i.azBeN, i.azData)

/-- The request in a FIFO word as a memory operation. -/
def Entry.op (e : Entry) : MemOp (BitVec 24) MaskedWord :=
  if e.rnw then .read e.addr else .write e.addr (e.dqm, e.data)

/-- The operations of the requests accepted before cycle `n`. -/
def acceptedOps (s₀ : Regs) (inp : ℕ → Input) (n : ℕ) : List (MemOp (BitVec 24) MaskedWord) :=
  log (fun t => if (regsAt s₀ inp t).accepts (inp t) then some (inp t).op else none) n

/-- The words on `za_data` in the cycles before `n` with `za_valid` high. -/
def readData (s₀ : Regs) (inp : ℕ → Input) (n : ℕ) : List Word :=
  log (fun t => if (regsAt s₀ inp t).zaValid then some (regsAt s₀ inp t).zaData else none) n

/-! ### The address split -/

/-- The two bits of a bank. -/
theorem bankOf_inj {a a' : BitVec 24} (h : bankOf a = bankOf a') :
    a.getLsbD 23 = a'.getLsbD 23 ∧ a.getLsbD 9 = a'.getLsbD 9 := by
  have pair : ∀ x y x' y' : Bool,
      BitVec.ofBool x ++ BitVec.ofBool y = BitVec.ofBool x' ++ BitVec.ofBool y' →
      x = x' ∧ y = y' := by
    decide
  exact pair _ _ _ _ h

/-- The address split loses nothing. -/
theorem cellOf_injective : Function.Injective cellOf := by
  intro a a' h
  simp only [cellOf, Cell.mk.injEq] at h
  obtain ⟨hbank, hrow, hcol⟩ := h
  refine BitVec.eq_of_getLsbD_eq fun i hi => ?_
  rcases lt_or_ge i 9 with hlt | hge
  · have hbit : (colOf a).getLsbD i = (colOf a').getLsbD i := by rw [hcol]
    simpa [colOf, BitVec.getLsbD_extractLsb', hlt] using hbit
  rcases Nat.eq_or_lt_of_le hge with rfl | hge
  · exact (bankOf_inj hbank).2
  rcases lt_or_ge i 23 with hlt | hge
  · have hbit : (rowOf a).getLsbD (i - 10) = (rowOf a').getLsbD (i - 10) := by rw [hrow]
    have hlt' : i - 10 < 13 := by omega
    simpa [rowOf, BitVec.getLsbD_extractLsb', hlt', show 10 + (i - 10) = i by omega] using hbit
  · obtain rfl : i = 23 := by omega
    exact (bankOf_inj hbank).1

/-! ### The write side -/

section Run

variable {s₀ : Regs} {inp : ℕ → Input}

/-- The cell of a column command, in the row of its request. -/
theorem ColumnCommand.cell {pins : ℕ → Pins} {t : ℕ} {e : Entry} (h : ColumnCommand pins t e) :
    (pins t).cell (rowOf e.addr) = cellOf e.addr := by
  rw [Pins.cell, h.bank, h.addr, extractLsb'_casAddr, cellOf]

/-- The operations issued before cycle `n`. -/
def issuedOps (s₀ : Regs) (inp : ℕ → Input) (n : ℕ) : List (MemOp (BitVec 24) MaskedWord) :=
  (issuedWords s₀ inp n).map Entry.op

theorem issuedOps_succ_of_none {t : ℕ} (h : (regsAt s₀ inp t).issue = none) :
    issuedOps s₀ inp (t + 1) = issuedOps s₀ inp t := by
  rw [issuedOps, issuedWords, log_succ_of_none h, ← issuedWords, issuedOps]

theorem issuedOps_succ_of_some {t : ℕ} {e : Entry} (h : (regsAt s₀ inp t).issue = some e) :
    issuedOps s₀ inp (t + 1) = issuedOps s₀ inp t ++ [e.op] := by
  rw [issuedOps, issuedWords, log_succ_of_some h, ← issuedWords, issuedOps, List.map_append]
  rfl

variable {dq : ℕ → Word} (dev : Device (pinsAt s₀ inp) dq)

/-- The ideal memory that starts with what the SDRAM holds. -/
def Device.initial (a : BitVec 24) : Word := dev.mem 0 (cellOf a)

/-- **The SDRAM holds what the ideal memory holds** after the operations issued so far. -/
theorem mem_eq_memExec (t : ℕ) :
    (fun a => dev.mem (t + 1) (cellOf a)) =
      memExec putMasked dev.initial (issuedOps s₀ inp t) := by
  induction t with
  | zero =>
    -- nothing is on the pins in cycle `0`
    rw [dev.mem_keep 0 (not_issues_zero s₀ inp _)]
    rfl
  | succ t ih =>
    have h := inv_regsAt s₀ inp t
    by_cases hwr : (pinsAt s₀ inp (t + 1)).Issues .wr
    · -- a WR stores what the operation issued for it writes
      obtain ⟨e, hissue, hrnw, hcol⟩ := columnCommand false hwr
      have hrow := dev.openRow_of_rowOpened hcol.row
      have hdq : (pinsAt s₀ inp (t + 1)).dq = some e.data := by simp [hcol.dq, hrnw]
      have hop : e.op = .write e.addr (e.dqm, e.data) := by simp [Entry.op, hrnw]
      rw [dev.write (t + 1) _ _ hwr (by rw [hcol.bank]; exact hrow) hdq, hcol.cell, hcol.dqm,
        issuedOps_succ_of_some hissue, memExec_concat, ← ih, hop]
      exact Function.update_comp_eq_of_injective _ cellOf_injective _ _
    · rw [dev.mem_keep (t + 1) hwr]
      -- a RD changes neither memory, and otherwise nothing is issued
      by_cases hrd : (pinsAt s₀ inp (t + 1)).Issues .rd
      · obtain ⟨e, hissue, hrnw, -⟩ := columnCommand true hrd
        have hop : e.op = .read e.addr := by simp [Entry.op, hrnw]
        rw [issuedOps_succ_of_some hissue, memExec_concat, hop]
        exact ih
      · rw [issuedOps_succ_of_none (issue_eq_none h hrd hwr)]
        exact ih

/-! ### The read side -/

/-- The word announced in cycle `t`. -/
def readEvent (s₀ : Regs) (inp : ℕ → Input) (t : ℕ) : Option Word :=
  if (regsAt s₀ inp t).zaValid then some (regsAt s₀ inp t).zaData else none

/-- What the last operation issued before the end of cycle `t` returns. -/
def issuedOut (s₀ : Regs) (inp : ℕ → Input) (m : BitVec 24 → Word) (t : ℕ) : Option Word :=
  ((regsAt s₀ inp t).issue.map Entry.op).bind
    (memOut (memExec putMasked m (issuedOps s₀ inp t)))

/-- The words that the operations issued before cycle `n` return. -/
theorem log_issuedOut (m : BitVec 24 → Word) (n : ℕ) :
    log (issuedOut s₀ inp m) n = memReads putMasked m (issuedOps s₀ inp n) := by
  induction n with
  | zero => rfl
  | succ n ih =>
    rw [log_succ, ih, issuedOut]
    cases hissue : (regsAt s₀ inp n).issue with
    | none =>
      rw [issuedOps_succ_of_none hissue]
      exact List.append_nil _
    | some e =>
      rw [issuedOps_succ_of_some hissue, memReads_concat]
      rfl

end Run

section Run

variable {s₀ : Regs} {inp : ℕ → Input} (dev : Device (pinsAt s₀ inp) fun t => (inp t).zsDq)

/-- **A word comes back five cycles after its read has been issued**, and it is the word
that the ideal memory returns. -/
theorem readEvent_add_five (t : ℕ) :
    readEvent s₀ inp (t + 5) = issuedOut s₀ inp dev.initial t := by
  have hvalid : (regsAt s₀ inp (t + 5)).zaValid = (regsAt s₀ inp (t + 1)).rdStrobe :=
    zaValid_add_four (t + 1)
  rw [readEvent, hvalid, issuedOut]
  by_cases hrd : (pinsAt s₀ inp (t + 1)).Issues .rd
  · obtain ⟨e, hissue, hrnw, hcol⟩ := columnCommand true hrd
    have hrow := dev.openRow_of_rowOpened hcol.row
    have hop : e.op = .read e.addr := by simp [Entry.op, hrnw]
    -- the mask is low, so both lanes are driven
    have hword : (inp (t + 4)).zsDq = dev.mem (t + 1) (cellOf e.addr) := by
      refine eq_of_lanes fun l hl => ?_
      rw [← hcol.cell]
      refine dev.read (t + 1) _ hrd (by rw [hcol.bank]; exact hrow) l hl ?_
      rw [dqm_of_rd hrd]
      exact BitVec.getLsbD_zero
    have hdata : (regsAt s₀ inp (t + 5)).zaData = dev.mem (t + 1) (cellOf e.addr) :=
      (zaData_add_four hrd).trans hword
    rw [if_pos ((rdStrobe_iff (t + 1)).mpr hrd), hdata, hissue, Option.map_some, hop,
      Option.bind_some, memOut, ← mem_eq_memExec dev t]
  · have hout : ((regsAt s₀ inp t).issue.map Entry.op).bind
        (memOut (memExec putMasked dev.initial (issuedOps s₀ inp t))) = none := by
      by_cases hwr : (pinsAt s₀ inp (t + 1)).Issues .wr
      · obtain ⟨e, hissue, hrnw, -⟩ := columnCommand false hwr
        simp [hissue, Entry.op, hrnw, memOut]
      · rw [issue_eq_none (inv_regsAt s₀ inp t) hrd hwr]
        rfl
    rw [hout, if_neg (mt (rdStrobe_iff (t + 1)).mp hrd)]

/-- The words that have come back before cycle `n + 5` are those of the operations issued
before cycle `n`. -/
theorem readData_add_five (n : ℕ) :
    readData s₀ inp (n + 5) = memReads putMasked dev.initial (issuedOps s₀ inp n) := by
  rw [← log_issuedOut]
  refine log_delay (k := 5) (fun t ht => ?_) (readEvent_add_five dev) n
  have hvalid : (regsAt s₀ inp t).zaValid = false := by
    rcases Nat.lt_succ_iff_lt_or_eq.mp ht with ht | rfl
    · exact zaValid_of_lt_four ht
    · exact zaValid_add_four 0
  rw [readEvent, hvalid, if_neg Bool.false_ne_true]

/-! ### The main result -/

/-- **Memory consistency.** With an SDRAM on the pins, the words announced by `za_valid` are
a prefix of those that an ideal memory returns for the accepted requests. -/
theorem readData_prefix_memReads (s₀ : Regs) (inp : ℕ → Input) (hx : ∀ t, (inp t).Exclusive)
    (dev : Device (pinsAt s₀ inp) fun t => (inp t).zsDq) (n : ℕ) :
    readData s₀ inp n <+: memReads putMasked dev.initial (acceptedOps s₀ inp n) := by
  have hops : acceptedOps s₀ inp n = (acceptedWords s₀ inp n).map Entry.op :=
    log_accepts hx (f := Input.op)
      (fun i => by cases h : i.azWrN <;> simp [Entry.op, Input.op, Input.wrData, h]) n
  -- what has come back has been issued, and what has been issued has been accepted
  calc readData s₀ inp n <+: readData s₀ inp (n + 5) := log_mono _ (Nat.le_add_right n 5)
    _ = memReads putMasked dev.initial (issuedOps s₀ inp n) := readData_add_five dev n
    _ <+: memReads putMasked dev.initial (acceptedOps s₀ inp n) := by
      refine memReads_mono ?_
      rw [hops, acceptedWords_eq, List.map_append]
      exact List.prefix_append _ _

end Run

/-- A master that writes a word in the first cycle, reads it back, and then asks for
nothing. -/
def writeRead (t : ℕ) : Input where
  azAddr := 0x800201#24
  azBeN := 0b10#2
  azData := 0xBEEF#16
  azRdN := t != 1
  azWrN := t != 0
  zsDq := 0

/-- An SDRAM with all banks closed and all words zero. -/
def blankSdram : SdramState := ⟨fun _ => none, fun _ => 0, 0, 0, 0⟩

theorem writeRead_exclusive (t : ℕ) : (loopInput default writeRead blankSdram t).Exclusive := by
  by_cases ht : t = 0
  · exact Or.inl (by simp [loopInput, writeRead, ht])
  · exact Or.inr (by simp [loopInput, writeRead, ht])

theorem readData_prefix_memReads_writeRead :
    acceptedOps default (loopInput default writeRead blankSdram) 2 =
        [.write 0x800201#24 (0b10#2, 0xBEEF#16), .read 0x800201#24] ∧
      readData default (loopInput default writeRead blankSdram) 30000 <+:
        memReads putMasked (loopDevice default writeRead blankSdram).initial
          (acceptedOps default (loopInput default writeRead blankSdram) 30000) :=
  ⟨by decide, readData_prefix_memReads default (loopInput default writeRead blankSdram)
    writeRead_exclusive (loopDevice default writeRead blankSdram) 30000⟩

end Sdram
end Cyclone10

import Cyclone10TPG.Sync.Backlog
import Cyclone10TPG.Sdram.Consistency
import Cyclone10TPG.Sdram.Progress

/-!
# Every request is answered in time

`Regs.delay` bounds the cycles until the next column command. After initialisation it is at most
21: the longest way is the one from a column state with nothing left to issue, through
`MAIN_SPIN_OFF_READ_WRITE_CYCLE`, a refresh, and the activation of another row. `CountOk` bounds
the wait counters on that way.

At most three requests are unissued at a time, so what has been accepted has been issued after
three times 22 cycles, and what has been read is back five cycles later. Together with the
consistency of the memory this is total correctness: the reads are answered with the right words,
and all of them within 71 cycles (`memReads_prefix_readData`). The FIFO does not stay full either,
so no master is held off for longer than 44 cycles.
-/

namespace Cyclone10
namespace Sdram

open Sync

/-! ### The wait counters -/

/-- How far the wait counter of the main FSM can be up, state by state. -/
def MainRegs.CountOk (m : MainRegs) : Prop :=
  match m.mState with
  | .waitUntilSafe =>
    match m.mNext with
    | .read | .write => m.mCount ≤ 2
    | .idle => m.mCount ≤ if m.ackRefreshRequest then 7 else 3
    | _ => m.mCount ≤ 1
  | .prepareBankCloseAll => m.mCount ≤ 2
  | _ => True

section Step

variable {s : Regs}

theorem countOk_column {m : MainRegs} (rnw : Bool) (hs : m.mState = columnState rnw) :
    m.CountOk := by
  cases rnw <;> simp [MainRegs.CountOk, hs, columnState]

theorem MainStep.countOk {m : MainRegs} (hstep : MainStep s m) (h : Inv s)
    (hc : s.main.CountOk) : m.CountOk := by
  have hmain := h.main
  cases hstep with
  | activate hs => cases hrnw : s.main.active.rnw <;> simp [MainRegs.CountOk, columnState]
  | waitMore csN hs hlt =>
    -- the counter goes down
    simp only [MainRegs.CountOk, hs] at hc ⊢
    cases hn : s.main.mNext <;> simp only [hn] at hc ⊢ <;> omega
  | waitDone csN hs hlt =>
    simp only [MainInv, hs] at hmain
    cases hn : s.main.mNext <;> simp only [hn] at hmain <;>
      simp only [MainRegs.CountOk, hn]
    all_goals exact hmain.2.elim
  | columnBail rnw hs hp hr =>
    simp only [MainRegs.CountOk]
    cases rnw <;> cases (s.column _).ackRefreshRequest <;> simp
  | columnStream rnw hs hp hr => exact countOk_column rnw hs
  | prepareMore hs hlt =>
    simp only [MainRegs.CountOk, hs] at hc ⊢
    omega
  | close hs =>
    -- on to the refresh, or to the idle state
    simp only [MainInv, hs] at hmain
    obtain ⟨-, hack, hcount, ⟨hn, -⟩ | ⟨hn, -⟩⟩ := hmain
    · simp [MainRegs.CountOk, hn, hcount]
    · simp [MainRegs.CountOk, hn, hcount, hack]
  | spinBail hs hr =>
    simp only [MainRegs.CountOk]
    cases s.main.ackRefreshRequest <;> simp
  | spinResume hs hr hp => exact countOk_column s.fEntry.rnw rfl
  | idleInit hs | idleStay hs | spinStay hs | undefined hs =>
    simp only [MainRegs.CountOk, hs]
  | _ => simp [MainRegs.CountOk]

/-- **The longest way to a column command.** -/
theorem delay_le (h : Inv s) (hc : s.main.CountOk) (hd : s.initDone = true) : s.delay ≤ 21 := by
  have hmain := h.main
  rw [Regs.delay, if_pos hd]
  unfold Regs.mainDelay
  unfold MainRegs.CountOk at hc
  unfold MainInv at hmain
  cases hs : s.main.mState <;> simp only [hs] at hc hmain ⊢
  case idle => split <;> omega
  case waitUntilSafe =>
    cases hn : s.main.mNext <;> simp only [hn] at hc hmain ⊢
    case idle =>
      -- with the acknowledge up, no refresh comes first
      cases hack : s.main.ackRefreshRequest <;>
        simp only [hack, if_true, if_false, Bool.false_eq_true] at hc ⊢ <;> omega
    case autoRefresh => omega
    case read => omega
    case write => omega
    all_goals exact hmain.2.elim
  case read => split <;> omega
  case write => split <;> omega
  case bankCloseAll => split <;> omega
  all_goals omega

end Step

/-! ### Whole runs -/

section Run

variable (s₀ : Regs) (inp : ℕ → Input)

theorem countOk_regsAt (t : ℕ) : (regsAt s₀ inp t).main.CountOk := by
  induction t with
  | zero => exact trivial
  | succ t ih =>
    exact MainStep.countOk (mainStep (regsAt s₀ inp t)) (inv_regsAt s₀ inp t) ih

/-- **The controller drains what it accepts**, with a column command in every 22 cycles. -/
theorem drains : Drains (acceptedWords s₀ inp) (issuedWords s₀ inp) 20074 22 where
  prefix_acc := fun t => by
    rw [acceptedWords_eq]
    exact List.prefix_append _ _
  acc_mono := fun h => log_mono _ h
  out_mono := fun h => log_mono _ h
  progress := by
    intro t ht hlt
    rw [acceptedWords_eq, List.length_append] at hlt
    have hne : (regsAt s₀ inp t).unissued ≠ [] := by
      intro hnil
      rw [hnil, List.length_nil, Nat.add_zero] at hlt
      exact absurd hlt (Nat.lt_irrefl _)
    obtain ⟨e, rest, hcons⟩ := List.exists_cons_of_ne_nil hne
    obtain ⟨n, hn, hissue, -⟩ := exists_issue (t := t) (e := e) (by rw [hcons]; rfl)
    have hdone : (regsAt s₀ inp t).initDone = true := by
      obtain ⟨k, rfl⟩ := Nat.exists_eq_add_of_le ht
      rw [Nat.add_right_comm 20073 1 k]
      exact initDone_regsAt s₀ inp (Nat.le_add_right _ _)
    have hdelay := delay_le (inv_regsAt s₀ inp t) (countOk_regsAt s₀ inp t) hdone
    -- the command issued in cycle `t + n` counts from the next cycle on
    refine ⟨n + 1, by omega, ?_⟩
    have hmono : (issuedWords s₀ inp t).length ≤ (issuedWords s₀ inp (t + n)).length :=
      (log_mono _ (Nat.le_add_right t n)).length_le
    have hsucc : issuedWords s₀ inp (t + n + 1) = issuedWords s₀ inp (t + n) ++ [e] :=
      log_succ_of_some hissue
    rw [← Nat.add_assoc, hsucc, List.length_append, List.length_singleton]
    exact Nat.lt_succ_of_le hmono

/-- What has been accepted has been issued 66 cycles later, once initialisation is over. -/
theorem acceptedWords_prefix_issuedWords (t : ℕ) :
    acceptedWords s₀ inp t <+: issuedWords s₀ inp (max t 20074 + 66) := by
  have hlen : (acceptedWords s₀ inp (max t 20074)).length ≤
      (issuedWords s₀ inp (max t 20074)).length + 3 := by
    rw [acceptedWords_eq, List.length_append]
    exact Nat.add_le_add_left (length_unissued_le s₀ inp _) _
  have hdrain := (drains s₀ inp).prefix_of_progress (Nat.le_max_right t 20074) hlen
  simp only [Nat.reduceMul] at hdrain
  exact (log_mono _ (Nat.le_max_left t 20074)).trans hdrain

/-- A master that reads one row from end to end, over and over. -/
def readRow (t : ℕ) : Input :=
  { azAddr := (BitVec.ofNat 9 t).setWidth 24, azBeN := 0, azData := 0, azRdN := false,
    azWrN := true, zsDq := 0 }

/-- A burst of reads: in cycle 30000 some have been issued, and the others are under way. -/
theorem accepted_eq_issued_append_readRow :
    issued (pinsAt default readRow) 30001 ≠ [] ∧
      accepted default readRow 30000 = issued (pinsAt default readRow) 30001 ++
        (regsAt default readRow 30000).unissued.map Entry.access := by
  refine ⟨?_, (accepted_eq_issued_append default readRow (fun _ => Or.inr rfl) 30000).1⟩
  -- the first read is accepted at once, and issued after initialisation
  have hfirst : 0 < (acceptedWords default readRow 1).length := by decide
  have hissued := (acceptedWords_prefix_issuedWords default readRow 1).length_le
  have hmono : (issuedWords default readRow 20140).length ≤
      (issuedWords default readRow 30000).length := (log_mono _ (by decide)).length_le
  have hmax : max 1 20074 + 66 = 20140 := rfl
  rw [hmax] at hissued
  rw [issued_eq, Ne, List.map_eq_nil_iff, ← List.length_eq_zero_iff]
  omega

/-- **Every request is issued in time**: the requests accepted before cycle `t` have been on the
pins 67 cycles later. -/
theorem accepted_prefix_issued (hx : ∀ t, (inp t).Exclusive) (t : ℕ) :
    accepted s₀ inp t <+: issued (pinsAt s₀ inp) (max t 20074 + 67) := by
  have hacc : accepted s₀ inp t = (acceptedWords s₀ inp t).map Entry.access :=
    log_accepts hx (f := Input.access) (fun _ => rfl) t
  rw [hacc, issued_eq]
  exact (acceptedWords_prefix_issuedWords s₀ inp t).map _

theorem accepted_prefix_issued_readRow :
    accepted default readRow 30000 <+: issued (pinsAt default readRow) (max 30000 20074 + 67) :=
  accepted_prefix_issued default readRow (fun _ => Or.inr rfl) 30000

/-- **No master is held off for long**: in 45 cycles after initialisation there is one with
`za_waitrequest` low. -/
theorem exists_not_zaWaitrequest (t : ℕ) (ht : 20074 ≤ t) :
    ∃ n ≤ 44, (regsAt s₀ inp (t + n)).zaWaitrequest = false := by
  by_contra hno
  push Not at hno
  have hfull : ∀ n ≤ 44, (regsAt s₀ inp (t + n)).zaWaitrequest = true := fun n hn =>
    Bool.eq_true_of_not_eq_false (hno n hn)
  -- nothing is accepted meanwhile
  have hacc : ∀ n ≤ 44, acceptedWords s₀ inp (t + n) = acceptedWords s₀ inp t := by
    intro n
    induction n with
    | zero => exact fun _ => rfl
    | succ n ih =>
      intro hn
      have hwr : (regsAt s₀ inp (t + n)).fifoWr (inp (t + n)) = false := by
        rw [Regs.fifoWr, hfull n (Nat.le_of_succ_le hn), Bool.not_true, Bool.and_false]
      rw [← ih (Nat.le_of_succ_le hn), ← Nat.add_assoc]
      exact log_succ_of_none (by rw [hwr]; rfl)
  -- but two requests are issued, and there are three at most
  have hissued := (drains s₀ inp).length_of_progress ht 2
  simp only [Nat.reduceMul] at hissued
  have hlen := length_unissued_le s₀ inp t
  have hstart := congrArg List.length (acceptedWords_eq s₀ inp t)
  have hend := congrArg List.length (acceptedWords_eq s₀ inp (t + 44))
  rw [hacc 44 le_rfl] at hend
  rw [List.length_append] at hstart hend
  have hqueue : (regsAt s₀ inp (t + 44)).queue.length = 2 := by
    have hentries := hfull 44 le_rfl
    simp only [Regs.zaWaitrequest, Efifo.full, beq_iff_eq] at hentries
    exact (inv_regsAt s₀ inp (t + 44)).fifo.length_contents.trans hentries
  have hle : (regsAt s₀ inp (t + 44)).queue.length ≤ (regsAt s₀ inp (t + 44)).unissued.length := by
    unfold Regs.unissued
    split
    · exact Nat.le_succ _
    · exact le_rfl
  omega

/-- A master that never stops asking. -/
theorem exists_not_zaWaitrequest_readRow :
    ∃ n ≤ 44, (regsAt default readRow (30000 + n)).zaWaitrequest = false :=
  exists_not_zaWaitrequest default readRow 30000 (by decide)

/-- **The memory answers in time.** With an SDRAM on the pins, all reads accepted before cycle `t`
are answered within 71 cycles, or 71 cycles after initialisation, and with the words that an
ideal memory returns. -/
theorem memReads_prefix_readData (hx : ∀ t, (inp t).Exclusive)
    (dev : Device (pinsAt s₀ inp) fun t => (inp t).zsDq) (t : ℕ) :
    memReads putMasked dev.initial (acceptedOps s₀ inp t) <+:
      readData s₀ inp (max t 20074 + 71) := by
  have hops : acceptedOps s₀ inp t = (acceptedWords s₀ inp t).map Entry.op :=
    log_accepts hx (f := Input.op)
      (fun i => by cases h : i.azWrN <;> simp [Entry.op, Input.op, Input.wrData, h]) t
  rw [hops, show max t 20074 + 71 = max t 20074 + 66 + 5 by rfl, readData_add_five dev]
  exact memReads_mono ((acceptedWords_prefix_issuedWords s₀ inp t).map _)

theorem memReads_prefix_readData_writeRead :
    memReads putMasked (loopDevice default writeRead blankSdram).initial
        (acceptedOps default (loopInput default writeRead blankSdram) 2) <+:
      readData default (loopInput default writeRead blankSdram) (max 2 20074 + 71) :=
  memReads_prefix_readData default (loopInput default writeRead blankSdram) writeRead_exclusive
    (loopDevice default writeRead blankSdram) 2

end Run

end Sdram
end Cyclone10

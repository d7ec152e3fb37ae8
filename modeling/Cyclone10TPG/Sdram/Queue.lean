import Cyclone10TPG.Sdram.Issue

/-!
# The input FIFO is a queue

What the input FIFO does over a whole run, under the use that the controller makes of it. The
FIFO is read on `f_select`, which asks for a word in it by way of `pending`, and written when
`za_waitrequest`, its own `full` flag, is low. So neither limit is ever crossed, the words that
have been written are those that have been read, in the same order, followed by those in the
registers (`acceptedWords_eq_popped`), and everything else follows from that.
-/

namespace Cyclone10
namespace Sdram

open Sync

/-- The words read from the FIFO before cycle `n`: `rd_data` in each cycle with `rd`. -/
def poppedWords (s₀ : Regs) (inp : ℕ → Input) (n : ℕ) : List Entry :=
  log (fun t => if (regsAt s₀ inp t).fSelect then some (regsAt s₀ inp t).fifo.rdData else none) n

/-- What makes the FIFO a correct queue in cycle `t`. -/
structure QueueOk (s₀ : Regs) (inp : ℕ → Input) (t : ℕ) : Prop where
  /-- It is not read while it is empty. -/
  rd : (regsAt s₀ inp t).fSelect = true → (regsAt s₀ inp t).fifo.empty = false
  /-- It is not written while it is full. -/
  wr : (regsAt s₀ inp t).fifoWr (inp t) = true → (regsAt s₀ inp t).fifo.full = false
  /-- `FIFO_RDWR` is taken with one entry only. -/
  rdwr : (regsAt s₀ inp t).fSelect = true → (regsAt s₀ inp t).fifoWr (inp t) = true →
    (regsAt s₀ inp t).fifo.entries = 1
  entries_le : (regsAt s₀ inp t).fifo.entries ≤ 2
  /-- The counter is the number of writes less the number of reads. -/
  entries_eq : ((regsAt s₀ inp t).fifo.entries : ℤ) =
    (acceptedWords s₀ inp t).length - (poppedWords s₀ inp t).length
  pointers : (((regsAt s₀ inp t).fifo.wrAddress.val : ℤ) - (regsAt s₀ inp t).fifo.rdAddress.val) % 2
    = (regsAt s₀ inp t).fifo.entries % 2
  /-- `rd_data` is the first of the written words that has not been read. -/
  rdData : (regsAt s₀ inp t).fifo.empty = false →
    (acceptedWords s₀ inp t)[(poppedWords s₀ inp t).length]? =
      some (regsAt s₀ inp t).fifo.rdData

section Run

variable (s₀ : Regs) (inp : ℕ → Input)

/-- **Conservation**: what has been written is what has been read, followed by what is in the
FIFO. -/
theorem acceptedWords_eq_popped (t : ℕ) :
    acceptedWords s₀ inp t = poppedWords s₀ inp t ++ (regsAt s₀ inp t).queue := by
  induction t with
  | zero => rfl
  | succ t ih =>
    have h := inv_regsAt s₀ inp t
    have hacc : acceptedWords s₀ inp (t + 1) = acceptedWords s₀ inp t ++
        if (regsAt s₀ inp t).fifoWr (inp t) then [(inp t).wrData] else [] := by
      rw [acceptedWords, log_succ]
      cases (regsAt s₀ inp t).fifoWr (inp t) <;> rfl
    have hpop : poppedWords s₀ inp (t + 1) = poppedWords s₀ inp t ++
        if (regsAt s₀ inp t).fSelect then [(regsAt s₀ inp t).fifo.rdData] else [] := by
      rw [poppedWords, log_succ]
      cases (regsAt s₀ inp t).fSelect <;> rfl
    rw [hacc, hpop, ih, regsAt_succ, h.queue_step (inp t)]
    cases hsel : (regsAt s₀ inp t).fSelect with
    | false => simp
    | true =>
      -- the word that is read is the head of the queue
      have hcons := h.queue_eq_cons (Regs.fEmpty_of_fSelect hsel)
      have hhead : (regsAt s₀ inp t).queue =
          [(regsAt s₀ inp t).fifo.rdData] ++ (regsAt s₀ inp t).queue.tail := hcons
      rw [hhead]
      simp

/-- **The FIFO is a bounded queue** in every cycle, for every input stream and over every run
from reset. -/
theorem queueOk_regsAt (t : ℕ) : QueueOk s₀ inp t := by
  have h := inv_regsAt s₀ inp t
  have hcons := acceptedWords_eq_popped s₀ inp t
  have hlen : (regsAt s₀ inp t).queue.length = (regsAt s₀ inp t).fifo.entries :=
    h.fifo.length_contents
  have hle : (regsAt s₀ inp t).fifo.entries ≤ 2 := h.fifo.entries_le
  refine {
    rd := Regs.fEmpty_of_fSelect
    wr := Regs.full_of_fifoWr
    rdwr := ?_
    entries_le := hle
    entries_eq := ?_
    pointers := ?_
    rdData := ?_ }
  · intro hrd hwr
    -- neither empty nor full
    have hempty : (regsAt s₀ inp t).fifo.empty = false := Regs.fEmpty_of_fSelect hrd
    have hfull := Regs.full_of_fifoWr hwr
    simp only [Efifo.empty, beq_eq_false_iff_ne, ne_eq] at hempty
    simp only [Efifo.full, Efifo.fifoDepth, beq_eq_false_iff_ne, ne_eq] at hfull
    omega
  · rw [hcons, List.length_append, hlen]
    omega
  · have hptr := h.fifo.pointers_eq
    omega
  · intro hempty
    rw [hcons, List.getElem?_append_right (Nat.le_refl _), Nat.sub_self, ← List.head?_eq_getElem?]
    exact h.fifo.head?_contents hempty

end Run

end Sdram
end Cyclone10

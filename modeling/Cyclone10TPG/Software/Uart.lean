import Cyclone10TPG.Sync.Elastic
import Mathlib.Tactic.Ring

/-!
# The driver of the UART

`altera_avalon_uart_write`, as it is built for the program: the small driver, which polls TRDY in
the status register and has no buffer. The device decides in which passes of the loop it is ready.
A blocking write of at least one byte sends just the bytes of the buffer, and returns with the last
of them (`callAt_eq`, `sent_eq`).

The loop looks at `count` only after a pass, and stops only if it is zero then. A write of no bytes
returns if the device is busy in the first pass. If it is ready, or the length is negative, the loop
sends what is behind the buffer, and goes on (`callAt_of_runaway`). There are no other runs in which
the driver is wrong (`correct_iff`).
-/

namespace Cyclone10
namespace Software

open Sync

/-! ### The loop -/

/-- The variables of the loop: `ptr`, from where it began, and the `int` variable `count`, without
the overflow that comes 2^31 bytes below zero. -/
structure Write where
  ptr : ℕ
  count : ℤ
  deriving Repr, DecidableEq

/-- One pass of the loop, with the bit TRDY of the status. -/
def Write.poll (w : Write) (trdy : Bool) : Write :=
  if trdy then ⟨w.ptr + 1, w.count - 1⟩ else w

/-- A call of `altera_avalon_uart_write`: in the loop, or returned, and whether `ALT_ERRNO` has
been set to `EWOULDBLOCK`. -/
inductive Call
  | loop (w : Write)
  | returned (value : ℤ) (wouldBlock : Bool)
  deriving Repr, DecidableEq

/-- One pass, and the condition behind it. -/
def Call.step (block : Bool) (len : ℤ) (c : Call) (trdy : Bool) : Call :=
  match c with
  | .loop w =>
    if block = true ∧ (w.poll trdy).count ≠ 0 then .loop (w.poll trdy)
    else .returned (len - (w.poll trdy).count) (decide ((w.poll trdy).count ≠ 0))
  | .returned value wouldBlock => .returned value wouldBlock

/-- What a pass writes to the register TXDATA. -/
def Call.txdata {α : Type} (mem : ℕ → α) (c : Call) (trdy : Bool) : Option α :=
  match c with
  | .loop w => if trdy then some (mem w.ptr) else none
  | .returned _ _ => none

section

variable {α : Type} (mem : ℕ → α) (block : Bool) (len : ℤ) (trdy : ℕ → Bool)

/-- The call before pass `n`. -/
def callAt (n : ℕ) : Call := run (Call.step block len) (.loop ⟨0, len⟩) trdy n

/-- The bytes sent in the first `n` passes. -/
def sent (n : ℕ) : List α := log (fun t => (callAt block len trdy t).txdata mem (trdy t)) n

end

/-! ### Passes -/

section

variable {α : Type} (mem : ℕ → α) {len : ℤ} (trdy : ℕ → Bool)

theorem callAt_succ (block : Bool) (n : ℕ) :
    callAt block len trdy (n + 1) = (callAt block len trdy n).step block len (trdy n) := rfl

theorem sent_succ (block : Bool) (n : ℕ) : sent mem block len trdy (n + 1) =
    sent mem block len trdy n ++ ((callAt block len trdy n).txdata mem (trdy n)).toList := rfl

/-- A pass, with `count` as what is left of the buffer. -/
theorem Write.poll_eq (len : ℤ) (r : ℕ) (ready : Bool) : Write.poll ⟨r, len - r⟩ ready =
    ⟨r + ready.toNat, len - (r + ready.toNat : ℕ)⟩ := by
  cases ready with
  | false => simp [Write.poll]
  | true =>
    rw [Write.poll, if_pos rfl, Bool.toNat_true, Nat.cast_add, Int.sub_sub]
    rfl

/-- A pass in the loop. -/
theorem step_loop {r : ℕ} (ready : Bool) (hr : ((r + ready.toNat : ℕ) : ℤ) ≠ len) :
    (Call.loop ⟨r, len - r⟩).step true len ready =
      .loop ⟨r + ready.toNat, len - (r + ready.toNat : ℕ)⟩ := by
  rw [Call.step, Write.poll_eq, if_pos]
  refine ⟨rfl, ?_⟩
  show len - (r + ready.toNat : ℕ) ≠ 0
  omega

/-- A call that is in the loop before pass `n` has sent a byte in each pass with a ready device. -/
theorem sent_of_loop {n : ℕ}
    (hloop : ∀ k < n, callAt true len trdy k = .loop ⟨readies trdy k, len - readies trdy k⟩) :
    sent mem true len trdy n = (List.range (readies trdy n)).map mem := by
  induction n with
  | zero => rfl
  | succ n ih =>
    rw [sent_succ, ih fun k hk => hloop k (Nat.lt_succ_of_lt hk), hloop n (Nat.lt_succ_self n),
      readies]
    cases trdy n with
    | false => exact List.append_nil _
    | true =>
      rw [Bool.toNat_true, List.range_succ, List.map_append]
      rfl

end

/-! ### Writes of at least one byte -/

section

variable {α : Type} (mem : ℕ → α) {len : ℕ} (trdy : ℕ → Bool)

/-- **The loop goes on until the device has been ready for the last byte.** -/
theorem callAt_eq (hlen : 0 < len) (n : ℕ) :
    callAt true len trdy n =
      if readies trdy n < len then .loop ⟨readies trdy n, len - readies trdy n⟩
      else .returned len false := by
  induction n with
  | zero =>
    rw [readies, if_pos hlen]
    simp [callAt]
  | succ n ih =>
    rw [callAt_succ, ih, readies]
    by_cases hlt : readies trdy n < len
    · rw [if_pos hlt]
      by_cases hlast : readies trdy n + (trdy n).toNat < len
      · rw [if_pos hlast, step_loop _ (by omega)]
      · -- the last byte
        have hready : trdy n = true := by
          by_contra hno
          rw [Bool.eq_false_of_not_eq_true hno] at hlast
          exact hlast hlt
        have hone : readies trdy n + 1 = len := by
          rw [hready, Bool.toNat_true] at hlast
          omega
        have hcount : (len : ℤ) - readies trdy n - 1 = 0 := by omega
        rw [if_neg hlast, hready]
        simp [Call.step, Write.poll, hcount]
    · rw [if_neg hlt, if_neg (by omega)]
      rfl

/-- The bytes that have been sent. -/
theorem sent_eq (hlen : 0 < len) (n : ℕ) :
    sent mem true len trdy n = (List.range (min (readies trdy n) len)).map mem := by
  induction n with
  | zero => simp [sent, readies]
  | succ n ih =>
    rw [sent_succ, ih, callAt_eq trdy hlen, readies]
    by_cases hlt : readies trdy n < len
    · rw [if_pos hlt, Nat.min_eq_left hlt.le]
      cases htrdy : trdy n with
      | false =>
        rw [Bool.toNat_false, Nat.add_zero, Nat.min_eq_left hlt.le]
        exact List.append_nil _
      | true =>
        rw [Bool.toNat_true, Nat.min_eq_left hlt, List.range_succ, List.map_append]
        rfl
    · rw [if_neg hlt, Nat.min_eq_right (Nat.le_of_not_lt hlt), Nat.min_eq_right (by omega)]
      exact List.append_nil _

end

/-! ### Writes of no bytes, and of a negative number of bytes -/

section

variable {α : Type} (mem : ℕ → α) {len : ℤ} (trdy : ℕ → Bool)

/-- The device is busy in the first pass: the call returns. -/
theorem callAt_of_busy (h : trdy 0 = false) (n : ℕ) :
    callAt true 0 trdy (n + 1) = .returned 0 false := by
  induction n with
  | zero =>
    show Call.step true 0 (.loop ⟨0, 0⟩) (trdy 0) = _
    rw [h]
    rfl
  | succ n ih =>
    rw [callAt_succ, ih]
    rfl

theorem sent_of_busy (h : trdy 0 = false) (n : ℕ) : sent mem true 0 trdy n = [] := by
  refine log_eq_nil fun t _ => ?_
  cases t with
  | zero =>
    show (if trdy 0 then some (mem 0) else none) = none
    rw [h]
    rfl
  | succ t =>
    rw [callAt_of_busy trdy h]
    rfl

/-- `count` is negative after the first pass, or already before it. -/
def Runaway (len : ℤ) (trdy : ℕ → Bool) : Prop := len < 0 ∨ len = 0 ∧ trdy 0 = true

/-- **The loop does not stop**: `count` only gets further away from zero. -/
theorem callAt_of_runaway (h : Runaway len trdy) (n : ℕ) :
    callAt true len trdy n = .loop ⟨readies trdy n, len - readies trdy n⟩ := by
  induction n with
  | zero => simp [callAt, readies]
  | succ n ih =>
    rw [callAt_succ, ih, readies]
    refine step_loop _ ?_
    rcases h with hneg | ⟨rfl, hready⟩
    · omega
    · -- the device has been ready in the first pass
      cases n with
      | zero => rw [hready, Bool.toNat_true]; omega
      | succ n =>
        have hfirst : readies trdy 1 ≤ readies trdy (n + 1) := readies_mono (Nat.le_add_left 1 n)
        have hone : readies trdy 1 = 1 := readies_succ_of_ready hready
        omega

end

/-! ### What a call is for -/

section

variable {α : Type} (mem : ℕ → α) {len : ℤ} (trdy : ℕ → Bool)

/-- **A blocking write does its work**, as far as pass `n`: it sends the bytes of the buffer in
order, returns their number when all have been sent, and does return when the device has been
ready for them. -/
structure Correct (len : ℤ) (n : ℕ) : Prop where
  inBuffer : sent mem true len trdy n <+: (List.range len.toNat).map mem
  complete : ∀ value wouldBlock, callAt true len trdy n = .returned value wouldBlock →
    value = len ∧ wouldBlock = false ∧ sent mem true len trdy n = (List.range len.toNat).map mem
  returns : 0 < n → len ≤ readies trdy n → callAt true len trdy n = .returned len false

theorem correct_of_pos {len : ℕ} (hlen : 0 < len) (n : ℕ) : Correct mem trdy len n where
  inBuffer := by
    rw [sent_eq mem trdy hlen, Int.toNat_natCast]
    refine List.IsPrefix.map mem ?_
    rw [List.prefix_iff_eq_take, List.length_range, List.take_range, Nat.min_assoc, Nat.min_self]
  complete := by
    intro value wouldBlock hret
    rw [callAt_eq trdy hlen] at hret
    split_ifs at hret with hlt
    cases hret
    refine ⟨rfl, rfl, ?_⟩
    rw [sent_eq mem trdy hlen, Int.toNat_natCast, Nat.min_eq_right (Nat.le_of_not_lt hlt)]
  returns := by
    intro _ hle
    rw [callAt_eq trdy hlen, if_neg (Nat.not_lt.mpr (Int.ofNat_le.mp hle))]

theorem correct_of_busy (h : trdy 0 = false) (n : ℕ) : Correct mem trdy 0 n where
  inBuffer := by rw [sent_of_busy mem trdy h]; exact List.nil_prefix
  complete := by
    intro value wouldBlock hret
    cases n with
    | zero => cases hret
    | succ n =>
      rw [callAt_of_busy trdy h] at hret
      cases hret
      exact ⟨rfl, rfl, sent_of_busy mem trdy h _⟩
  returns := by
    intro hn _
    obtain ⟨n, rfl⟩ := Nat.exists_eq_succ_of_ne_zero hn.ne'
    exact callAt_of_busy trdy h n

/-- A loop that does not stop does not do its work. -/
theorem not_correct_of_runaway (h : Runaway len trdy) : ¬ Correct mem trdy len 1 := by
  intro hcorrect
  have hle : len ≤ readies trdy 1 := by
    rcases h with hneg | ⟨hzero, -⟩ <;> omega
  have hret := hcorrect.returns Nat.one_pos hle
  rw [callAt_of_runaway trdy h] at hret
  cases hret

/-- **When the driver is right**: in all runs but those of a write of no bytes to a device that is
ready at once, and those with a negative length. In these it sends what is behind the buffer, a byte
each time the device is ready, and does not return. -/
theorem correct_iff (len : ℤ) :
    ((∀ n, Correct mem trdy len n) ↔ 0 < len ∨ len = 0 ∧ trdy 0 = false) ∧
      (¬ (0 < len ∨ len = 0 ∧ trdy 0 = false) → ∀ n,
        callAt true len trdy n = .loop ⟨readies trdy n, len - readies trdy n⟩ ∧
          sent mem true len trdy n = (List.range (readies trdy n)).map mem) := by
  have hrunaway : ¬ (0 < len ∨ len = 0 ∧ trdy 0 = false) → Runaway len trdy := by
    intro hno
    rcases lt_trichotomy len 0 with hneg | hzero | hpos
    · exact .inl hneg
    · refine .inr ⟨hzero, ?_⟩
      by_contra hbusy
      exact hno (.inr ⟨hzero, Bool.eq_false_of_not_eq_true hbusy⟩)
    · exact absurd (.inl hpos) hno
  refine ⟨⟨fun h => ?_, ?_⟩, fun hno n => ?_⟩
  · by_contra hno
    exact not_correct_of_runaway mem trdy (hrunaway hno) (h 1)
  · rintro (hlen | ⟨rfl, hbusy⟩) n
    · lift len to ℕ using hlen.le
      exact correct_of_pos mem trdy (Int.natCast_pos.mp hlen) n
    · exact correct_of_busy mem trdy hbusy n
  · have hloop := callAt_of_runaway trdy (hrunaway hno)
    exact ⟨hloop n, sent_of_loop mem trdy fun k _ => hloop k⟩

end

end Software
end Cyclone10

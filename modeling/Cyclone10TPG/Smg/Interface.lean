import Mathlib.Data.Nat.Basic
import Mathlib.Tactic.Common
import Mathlib.Tactic.IntervalCases
import Cyclone10TPG.Sync.Run

/-!
# The seven-segment display

`smg_interface` and its three modules. `smg_control_module` picks the digit of the number that
is due, `smg_scan_module` drives the gate of that digit, and `smg_encode_module` turns the digit
into segments, one clock later.

The first two are the same circuit, written twice: a 16-bit timer `C1`, a digit index `i` that
moves on when the timer expires, and a register that is loaded in the other cycles. `Digits` is
that circuit, with what is loaded for each index as a parameter, and `smgControl` and `smgScan`
are its two uses.
-/

namespace Cyclone10
namespace Smg

/-! ### Timer and digit index -/

/-- The registers `C1` (16 bits) and `i` (4 bits), and the register that depends on `i`. -/
structure Digits (α : Type) where
  c1 : ℕ
  i : ℕ
  reg : α
  deriving Repr, DecidableEq

namespace Digits

variable {α : Type}

/-- One clock edge. `out i` is what is loaded for the digit `i`; the case on `i` has branches
for `0`, `1` and `2` only. -/
def step (T1MS : ℕ) (out : ℕ → α) (s : Digits α) : Digits α where
  c1 := if s.c1 = T1MS then 0 else (s.c1 + 1) % 65536
  i :=
    match s.i with
    | 0 | 1 => if s.c1 = T1MS then s.i + 1 else s.i
    | 2 => if s.c1 = T1MS then 0 else s.i
    | _ => s.i
  reg :=
    match s.i with
    | 0 | 1 | 2 => if s.c1 = T1MS then s.reg else out s.i
    | _ => s.reg

/-- The index of the digit that follows. -/
def next (i : ℕ) : ℕ := if i = 2 then 0 else i + 1

/-- The digits of the display. -/
theorem cases_of_le {i : ℕ} (hi : i ≤ 2) : i = 0 ∨ i = 1 ∨ i = 2 := by omega

variable {T1MS : ℕ} {out : ℕ → α} {s : Digits α}

/-- The timer runs, and the register is loaded. -/
theorem step_of_ne (hi : s.i ≤ 2) (hc : s.c1 ≠ T1MS) :
    s.step T1MS out = ⟨(s.c1 + 1) % 65536, s.i, out s.i⟩ := by
  obtain ⟨c1, i, reg⟩ := s
  have hcases : i = 0 ∨ i = 1 ∨ i = 2 := cases_of_le hi
  rcases hcases with rfl | rfl | rfl <;> simp [step, show c1 ≠ T1MS from hc]

/-- The timer expires: the index moves on, and the register keeps its value. -/
theorem step_of_eq (hi : s.i ≤ 2) (hc : s.c1 = T1MS) :
    s.step T1MS out = ⟨0, next s.i, s.reg⟩ := by
  obtain ⟨c1, i, reg⟩ := s
  have hcases : i = 0 ∨ i = 1 ∨ i = 2 := cases_of_le hi
  rcases hcases with rfl | rfl | rfl <;> simp [step, next, show c1 = T1MS from hc]

end Digits

/-! ### The three modules -/

/-- The part of the number that belongs to the digit `i`. -/
def nibble (numberSig : BitVec 12) : ℕ → BitVec 4
  | 0 => numberSig.extractLsb' 8 4
  | 1 => numberSig.extractLsb' 4 4
  | _ => numberSig.extractLsb' 0 4

/-- The gate of the digit `i`. -/
def gate : ℕ → BitVec 3
  | 0 => 0b001#3
  | 1 => 0b010#3
  | _ => 0b100#3

/-- `smg_control_module`; the register is `rNumber`. -/
def smgControl (T1MS : ℕ) (numberSig : BitVec 12) (s : Digits (BitVec 4)) : Digits (BitVec 4) :=
  s.step T1MS (nibble numberSig)

/-- `smg_scan_module`; the register is `rScan`. -/
def smgScan (T1MS : ℕ) (s : Digits (BitVec 3)) : Digits (BitVec 3) := s.step T1MS gate

/-- `smg_encode_module`, with the parameters `_0` to `_9`; `rSMG` keeps its value for a number
without a code. -/
def smgEncode (numberData : BitVec 4) (rSMG : BitVec 8) : BitVec 8 :=
  match numberData.toNat with
  | 0 => 0b1100_0000#8
  | 1 => 0b1111_1001#8
  | 2 => 0b1010_0100#8
  | 3 => 0b1011_0000#8
  | 4 => 0b1001_1001#8
  | 5 => 0b1001_0010#8
  | 6 => 0b1000_0010#8
  | 7 => 0b1111_1000#8
  | 8 => 0b1000_0000#8
  | 9 => 0b1001_0000#8
  | _ => rSMG

/-! ### The interface -/

/-- All registers of `smg_interface`. -/
structure Regs where
  control : Digits (BitVec 4)
  scan : Digits (BitVec 3)
  rSMG : BitVec 8
  deriving Repr, DecidableEq

/-- The registers after `RSTn` has been low. -/
def reset : Regs := ⟨⟨0, 0, 0⟩, ⟨0, 0, 0⟩, 0b1111_1111#8⟩

/-- All registers after the edge that ends a cycle with `Number_Sig` as given. -/
def step (T1MS : ℕ) (s : Regs) (numberSig : BitVec 12) : Regs where
  control := smgControl T1MS numberSig s.control
  scan := smgScan T1MS s.scan
  rSMG := smgEncode s.control.reg s.rSMG

/-- The registers in cycle `t` after reset. -/
def regsAt (T1MS : ℕ) (numberSig : ℕ → BitVec 12) : ℕ → Regs :=
  Sync.run (step T1MS) reset numberSig

/-- The output `Scan_Sig`. -/
def scanSig (T1MS : ℕ) (numberSig : ℕ → BitVec 12) (t : ℕ) : BitVec 3 :=
  (regsAt T1MS numberSig t).scan.reg

/-- The output `SMG_Data`. -/
def smgData (T1MS : ℕ) (numberSig : ℕ → BitVec 12) (t : ℕ) : BitVec 8 :=
  (regsAt T1MS numberSig t).rSMG

/-! ### Lockstep -/

/-- **The invariant**: the two timers and the two indices agree, and but for the first cycle of
a digit its gate is the one that is driven. -/
structure Lockstep (s : Regs) : Prop where
  c1 : s.control.c1 = s.scan.c1
  i : s.control.i = s.scan.i
  i_le : s.scan.i ≤ 2
  gate : s.scan.c1 = 0 ∨ s.scan.reg = gate s.scan.i

theorem Lockstep.reset : Lockstep reset := ⟨rfl, rfl, Nat.zero_le 2, Or.inl rfl⟩

theorem next_le {i : ℕ} (hi : i ≤ 2) : Digits.next i ≤ 2 := by
  unfold Digits.next
  split <;> omega

/-- Different digits have different gates. -/
theorem gate_next_ne {i : ℕ} (hi : i ≤ 2) : gate i ≠ gate (Digits.next i) := by
  obtain rfl | rfl | rfl := Digits.cases_of_le hi <;> decide

section Step

variable {T1MS : ℕ} {s : Regs} (numberSig : BitVec 12)

/-- Both modules load their registers for the same digit. -/
theorem Lockstep.step_of_ne (h : Lockstep s) (hc : s.scan.c1 ≠ T1MS) :
    (step T1MS s numberSig).control =
        ⟨(s.scan.c1 + 1) % 65536, s.scan.i, nibble numberSig s.scan.i⟩ ∧
      (step T1MS s numberSig).scan = ⟨(s.scan.c1 + 1) % 65536, s.scan.i, Smg.gate s.scan.i⟩ := by
  have hcontrol : (step T1MS s numberSig).control = _ :=
    Digits.step_of_ne (by rw [h.i]; exact h.i_le) (by rw [h.c1]; exact hc)
  have hscan : (step T1MS s numberSig).scan = _ := Digits.step_of_ne h.i_le hc
  rw [hcontrol, hscan, h.c1, h.i]
  exact ⟨rfl, rfl⟩

/-- Both modules move on to the next digit. -/
theorem Lockstep.step_of_eq (h : Lockstep s) (hc : s.scan.c1 = T1MS) :
    (step T1MS s numberSig).control = ⟨0, Digits.next s.scan.i, s.control.reg⟩ ∧
      (step T1MS s numberSig).scan = ⟨0, Digits.next s.scan.i, s.scan.reg⟩ := by
  have hcontrol : (step T1MS s numberSig).control = _ :=
    Digits.step_of_eq (by rw [h.i]; exact h.i_le) (by rw [h.c1]; exact hc)
  have hscan : (step T1MS s numberSig).scan = _ := Digits.step_of_eq h.i_le hc
  rw [hcontrol, hscan, h.i]
  exact ⟨rfl, rfl⟩

/-- **The two modules never drift apart.** -/
theorem Lockstep.step (h : Lockstep s) : Lockstep (step T1MS s numberSig) := by
  by_cases hc : s.scan.c1 = T1MS
  · obtain ⟨hcontrol, hscan⟩ := h.step_of_eq numberSig hc
    constructor
    · rw [hcontrol, hscan]
    · rw [hcontrol, hscan]
    · rw [hscan]
      exact next_le h.i_le
    · rw [hscan]
      exact Or.inl rfl
  · obtain ⟨hcontrol, hscan⟩ := h.step_of_ne numberSig hc
    constructor
    · rw [hcontrol, hscan]
    · rw [hcontrol, hscan]
    · rw [hscan]
      exact h.i_le
    · rw [hscan]
      exact Or.inr rfl

end Step

/-! ### Agreement -/

/-- How a seven-segment display shows the digits 0 to 9: bit 7 is the point, bits 6 to 0 are the
segments G to A, and a segment is lit by a 0. -/
def digitCodes : List (BitVec 8) :=
  [0xC0#8, 0xF9#8, 0xA4#8, 0xB0#8, 0x99#8, 0x92#8, 0x82#8, 0xF8#8, 0x80#8, 0x90#8]

/-- The part of the number that belongs to the digit selected by `Scan_Sig`. -/
def selected (scan : BitVec 3) (numberSig : BitVec 12) : Option (BitVec 4) :=
  if scan = 0b001#3 then some (numberSig.extractLsb' 8 4)
  else if scan = 0b010#3 then some (numberSig.extractLsb' 4 4)
  else if scan = 0b100#3 then some (numberSig.extractLsb' 0 4)
  else none

theorem selected_gate {i : ℕ} (hi : i ≤ 2) (numberSig : BitVec 12) :
    selected (gate i) numberSig = some (nibble numberSig i) := by
  obtain rfl | rfl | rfl := Digits.cases_of_le hi <;> rfl

/-- The decoder shows a decimal digit, and leaves the display alone otherwise. -/
theorem smgEncode_eq (n : BitVec 4) (r : BitVec 8) :
    if n.toNat ≤ 9 then digitCodes[n.toNat]? = some (smgEncode n r) else smgEncode n r = r := by
  unfold smgEncode
  have hlt : n.toNat < 16 := n.isLt
  generalize n.toNat = k at hlt
  interval_cases k <;> rfl

theorem smgEncode_of_le {n : BitVec 4} (hn : n.toNat ≤ 9) (r : BitVec 8) :
    digitCodes[n.toNat]? = some (smgEncode n r) := by
  have hcode := smgEncode_eq n r
  rwa [if_pos hn] at hcode

section Run

variable {T1MS : ℕ} {numberSig : ℕ → BitVec 12}

variable (T1MS numberSig) in
theorem lockstep_regsAt (t : ℕ) : Lockstep (regsAt T1MS numberSig t) :=
  Sync.run_invariant Lockstep.reset (fun _ number h => h.step number) t

/-- In a cycle with the gate of the cycle before, the timer did not expire two cycles ago: when
it does, the next cycle still has the old gate, and the one after that the new one. -/
theorem c1_ne_of_scanSig (hT : 1 ≤ T1MS) {t : ℕ}
    (hsame : scanSig T1MS numberSig (t + 1) = scanSig T1MS numberSig (t + 2)) :
    (regsAt T1MS numberSig t).scan.c1 ≠ T1MS := by
  intro hc
  have h := lockstep_regsAt T1MS numberSig t
  -- the old gate has been driven since the timer has left zero
  have hold : (regsAt T1MS numberSig t).scan.reg = gate (regsAt T1MS numberSig t).scan.i := by
    refine h.gate.resolve_left ?_
    rw [hc]
    exact Nat.one_le_iff_ne_zero.mp hT
  have hnext : (regsAt T1MS numberSig (t + 1)).scan =
      ⟨0, Digits.next (regsAt T1MS numberSig t).scan.i, (regsAt T1MS numberSig t).scan.reg⟩ :=
    (h.step_of_eq (numberSig t) hc).2
  -- the timer has restarted, so the new gate is driven
  have hne : (regsAt T1MS numberSig (t + 1)).scan.c1 ≠ T1MS := by
    rw [hnext]
    exact (Nat.one_le_iff_ne_zero.mp hT).symm
  have hnew : (regsAt T1MS numberSig (t + 2)).scan = _ :=
    ((lockstep_regsAt T1MS numberSig (t + 1)).step_of_ne (numberSig (t + 1)) hne).2
  unfold scanSig at hsame
  rw [hnew, hnext, hold] at hsame
  exact gate_next_ne h.i_le hsame

/-- In a cycle with a gate driven that was driven in the cycle before, the segments are those of
the digit that the gate selects, in the number as it was two cycles ago. -/
theorem exists_selected (hT : 1 ≤ T1MS) {t : ℕ} (hsel : scanSig T1MS numberSig (t + 1) ≠ 0)
    (hsame : scanSig T1MS numberSig t = scanSig T1MS numberSig (t + 1)) :
    ∃ k, t = k + 1 ∧ ∃ n, selected (scanSig T1MS numberSig (t + 1)) (numberSig k) = some n ∧
      (n.toNat ≤ 9 → digitCodes[n.toNat]? = some (smgData T1MS numberSig (t + 1))) := by
  cases t with
  | zero =>
    -- nothing is driven in the first cycle
    rw [← hsame] at hsel
    exact absurd rfl hsel
  | succ k =>
    have h := lockstep_regsAt T1MS numberSig k
    have hc := c1_ne_of_scanSig hT hsame
    obtain ⟨hcontrol, hscan⟩ := h.step_of_ne (numberSig k) hc
    have hgate : scanSig T1MS numberSig (k + 1) = gate (regsAt T1MS numberSig k).scan.i :=
      congrArg Digits.reg hscan
    have hnumber : (regsAt T1MS numberSig (k + 1)).control.reg =
        nibble (numberSig k) (regsAt T1MS numberSig k).scan.i := congrArg Digits.reg hcontrol
    refine ⟨k, rfl, nibble (numberSig k) (regsAt T1MS numberSig k).scan.i, ?_, ?_⟩
    · rw [← hsame, hgate]
      exact selected_gate h.i_le (numberSig k)
    · intro hn
      show digitCodes[_]? = some (smgEncode (regsAt T1MS numberSig (k + 1)).control.reg _)
      rw [hnumber]
      exact smgEncode_of_le hn _

/-- **Digit and segments agree.** The two timers and the two indices are the same in every
cycle; and in a cycle with a gate driven that was driven in the cycle before, the segments are
those of the digit that the gate selects, in the number as it was two cycles ago, if that digit
has segments. -/
theorem smgData_of_scanSig (T1MS : ℕ) (hT : 1 ≤ T1MS) (numberSig : ℕ → BitVec 12) :
    (∀ t, (regsAt T1MS numberSig t).control.c1 = (regsAt T1MS numberSig t).scan.c1 ∧
        (regsAt T1MS numberSig t).control.i = (regsAt T1MS numberSig t).scan.i) ∧
      ∀ t, scanSig T1MS numberSig (t + 1) ≠ 0 →
        scanSig T1MS numberSig t = scanSig T1MS numberSig (t + 1) →
        ∃ k, t = k + 1 ∧ ∃ n, selected (scanSig T1MS numberSig (t + 1)) (numberSig k) = some n ∧
          (n.toNat ≤ 9 → digitCodes[n.toNat]? = some (smgData T1MS numberSig (t + 1))) := by
  refine ⟨fun t => ?_, fun t hsel hsame => exists_selected hT hsel hsame⟩
  have h := lockstep_regsAt T1MS numberSig t
  exact ⟨h.c1, h.i⟩

/-- The number 032 with a short timer: the second cycle of the first digit. -/
theorem smgData_of_scanSig_first :
    ∃ k, 1 = k + 1 ∧ ∃ n, selected (scanSig 3 (fun _ => 0x032#12) (1 + 1)) 0x032#12 = some n ∧
      (n.toNat ≤ 9 → digitCodes[n.toNat]? = some (smgData 3 (fun _ => 0x032#12) (1 + 1))) :=
  (smgData_of_scanSig 3 (by decide) fun _ => 0x032#12).2 1 (by decide) (by decide)

end Run

end Smg
end Cyclone10

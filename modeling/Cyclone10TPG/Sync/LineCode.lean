import Mathlib

/-!
# Line codes

General facts about words on a serial line.

* The *disparity* of a word is the number of its ones minus the number of its zeros. It
  adds up over concatenation and changes sign under inversion.
* *Differential coding*: `chain k v` sends the first bit as it is and every further bit as
  its difference from the bit sent before, XOR or, for `k`, XNOR. `unchain` takes the
  differences back.
-/

namespace Sync

/-! ### Disparity -/

/-- Ones minus zeros. -/
def disparity {w : ℕ} (v : BitVec w) : ℤ := (v.cpop.toNat : ℤ) - (~~~v).cpop.toNat

section Disparity

variable {w u : ℕ}

theorem disparity_eq (v : BitVec w) : disparity v = 2 * (v.cpop.toNat : ℤ) - w := by
  have hle := BitVec.toNat_cpop_le v
  rw [disparity, BitVec.toNat_cpop_not, Nat.cast_sub hle]
  ring

theorem disparity_append (x : BitVec w) (y : BitVec u) :
    disparity (x ++ y) = disparity x + disparity y := by
  rw [disparity_eq, disparity_eq, disparity_eq, BitVec.toNat_cpop_append, Nat.cast_add,
    Nat.cast_add]
  ring

theorem disparity_not (v : BitVec w) : disparity (~~~v) = -disparity v := by
  rw [disparity, disparity, BitVec.not_not]
  ring

theorem disparity_ofBool (b : Bool) : disparity (BitVec.ofBool b) = if b then 1 else -1 := by
  cases b <;> decide

end Disparity

/-! ### Differential coding -/

/-- Bit `i` of the chain over the bits `v`. -/
def chainBit (k : Bool) (v : ℕ → Bool) : ℕ → Bool
  | 0 => v 0
  | i + 1 => chainBit k v i ^^ v (i + 1) ^^ k

/-- Differential coding with XOR, or with XNOR for `k`. -/
def chain {w : ℕ} (k : Bool) (v : BitVec w) : BitVec w :=
  BitVec.ofFnLE fun i => chainBit k v.getLsbD i

/-- Bit `i` of the differences of the bits `d`. -/
def unchainBit (k : Bool) (d : ℕ → Bool) : ℕ → Bool
  | 0 => d 0
  | i + 1 => d (i + 1) ^^ d i ^^ k

/-- The inverse of differential coding. -/
def unchain {w : ℕ} (k : Bool) (d : BitVec w) : BitVec w :=
  BitVec.ofFnLE fun i => unchainBit k d.getLsbD i

theorem getLsbD_chain {w : ℕ} (k : Bool) (v : BitVec w) {i : ℕ} (hi : i < w) :
    (chain k v).getLsbD i = chainBit k v.getLsbD i := by
  rw [chain, BitVec.getLsbD_ofFnLE, dif_pos hi]

/-- **The differences of the chain are the bits it was made of.** -/
theorem unchain_chain {w : ℕ} (k : Bool) (v : BitVec w) : unchain k (chain k v) = v := by
  refine BitVec.eq_of_getLsbD_eq fun i hi => ?_
  rw [unchain, BitVec.getLsbD_ofFnLE, dif_pos hi]
  cases i with
  | zero =>
    show (chain k v).getLsbD 0 = v.getLsbD 0
    rw [getLsbD_chain k v hi]
    rfl
  | succ i =>
    show ((chain k v).getLsbD (i + 1) ^^ (chain k v).getLsbD i ^^ k) = v.getLsbD (i + 1)
    rw [getLsbD_chain k v hi, getLsbD_chain k v (Nat.lt_of_succ_lt hi), chainBit]
    -- what is left is an identity of four bits
    cases chainBit k v.getLsbD i <;> cases v.getLsbD (i + 1) <;> cases k <;> rfl

end Sync

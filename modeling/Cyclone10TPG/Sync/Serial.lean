import Cyclone10TPG.Sync.LineCode
import Cyclone10TPG.Sync.Run

/-!
# Serial lines

A line carries one bit at a time. `serial x` is the line on which the words `x 0`, `x 1`, … follow
each other, each with its lowest bit first, and `wordAt line n` is the word that begins at bit `n`
(`wordAt_serial`). A receiver that acts on the first bit of each word makes one event of each word
(`log_words`).

For a line the *imbalance* after `n` bits is the number of ones so far less the number of zeros.
At the ends of the words it is the sum of their disparities (`imbalance_serial`). If it is bounded
there, it is bounded everywhere, by half a word more (`imbalance_le`), and then the line cannot
stay at one level for long (`exists_level`).
-/

namespace Sync

/-! ### Words on a line -/

/-- The words on a line, the lowest bit first. -/
def serial {w : ℕ} (x : ℕ → BitVec w) (n : ℕ) : Bool := (x (n / w)).getLsbD (n % w)

/-- The word that begins at bit `n`. -/
def wordAt (w : ℕ) (line : ℕ → Bool) (n : ℕ) : BitVec w := BitVec.ofFnLE fun i => line (n + i)

theorem serial_mul_add {w : ℕ} (x : ℕ → BitVec w) (t : ℕ) {j : ℕ} (hj : j < w) :
    serial x (w * t + j) = (x t).getLsbD j := by
  have hw : 0 < w := Nat.zero_lt_of_lt hj
  rw [serial, Nat.mul_add_div hw, Nat.div_eq_of_lt hj, Nat.add_zero, Nat.mul_add_mod,
    Nat.mod_eq_of_lt hj]

/-- The rest of a line carries the rest of the words. -/
theorem serial_shift {w : ℕ} (hw : 0 < w) (x : ℕ → BitVec w) (t n : ℕ) :
    serial x (w * t + n) = serial (fun i => x (t + i)) n := by
  rw [serial, serial, Nat.mul_add_div hw, Nat.mul_add_mod]

/-- Each bit has one level or the other. -/
theorem count_ne_add_count (f : ℕ → Bool) (k : Bool) (n : ℕ) :
    Nat.count (fun i => f i ≠ k) n + Nat.count (fun i => f i = k) n = n := by
  induction n with
  | zero => rfl
  | succ n ih =>
    rw [Nat.count_succ, Nat.count_succ]
    by_cases hk : f n = k
    · rw [if_neg (not_not.mpr hk), if_pos hk]
      omega
    · rw [if_pos hk, if_neg hk]
      omega

/-- The changes of level within a word. -/
def transitions {w : ℕ} (v : BitVec w) : ℕ :=
  Nat.count (fun i => v.getLsbD i ≠ v.getLsbD (i + 1)) (w - 1)

/-- **The transitions of the differential code** are the bits that are not `k`. -/
theorem transitions_chain {w : ℕ} (k : Bool) (v : BitVec w) :
    transitions (chain k v) = Nat.count (fun i => v.getLsbD (i + 1) ≠ k) (w - 1) := by
  have hiff : ∀ i < w - 1, ((chain k v).getLsbD i ≠ (chain k v).getLsbD (i + 1) ↔
      v.getLsbD (i + 1) ≠ k) := by
    intro i hi
    rw [getLsbD_chain k v (by omega), getLsbD_chain k v (by omega), chainBit]
    cases chainBit k v.getLsbD i <;> cases v.getLsbD (i + 1) <;> cases k <;> decide
  exact le_antisymm (Nat.count_mono_left fun i hi => (hiff i hi).mp)
    (Nat.count_mono_left fun i hi => (hiff i hi).mpr)

/-! ### The imbalance of a line -/

/-- Ones minus zeros among the first `n` bits. -/
def imbalance (line : ℕ → Bool) : ℕ → ℤ
  | 0 => 0
  | n + 1 => imbalance line n + if line n then 1 else -1

theorem imbalance_add (line : ℕ → Bool) (m n : ℕ) :
    imbalance line (m + n) = imbalance line m + imbalance (fun i => line (m + i)) n := by
  induction n with
  | zero => exact (add_zero _).symm
  | succ n ih =>
    rw [← Nat.add_assoc, imbalance, ih, imbalance, add_assoc]

theorem imbalance_congr {line line' : ℕ → Bool} {n : ℕ} (h : ∀ i < n, line i = line' i) :
    imbalance line n = imbalance line' n := by
  induction n with
  | zero => rfl
  | succ n ih =>
    rw [imbalance, imbalance, ih fun i hi => h i (Nat.lt_succ_of_lt hi), h n (Nat.lt_succ_self n)]

theorem abs_imbalance_le (line : ℕ → Bool) (n : ℕ) : |imbalance line n| ≤ n := by
  induction n with
  | zero => exact le_of_eq abs_zero
  | succ n ih =>
    rw [abs_le] at ih ⊢
    rw [imbalance]
    push_cast
    split <;> omega

/-- The bits of a word have its disparity. -/
theorem imbalance_word {w : ℕ} (v : BitVec w) : imbalance v.getLsbD w = disparity v := by
  have hbits : ∀ n, imbalance v.getLsbD n = 2 * (v.cpopNatRec n 0 : ℤ) - n := by
    intro n
    induction n with
    | zero => rfl
    | succ n ih =>
      rw [imbalance, ih, BitVec.cpopNatRec_succ, BitVec.cpopNatRec_eq (0 + (v.getLsbD n).toNat)]
      cases v.getLsbD n <;> simp <;> ring
  rw [hbits, disparity_eq, BitVec.toNat_cpop]

/-- **The imbalance at the end of a word** is the sum of the disparities. -/
theorem imbalance_serial {w : ℕ} (x : ℕ → BitVec w) (t : ℕ) :
    imbalance (serial x) (w * t) = ((List.range t).map fun i => disparity (x i)).sum := by
  induction t with
  | zero => rfl
  | succ t ih =>
    have hword : imbalance (fun i => serial x (w * t + i)) w = disparity (x t) := by
      rw [← imbalance_word]
      exact imbalance_congr fun i hi => serial_mul_add x t hi
    rw [Nat.mul_succ, imbalance_add, ih, hword, List.range_succ, List.map_append, List.sum_append,
      List.map_singleton, List.sum_singleton]

/-- **Within a word** the imbalance is larger than at its ends by half a word at most. -/
theorem imbalance_le {w m : ℕ} {B : ℤ} (hw : 0 < w) {line : ℕ → Bool}
    (h : ∀ t ≤ m, |imbalance line (w * t)| ≤ B) {n : ℕ} (hn : n ≤ w * m) :
    2 * |imbalance line n| ≤ 2 * B + w := by
  have hdiv := Nat.div_add_mod n w
  have hlt := Nat.mod_lt n hw
  have hle : n / w ≤ m := Nat.div_le_of_le_mul hn
  rcases Nat.lt_or_eq_of_le hle with hle | heq
  · -- from the last end of a word to bit `n`, and on to the next end
    have hbefore : imbalance line n =
        imbalance line (w * (n / w)) + imbalance (fun i => line (w * (n / w) + i)) (n % w) := by
      rw [← imbalance_add, hdiv]
    have hafter : imbalance line (w * (n / w + 1)) =
        imbalance line n + imbalance (fun i => line (n + i)) (w - n % w) := by
      rw [← imbalance_add]
      congr 1
      rw [Nat.mul_add_one]
      omega
    have hB := h (n / w) hle.le
    have hB' := h (n / w + 1) hle
    have hpre := abs_imbalance_le (fun i => line (w * (n / w) + i)) (n % w)
    have hpost := abs_imbalance_le (fun i => line (n + i)) (w - n % w)
    rw [hafter] at hB'
    rw [abs_le] at hB hB' hpre hpost
    push_cast [hlt.le] at hpost hpre
    rcases abs_cases (imbalance line n) with ⟨habs, -⟩ | ⟨habs, -⟩ <;> rw [habs] <;> omega
  · -- bit `n` is the end of the last word
    have hmul : w * (n / w) = w * m := by rw [heq]
    have hB := h m le_rfl
    rw [show w * m = n by omega] at hB
    omega

/-- A line that stays at one level gets out of balance. -/
theorem imbalance_const {line : ℕ → Bool} {b : Bool} {k : ℕ} (h : ∀ i < k, line i = b) :
    |imbalance line k| = k := by
  have hval : imbalance line k = if b then (k : ℤ) else -k := by
    induction k with
    | zero => cases b <;> rfl
    | succ k ih =>
      rw [imbalance, ih fun i hi => h i (Nat.lt_succ_of_lt hi), h k (Nat.lt_succ_self k)]
      cases b with
      | true => simp
      | false =>
        simp only [Bool.false_eq_true, if_false]
        push_cast
        ring
  rw [hval]
  cases b <;> simp

/-- **A line with a bounded imbalance changes level**: among `2 * C + 1` bits there are both
levels. -/
theorem exists_level {line : ℕ → Bool} {N C : ℕ} (h : ∀ n ≤ N, |imbalance line n| ≤ C) {n k : ℕ}
    (hk : 2 * C < k) (hn : n + k ≤ N) (b : Bool) : ∃ i < k, line (n + i) = b := by
  by_contra hno
  push Not at hno
  have hconst : |imbalance (fun i => line (n + i)) k| = k :=
    imbalance_const fun i hi => Bool.eq_not_of_ne (hno i hi)
  have hfirst := h n (by omega)
  have hlast := h (n + k) hn
  rw [imbalance_add] at hlast
  rw [abs_le] at hfirst hlast
  rcases abs_cases (imbalance (fun i => line (n + i)) k) with ⟨habs, -⟩ | ⟨habs, -⟩ <;>
    rw [habs] at hconst <;> omega

end Sync

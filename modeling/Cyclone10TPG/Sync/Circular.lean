import Mathlib.Data.List.Basic
import Mathlib.Data.Nat.ModEq
import Mathlib.Logic.Function.Basic
import Mathlib.Tactic.Common

/-!
# Circular buffers

A buffer of `N` slots with two indices: one side stores at `stop` and moves it on, the other takes
from `first` and moves that on. Both indices go round. The two sides need no lock, since each moves
one index only, but the indices alone cannot tell `N` elements from none.

`Circular.Holds r l n` is the link to the elements: `l` is all that has been put in, and `n` of them
have been taken. It is kept by every operation, also when there is no room. What is lost then is
that the older elements can be read, and that the two tests say what they are meant to say.
-/

namespace Sync

/-- The buffer and its two indices. -/
structure Circular (α : Type*) where
  buf : ℕ → α
  first : ℕ
  stop : ℕ

namespace Circular

variable {α : Type*} (N : ℕ)

/-- Store at the end, without moving it. -/
def store (r : Circular α) (x : α) : Circular α := { r with buf := Function.update r.buf r.stop x }

/-- Move the end on. -/
def publish (r : Circular α) : Circular α := { r with stop := (r.stop + 1) % N }

/-- Store and move on. -/
def push (r : Circular α) (x : α) : Circular α := (r.store x).publish N

/-- The first element. -/
def head (r : Circular α) : α := r.buf r.first

/-- Take the first element. -/
def pop (r : Circular α) : Circular α := { r with first := (r.first + 1) % N }

/-- The test for no elements. -/
def isEmpty (r : Circular α) : Bool := r.first == r.stop

/-- The test for no room, with one slot left. -/
def isFull (r : Circular α) : Bool := (r.stop + 1) % N == r.first

/-- The number of elements, by the indices. -/
def size (r : Circular α) : ℕ := (r.stop + N - r.first) % N

/-- The elements, by the indices. -/
def toList (r : Circular α) : List α :=
  (List.range (r.size N)).map fun i => r.buf ((r.first + i) % N)

/-- **What the buffer holds**: of the elements of `l`, all but the first `n`. -/
structure Holds (r : Circular α) (l : List α) (n : ℕ) : Prop where
  first : r.first = n % N
  stop : r.stop = l.length % N
  le : n ≤ l.length
  slot : ∀ (k : ℕ) (hk : k < l.length), n ≤ k → l.length ≤ k + N → r.buf (k % N) = l[k]

namespace Holds

variable {N} {r : Circular α} {l : List α} {n : ℕ}

/-- A new buffer. -/
theorem nil {buf : ℕ → α} : Holds N ⟨buf, 0, 0⟩ [] 0 where
  first := (Nat.zero_mod N).symm
  stop := (Nat.zero_mod N).symm
  le := le_rfl
  slot := fun _ hk => absurd hk (Nat.not_lt_zero _)

/-- Two of at most `N` elements are in different slots. -/
theorem mod_ne {k m : ℕ} (hlt : k < m) (hle : m < k + N) : k % N ≠ m % N := by
  intro heq
  have hdvd : N ∣ m - k := (Nat.modEq_iff_dvd' hlt.le).mp heq
  have hle' := Nat.le_of_dvd (Nat.sub_pos_of_lt hlt) hdvd
  omega

/-! ### The side that stores -/

/-- Storing leaves the elements alone while there is a slot for the new one. -/
theorem store (h : r.Holds N l n) (hroom : l.length < n + N) (x : α) :
    (r.store x).Holds N l n ∧ (r.store x).buf (l.length % N) = x := by
  refine ⟨⟨h.first, h.stop, h.le, fun k hk hn hle => ?_⟩, ?_⟩
  · show Function.update r.buf r.stop x (k % N) = l[k]
    rw [h.stop, Function.update_of_ne (mod_ne hk (by omega))]
    exact h.slot k hk hn hle
  · show Function.update r.buf r.stop x (l.length % N) = x
    rw [h.stop, Function.update_self]

/-- Moving on adds what has been stored. -/
theorem publish (h : r.Holds N l n) {x : α} (hx : r.buf (l.length % N) = x) :
    (r.publish N).Holds N (l ++ [x]) n := by
  have hlen : (l ++ [x]).length = l.length + 1 := by
    rw [List.length_append, List.length_singleton]
  refine ⟨h.first, ?_, by rw [hlen]; exact Nat.le_succ_of_le h.le, fun k hk hn hle => ?_⟩
  · show (r.stop + 1) % N = _
    rw [hlen, h.stop, Nat.mod_add_mod]
  · show r.buf (k % N) = _
    rw [hlen] at hk hle
    rcases Nat.lt_succ_iff_lt_or_eq.mp hk with hk' | rfl
    · rw [List.getElem_append_left hk']
      exact h.slot k hk' hn (Nat.le_of_succ_le hle)
    · rw [List.getElem_concat_length rfl]
      exact hx

/-- An element is added, if need be over the oldest. -/
theorem push (h : r.Holds N l n) (x : α) : (r.push N x).Holds N (l ++ [x]) n := by
  have hlen : (l ++ [x]).length = l.length + 1 := by
    rw [List.length_append, List.length_singleton]
  refine ⟨h.first, ?_, by rw [hlen]; exact Nat.le_succ_of_le h.le, fun k hk hn hle => ?_⟩
  · show (r.stop + 1) % N = _
    rw [hlen, h.stop, Nat.mod_add_mod]
  · show Function.update r.buf r.stop x (k % N) = _
    rw [hlen] at hk hle
    rw [h.stop]
    -- only the element `N` places before the new one is in its slot, and that one is out of reach
    rcases Nat.lt_succ_iff_lt_or_eq.mp hk with hk' | rfl
    · rw [List.getElem_append_left hk', Function.update_of_ne (mod_ne hk' (by omega))]
      exact h.slot k hk' hn (Nat.le_of_succ_le hle)
    · rw [List.getElem_concat_length rfl, Function.update_self]

/-! ### The side that takes -/

/-- The first element is the next one of the list, unless it has been stored over. -/
theorem head (h : r.Holds N l n) (hlt : n < l.length) (hfit : l.length ≤ n + N) :
    r.head = l[n] := by
  rw [Circular.head, h.first]
  exact h.slot n hlt le_rfl hfit

/-- Taking the first element. -/
theorem pop (h : r.Holds N l n) (hlt : n < l.length) : (r.pop N).Holds N l (n + 1) where
  first := by
    show (r.first + 1) % N = _
    rw [h.first, Nat.mod_add_mod]
  stop := h.stop
  le := hlt
  slot := fun k hk hn => h.slot k hk (Nat.le_of_succ_le hn)

/-! ### The tests -/

/-- The buffer looks empty when the number of elements is a multiple of `N`. -/
theorem isEmpty_iff (h : r.Holds N l n) : r.isEmpty = true ↔ N ∣ l.length - n := by
  rw [isEmpty, beq_iff_eq, h.first, h.stop]
  exact Nat.modEq_iff_dvd' h.le

/-- A buffer that does not look empty is not. The converse needs less than `N` elements. -/
theorem lt_of_isEmpty_eq_false (h : r.Holds N l n) (hne : r.isEmpty = false) : n < l.length := by
  refine lt_of_le_of_ne h.le fun heq => ?_
  have hempty : r.isEmpty = true := by
    rw [h.isEmpty_iff, heq, Nat.sub_self]
    exact dvd_zero N
  exact Bool.false_ne_true (hne.symm.trans hempty)

/-- With less than `N` elements, the buffer looks empty when it is. -/
theorem isEmpty_iff_of_lt (h : r.Holds N l n) (hfit : l.length < n + N) :
    r.isEmpty = true ↔ l.length = n := by
  rw [h.isEmpty_iff]
  have hle := h.le
  constructor
  · intro hdvd
    have hzero := Nat.eq_zero_of_dvd_of_lt hdvd (by omega)
    omega
  · rintro rfl
    rw [Nat.sub_self]
    exact dvd_zero N

/-- With less than `N` elements, the buffer looks full when there are `N - 1`. -/
theorem isFull_iff_of_lt (h : r.Holds N l n) (hfit : l.length < n + N) :
    r.isFull N = true ↔ l.length + 1 = n + N := by
  have hle := h.le
  rw [isFull, beq_iff_eq, h.first, h.stop, Nat.mod_add_mod]
  constructor
  · intro heq
    have hdvd : N ∣ l.length + 1 - n := (Nat.modEq_iff_dvd' (by omega)).mp heq.symm
    have hle' := Nat.le_of_dvd (by omega) hdvd
    omega
  · intro heq
    rw [heq, Nat.add_mod_right]

/-- The number of elements by the indices is right modulo `N`. -/
theorem size (h : r.Holds N l n) (hN : 0 < N) : r.size N = (l.length - n) % N := by
  have hle := h.le
  have hmod : r.stop + N - r.first ≡ l.length - n [MOD N] := by
    apply Nat.ModEq.add_right_cancel' n
    have hfirst : n % N < N := Nat.mod_lt n hN
    calc r.stop + N - r.first + n
        ≡ r.stop + N - r.first + n % N [MOD N] := (Nat.mod_modEq n N).symm.add_left _
      _ = r.stop + N := by rw [h.first, Nat.sub_add_cancel (by omega)]
      _ ≡ l.length [MOD N] := by
        rw [h.stop]
        exact (Nat.add_modEq_right).trans (Nat.mod_modEq _ N)
      _ = l.length - n + n := (Nat.sub_add_cancel hle).symm
  exact hmod

/-- The elements, when there are less than `N`. -/
theorem toList (h : r.Holds N l n) (hfit : l.length < n + N) : r.toList N = l.drop n := by
  have hle := h.le
  have hsize : r.size N = l.length - n := by
    rw [h.size (by omega), Nat.mod_eq_of_lt (by omega)]
  apply List.ext_getElem
  · rw [Circular.toList, List.length_map, List.length_range, hsize, List.length_drop]
  · intro k hk hk'
    rw [List.length_drop] at hk'
    rw [List.getElem_drop]
    simp only [Circular.toList, List.getElem_map, List.getElem_range]
    rw [h.first, Nat.mod_add_mod]
    exact h.slot (n + k) (by omega) (Nat.le_add_right n k) (by omega)

end Holds

end Circular

end Sync

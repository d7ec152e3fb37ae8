import Mathlib.Data.List.Basic
import Mathlib.Data.Fintype.Basic
import Mathlib.Tactic.FinCases
import Mathlib.Tactic.IntervalCases

/-!
# The two-entry input FIFO

`controller_new_sdram_controller_0_input_efifo_module`: two storage registers, a read
and a write pointer of one bit each and a 2-bit entry counter. The module is generic in
the word it stores.

The case `FIFO_RDWR` moves both pointers without looking at `full` or `empty`, while the
storage block does look at `full`, so the module is a queue only for a user that never
reads while empty and never writes while full. For such a user it is one:
`Efifo.contents` reads the queue off the registers, oldest word first, and
`Valid.step` says that a clock edge pops and pushes exactly as asked.
-/

namespace Cyclone10
namespace Sdram

/-- The registers of the FIFO. `entries` is a 2-bit counter. -/
structure Efifo (α : Type) where
  entries : ℕ
  entry0 : α
  entry1 : α
  rdAddress : Fin 2
  wrAddress : Fin 2
  deriving Repr, DecidableEq, Inhabited

namespace Efifo

variable {α : Type}

/-- `FIFODEPTH`. -/
def fifoDepth : ℕ := 2

def full (f : Efifo α) : Bool := f.entries == fifoDepth

def empty (f : Efifo α) : Bool := f.entries == 0

/-- `rd_data`, the word at the read pointer. -/
def rdData (f : Efifo α) : α :=
  match f.rdAddress with
  | 0 => f.entry0
  | 1 => f.entry1

/-- A pointer after it has moved on by one. -/
def nextAddress (a : Fin 2) : Fin 2 := if a = 1 then 0 else a + 1

/-- Reset clears the pointers and the counter; the storage registers have no reset. -/
def reset (f : Efifo α) : Efifo α := { f with wrAddress := 0, rdAddress := 0, entries := 0 }

/-- The pointer block, a case on `{rd, wr}`. -/
def pointers (f : Efifo α) (rd wr : Bool) : Efifo α :=
  match rd, wr with
  | false, true =>
    if !f.full then
      { f with entries := (f.entries + 1) % 4, wrAddress := nextAddress f.wrAddress }
    else f
  | true, false =>
    if !f.empty then { f with entries := f.entries - 1, rdAddress := nextAddress f.rdAddress }
    else f
  | true, true =>
    { f with wrAddress := nextAddress f.wrAddress, rdAddress := nextAddress f.rdAddress }
  | false, false => f

/-- The storage block: the two words after the edge. -/
def storage (f : Efifo α) (wr : Bool) (wrData : α) : α × α :=
  if wr && !f.full then
    match f.wrAddress with
    | 0 => (wrData, f.entry1)
    | 1 => (f.entry0, wrData)
  else (f.entry0, f.entry1)

/-- One clock edge. -/
def step (f : Efifo α) (rd wr : Bool) (wrData : α) : Efifo α :=
  { f.pointers rd wr with
    entry0 := (f.storage wr wrData).1
    entry1 := (f.storage wr wrData).2 }

/-! ### The queue in the registers -/

/-- The words in the queue, oldest first. -/
def contents (f : Efifo α) : List α :=
  match f.rdAddress with
  | 0 => [f.entry0, f.entry1].take f.entries
  | 1 => [f.entry1, f.entry0].take f.entries

/-- The counter is in range and agrees with the distance of the pointers. -/
structure Valid (f : Efifo α) : Prop where
  entries_le : f.entries ≤ fifoDepth
  pointers_eq : (f.rdAddress.val + f.entries) % 2 = f.wrAddress.val

theorem Valid.reset (f : Efifo α) : f.reset.Valid := ⟨Nat.zero_le _, rfl⟩

theorem Valid.length_contents {f : Efifo α} (h : f.Valid) : f.contents.length = f.entries := by
  have h_le : f.entries ≤ 2 := h.entries_le
  unfold contents
  split <;> simp [h_le]

theorem Valid.length_contents_le {f : Efifo α} (h : f.Valid) : f.contents.length ≤ fifoDepth :=
  h.length_contents.trans_le h.entries_le

/-- `empty` is "the queue is empty". -/
theorem Valid.empty_iff {f : Efifo α} (h : f.Valid) : f.empty = true ↔ f.contents = [] := by
  rw [← List.length_eq_zero_iff, h.length_contents, empty, beq_iff_eq]

/-- `rd_data` is the oldest word of a queue that is not empty. -/
theorem Valid.head?_contents {f : Efifo α} (h : f.Valid) (he : f.empty = false) :
    f.contents.head? = some f.rdData := by
  have h_pos : f.entries ≠ 0 := by simpa [empty] using he
  have h_le : f.entries ≤ 2 := h.entries_le
  obtain ⟨n, hn⟩ := Nat.exists_eq_succ_of_ne_zero h_pos
  unfold contents rdData
  split <;> simp [hn]

/-- **The FIFO is a queue**, for a user that neither reads an empty nor writes a full one:
a clock edge removes the oldest word on `rd` and appends `wr_data` on `wr`. -/
theorem Valid.step {f : Efifo α} (h : f.Valid) {rd wr : Bool} (d : α)
    (hrd : rd = true → f.empty = false) (hwr : wr = true → f.full = false) :
    (f.step rd wr d).Valid ∧
      (f.step rd wr d).contents =
        (if rd then f.contents.tail else f.contents) ++ if wr then [d] else [] := by
  obtain ⟨n, e0, e1, r, w⟩ := f
  obtain ⟨h_le, h_ptr⟩ := h
  simp only [fifoDepth] at h_le
  -- the counter and the pointers have finitely many values; the words stay symbolic
  interval_cases n <;> fin_cases r <;> fin_cases w <;> simp at h_ptr <;>
    cases rd <;> cases wr <;>
    simp [full, empty, fifoDepth] at hrd hwr <;>
    refine ⟨⟨Nat.le_of_ble_eq_true rfl, ?_⟩, rfl⟩ <;>
    simp [Efifo.step, pointers, full, empty, fifoDepth, nextAddress]

end Efifo

end Sdram
end Cyclone10

import Cyclone10TPG.Sync.Memory
import Cyclone10TPG.Sdram.Issue
import Mathlib.Logic.Function.Basic

/-!
# The SDRAM on the other side of the pins

`Device pins dq` is what the controller needs to know of the chip that sees `pins` and
drives `dq`, and no more: which row is open, what is stored, and when a read shows up. What
the chip does on a column command to a closed bank, and what it drives at other times, is
left open.

`SdramState` is a chip of this kind as a state machine, and `loop` runs the controller and
the chip together, so every master has a run with a `Device` (`loopDevice`).
-/

namespace Cyclone10
namespace Sdram

open Sync

/-! ### Byte lanes -/

/-- Byte lane `l` of a word. -/
def lane (l : ℕ) (w : Word) : BitVec 8 := w.extractLsb' (8 * l) 8

/-- The lanes of `new` where the bit of `mask` is low, and those of `old` elsewhere. -/
def mergeLanes (mask : BitVec 2) (new old : Word) : Word :=
  (if mask.getLsbD 1 then lane 1 old else lane 1 new) ++
    (if mask.getLsbD 0 then lane 0 old else lane 0 new)

/-- A word is its two lanes. -/
theorem eq_of_lanes {w w' : Word} (h : ∀ l < 2, lane l w = lane l w') : w = w' := by
  have h₀ : w.extractLsb' 0 8 = w'.extractLsb' 0 8 := h 0 (by decide)
  have h₁ : w.extractLsb' 8 8 = w'.extractLsb' 8 8 := h 1 (by decide)
  refine BitVec.eq_of_getLsbD_eq fun i hi => ?_
  by_cases hlo : i < 8
  · have hbit := congrArg (fun v => v.getLsbD i) h₀
    simpa [BitVec.getLsbD_extractLsb', hlo] using hbit
  · have hbit := congrArg (fun v => v.getLsbD (i - 8)) h₁
    have hi' : i - 8 < 8 := by omega
    simpa [BitVec.getLsbD_extractLsb', hi', show 8 + (i - 8) = i by omega] using hbit

/-! ### What the chip does -/

/-- The cell that a column command in row `r` goes to. -/
def Pins.cell (p : Pins) (r : Row) : Cell := ⟨p.ba, r, p.addr.extractLsb' 0 9⟩

/-- **The assumptions on the SDRAM**, which sees `pins` and drives `dq`. -/
structure Device (pins : ℕ → Pins) (dq : ℕ → Word) where
  /-- The open row of each bank, before the command of the cycle. -/
  openRow : ℕ → Bank → Option Row
  /-- The stored words, before the command of the cycle. -/
  mem : ℕ → Cell → Word
  act : ∀ t, (pins t).Issues .act →
    openRow (t + 1) = Function.update (openRow t) (pins t).ba (some (pins t).addr)
  pre : ∀ t, (pins t).PrechargesAll → openRow (t + 1) = fun _ => none
  openRow_keep : ∀ t, ¬ (pins t).Issues .act → ¬ (pins t).Issues .pre →
    openRow (t + 1) = openRow t
  /-- WR stores the lanes of the driven data that are not masked. -/
  write : ∀ t r d, (pins t).Issues .wr → openRow t (pins t).ba = some r → (pins t).dq = some d →
    mem (t + 1) = Function.update (mem t) ((pins t).cell r)
      (mergeLanes (pins t).dqm d (mem t ((pins t).cell r)))
  mem_keep : ∀ t, ¬ (pins t).Issues .wr → mem (t + 1) = mem t
  /-- RD drives the stored word three cycles later, in the lanes that are not masked one
  cycle after the command. -/
  read : ∀ t r, (pins t).Issues .rd → openRow t (pins t).ba = some r →
    ∀ l < 2, (pins (t + 1)).dqm.getLsbD l = false →
      lane l (dq (t + 3)) = lane l (mem t ((pins t).cell r))

/-- The row that the controller has opened is the open row of the chip. -/
theorem Device.openRow_of_rowOpened {pins : ℕ → Pins} {dq : ℕ → Word} (dev : Device pins dq)
    {b : Bank} {r : Row} {t : ℕ} (h : RowOpened pins b r t) : dev.openRow t b = some r := by
  refine Since.induction h (P := fun t => dev.openRow t b = some r) ?_ ?_
  · rintro k ⟨hact, rfl, rfl⟩
    rw [dev.act k hact, Function.update_self]
  · rintro k ⟨hact, hpre, -⟩ ih
    rw [dev.openRow_keep k hact hpre, ih]

/-! ### A chip that does so -/

/-- A chip: the open rows, the stored words, and the words read that are on their way to
the data pins. -/
structure SdramState where
  openRow : Bank → Option Row
  mem : Cell → Word
  read₁ : Word
  read₂ : Word
  dq : Word

namespace SdramState

variable (d : SdramState) (p : Pins)

/-- The word that a column command addresses, if its bank is open. -/
def addressed : Option Cell := (d.openRow p.ba).map p.cell

/-- The chip after a cycle with `p` on the pins. -/
def step : SdramState where
  openRow :=
    if p.Issues .act then Function.update d.openRow p.ba (some p.addr)
    else if p.PrechargesAll then fun _ => none
    else d.openRow
  mem :=
    match d.addressed p, p.dq with
    | some c, some w =>
      if p.Issues .wr then Function.update d.mem c (mergeLanes p.dqm w (d.mem c)) else d.mem
    | _, _ => d.mem
  read₁ := ((d.addressed p).map d.mem).getD 0
  read₂ := d.read₁
  dq := d.read₂

end SdramState

section Loop

variable (s₀ : Regs) (master : ℕ → Input) (d₀ : SdramState)

/-- The controller and the chip, cycle by cycle; `master` gives the Avalon inputs. -/
def loop : ℕ → Regs × SdramState
  | 0 => (s₀.reset, d₀)
  | t + 1 =>
    (step (loop t).1 { master t with zsDq := (loop t).2.dq }, (loop t).2.step (loop t).1.pins)

/-- The inputs of the controller in the closed loop. -/
def loopInput (t : ℕ) : Input := { master t with zsDq := (loop s₀ master d₀ t).2.dq }

theorem regsAt_loopInput (t : ℕ) :
    regsAt s₀ (loopInput s₀ master d₀) t = (loop s₀ master d₀ t).1 := by
  induction t with
  | zero => rfl
  | succ t ih => rw [regsAt_succ, ih]; rfl

/-- **Every master has a run with a chip** that meets the assumptions. -/
def loopDevice :
    Device (pinsAt s₀ (loopInput s₀ master d₀)) (fun t => (loopInput s₀ master d₀ t).zsDq) where
  openRow t := (loop s₀ master d₀ t).2.openRow
  mem t := (loop s₀ master d₀ t).2.mem
  act t hact := by
    rw [pinsAt, regsAt_loopInput] at hact ⊢
    simp only [loop, SdramState.step, if_pos hact]
  pre t hpre := by
    rw [pinsAt, regsAt_loopInput] at hpre
    have hact : ¬ (loop s₀ master d₀ t).1.pins.Issues .act := by
      intro hact
      have hcmd := hact.symm.trans hpre.1
      cases hcmd
    simp only [loop, SdramState.step, if_neg hact, if_pos hpre]
  openRow_keep t hact hpre := by
    rw [pinsAt, regsAt_loopInput] at hact hpre
    have hpre' : ¬ (loop s₀ master d₀ t).1.pins.PrechargesAll := fun h => hpre h.1
    simp only [loop, SdramState.step, if_neg hact, if_neg hpre']
  write t r w hwr hrow hdq := by
    rw [pinsAt, regsAt_loopInput] at hwr hrow hdq ⊢
    simp only [loop, SdramState.step, SdramState.addressed, hrow, hdq, Option.map_some, if_pos hwr]
  mem_keep t hwr := by
    rw [pinsAt, regsAt_loopInput] at hwr
    simp only [loop, SdramState.step, if_neg hwr]
    split <;> rfl
  read t r hrd hrow l hl hm := by
    rw [pinsAt, regsAt_loopInput] at hrow ⊢
    simp only [loopInput, loop, SdramState.step, SdramState.addressed, hrow, Option.map_some,
      Option.getD_some]

end Loop

end Sdram
end Cyclone10

import Cyclone10TPG.Sdram.Spacing
import Cyclone10TPG.Sdram.Startup

/-!
# The controller at its clock

The waits of the controller are counted in cycles, for a clock of 100 MHz, and the comments of
the source give them in nanoseconds. `KeepsTimings` states them in time, for a clock of a given
period. `top.v` runs the controller from `c0` of `pll0`, which is 125 MHz.

Two commands decide the matter. The first PRE comes in cycle 20003 of every run, where the
comment asks for 200 µs before it; and the PRE of every refresh comes exactly two cycles before
its ARF, where the comment asks for 20 ns. The other distances are longer than the comments ask
for, so the timings are kept exactly from a period of 10 ns on.
-/

namespace Cyclone10
namespace Sdram

/-! ### The clock -/

namespace Pll0

/-- `inclk0_input_frequency`, the period of `CLOCK_50` in picoseconds. -/
def inclk0InputFrequency : ℕ := 20000

def clk0MultiplyBy : ℕ := 5

def clk0DivideBy : ℕ := 2

/-- The period of `c0` in picoseconds. -/
def c0Period : ℕ := inclk0InputFrequency * clk0DivideBy / clk0MultiplyBy

end Pll0

/-- The period of `clk_clk` of `mySystem` in picoseconds: `top.v` connects it to `c0`. -/
def clkPeriod : ℕ := Pll0.c0Period

/-! ### The timings of the source -/

/-- **The timings**, for the commands before cycle `n` and a clock of `period` picoseconds. The
command of cycle `t` is given at the time `t * period` after reset. -/
structure KeepsTimings (pins : ℕ → Pins) (n period : ℕ) : Prop where
  /-- 200 µs without a command. -/
  init : ∀ t < n, (pins t).cmd.event ≠ none → 200000000 ≤ t * period
  /-- `t_RP`, 20 ns. -/
  pre : ∀ i j, i < j → j < n → (pins i).Issues .pre →
    (pins j).Issues .act ∨ (pins j).Issues .arf → 20000 ≤ (j - i) * period
  /-- `t_RC`, 70 ns. -/
  arf : ∀ i j, i < j → j < n → (pins i).Issues .arf →
    (pins j).Issues .arf ∨ (pins j).Issues .lmr ∨ (pins j).Issues .act → 70000 ≤ (j - i) * period
  /-- 40 ns after the LMR. -/
  lmr : ∀ i j c, i < j → j < n → (pins i).Issues .lmr → c ≠ .nop → (pins j).Issues c →
    40000 ≤ (j - i) * period

/-- Commands that are `d` cycles apart, in time. -/
theorem Spaced.le_mul {pins : ℕ → Pins} {c c' : CmdCode} {d i j period p : ℕ}
    (h : Spaced pins c c' d) (hij : i < j) (hi : (pins i).Issues c) (hj : (pins j).Issues c')
    (hp : p ≤ period) : d * p ≤ (j - i) * period := by
  have hd : i + d ≤ j := h i j hij hi hj
  exact Nat.mul_le_mul (Nat.le_sub_of_add_le' hd) hp

section Run

variable (s₀ : Regs) (inp : ℕ → Input)

/-! ### The PRE of a refresh -/

/-- PRE is on the pins two cycles before the ARF of a refresh. -/
theorem pre_of_arf {t : ℕ} (hd : (regsAt s₀ inp (t + 2)).initDone = true)
    (harf : (pinsAt s₀ inp (t + 3)).Issues .arf) : (pinsAt s₀ inp (t + 1)).Issues .pre := by
  -- the two steps of the timing automaton that lead to `refresh`
  have hrefresh : (regsAt s₀ inp (t + 2)).phase = .refresh := by
    have hs := (inv_regsAt s₀ inp (t + 2)).autoRefresh_of_arf hd harf
    rw [Regs.phase, if_pos hd, Regs.mainPhase, hs]
  have hclosed : (regsAt s₀ inp (t + 1)).phase = .closed := by
    have hstep : PhaseStep _ _ (regsAt s₀ inp (t + 2)).phase :=
      phaseStep (inv_regsAt s₀ inp (t + 1)) (inp (t + 1))
    rw [hrefresh] at hstep
    exact hstep.to_refresh
  have hpre : (pinsAt s₀ inp (t + 1)).cmd.event = some .pre := by
    have hstep : PhaseStep _ _ (regsAt s₀ inp (t + 1)).phase :=
      phaseStep (inv_regsAt s₀ inp t) (inp t)
    rw [hclosed] at hstep
    exact hstep.to_closed
  exact Pins.issues_of_event hpre

/-- Some refresh has its PRE two cycles before its ARF. -/
theorem exists_pre_arf :
    ∃ t, (pinsAt s₀ inp t).Issues .pre ∧ (pinsAt s₀ inp (t + 2)).Issues .arf := by
  obtain ⟨t, ⟨hlt, -, harf⟩, -⟩ := existsUnique_arf_window s₀ inp 0
  obtain ⟨k, rfl⟩ : ∃ k, t = k + 3 := ⟨t - 3, by omega⟩
  have hd : (regsAt s₀ inp (k + 1 + 1)).initDone = true := initDone_regsAt s₀ inp (by omega)
  exact ⟨k + 1, pre_of_arf s₀ inp hd harf, harf⟩

/-! ### The main result -/

/-- With a period of 10 ns or more every timing is kept. -/
theorem keepsTimings_of_le {period : ℕ} (hp : 10000 ≤ period) (n : ℕ) :
    KeepsTimings (pinsAt s₀ inp) n period := by
  constructor
  · intro t ht hevent
    -- the first command comes in cycle 20003
    have hge : 20000 + 3 ≤ t := by
      by_contra hlt
      exact hevent (event_of_lt s₀ inp (Nat.not_le.mp hlt))
    have hmul : (20000 + 3) * 10000 ≤ t * period := Nat.mul_le_mul hge hp
    omega
  · intro i j hij hj hi hnext
    rcases hnext with hnext | hnext
    · exact (spaced_pre (by decide)).le_mul hij hi hnext hp
    · exact (spaced_pre (by decide)).le_mul hij hi hnext hp
  · intro i j hij hj hi hnext
    have hmul : 8 * 10000 ≤ (j - i) * period := by
      rcases hnext with hnext | hnext | hnext
      · exact (spaced_arf (by decide)).le_mul hij hi hnext hp
      · exact (spaced_arf (by decide)).le_mul hij hi hnext hp
      · exact (spaced_arf (by decide)).le_mul hij hi hnext hp
    omega
  · intro i j c hij hj hi hc hnext
    exact (spaced_lmr hc).le_mul hij hi hnext hp

/-- The PRE of a refresh needs a period of 10 ns. -/
theorem le_of_keepsTimings {period : ℕ} (h : ∀ n, KeepsTimings (pinsAt s₀ inp) n period) :
    10000 ≤ period := by
  obtain ⟨t, hpre, harf⟩ := exists_pre_arf s₀ inp
  have htwo : 20000 ≤ (t + 2 - t) * period :=
    (h (t + 3)).pre t (t + 2) (by omega) (by omega) hpre (Or.inr harf)
  rw [Nat.add_sub_cancel_left] at htwo
  omega

/-- Before the first PRE nothing can be violated. -/
theorem keepsTimings_of_lt {n : ℕ} (hn : n ≤ 20000 + 3) (period : ℕ) :
    KeepsTimings (pinsAt s₀ inp) n period := by
  -- a command below `n` is a contradiction
  have none : ∀ {t c}, t < n → c ≠ .nop → ¬ (pinsAt s₀ inp t).Issues c := by
    intro t c ht hc hiss
    have hevent := event_of_lt s₀ inp (Nat.lt_of_lt_of_le ht hn)
    rw [hiss.event hc] at hevent
    cases hevent
  constructor
  · intro t ht hevent
    exact absurd (event_of_lt s₀ inp (Nat.lt_of_lt_of_le ht hn)) hevent
  · intro i j hij hj hi
    exact absurd hi (none (hij.trans hj) (by decide))
  · intro i j hij hj hi
    exact absurd hi (none (hij.trans hj) (by decide))
  · intro i j c hij hj hi
    exact absurd hi (none (hij.trans hj) (by decide))

/-- At 8 ns the first PRE comes too early. -/
theorem not_keepsTimings {n : ℕ} (hn : 20000 + 3 < n) :
    ¬ KeepsTimings (pinsAt s₀ inp) n clkPeriod := by
  intro h
  have hevent : (pinsAt s₀ inp (20000 + 3)).cmd.event ≠ none := by
    rw [(issues_pre_first s₀ inp).event (by decide)]
    exact Option.some_ne_none _
  have hinit := h.init (20000 + 3) hn hevent
  have hperiod : clkPeriod = 8000 := by decide
  rw [hperiod] at hinit
  omega

/-- **The timings at the clock of `top.v`**, for every input stream and over every run from
reset: they are kept up to the first PRE and not beyond it, and at other clocks they are kept
exactly when the period is at least 10 ns. -/
theorem keepsTimings_iff :
    (∀ n, KeepsTimings (pinsAt s₀ inp) n clkPeriod ↔ n ≤ 20003) ∧
      ∀ period, (∀ n, KeepsTimings (pinsAt s₀ inp) n period) ↔ 10000 ≤ period := by
  refine ⟨fun n => ⟨?_, ?_⟩, fun period => ⟨?_, ?_⟩⟩
  · intro h
    by_contra hn
    exact not_keepsTimings s₀ inp (by omega) h
  · intro hn
    exact keepsTimings_of_lt s₀ inp (by omega) clkPeriod
  · exact le_of_keepsTimings s₀ inp
  · exact keepsTimings_of_le s₀ inp

/-- A master that asks for nothing. -/
def quiet (_ : ℕ) : Input :=
  { azAddr := 0, azBeN := 0, azData := 0, azRdN := true, azWrN := true, zsDq := 0 }

/-- Even without traffic the first PRE comes after 160 µs. -/
theorem not_keepsTimings_quiet : ¬ ∀ n, KeepsTimings (pinsAt default quiet) n clkPeriod := fun h =>
  not_keepsTimings default quiet (n := 20000 + 4) (by omega) (h _)

end Run

end Sdram
end Cyclone10

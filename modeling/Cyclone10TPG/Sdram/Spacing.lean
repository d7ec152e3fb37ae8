import Cyclone10TPG.Sdram.Timing

/-!
# The spacing of the commands

How many cycles pass at least between two commands. For each kind of command there is an
age: a function of the phase that is `0` in the cycle in which the command is on the pins
and grows by at most one per cycle (`PhaseAge`). In the phases from which another command is
issued, the age has reached the distance that the SDRAM asks for.

The ages are lower bounds, and the interesting values are those of `idle` and `settle`. A
refresh that interrupts a burst goes through them with a row open and the last commands
still young; otherwise all commands are old there.
-/

namespace Cyclone10
namespace Sdram

open Sync

/-- On the pins, `c'` follows `c` after `d` cycles at the earliest. -/
def Spaced (pins : ℕ → Pins) (c c' : CmdCode) (d : ℕ) : Prop :=
  ∀ i j, i < j → (pins i).Issues c → (pins j).Issues c' → i + d ≤ j

/-- `age` is an age for the command `c` along the automaton. -/
structure PhaseAge (c : CmdCode) (age : Phase → ℕ) : Prop where
  reset : ∀ {p p'}, IssueStep p p' c → age p' = 0
  step : ∀ {p l p'}, PhaseStep p l p' → age p' ≤ age p + 1

/-- **The spacing rule for commands.** -/
theorem PhaseAge.spaced {c c' : CmdCode} {d : ℕ} {age : Phase → ℕ} (h : PhaseAge c age)
    (hc : c ≠ .nop) (hc' : c' ≠ .nop) (hd : ∀ {p p'}, IssueStep p p' c' → d ≤ age p + 1)
    (s₀ : Regs) (inp : ℕ → Input) : Spaced (pinsAt s₀ inp) c c' d := by
  -- a command on the pins is a step of the automaton that issues it
  have hissue : ∀ {t c}, (pinsAt s₀ inp (t + 1)).Issues c → c ≠ .nop →
      IssueStep (regsAt s₀ inp t).phase (regsAt s₀ inp (t + 1)).phase c := by
    intro t c hiss hne
    have hstep : PhaseStep (regsAt s₀ inp t).phase (pinsAt s₀ inp (t + 1)).cmd.event
        (regsAt s₀ inp (t + 1)).phase := phaseStep (inv_regsAt s₀ inp t) (inp t)
    rw [hiss.event hne] at hstep
    exact hstep.issue
  -- so the age of the phase is an age of the command on the pins
  have hage : Age (fun t => (pinsAt s₀ inp t).Issues c) (fun t => age (regsAt s₀ inp t).phase) := by
    refine ⟨?_, fun t => h.step (phaseStep (inv_regsAt s₀ inp t) (inp t))⟩
    rintro (_ | t) hiss
    · exact absurd hiss (not_issues_zero s₀ inp c)
    · exact h.reset (hissue hiss hc)
  intro i j hij hi hj
  exact hage.spacing (q := fun t => (pinsAt s₀ inp t).Issues c')
    (fun t hiss => hd (hissue hiss hc')) hi hj hij

/-! ### The ages -/

namespace Phase

/-- The age of PRE. -/
def preAge : Phase → ℕ
  | .closed | .settle .. | .initPre _ => 0
  | _ => 1

/-- The age of ARF. -/
def arfAge : Phase → ℕ
  | .settle c _ acked => if acked then 7 - c else 7
  | .initArf c => if c = 7 then 7 else 6 - c
  | .initGap => 6
  | _ => 7

/-- The age of the LMR. -/
def lmrAge : Phase → ℕ
  | .initLmr c => if c = 4 then 3 else 3 - c
  | _ => 3

/-- The age of ACT. -/
def actAge : Phase → ℕ
  | .recover _ c => 2 - c
  | .column _ => 2
  | .spin _ => 3
  | .prepare c => 6 - c
  | .settle _ waits _ => if waits then 3 else 7
  | .idle waits => if waits then 4 else 8
  | .close toRefresh => if toRefresh then 5 else 6
  | .closed => 6
  | .refresh => 7
  | _ => 8

/-- The age of WR. A burst keeps its direction. -/
def wrAge : Phase → ℕ
  | .column rnw | .spin rnw => if rnw then 3 else 0
  | .prepare c | .settle c .. => 3 - c
  | _ => 3

/-- The age of RD. -/
def rdAge : Phase → ℕ
  | .column rnw | .spin rnw => if rnw then 0 else 4
  | .prepare c => 3 - c
  | .settle _ waits _ => if waits then 0 else 4
  | .idle waits => if waits then 1 else 4
  | .close toRefresh => if toRefresh then 2 else 3
  | .closed => 3
  | _ => 4

end Phase

theorem phaseAge_pre : PhaseAge .pre Phase.preAge where
  reset := by rintro p p' (⟨-, rfl⟩ | ⟨-, rfl⟩ | ⟨-, w, rfl⟩) <;> rfl
  step h := by cases h <;> simp [Phase.preAge]

theorem phaseAge_arf : PhaseAge .arf Phase.arfAge where
  reset := by rintro p p' (⟨-, rfl⟩ | ⟨-, rfl⟩) <;> rfl
  step h := by
    cases h with
    | initArfMore c h h7 =>
      simp only [Phase.arfAge]
      split <;> split <;> omega
    | settleMore c w w' a h hw => cases a <;> simp only [Phase.arfAge] <;> grind
    | settleDone c w w' a h hw => cases a <;> simp only [Phase.arfAge] <;> grind
    | _ => simp [Phase.arfAge]

theorem phaseAge_lmr : PhaseAge .lmr Phase.lmrAge where
  reset := by rintro p p' ⟨-, rfl⟩; rfl
  step h := by
    cases h with
    | initLmrMore c h h4 =>
      simp only [Phase.lmrAge]
      split <;> split <;> omega
    | _ => simp [Phase.lmrAge]

theorem phaseAge_act : PhaseAge .act Phase.actAge where
  reset := by rintro p p' ⟨-, rnw, rfl⟩; rfl
  step h := by
    cases h with
    | recoverMore rnw c h => simp only [Phase.actAge]; omega
    | recoverDone rnw c h => simp only [Phase.actAge]; omega
    | prepareMore c h => simp only [Phase.actAge]; omega
    | prepareDone c h => change 6 ≤ 6 - c + 1; omega
    | idleStay w => cases w <;> decide
    | closeIdle w => cases w <;> decide
    -- a refresh that waits keeps the age low until the banks are closed
    | settleMore c w w' a h hw => cases w <;> cases w' <;> simp [Phase.actAge] at hw ⊢
    | settleDone c w w' a h hw => cases w <;> cases w' <;> simp [Phase.actAge] at hw ⊢
    | _ => simp [Phase.actAge]

theorem phaseAge_wr : PhaseAge .wr Phase.wrAge where
  reset := by rintro p p' ⟨-, rfl | rfl | rfl⟩ <;> rfl
  step h := by
    cases h with
    -- a burst of writes begins with all earlier ones old, and a burst of reads too
    | recoverDone rnw c h => cases rnw <;> simp [Phase.wrAge]
    | columnBail rnw l hl => cases rnw <;> simp [Phase.wrAge]
    | prepareMore c h => simp only [Phase.wrAge]; omega
    | prepareDone c h => simp only [Phase.wrAge]; omega
    | settleMore c w w' a h hw => simp only [Phase.wrAge]; omega
    | settleDone c w w' a h hw => simp only [Phase.wrAge]; omega
    | _ => simp [Phase.wrAge]

theorem phaseAge_rd : PhaseAge .rd Phase.rdAge where
  reset := by rintro p p' ⟨-, rfl | rfl | rfl⟩ <;> rfl
  step h := by
    cases h with
    | recoverDone rnw c h => cases rnw <;> simp [Phase.rdAge]
    | prepareMore c h => simp only [Phase.rdAge]; omega
    | prepareDone c h => change 3 ≤ 3 - c + 1; omega
    | idleStay w => cases w <;> decide
    | closeIdle w => cases w <;> decide
    -- only a refresh that interrupts a burst finds a young RD here
    | settleMore c w w' a h hw => cases w <;> cases w' <;> simp [Phase.rdAge] at hw ⊢
    | settleDone c w w' a h hw => cases w <;> cases w' <;> simp [Phase.rdAge] at hw ⊢
    | _ => simp [Phase.rdAge]

/-! ### The main result -/

section Run

variable {s₀ : Regs} {inp : ℕ → Input}

/-- What follows PRE waits for two cycles. -/
theorem spaced_pre {c : CmdCode} (hc : c = .act ∨ c = .arf) : Spaced (pinsAt s₀ inp) .pre c 2 := by
  refine phaseAge_pre.spaced (by decide) (by rcases hc with rfl | rfl <;> decide) ?_ s₀ inp
  intro p p' h
  rcases hc with rfl | rfl
  · obtain ⟨rfl, -⟩ := h
    decide
  · rcases h with ⟨rfl, -⟩ | ⟨rfl, -⟩ <;> decide

/-- What follows ARF waits for eight cycles. -/
theorem spaced_arf {c : CmdCode} (hc : c = .arf ∨ c = .lmr ∨ c = .pre ∨ c = .act) :
    Spaced (pinsAt s₀ inp) .arf c 8 := by
  refine phaseAge_arf.spaced (by decide) (by rcases hc with rfl | rfl | rfl | rfl <;> decide) ?_
    s₀ inp
  intro p p' h
  rcases hc with rfl | rfl | rfl | rfl
  · rcases h with ⟨rfl, -⟩ | ⟨rfl, -⟩ <;> decide
  · obtain ⟨rfl, -⟩ := h
    decide
  · rcases h with ⟨rfl, -⟩ | ⟨rfl, -⟩ | ⟨rfl, -⟩ <;> decide
  · obtain ⟨rfl, -⟩ := h
    decide

/-- What follows the LMR waits for four cycles. -/
theorem spaced_lmr {c : CmdCode} (hc : c ≠ .nop) : Spaced (pinsAt s₀ inp) .lmr c 4 := by
  refine phaseAge_lmr.spaced (by decide) hc ?_ s₀ inp
  intro p p' h
  cases c with
  | pre => rcases h with ⟨rfl, -⟩ | ⟨rfl, -⟩ | ⟨rfl, -⟩ <;> decide
  | arf => rcases h with ⟨rfl, -⟩ | ⟨rfl, -⟩ <;> decide
  | lmr => obtain ⟨rfl, -⟩ := h; decide
  | act => obtain ⟨rfl, -⟩ := h; decide
  | rd => obtain ⟨rfl, -⟩ := h; decide
  | wr => obtain ⟨rfl, -⟩ := h; decide
  | bst => exact absurd h id
  | nop => exact absurd h id

end Run

/-- The distances that the SDRAM asks for, in clock cycles. -/
structure Spacing (pins : ℕ → Pins) : Prop where
  pre_act : Spaced pins .pre .act 2
  pre_arf : Spaced pins .pre .arf 2
  arf_arf : Spaced pins .arf .arf 8
  arf_lmr : Spaced pins .arf .lmr 8
  arf_pre : Spaced pins .arf .pre 8
  arf_act : Spaced pins .arf .act 8
  /-- Nothing but NOP follows the LMR sooner. -/
  lmr : ∀ c, c ≠ .nop → Spaced pins .lmr c 4
  act_rd : Spaced pins .act .rd 3
  act_wr : Spaced pins .act .wr 3
  act_pre : Spaced pins .act .pre 6
  act_act : Spaced pins .act .act 9
  wr_pre : Spaced pins .wr .pre 4

/-- **Command spacing**, for every input stream and every run from reset. -/
theorem spacing_pinsAt (s₀ : Regs) (inp : ℕ → Input) : Spacing (pinsAt s₀ inp) where
  pre_act := spaced_pre (by decide)
  pre_arf := spaced_pre (by decide)
  arf_arf := spaced_arf (by decide)
  arf_lmr := spaced_arf (by decide)
  arf_pre := spaced_arf (by decide)
  arf_act := spaced_arf (by decide)
  lmr c hc := spaced_lmr hc
  act_rd := phaseAge_act.spaced (by decide) (by decide) (by rintro p p' ⟨rfl, -⟩; decide) s₀ inp
  act_wr := phaseAge_act.spaced (by decide) (by decide) (by rintro p p' ⟨rfl, -⟩; decide) s₀ inp
  act_pre := phaseAge_act.spaced (by decide) (by decide)
    (by rintro p p' (⟨rfl, -⟩ | ⟨rfl, -⟩ | ⟨rfl, -⟩) <;> decide) s₀ inp
  act_act := phaseAge_act.spaced (by decide) (by decide) (by rintro p p' ⟨rfl, -⟩; decide) s₀ inp
  wr_pre := phaseAge_wr.spaced (by decide) (by decide)
    (by rintro p p' (⟨rfl, -⟩ | ⟨rfl, -⟩ | ⟨rfl, -⟩) <;> decide) s₀ inp

end Sdram
end Cyclone10

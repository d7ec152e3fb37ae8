import Cyclone10TPG.Sdram.Refresh

/-!
# Initialisation ends

After reset the initialisation FSM waits for `refresh_counter` to run down from 20000, and
then goes through its sequence without waiting for anything else. `Regs.startup` bounds the
number of cycles that are left, and every cycle lowers it, so the sequence is over after 20073
cycles, whatever the inputs.

By then the refresh timer is running. It runs out every 600 cycles, and each time it does
one ARF follows before the next time (`existsUnique_arf_window`).
-/

namespace Cyclone10
namespace Sdram

open Sync

/-! ### The initialisation sequence -/

/-- The number of cycles until the initialisation FSM has terminated, at most: one for PRE
and two of waiting, eight for each of eight ARFs, and five for the LMR. -/
def Regs.startup (s : Regs) : ℕ :=
  match s.ini.iState with
  | .powerup => 73 + s.refreshCounter
  | .precharge => 72
  | .autorefresh => 5 + 8 * (8 - s.ini.iRefs)
  | .modeRegisterSet => 5
  | .waitUntilSafe =>
    match s.ini.iNext with
    | .terminated => max 1 s.ini.iCount
    | .modeRegisterSet => max 1 s.ini.iCount + 5
    | _ => max 1 s.ini.iCount + 5 + 8 * (8 - s.ini.iRefs)
  | .terminated | .undefined => 0

variable {s : Regs}

/-- **Every cycle brings the end of the sequence closer.** -/
theorem startup_step (h : Inv s) (i : Input) : (step s i).startup ≤ s.startup - 1 := by
  obtain ⟨r, hr, hstep⟩ := exists_initStep s i
  have hini := h.ini
  have hcount := refreshCounter_step s i
  unfold Regs.startup
  rw [hr]
  cases hstep with
  | powerupStay hs hc =>
    rw [if_neg hc] at hcount
    simp only [hs, hcount]
    omega
  | powerupDone hs hc => simp only [hs]; omega
  | precharge hs =>
    simp only [InitInv, hs] at hini
    simp only [hs, hini.2]
    omega
  | autorefresh hs =>
    simp only [InitInv, hs] at hini
    have hlt : (s.ini.iRefs + 1) % 16 = s.ini.iRefs + 1 := Nat.mod_eq_of_lt (by omega)
    -- the last ARF is followed by the LMR, the others by one more
    by_cases h7 : s.ini.iRefs = 7
    · simp only [hs, h7, if_true]
      omega
    · simp only [hs, if_neg h7, hlt]
      omega
  | waitMore hs hc =>
    simp only [hs]
    cases s.ini.iNext <;> simp only <;> omega
  | waitDone hs hc =>
    simp only [InitInv, hs] at hini
    simp only [hs]
    cases hn : s.ini.iNext <;> simp only [hn] at hini ⊢ <;> omega
  | terminated hs => simp only [hs]; omega
  | modeRegisterSet hs => simp only [hs]; omega
  | undefined hs => simp only [InitInv, hs] at hini

/-- When nothing is left, the sequence is over. -/
theorem Inv.terminated_of_startup (h : Inv s) (hz : s.startup = 0) :
    s.ini.iState = .terminated := by
  have hini := h.ini
  unfold InitInv at hini
  unfold Regs.startup at hz
  cases hs : s.ini.iState <;> simp only [hs] at hini hz
  case terminated => rfl
  case waitUntilSafe => cases hn : s.ini.iNext <;> simp only [hn] at hini hz <;> omega
  all_goals omega

section Run

variable (s₀ : Regs) (inp : ℕ → Input)

theorem startup_regsAt (t : ℕ) : (regsAt s₀ inp t).startup ≤ 20073 - t := by
  induction t with
  | zero =>
    show 73 + 20000 ≤ 20073 - 0
    omega
  | succ t ih =>
    have hstep : (regsAt s₀ inp (t + 1)).startup ≤ (regsAt s₀ inp t).startup - 1 :=
      startup_step (inv_regsAt s₀ inp t) (inp t)
    omega

/-- **Initialisation ends**: `init_done` is up from cycle 20074 on. -/
theorem initDone_regsAt {t : ℕ} (ht : 20073 ≤ t) : (regsAt s₀ inp (t + 1)).initDone = true := by
  have hzero : (regsAt s₀ inp t).startup = 0 := by
    have hle := startup_regsAt s₀ inp t
    omega
  have hterm := (inv_regsAt s₀ inp t).terminated_of_startup hzero
  rw [regsAt_succ, step, hterm]
  exact Bool.or_true _

/-! ### The refresh timer -/

variable {s₀ inp}

/-- The counter counts down. -/
theorem refreshCounter_add {t k : ℕ} (hk : k ≤ (regsAt s₀ inp t).refreshCounter) :
    (regsAt s₀ inp (t + k)).refreshCounter = (regsAt s₀ inp t).refreshCounter - k := by
  induction k with
  | zero => rfl
  | succ k ih =>
    have ih' := ih (Nat.le_of_succ_le hk)
    rw [← Nat.add_assoc, regsAt_succ, refreshCounter_step, if_neg (by omega), ih']
    omega

/-- After a timeout of the counter it is not zero for 600 cycles, and then it is. -/
theorem refreshCounter_period {t : ℕ} (h : (regsAt s₀ inp t).refreshCounter = 0) :
    (∀ k, 0 < k → k < 600 → (regsAt s₀ inp (t + k)).refreshCounter ≠ 0) ∧
      (regsAt s₀ inp (t + 600)).refreshCounter = 0 := by
  have hreload : (regsAt s₀ inp (t + 1)).refreshCounter = 599 := by
    rw [regsAt_succ, refreshCounter_step, if_pos h]
  have hcount : ∀ k ≤ 599, (regsAt s₀ inp (t + 1 + k)).refreshCounter = 599 - k := by
    intro k hk
    rw [refreshCounter_add (by rwa [hreload]), hreload]
  constructor
  · intro k hk hk'
    have hc := hcount (k - 1) (by omega)
    rw [show t + 1 + (k - 1) = t + k by omega] at hc
    omega
  · have hc := hcount 599 le_rfl
    rwa [Nat.add_assoc] at hc

variable (s₀ inp)

/-- The counter runs out for the first time when the wait after reset is over, and then every
600 cycles. -/
theorem refreshCounter_multiple (n : ℕ) :
    (regsAt s₀ inp (20000 + 600 * n)).refreshCounter = 0 := by
  induction n with
  | zero =>
    have hreset : (regsAt s₀ inp 0).refreshCounter = 20000 := rfl
    have hc := refreshCounter_add hreset.ge
    rwa [hreset, Nat.zero_add, Nat.sub_self] at hc
  | succ n ih =>
    have hc := (refreshCounter_period ih).2
    rwa [Nat.add_assoc, ← Nat.mul_succ] at hc

/-- The timeouts after initialisation. -/
theorem timeout_regsAt (n : ℕ) : (regsAt s₀ inp (20600 + 600 * n)).Timeout := by
  have hcount := refreshCounter_multiple s₀ inp (n + 1)
  rw [show 20000 + 600 * (n + 1) = 20600 + 600 * n by omega] at hcount
  have hdone := initDone_regsAt s₀ inp (t := 20599 + 600 * n) (by omega)
  rw [show 20599 + 600 * n + 1 = 20600 + 600 * n by omega] at hdone
  exact ⟨hcount, hdone⟩

/-! ### The wait after reset -/

/-- The initialisation FSM waits for 20000 cycles. -/
theorem powerup_regsAt {t : ℕ} (ht : t ≤ 20000) :
    (regsAt s₀ inp t).ini.iState = .powerup ∧ (regsAt s₀ inp t).initDone = false := by
  induction t with
  | zero => exact ⟨rfl, rfl⟩
  | succ t ih =>
    obtain ⟨hs, hd⟩ := ih (Nat.le_of_succ_le ht)
    -- the counter has not run out yet
    have hreset : (regsAt s₀ inp 0).refreshCounter = 20000 := rfl
    have hcount : (regsAt s₀ inp (0 + t)).refreshCounter = (regsAt s₀ inp 0).refreshCounter - t :=
      refreshCounter_add (by omega)
    rw [hreset, Nat.zero_add] at hcount
    have hne : (regsAt s₀ inp t).refreshCounter ≠ 0 := by omega
    rw [regsAt_succ]
    constructor
    · simp [step, initFsm, hs, hne]
    · simp [step, hs, hd]

/-- PRE is the first command, and it is on the pins three cycles after the end of the wait. -/
theorem event_powerup {t : ℕ} (hs : (regsAt s₀ inp t).ini.iState = .powerup)
    (hd : (regsAt s₀ inp t).initDone = false) (hc : (regsAt s₀ inp t).refreshCounter = 0) :
    (pinsAt s₀ inp (t + 2)).cmd.event = none ∧ (pinsAt s₀ inp (t + 3)).Issues .pre := by
  have h₁ : (regsAt s₀ inp (t + 1)).ini.iState = .precharge ∧
      (regsAt s₀ inp (t + 1)).ini.iCmd = ⟨true, .nop⟩ ∧
      (regsAt s₀ inp (t + 1)).initDone = false := by
    rw [regsAt_succ]
    simp [step, initFsm, hs, hd, hc]
  have h₂ : (regsAt s₀ inp (t + 2)).ini.iCmd = ⟨false, .pre⟩ ∧
      (regsAt s₀ inp (t + 2)).initDone = false := by
    rw [regsAt_succ]
    simp [step, initFsm, h₁.1, h₁.2.2]
  -- the pins follow one cycle later
  constructor
  · show (regsAt s₀ inp (t + 1 + 1)).pins.cmd.event = none
    rw [regsAt_succ, (inv_regsAt s₀ inp (t + 1)).pins_of_undone h₁.2.2, h₁.2.1]
    rfl
  · show (regsAt s₀ inp (t + 2 + 1)).pins.cmd = _
    rw [regsAt_succ, (inv_regsAt s₀ inp (t + 2)).pins_of_undone h₂.2, h₂.1]

/-- The first PRE. -/
theorem issues_pre_first : (pinsAt s₀ inp (20000 + 3)).Issues .pre := by
  obtain ⟨hs, hd⟩ := powerup_regsAt s₀ inp (Nat.le_refl 20000)
  exact (event_powerup s₀ inp hs hd (refreshCounter_multiple s₀ inp 0)).2

/-- **No command before the first PRE.** -/
theorem event_of_lt {t : ℕ} (ht : t < 20000 + 3) : (pinsAt s₀ inp t).cmd.event = none := by
  cases t with
  | zero => rfl
  | succ t =>
    rcases Nat.lt_or_ge t (20000 + 1) with hlt | hge
    · -- the initialisation FSM gives no command while it waits
      obtain ⟨hs, hd⟩ := powerup_regsAt s₀ inp (Nat.le_of_lt_succ hlt)
      have hini := (inv_regsAt s₀ inp t).ini
      simp only [InitInv, hs] at hini
      show (regsAt s₀ inp (t + 1)).pins.cmd.event = none
      rw [regsAt_succ, (inv_regsAt s₀ inp t).pins_of_undone hd, hini]
      rfl
    · obtain rfl : t = 20000 + 1 := by omega
      obtain ⟨hs, hd⟩ := powerup_regsAt s₀ inp (Nat.le_refl 20000)
      exact (event_powerup s₀ inp hs hd (refreshCounter_multiple s₀ inp 0)).1

/-- **One refresh in every 600 cycles**, whatever the traffic. -/
theorem existsUnique_arf_window (n : ℕ) :
    ∃! t, 20600 + 600 * n < t ∧ t < 20600 + 600 * (n + 1) ∧ (pinsAt s₀ inp t).Issues .arf := by
  refine existsUnique_arf (timeout_regsAt s₀ inp n) (timeout_regsAt s₀ inp (n + 1)) (by omega) ?_
  intro t ht ht' htimeout
  have hne := (refreshCounter_period (timeout_regsAt s₀ inp n).1).1 (t - (20600 + 600 * n))
    (by omega) (by omega)
  rw [show 20600 + 600 * n + (t - (20600 + 600 * n)) = t by omega] at hne
  exact hne htimeout.1

end Run

end Sdram
end Cyclone10

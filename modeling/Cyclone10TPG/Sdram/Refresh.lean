import Cyclone10TPG.Sdram.Banks
import Cyclone10TPG.Sdram.Command

/-!
# No refresh is lost

Every 600 cycles `refresh_counter` runs out and raises `refresh_request`, which stays up
until the main FSM has issued ARF and raised `ack_refresh_request`. `MainRegs.latency`
bounds the number of cycles that this takes from each state, and every transition taken
while a request waits lowers it (`MainStep.latency`). So the sum of the latency and the age
of the request never grows, which is `RefreshInv.request`.

The acknowledge is held until `MAIN_IDLE`, a few cycles after ARF and long before the
counter runs out again (`RefreshInv.ack`), so it never swallows the next request. Between
two timeouts the request is therefore raised once, waits, and is served by one ARF.
-/

namespace Cyclone10
namespace Sdram

open Sync

/-! ### The latency of the acknowledge -/

/-- The number of cycles after which a request that is up has been acknowledged, at most. -/
def MainRegs.latency (m : MainRegs) : ℕ :=
  match m.mState with
  | .idle => 4
  | .bankActivate => 11
  | .waitUntilSafe =>
    match m.mNext with
    | .autoRefresh => 2
    | .idle => 4 + max 1 m.mCount
    | _ => 8 + max 1 m.mCount
  | .read | .write => 8
  | .prepareBankCloseAll => 6 + max 1 m.mCount
  | .bankCloseAll => if m.mNext = .autoRefresh then 3 else 6
  | .autoRefresh => 1
  | .spinOffReadWriteCycle => 7
  | .undefined => 0

theorem MainRegs.latency_le {m : MainRegs} (h : m.mCount ≤ 7) : m.latency ≤ 15 := by
  unfold MainRegs.latency
  split
  case h_3 => split <;> omega
  case h_7 => split <;> omega
  all_goals omega

theorem latency_column {m : MainRegs} {rnw : Bool} (hs : m.mState = columnState rnw) :
    m.latency = 8 := by
  cases rnw <;> simp [MainRegs.latency, hs, columnState]

/-- **Every transition works towards the acknowledge** of a request that is up. -/
theorem MainStep.latency {s : Regs} {m : MainRegs} (hstep : MainStep s m) (h : Inv s)
    (hr : s.refreshRequest = true) (hack : m.ackRefreshRequest = false) :
    m.latency + 1 ≤ s.main.latency := by
  have hmain := h.main
  cases hstep with
  -- there is no request during initialisation
  | idleInit hs hd => exact absurd (hr.symm.trans (h.undone hd).2.2) (by decide)
  | idleRefresh hs hd hr' => simp [MainRegs.latency, hs]
  | activate hs =>
    cases hrnw : s.main.active.rnw <;> simp [MainRegs.latency, hs, columnState]
  | waitMore csN hs hc =>
    -- the counter goes down, and the latency with it
    simp only [MainInv, hs] at hmain
    simp only [MainRegs.latency, hs]
    cases hn : s.main.mNext <;> simp only [hn] at hmain ⊢
    case autoRefresh => omega
    all_goals omega
  | waitDone csN hs hc =>
    -- a wait ends with the counter at 1, or at 0 if none was set
    simp only [MainInv, hs] at hmain
    simp only [MainRegs.latency, hs]
    cases hn : s.main.mNext <;> simp only [hn] at hmain ⊢
    case idle => omega
    case autoRefresh => omega
    case read => omega
    case write => omega
    all_goals exact absurd hmain.2 id
  | columnBail rnw hs hp hr' =>
    -- one and three cycles of waiting, from a latency of 8
    rw [latency_column hs]
    cases rnw <;> simp [MainRegs.latency]
  | columnEnd rnw hs hp =>
    rw [latency_column hs]
    simp [MainRegs.latency]
  | prepareMore hs hc =>
    simp only [MainRegs.latency, hs]
    omega
  | prepareDone hs hc =>
    simp only [MainInv, hs] at hmain
    simp only [MainRegs.latency, hs, hmain.2.2, reduceCtorEq, if_false]
    omega
  | close hs =>
    simp only [MainInv, hs] at hmain
    -- PRE for the refresh itself, or for another row first
    obtain ⟨-, -, hcount, hnext⟩ := hmain
    rcases hnext with ⟨hn, -⟩ | ⟨hn, -⟩ <;> simp [MainRegs.latency, hs, hn, hcount]
  -- this is the transition that acknowledges
  | refresh hs => exact absurd hack (by simp)
  | spinBail hs hr' => simp [MainRegs.latency, hs]
  -- these transitions are taken without a request
  | idleAccept hs hd hr' | idleStay hs hd hr' | columnStream rnw hs hp hr' | spinResume hs hr'
  | spinClose hs hr' | spinStay hs hr' =>
    exact absurd (hr.symm.trans hr') Bool.false_ne_true.symm
  | undefined hs => simp only [MainInv, hs] at hmain

/-! ### The invariant -/

/-- The refresh counter next to the request, the acknowledge and the main FSM. -/
structure RefreshInv (s : Regs) : Prop where
  count_le : s.main.mCount ≤ 7
  /-- A request that waits is served in time. -/
  request : s.refreshRequest = true → s.main.ackRefreshRequest = false →
    580 + s.main.latency ≤ s.refreshCounter
  /-- The acknowledge goes away long before the counter runs out. -/
  ack : s.main.ackRefreshRequest = true →
    (if s.main.mState = .waitUntilSafe then 573 + s.main.mCount else 572) ≤ s.refreshCounter
  cannot : s.zaCannotrefresh = false

theorem RefreshInv.reset (s : Regs) : RefreshInv s.reset where
  count_le := Nat.zero_le _
  request := fun h => absurd h (by simp [Regs.reset])
  ack := fun h => absurd h (by simp [Regs.reset, MainRegs.reset])
  cannot := rfl

/-- While a request is up with the acknowledge, the wait after ARF has just begun. -/
theorem Inv.wait_of_ack_request {s : Regs} (h : Inv s) (hr : s.refreshRequest = true)
    (ha : s.main.ackRefreshRequest = true) :
    s.main.mState = .waitUntilSafe ∧ s.main.mCount = 7 := by
  have hmain := h.main
  rcases hmain.state_of_ack ha with hs | ⟨hs, hn⟩
  · -- in `MAIN_IDLE` the acknowledge has withdrawn the request
    simp only [MainInv, hs] at hmain
    rw [hmain.2 ha] at hr
    exact absurd hr Bool.false_ne_true
  · simp only [MainInv, hs, hn] at hmain
    exact ⟨hs, hmain.2 ha hr⟩

/-- A request is at most 20 cycles old. -/
theorem RefreshInv.le_counter {s : Regs} (h : Inv s) (hd : RefreshInv s)
    (hr : s.refreshRequest = true) : 580 ≤ s.refreshCounter := by
  cases ha : s.main.ackRefreshRequest with
  | false =>
    have hlat := hd.request hr ha
    omega
  | true =>
    obtain ⟨hs, hc⟩ := h.wait_of_ack_request hr ha
    have hack := hd.ack ha
    rw [if_pos hs, hc] at hack
    omega

/-! ### Preservation -/

section Step

variable {s : Regs} {i : Input}

/-- The next request, as far as it is up and unacknowledged. -/
theorem refreshRequest_step_cases (hr : (step s i).refreshRequest = true) :
    s.main.ackRefreshRequest = false ∧ (s.refreshCounter = 0 ∨ s.refreshRequest = true) := by
  simp only [step, Bool.and_eq_true, Bool.or_eq_true, beq_iff_eq, Bool.not_eq_true'] at hr
  exact ⟨hr.1.2, hr.1.1⟩

theorem MainStep.mCount_le {m : MainRegs} (hstep : MainStep s m) (h : s.main.mCount ≤ 7) :
    m.mCount ≤ 7 := by
  cases hstep with
  | waitMore csN hs hc => exact (Nat.sub_le _ _).trans h
  | prepareMore hs hc => exact (Nat.sub_le _ _).trans h
  | columnBail rnw hs hp hr => cases rnw <;> simp
  | idleInit => exact h
  | idleAccept => exact h
  | idleStay => exact h
  | waitDone => exact h
  | columnStream => exact h
  | columnEnd => exact h
  | close => exact h
  | spinResume => exact h
  | spinStay => exact h
  | undefined => exact h
  | _ => simp

/-- While the acknowledge is up, the wait after ARF and then `MAIN_IDLE` count it down. -/
theorem MainStep.ack {m : MainRegs} (hstep : MainStep s m) (h : Inv s) (hd : RefreshInv s)
    (hack : m.ackRefreshRequest = true) :
    (if m.mState = .waitUntilSafe then 573 + m.mCount else 572) + 1 ≤ s.refreshCounter := by
  cases hstep with
  | idleInit hs hd' =>
    rw [(h.undone hd').2.1] at hack
    exact absurd hack Bool.false_ne_true
  | idleRefresh => exact absurd hack Bool.false_ne_true
  | idleAccept => exact absurd hack Bool.false_ne_true
  | idleStay => exact absurd hack Bool.false_ne_true
  | waitMore csN hs hc =>
    -- one cycle of the wait, and one of the counter
    have hle := hd.ack hack
    simp only [hs, if_true] at hle ⊢
    omega
  | waitDone csN hs hc =>
    -- the wait ends in `MAIN_IDLE`
    have hle := hd.ack hack
    have hn : s.main.mNext = .idle := by simpa [hs] using h.main.state_of_ack hack
    simp only [hs, hn, if_true, reduceCtorEq, if_false] at hle ⊢
    omega
  | refresh hs =>
    -- the request was in time, so the counter is still high
    have hmain := h.main
    simp only [MainInv, hs] at hmain
    have hle := hd.request hmain.2.2 hmain.2.1
    simp only [MainRegs.latency, hs] at hle
    simp only [if_true]
    omega
  -- the other transitions keep the acknowledge, which is not up in their states
  | columnBail rnw hs | columnStream rnw hs | columnEnd rnw hs =>
    have hst := h.main.state_of_ack hack
    cases rnw <;> simp [hs, columnState] at hst
  | activate hs | prepareMore hs | prepareDone hs | close hs | spinBail hs | spinResume hs
  | spinClose hs | spinStay hs | undefined hs =>
    have hst := h.main.state_of_ack hack
    simp [hs] at hst

theorem refreshCounter_step (s : Regs) (i : Input) :
    (step s i).refreshCounter = if s.refreshCounter = 0 then 599 else s.refreshCounter - 1 := by
  simp [step]

theorem RefreshInv.step (h : Inv s) (hd : RefreshInv s) (i : Input) :
    RefreshInv (Sdram.step s i) where
  count_le := MainStep.mCount_le (mainStep s) hd.count_le
  request := by
    intro hr hack
    -- a new request, or one that has been waiting
    obtain ⟨ha, hc | hr⟩ := refreshRequest_step_cases hr
    · have hlat := MainRegs.latency_le (MainStep.mCount_le (mainStep s) hd.count_le)
      rw [refreshCounter_step, if_pos hc]
      exact Nat.le_trans (Nat.add_le_add_left hlat 580) (by decide)
    · have hlat : (Sdram.step s i).main.latency + 1 ≤ s.main.latency :=
        (mainStep s).latency h hr hack
      have hle := hd.request hr ha
      rw [refreshCounter_step, if_neg (by omega)]
      omega
  ack := by
    intro hack
    have hle : _ + 1 ≤ s.refreshCounter := MainStep.ack (mainStep s) h hd hack
    rw [refreshCounter_step, if_neg (Nat.ne_of_gt (Nat.lt_of_lt_of_le (Nat.succ_pos _) hle))]
    exact Nat.le_sub_of_add_le hle
  cannot := by
    cases hr : s.refreshRequest with
    | false => simp [Sdram.step, hr]
    | true =>
      have hle := hd.le_counter h hr
      have hne : s.refreshCounter ≠ 0 := by omega
      simp [Sdram.step, hne]

end Step

theorem refreshInv_regsAt (s₀ : Regs) (inp : ℕ → Input) (t : ℕ) :
    RefreshInv (regsAt s₀ inp t) := by
  induction t with
  | zero => exact RefreshInv.reset s₀
  | succ t ih => exact ih.step (inv_regsAt s₀ inp t) (inp t)

/-! ### One refresh for each timeout -/

/-- A request is up and has not been acknowledged. -/
def Regs.RefreshWaits (s : Regs) : Prop :=
  s.refreshRequest = true ∧ s.main.ackRefreshRequest = false

/-- The counter has run out after initialisation. -/
def Regs.Timeout (s : Regs) : Prop := s.refreshCounter = 0 ∧ s.initDone = true

section OneCycle

variable {s : Regs} {i : Input}

theorem MainStep.ack_cases {m : MainRegs} (hstep : MainStep s m)
    (hack : m.ackRefreshRequest = true) :
    s.main.ackRefreshRequest = true ∨ s.main.mState = .autoRefresh := by
  cases hstep with
  | refresh hs => exact Or.inr hs
  | idleRefresh => exact absurd hack (by simp)
  | idleAccept => exact absurd hack (by simp)
  | idleStay => exact absurd hack (by simp)
  | _ => exact Or.inl hack

theorem Inv.waits_of_autoRefresh (h : Inv s) (hs : s.main.mState = .autoRefresh) :
    s.RefreshWaits := by
  have hmain := h.main
  simp only [MainInv, hs] at hmain
  exact ⟨hmain.2.2, hmain.2.1⟩

/-- After initialisation, ARF comes from `MAIN_AUTO_REFRESH`. -/
theorem Inv.autoRefresh_of_arf (h : Inv s) (hd : s.initDone = true)
    (harf : (Sdram.step s i).pins.Issues .arf) : s.main.mState = .autoRefresh := by
  rcases h.origin harf with hs | hini
  · exact hs
  · exact absurd (hd.symm.trans hini.undone) (by decide)

theorem RefreshInv.not_timeout_of_ack (hr : RefreshInv s)
    (hack : s.main.ackRefreshRequest = true) : s.refreshCounter ≠ 0 := by
  have hle := hr.ack hack
  split at hle <;> omega

/-- A timeout finds no request up, and raises one. -/
theorem waits_of_timeout (h : Inv s) (hr : RefreshInv s) (ht : s.Timeout) (i : Input) :
    ¬ s.RefreshWaits ∧ (step s i).RefreshWaits := by
  obtain ⟨hc, hd⟩ := ht
  -- a request would be too old, and an acknowledge too
  have hreq : s.refreshRequest = false := by
    by_contra hreq
    have hle := hr.le_counter h (by simpa using hreq)
    omega
  have hack : s.main.ackRefreshRequest = false := by
    by_contra hack
    exact hr.not_timeout_of_ack (by simpa using hack) hc
  have hnot : ¬ s.RefreshWaits := fun hw => absurd (hw.1.symm.trans hreq) (by decide)
  refine ⟨hnot, by simp [step, hc, hd, hack], ?_⟩
  -- an acknowledge now would be one from `MAIN_AUTO_REFRESH`, with a request up
  by_contra hack'
  rcases (mainStep s).ack_cases (Bool.eq_true_of_not_eq_false hack') with hack' | hs
  · exact absurd (hack.symm.trans hack') (by decide)
  · exact hnot (h.waits_of_autoRefresh hs)

/-- A request that waits goes on waiting, or ARF is issued and ends the wait. -/
theorem waits_step (h : Inv s) (hd : s.initDone = true) (hw : s.RefreshWaits) (i : Input) :
    ((step s i).RefreshWaits ∧ ¬ (step s i).pins.Issues .arf) ∨
      (¬ (step s i).RefreshWaits ∧ (step s i).pins.Issues .arf) := by
  by_cases hs : s.main.mState = .autoRefresh
  · refine Or.inr ⟨fun hw' => ?_, ?_⟩
    · have hack : (step s i).main.ackRefreshRequest = true := by simp [step, mainFsm, hs]
      exact absurd (hack.symm.trans hw'.2) (by decide)
    · simp [Pins.Issues, Regs.pins, step, mainFsm, hs]
  · refine Or.inl ⟨⟨?_, ?_⟩, fun harf => hs (h.autoRefresh_of_arf hd harf)⟩
    · exact refreshRequest_step_of_request i hw.1 hw.2 hd
    · by_contra hack
      rcases (mainStep s).ack_cases (Bool.eq_true_of_not_eq_false hack) with hack | hs'
      · exact absurd (hw.2.symm.trans hack) (by decide)
      · exact hs hs'

/-- Without a request that waits there is no ARF, and only a timeout changes that. -/
theorem not_waits_step (h : Inv s) (hd : s.initDone = true) (hw : ¬ s.RefreshWaits)
    (i : Input) :
    ¬ (step s i).pins.Issues .arf ∧ (s.refreshCounter ≠ 0 → ¬ (step s i).RefreshWaits) := by
  refine ⟨fun harf => hw (h.waits_of_autoRefresh (h.autoRefresh_of_arf hd harf)), ?_⟩
  rintro hc ⟨hr', -⟩
  obtain ⟨hack, hc' | hr⟩ := refreshRequest_step_cases hr'
  · exact hc hc'
  · exact hw ⟨hr, hack⟩

end OneCycle

section Run

variable (s₀ : Regs) (inp : ℕ → Input)

theorem initDone_mono {t t' : ℕ} (h : t ≤ t') (hd : (regsAt s₀ inp t).initDone = true) :
    (regsAt s₀ inp t').initDone = true := by
  induction t', h using Nat.le_induction with
  | base => exact hd
  | succ t' _ ih => exact initDone_step _ _ ih

/-- The ARFs on the pins after cycle `t₀` and up to cycle `t`: none while a request waits,
and then one. -/
structure Served (t₀ t : ℕ) : Prop where
  waits : (regsAt s₀ inp t).RefreshWaits →
    ∀ k, t₀ < k → k ≤ t → ¬ (pinsAt s₀ inp k).Issues .arf
  done : ¬ (regsAt s₀ inp t).RefreshWaits →
    ∃! k, t₀ < k ∧ k ≤ t ∧ (pinsAt s₀ inp k).Issues .arf

variable {s₀ inp}

theorem Served.start {t₀ : ℕ} (ht : (regsAt s₀ inp t₀).Timeout) :
    Served s₀ inp t₀ (t₀ + 1) := by
  have h := inv_regsAt s₀ inp t₀
  obtain ⟨hnot, hwaits⟩ := waits_of_timeout h (refreshInv_regsAt s₀ inp t₀) ht (inp t₀)
  refine ⟨fun _ k hk hk' => ?_, fun hnot' => absurd hwaits hnot'⟩
  obtain rfl : k = t₀ + 1 := Nat.le_antisymm hk' hk
  exact (not_waits_step h ht.2 hnot (inp t₀)).1

theorem Served.step {t₀ t : ℕ} (hs : Served s₀ inp t₀ t) (ht : t₀ < t)
    (hd : (regsAt s₀ inp t).initDone = true) (hc : (regsAt s₀ inp t).refreshCounter ≠ 0) :
    Served s₀ inp t₀ (t + 1) := by
  have h := inv_regsAt s₀ inp t
  by_cases hw : (regsAt s₀ inp t).RefreshWaits
  · -- no ARF so far: either none now, or this is the one
    have hnone := hs.waits hw
    rcases waits_step h hd hw (inp t) with ⟨hw', harf⟩ | ⟨hw', harf⟩
    · refine ⟨fun _ k hk hk' => ?_, fun hnot => absurd hw' hnot⟩
      rcases Nat.le_succ_iff.mp hk' with hk' | rfl
      · exact hnone k hk hk'
      · exact harf
    · refine ⟨fun hwaits => absurd hwaits hw', fun _ => ⟨t + 1, ⟨by omega, le_rfl, harf⟩, ?_⟩⟩
      rintro k ⟨hk, hk', hkarf⟩
      rcases Nat.le_succ_iff.mp hk' with hk' | rfl
      · exact absurd hkarf (hnone k hk hk')
      · rfl
  · -- the one ARF is behind, and there is no other
    obtain ⟨harf, hw'⟩ := not_waits_step h hd hw (inp t)
    refine ⟨fun hwaits => absurd hwaits (hw' hc), fun _ => ?_⟩
    obtain ⟨k, ⟨hk, hk', hkarf⟩, huniq⟩ := hs.done hw
    refine ⟨k, ⟨hk, Nat.le_succ_of_le hk', hkarf⟩, ?_⟩
    rintro j ⟨hj, hj', hjarf⟩
    rcases Nat.le_succ_iff.mp hj' with hj' | rfl
    · exact huniq j ⟨hj, hj', hjarf⟩
    · exact absurd hjarf harf

/-- From a timeout up to the next one, the refresh is served as it should be. -/
theorem served_of_timeout {t₀ t : ℕ} (ht₀ : (regsAt s₀ inp t₀).Timeout) (ht : t₀ < t)
    (hnone : ∀ k, t₀ < k → k < t → ¬ (regsAt s₀ inp k).Timeout) : Served s₀ inp t₀ t := by
  induction t, ht using Nat.le_induction with
  | base => exact Served.start ht₀
  | succ t ht ih =>
    have hd := initDone_mono s₀ inp (Nat.le_of_lt ht) ht₀.2
    refine (ih fun k hk hk' => hnone k hk (Nat.lt_succ_of_lt hk')).step ht hd fun hc => ?_
    exact hnone t ht (Nat.lt_succ_self t) ⟨hc, hd⟩

/-- No ARF is on the pins in a timeout cycle. -/
theorem not_arf_of_timeout {t : ℕ} (ht : (regsAt s₀ inp t).Timeout) :
    ¬ (pinsAt s₀ inp t).Issues .arf := by
  cases t with
  | zero => exact absurd ht.2 (by simp [regsAt, Regs.reset])
  | succ t =>
    intro harf
    have h := inv_regsAt s₀ inp t
    have hack : (regsAt s₀ inp (t + 1)).main.ackRefreshRequest = true := by
      rcases h.origin harf with hs | ⟨-, hd, hcmd, -⟩
      · simp [regsAt_succ, Sdram.step, mainFsm, hs]
      · -- the initialisation FSM still waits after its ARF
        have hterm : (regsAt s₀ inp t).ini.iState = .terminated := by
          simpa [regsAt_succ, Sdram.step, hd] using ht.2
        have hini := h.ini
        simp only [InitInv, hterm, hcmd, Cmd.mk.injEq] at hini
        exact absurd hini.1.2 (by decide)
    exact (refreshInv_regsAt s₀ inp (t + 1)).not_timeout_of_ack hack ht.1

/-- A request has been raised when the counter ran out, and the counter counts down since. -/
theorem exists_counter_eq_zero {t : ℕ} (hr : (regsAt s₀ inp t).refreshRequest = true) :
    ∃ k < t, (regsAt s₀ inp k).refreshCounter = 0 ∧
      (regsAt s₀ inp t).refreshCounter + (t - k) = 600 := by
  induction t with
  | zero => exact absurd hr (by simp [regsAt, Regs.reset])
  | succ t ih =>
    rw [regsAt_succ, refreshCounter_step]
    -- raised in this cycle, or up since an earlier one
    by_cases hc : (regsAt s₀ inp t).refreshCounter = 0
    · exact ⟨t, Nat.lt_succ_self t, hc, by rw [if_pos hc]; omega⟩
    · obtain ⟨-, hc' | hr'⟩ := refreshRequest_step_cases hr
      · exact absurd hc' hc
      · obtain ⟨k, hk, hzero, hsum⟩ := ih hr'
        refine ⟨k, Nat.lt_succ_of_lt hk, hzero, ?_⟩
        rw [if_neg hc]
        omega

/-- **Between two consecutive timeouts exactly one ARF is on the pins.** -/
theorem existsUnique_arf {t₁ t₂ : ℕ} (h₁ : (regsAt s₀ inp t₁).Timeout)
    (h₂ : (regsAt s₀ inp t₂).Timeout) (hlt : t₁ < t₂)
    (hnone : ∀ t, t₁ < t → t < t₂ → ¬ (regsAt s₀ inp t).Timeout) :
    ∃! t, t₁ < t ∧ t < t₂ ∧ (pinsAt s₀ inp t).Issues .arf := by
  have hserved := served_of_timeout h₁ hlt hnone
  have hnot := (waits_of_timeout (inv_regsAt s₀ inp t₂) (refreshInv_regsAt s₀ inp t₂) h₂
    (inp t₂)).1
  obtain ⟨k, ⟨hk, hk', hkarf⟩, huniq⟩ := hserved.done hnot
  -- the second timeout is not a cycle of an ARF itself
  have hne : k ≠ t₂ := fun he => not_arf_of_timeout h₂ (he ▸ hkarf)
  refine ⟨k, ⟨hk, lt_of_le_of_ne hk' hne, hkarf⟩, ?_⟩
  rintro j ⟨hj, hj', hjarf⟩
  exact huniq j ⟨hj, hj'.le, hjarf⟩

end Run

/-! ### The main result -/

/-- **No refresh is lost**, over a sequence of register values. -/
structure Refreshed (regs : ℕ → Regs) : Prop where
  /-- `za_cannotrefresh` stays low. -/
  cannot : ∀ t, (regs t).zaCannotrefresh = false
  /-- A request is at most 20 cycles old. -/
  young : ∀ t, (regs t).refreshRequest = true → 580 ≤ (regs t).refreshCounter ∧
    ∃ k < t, t ≤ k + 20 ∧ (regs k).refreshCounter = 0
  /-- Between two consecutive timeouts exactly one ARF is on the pins. -/
  once : ∀ t₁ t₂, (regs t₁).Timeout → (regs t₂).Timeout → t₁ < t₂ →
    (∀ t, t₁ < t → t < t₂ → ¬ (regs t).Timeout) →
    ∃! t, t₁ < t ∧ t < t₂ ∧ (regs t).pins.Issues .arf

/-- **No refresh is lost**, whatever the traffic. -/
theorem refreshed_regsAt (s₀ : Regs) (inp : ℕ → Input) : Refreshed (regsAt s₀ inp) where
  cannot t := (refreshInv_regsAt s₀ inp t).cannot
  young t hr := by
    have hinv := refreshInv_regsAt s₀ inp t
    have hle := hinv.le_counter (inv_regsAt s₀ inp t) hr
    obtain ⟨k, hk, hc, hsum⟩ := exists_counter_eq_zero hr
    exact ⟨hle, k, hk, by omega, hc⟩
  once _ _ h₁ h₂ hlt hnone := existsUnique_arf h₁ h₂ hlt hnone

end Sdram
end Cyclone10

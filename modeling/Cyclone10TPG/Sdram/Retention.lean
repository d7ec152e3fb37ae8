import Cyclone10TPG.Sync.Pace
import Cyclone10TPG.Sdram.Clock

/-!
# Retention

What the cells of the SDRAM need to keep their contents, over every run: refreshes that come often
enough, and rows that are closed again.

A request for a refresh is at most 20 cycles old, so the ARF that serves it is on the pins within
21 cycles of the timeout (`exists_arf_le`). As the timeouts come every 600 cycles, the ARFs are
`Paced`, and everything else is read off that. A refresh closes all banks first, so no traffic
keeps a row open for longer than from one refresh to the next.
-/

namespace Cyclone10
namespace Sdram

open Sync

/-- **The cells are refreshed and the rows closed**, from cycle `b` on. -/
structure Retains (pins : ℕ → Pins) (b : ℕ) : Prop where
  /-- Two ARFs are at least 580 cycles apart, and from each cycle it is at most 620 cycles to the
  next ARF. -/
  gap : (∀ i j, b < i → i < j → (pins i).Issues .arf → (pins j).Issues .arf → i + 580 ≤ j) ∧
    ∀ t, b < t → ∃ n ≤ 620, 0 < n ∧ (pins (t + n)).Issues .arf
  /-- The number of ARFs in a stretch of `L` cycles, one for every 600 cycles. -/
  count : ∀ t L, b < t →
    L / 600 ≤ Nat.count (fun n => (pins (t + n)).Issues .arf) L + 1 ∧
      Nat.count (fun n => (pins (t + n)).Issues .arf) L ≤ L / 600 + 2
  /-- An activated row is precharged again, at most 618 cycles later. -/
  rows : ∀ t, (pins t).Issues .act → ∃ n ≤ 618, 0 < n ∧ (pins (t + n)).Issues .pre

section Run

variable (s₀ : Regs) (inp : ℕ → Input)

/-! ### The refresh of a timeout -/

/-- 21 cycles after a timeout its request is no longer waiting. -/
theorem not_waits_of_timeout {t : ℕ} (ht : (regsAt s₀ inp t).Timeout) :
    ¬ (regsAt s₀ inp (t + 21)).RefreshWaits := by
  intro hw
  have hle := (refreshInv_regsAt s₀ inp (t + 21)).le_counter (inv_regsAt s₀ inp (t + 21)) hw.1
  -- the counter counts down from its reload value meanwhile
  have hreload : (regsAt s₀ inp (t + 1)).refreshCounter = 599 := by
    rw [regsAt_succ, refreshCounter_step, if_pos ht.1]
  have hcount : (regsAt s₀ inp (t + 1 + 20)).refreshCounter = 599 - 20 := by
    rw [refreshCounter_add (by rw [hreload]; decide), hreload]
  rw [show t + 1 + 20 = t + 21 by rfl] at hcount
  omega

/-- The ARF of a timeout comes within 21 cycles. -/
theorem exists_arf_le (m : ℕ) :
    ∃ t, 20600 + 600 * m < t ∧ t ≤ 20600 + 600 * m + 21 ∧ (pinsAt s₀ inp t).Issues .arf := by
  have ht := timeout_regsAt s₀ inp m
  have hserved : Served s₀ inp (20600 + 600 * m) (20600 + 600 * m + 21) := by
    refine served_of_timeout ht (Nat.lt_add_of_pos_right (by decide)) fun k hk hk' htimeout => ?_
    have hne := (refreshCounter_period ht.1).1 (k - (20600 + 600 * m)) (by omega) (by omega)
    rw [Nat.add_sub_cancel' hk.le] at hne
    exact hne htimeout.1
  obtain ⟨t, harf, -⟩ := hserved.done (not_waits_of_timeout s₀ inp ht)
  exact ⟨t, harf⟩

/-- **The ARFs are paced.** -/
theorem paced_arf : Paced (fun t => (pinsAt s₀ inp t).Issues .arf) 20600 600 21 where
  pos := by decide
  jitter := by decide
  once := by
    intro m
    obtain ⟨t, ht, ht', harf⟩ := exists_arf_le s₀ inp m
    obtain ⟨t₁, -, huniq⟩ := existsUnique_arf_window s₀ inp m
    have htt : t = t₁ := huniq t ⟨ht, by omega, harf⟩
    refine ⟨t, ht, ht', harf, fun u hu hu' huarf => ?_⟩
    -- the last cycle of the period is a timeout, without an ARF
    have hne : u ≠ 20600 + 600 * (m + 1) := fun he =>
      not_arf_of_timeout (timeout_regsAt s₀ inp (m + 1)) (he ▸ huarf)
    rw [htt]
    exact huniq u ⟨hu, Nat.lt_of_le_of_ne hu' hne, huarf⟩

/-! ### The main result -/

/-- The PRE of the next refresh closes an activated row. -/
theorem exists_pre_of_act {t : ℕ} (hact : (pinsAt s₀ inp t).Issues .act) :
    ∃ n ≤ 618, 0 < n ∧ (pinsAt s₀ inp (t + n)).Issues .pre := by
  -- no ACT during initialisation
  have hge : 20003 ≤ t := by
    by_contra hlt
    have hnone := event_of_lt s₀ inp (Nat.not_le.mp hlt)
    rw [hact.event (by decide)] at hnone
    cases hnone
  obtain ⟨u, hu, hu', hb, harf⟩ := (paced_arf s₀ inp).exists_le (t := t) (by omega)
  obtain ⟨k, rfl⟩ : ∃ k, u = k + 3 := ⟨u - 3, by omega⟩
  have hpre : (pinsAt s₀ inp (k + 1)).Issues .pre :=
    pre_of_arf s₀ inp (initDone_regsAt s₀ inp (t := k + 1) (by omega)) harf
  -- neither the cycle of that PRE nor the one after it has an ACT
  have hlt : t < k + 1 := by
    by_contra hno
    rcases Nat.eq_or_lt_of_le (Nat.le_of_not_lt hno) with rfl | hlt
    · exact absurd (hpre.event (by decide)) (by rw [hact.event (by decide)]; decide)
    · have hspaced : Spaced (pinsAt s₀ inp) .pre .act 2 := spaced_pre (Or.inl rfl)
      have hgap := hspaced (k + 1) t hlt hpre hact
      omega
  refine ⟨k + 1 - t, by omega, by omega, ?_⟩
  rwa [Nat.add_sub_cancel' hlt.le]

/-- **Retention**, whatever the traffic. -/
theorem retains_pinsAt : Retains (pinsAt s₀ inp) 20600 where
  gap := by
    refine ⟨fun i j hi hij harf harf' => ?_, fun t ht => ?_⟩
    · have hsub := (paced_arf s₀ inp).le_sub harf harf' hi hij
      omega
    · obtain ⟨u, hu, hu', -, harf⟩ := (paced_arf s₀ inp).exists_le (t := t) (by omega)
      refine ⟨u - t, by omega, by omega, ?_⟩
      rwa [Nat.add_sub_cancel' hu.le]
  count t L ht := ⟨(paced_arf s₀ inp).le_count ht L, (paced_arf s₀ inp).count_le ht L⟩
  rows _ hact := exists_pre_of_act s₀ inp hact

end Run

end Sdram
end Cyclone10

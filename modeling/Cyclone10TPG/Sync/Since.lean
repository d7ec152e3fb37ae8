import Cyclone10TPG.Sync.Run

/-!
# Past events and their age

Properties of a run that look back in time, for events given as predicates on cycles.

* `Since p q t` is the past-time "since", strictly before cycle `t`: some earlier cycle
  satisfies `p` and every cycle between it and `t` satisfies `q`. It is what "the last
  activation is still in force" comes to, and it is maintained forward in time by
  `Since.now` and `Since.keep`.
* An *age* for `p` is a function of time that is `0` in every `p`-cycle and grows by at
  most one per cycle. It never exceeds the time that has passed since any `p`-cycle
  (`Age.le_sub`), so a lower bound on the age at which `q` can happen is a lower bound
  on the distance from `p` to `q` (`Age.spacing`).
-/

namespace Sync

/-! ### Since -/

/-- Some cycle `k < t` satisfies `p`, and every cycle strictly between `k` and `t`
satisfies `q`. -/
def Since (p q : ℕ → Prop) (t : ℕ) : Prop :=
  ∃ k < t, p k ∧ ∀ i, k < i → i < t → q i

section Since

variable {p p' q q' : ℕ → Prop} {t : ℕ}

theorem Since.now (h : p t) : Since p q (t + 1) :=
  ⟨t, Nat.lt_succ_self t, h, fun _ hi hit => absurd (Nat.le_of_lt_succ hit) (Nat.not_le.mpr hi)⟩

theorem Since.keep (h : Since p q t) (hq : q t) : Since p q (t + 1) := by
  obtain ⟨k, hk, hp, hall⟩ := h
  refine ⟨k, Nat.lt_succ_of_lt hk, hp, fun i hki hit => ?_⟩
  rcases Nat.lt_succ_iff_lt_or_eq.mp hit with hit | rfl
  · exact hall i hki hit
  · exact hq

/-- **What "since" maintains.** A property that every `p`-cycle establishes and every
`q`-cycle preserves holds as long as `Since p q` does. -/
theorem Since.induction {P : ℕ → Prop} (h : Since p q t) (hnow : ∀ k, p k → P (k + 1))
    (hkeep : ∀ k, q k → P k → P (k + 1)) : P t := by
  obtain ⟨k, hk, hpk, hall⟩ := h
  induction t with
  | zero => exact absurd hk (Nat.not_lt_zero k)
  | succ t ih =>
    rcases Nat.lt_succ_iff_lt_or_eq.mp hk with hkt | rfl
    · exact hkeep t (hall t hkt (Nat.lt_succ_self t))
        (ih hkt fun i hki hit => hall i hki (Nat.lt_succ_of_lt hit))
    · exact hnow _ hpk

end Since

/-! ### Age -/

/-- `age` is an age for the event `p`: it restarts at `0` in every `p`-cycle, and a
cycle adds at most one to it. -/
structure Age (p : ℕ → Prop) (age : ℕ → ℕ) : Prop where
  reset : ∀ t, p t → age t = 0
  step : ∀ t, age (t + 1) ≤ age t + 1

namespace Age

variable {p q : ℕ → Prop} {age : ℕ → ℕ} {i j d : ℕ}

/-- An age never exceeds the time since a `p`-cycle. -/
theorem le_sub (h : Age p age) (hi : p i) (hij : i ≤ j) : age j ≤ j - i := by
  induction j with
  | zero =>
    obtain rfl := Nat.le_zero.mp hij
    exact (h.reset 0 hi).le
  | succ j ih =>
    rcases Nat.le_succ_iff.mp hij with hij | rfl
    · have h₁ := ih hij
      have h₂ := h.step j
      omega
    · rw [h.reset _ hi]
      exact Nat.zero_le _

/-- **The spacing rule.** When `q` happens only one cycle after an age of `d - 1` or
more, every `q`-cycle is at least `d` cycles after every earlier `p`-cycle. -/
theorem spacing (h : Age p age) (hq : ∀ t, q (t + 1) → d ≤ age t + 1) (hi : p i) (hj : q j)
    (hij : i < j) : i + d ≤ j := by
  obtain ⟨j, rfl⟩ := Nat.exists_eq_add_of_lt hij
  have h₁ := hq (i + j) hj
  have h₂ := h.le_sub hi (Nat.le_add_right i j)
  omega

end Age

end Sync

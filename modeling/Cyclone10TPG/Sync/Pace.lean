import Cyclone10TPG.Sync.Run
import Mathlib.Data.Nat.Count

/-!
# Events at a pace

`Paced p b P j` says that an event happens exactly once in every period of `P` cycles, the first
period beginning after cycle `b`, and in the first `j` cycles of it. The events need not be
equally far apart: two of them are at least `P - j + 1` cycles apart (`le_sub`), and from any
cycle it is less than `P + j` cycles to the next one (`exists_le`).

Their number is exact at the ends of the periods (`count_period`), so a stretch of `L` cycles,
wherever it begins, has at most one event less than `L / P`, and at most two more (`le_count`,
`count_le`).

Numbers also come from a *potential*: when each cycle without a `p` takes one from a potential
that only the cycles with a `q` raise, by `c` each, then the cycles without a `p` are at most `c`
times as many as those with a `q`, and as many as the potential had at first
(`le_count_of_potential`).
-/

namespace Sync

/-- `p` happens once in each period `b + P * m < t ≤ b + P * (m + 1)`, in its first `j` cycles. -/
structure Paced (p : ℕ → Prop) (b P j : ℕ) : Prop where
  pos : 0 < P
  jitter : j ≤ P
  once : ∀ m, ∃ t, b + P * m < t ∧ t ≤ b + P * m + j ∧ p t ∧
    ∀ u, b + P * m < u → u ≤ b + P * (m + 1) → p u → u = t

/-- Without an event the count stands still. -/
theorem count_eq_of_not {p : ℕ → Prop} [DecidablePred p] {a c : ℕ} (hac : a ≤ c)
    (h : ∀ t, a ≤ t → t < c → ¬ p t) : Nat.count p c = Nat.count p a := by
  induction c, hac using Nat.le_induction with
  | base => rfl
  | succ c hc ih =>
    rw [Nat.count_succ, if_neg (h c hc (Nat.lt_succ_self c)), Nat.add_zero]
    exact ih fun t ht ht' => h t ht (Nat.lt_succ_of_lt ht')

namespace Paced

variable {p : ℕ → Prop} {b P j : ℕ}

/-- Every later cycle is in a period. -/
theorem exists_period (h : Paced p b P j) {t : ℕ} (ht : b < t) :
    ∃ m, b + P * m < t ∧ t ≤ b + P * (m + 1) := by
  refine ⟨(t - b - 1) / P, ?_, ?_⟩
  · have hle := Nat.mul_div_le (t - b - 1) P
    omega
  · have hlt := Nat.lt_mul_div_succ (t - b - 1) h.pos
    omega

/-- An event is in the first cycles of its period. -/
theorem le_jitter (h : Paced p b P j) {m t : ℕ} (hlt : b + P * m < t) (hle : t ≤ b + P * (m + 1))
    (ht : p t) : t ≤ b + P * m + j := by
  obtain ⟨u, -, hu, -, huniq⟩ := h.once m
  rwa [huniq t hlt hle ht]

/-! ### Distances -/

/-- Two events are not closer than this. -/
theorem le_sub (h : Paced p b P j) {t t' : ℕ} (ht : p t) (ht' : p t') (hb : b < t)
    (hlt : t < t') : P + 1 ≤ t' - t + j := by
  obtain ⟨m, hm, hm'⟩ := h.exists_period hb
  have hle := h.le_jitter hm hm' ht
  -- the later event is not in the same period
  have hnext : b + P * (m + 1) < t' := by
    by_contra hno
    obtain ⟨u, -, -, -, huniq⟩ := h.once m
    have hu := huniq t hm hm' ht
    have hu' := huniq t' (hm.trans hlt) (Nat.le_of_not_lt hno) ht'
    omega
  rw [Nat.mul_add_one] at hnext
  omega

/-- After any cycle there is an event in less than `P + j` cycles. -/
theorem exists_le (h : Paced p b P j) {t : ℕ} (ht : b < t + P) :
    ∃ u, t < u ∧ u < t + P + j ∧ b < u ∧ p u := by
  obtain ⟨m, hm, hm'⟩ := h.exists_period ht
  obtain ⟨u, hu, hu', hpu, -⟩ := h.once m
  rw [Nat.mul_add_one] at hm'
  exact ⟨u, by omega, by omega, by omega, hpu⟩

/-! ### Numbers -/

section Count

variable [DecidablePred p]

/-- One event in a period. -/
theorem count_step (h : Paced p b P j) (m : ℕ) :
    Nat.count p (b + P * (m + 1) + 1) = Nat.count p (b + P * m + 1) + 1 := by
  obtain ⟨t, ht, ht', hpt, huniq⟩ := h.once m
  have hle : t ≤ b + P * (m + 1) := by
    have hj := h.jitter
    rw [Nat.mul_add_one]
    omega
  calc Nat.count p (b + P * (m + 1) + 1)
      = Nat.count p (t + 1) := count_eq_of_not (by omega) fun u hu hu' hpu => by
        have hut := huniq u (by omega) (by omega) hpu
        omega
    _ = Nat.count p t + 1 := by rw [Nat.count_succ, if_pos hpt]
    _ = Nat.count p (b + P * m + 1) + 1 := by
      rw [count_eq_of_not (p := p) (a := b + P * m + 1) (c := t) ht fun u hu hu' hpu => ?_]
      have hut := huniq u hu (by omega) hpu
      omega

/-- **One event for each period.** -/
theorem count_period (h : Paced p b P j) (m : ℕ) :
    Nat.count p (b + P * m + 1) = Nat.count p (b + 1) + m := by
  induction m with
  | zero => rfl
  | succ m ih => rw [h.count_step, ih, Nat.add_assoc]

/-- In a stretch of `L` cycles there are at least `L / P - 1` events. -/
theorem le_count (h : Paced p b P j) {t : ℕ} (ht : b < t) (L : ℕ) :
    L / P ≤ Nat.count (fun n => p (t + n)) L + 1 := by
  obtain ⟨m, hm, hm'⟩ := h.exists_period ht
  have hdiv := Nat.mul_div_le L P
  -- the periods that lie in the stretch
  have hend : b + P * (m + L / P) + 1 ≤ t + L := by
    rw [Nat.mul_add]
    omega
  have hfirst := Nat.count_monotone p (Nat.le_succ_of_le hm')
  have hlast := Nat.count_monotone p hend
  rw [h.count_period] at hfirst hlast
  rw [Nat.count_add p t L] at hlast
  omega

/-- In a stretch of `L` cycles there are at most `L / P + 2` events. -/
theorem count_le (h : Paced p b P j) {t : ℕ} (ht : b < t) (L : ℕ) :
    Nat.count (fun n => p (t + n)) L ≤ L / P + 2 := by
  obtain ⟨m, hm, hm'⟩ := h.exists_period ht
  have hdiv := Nat.lt_mul_div_succ L h.pos
  -- the periods that the stretch touches
  have hend : t + L ≤ b + P * (m + L / P + 2) + 1 := by
    rw [show m + L / P + 2 = (m + 1) + (L / P + 1) by omega, Nat.mul_add]
    omega
  have hfirst := Nat.count_monotone p hm
  have hlast := Nat.count_monotone p hend
  rw [h.count_period] at hfirst hlast
  rw [Nat.count_add p t L] at hlast
  omega

end Count

end Paced

/-! ### Potentials -/

/-- **The cycles without a `p`, paid for by a potential.** -/
theorem le_count_of_potential {p q : ℕ → Prop} [DecidablePred p] [DecidablePred q] {Φ : ℕ → ℕ}
    {c t : ℕ} (h : ∀ u, t ≤ u →
      (if p u then 0 else 1) + Φ (u + 1) ≤ Φ u + if q u then c else 0) (L : ℕ) :
    L + Φ (t + L) ≤
      Nat.count (fun n => p (t + n)) L + Φ t + c * Nat.count (fun n => q (t + n)) L := by
  induction L with
  | zero => simp
  | succ L ih =>
    have hstep := h (t + L) (Nat.le_add_right t L)
    rw [Nat.count_succ, Nat.count_succ, ← Nat.add_assoc]
    split_ifs at hstep ⊢ <;> rw [Nat.mul_add] <;> omega

/-! ### Logs -/

/-- A log is as long as its events are many. -/
theorem length_log {α : Type*} (f : ℕ → Option α) (n : ℕ) :
    (log f n).length = Nat.count (fun t => (f t).isSome = true) n := by
  induction n with
  | zero => rfl
  | succ n ih =>
    rw [log_succ, List.length_append, ih, Nat.count_succ]
    cases f n <;> rfl

theorem length_log_le {α : Type*} (f : ℕ → Option α) (n : ℕ) : (log f n).length ≤ n := by
  rw [length_log]
  exact Nat.count_le _

/-- What is in a log has happened. -/
theorem exists_of_mem_log {α : Type*} {f : ℕ → Option α} {n : ℕ} {a : α} (h : a ∈ log f n) :
    ∃ t < n, f t = some a := by
  induction n with
  | zero => exact absurd h List.not_mem_nil
  | succ n ih =>
    rw [log_succ, List.mem_append] at h
    rcases h with h | h
    · obtain ⟨t, ht, hft⟩ := ih h
      exact ⟨t, Nat.lt_succ_of_lt ht, hft⟩
    · exact ⟨n, Nat.lt_succ_self n, Option.mem_toList.mp h⟩

end Sync

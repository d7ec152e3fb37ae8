import Cyclone10TPG.Sync.Run

/-!
# Backlogs

Two logs of the same events, one where they come in and one where they go out again, in order.
What has come in and not gone out is the *backlog*. When a backlog never stands still for more
than `d` cycles, `n` more events have gone out after `n * d` cycles, or all that had come in
(`length_of_progress`). So everything that has come in has gone out after as many times `d`
cycles as the backlog was long (`prefix_of_progress`).
-/

namespace Sync

variable {α : Type*}

/-- The log `out` goes out what comes in with the log `acc`, and from cycle `T` on the next
event goes out within `d` cycles. -/
structure Drains (acc out : ℕ → List α) (T d : ℕ) : Prop where
  prefix_acc : ∀ t, out t <+: acc t
  acc_mono : ∀ {t t'}, t ≤ t' → acc t <+: acc t'
  out_mono : ∀ {t t'}, t ≤ t' → out t <+: out t'
  progress : ∀ t, T ≤ t → (out t).length < (acc t).length →
    ∃ n ≤ d, (out t).length < (out (t + n)).length

namespace Drains

variable {acc out : ℕ → List α} {T d t : ℕ}

/-- **`n` events in `n * d` cycles**, as long as there are any. -/
theorem length_of_progress (h : Drains acc out T d) (ht : T ≤ t) (n : ℕ) :
    min (acc t).length ((out t).length + n) ≤ (out (t + n * d)).length := by
  induction n generalizing t with
  | zero =>
    rw [Nat.zero_mul]
    exact Nat.min_le_right _ _
  | succ n ih =>
    by_cases hlt : (out t).length < (acc t).length
    · -- one event within `d` cycles, and the others after it
      obtain ⟨k, hk, hgrow⟩ := h.progress t ht hlt
      have hrest := ih (t := t + k) (ht.trans (Nat.le_add_right t k))
      have hacc : (acc t).length ≤ (acc (t + k)).length :=
        (h.acc_mono (Nat.le_add_right t k)).length_le
      have hle : t + k + n * d ≤ t + (n + 1) * d := by
        rw [Nat.add_one_mul]
        omega
      have hout : (out (t + k + n * d)).length ≤ (out (t + (n + 1) * d)).length :=
        (h.out_mono hle).length_le
      omega
    · have hout : (out t).length ≤ (out (t + (n + 1) * d)).length :=
        (h.out_mono (Nat.le_add_right t _)).length_le
      omega

/-- **Everything that has come in goes out**, with a backlog of at most `n` events. -/
theorem prefix_of_progress (h : Drains acc out T d) (ht : T ≤ t) {n : ℕ}
    (hn : (acc t).length ≤ (out t).length + n) : acc t <+: out (t + n * d) := by
  have hlen := h.length_of_progress ht n
  rw [Nat.min_eq_left hn] at hlen
  exact List.prefix_of_prefix_length_le (h.acc_mono (Nat.le_add_right t _))
    (h.prefix_acc (t + n * d)) hlen

end Drains

end Sync

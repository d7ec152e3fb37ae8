import Mathlib.Data.List.Basic
import Mathlib.Data.Nat.Basic
import Mathlib.Order.Nat
import Mathlib.Tactic.Common

/-!
# Runs of a synchronous circuit

A synchronous circuit is a step function `σ → ι → σ`: the registers after a clock
edge, from the registers and the inputs of the cycle that the edge ends. Its run on
an input stream is the sequence of register values `run step s₀ inp t`, one for each
cycle `t`; cycle `0` is the first cycle after reset.

Two things are read off a run.

* *Invariants*: `run_invariant` is the induction rule for a property of the
  registers, `run_invariant_of` the one for a property that needs the inputs to
  respect an assumption.
* *Logs*: `log f n` is the list of the events `f t` of the cycles `t < n`, in order.
  A log only ever grows (`log_mono`), which is what makes "is a prefix of" the
  natural way to compare two of them.
-/

namespace Sync

variable {σ ι α β : Type*}

/-! ### Runs -/

/-- The registers in cycle `t`: the reset registers in cycle `0`, and then one clock
edge after the other. -/
def run (step : σ → ι → σ) (s₀ : σ) (inp : ℕ → ι) : ℕ → σ
  | 0 => s₀
  | t + 1 => step (run step s₀ inp t) (inp t)

section Run

variable {step : σ → ι → σ} {s₀ : σ} {inp : ℕ → ι}

@[simp] theorem run_zero : run step s₀ inp 0 = s₀ := rfl

theorem run_succ (t : ℕ) : run step s₀ inp (t + 1) = step (run step s₀ inp t) (inp t) := rfl

/-- **The invariant rule**, under an assumption `A` on the inputs: a property that
holds after reset and that every step under `A` preserves holds in every cycle. -/
theorem run_invariant_of {P : σ → Prop} {A : ι → Prop} (hA : ∀ t, A (inp t)) (h₀ : P s₀)
    (hstep : ∀ s i, A i → P s → P (step s i)) : ∀ t, P (run step s₀ inp t) := by
  intro t
  induction t with
  | zero => exact h₀
  | succ t ih => exact hstep _ _ (hA t) ih

/-- **The invariant rule**: a property that holds after reset and that every step
preserves holds in every cycle, whatever the inputs. -/
theorem run_invariant {P : σ → Prop} (h₀ : P s₀) (hstep : ∀ s i, P s → P (step s i)) :
    ∀ t, P (run step s₀ inp t) :=
  run_invariant_of (A := fun _ => True) (fun _ => trivial) h₀ fun s i _ => hstep s i

/-- Two input streams that agree below `n` give the same registers up to cycle `n`. -/
theorem run_congr {inp' : ℕ → ι} {n : ℕ} (h : ∀ t < n, inp t = inp' t) :
    run step s₀ inp n = run step s₀ inp' n := by
  induction n with
  | zero => rfl
  | succ n ih =>
    rw [run_succ, run_succ, ih fun t ht => h t (Nat.lt_succ_of_lt ht), h n (Nat.lt_succ_self n)]

/-- **The lockstep rule** for two runs, up to cycle `n`: a relation that holds after reset and
that every pair of steps below `n` preserves holds up to `n`. -/
theorem run_lockstep {R : σ → σ → Prop} {s₀' : σ} {inp' : ℕ → ι} {n : ℕ} (h₀ : R s₀ s₀')
    (hstep : ∀ t < n, R (run step s₀ inp t) (run step s₀' inp' t) →
      R (run step s₀ inp (t + 1)) (run step s₀' inp' (t + 1))) :
    ∀ t ≤ n, R (run step s₀ inp t) (run step s₀' inp' t) := by
  intro t
  induction t with
  | zero => exact fun _ => h₀
  | succ t ih => exact fun ht => hstep t ht (ih (Nat.le_of_succ_le ht))

/-- **The feedback rule**: the inputs can be chosen by what the registers are. -/
theorem exists_feedback (step : σ → ι → σ) (s₀ : σ) (f : σ → ι) :
    ∃ inp, ∀ t, inp t = f (run step s₀ inp t) := by
  -- the registers of the closed loop
  let closed : ℕ → σ := run (fun s (_ : Unit) => step s (f s)) s₀ fun _ => ()
  refine ⟨fun t => f (closed t), fun t => congrArg f ?_⟩
  induction t with
  | zero => rfl
  | succ t ih => rw [run_succ, ← ih]; rfl

end Run

/-! ### Progress -/

/-- **The progress rule.** When every cycle with `P` either has `Q` or hands `P` on and lowers
the measure, then from a cycle with `P` a cycle with `Q` is reached, within as many steps as
the measure says. -/
theorem exists_of_measure {P Q : ℕ → Prop} {m : ℕ → ℕ}
    (h : ∀ t, P t → ¬ Q t → P (t + 1) ∧ m (t + 1) < m t) {t : ℕ} (hP : P t) :
    ∃ n ≤ m t, P (t + n) ∧ Q (t + n) ∧ ∀ k < n, ¬ Q (t + k) ∧ m (t + k + 1) < m (t + k) := by
  induction hm : m t using Nat.strong_induction_on generalizing t with
  | _ b ih =>
    by_cases hQ : Q t
    · exact ⟨0, Nat.zero_le _, hP, hQ, fun k hk => absurd hk (Nat.not_lt_zero k)⟩
    · obtain ⟨hP', hlt⟩ := h t hP hQ
      -- one step, and then the rest from the lower measure
      obtain ⟨n, hn, hPn, hQn, hall⟩ := ih (m (t + 1)) (hm ▸ hlt) hP' rfl
      have hshift : ∀ k, t + 1 + k = t + (k + 1) := fun k => by omega
      rw [hshift] at hPn hQn
      refine ⟨n + 1, by omega, hPn, hQn, ?_⟩
      rintro (_ | k) hk
      · exact ⟨hQ, hlt⟩
      · have hk' := hall k (Nat.lt_of_succ_lt_succ hk)
        rwa [hshift] at hk'

/-- **The fairness rule.** When no cycle without `Q` raises the measure, those with `F` lower it,
and there is always another cycle with `F`, then a first cycle with `Q` is reached. -/
theorem exists_of_fair {F Q : ℕ → Prop} {m : ℕ → ℕ} (hle : ∀ t, ¬ Q t → m (t + 1) ≤ m t)
    (hlt : ∀ t, ¬ Q t → F t → m (t + 1) < m t) (hF : ∀ t, ∃ u, t ≤ u ∧ F u) (t : ℕ) :
    ∃ u, t ≤ u ∧ Q u ∧ ∀ v, t ≤ v → v < u → ¬ Q v := by
  classical
  have hex : ∃ u, t ≤ u ∧ Q u := by
    by_contra hno
    have hQ : ∀ u, t ≤ u → ¬ Q u := fun u hu hq => hno ⟨u, hu, hq⟩
    -- without `Q` the measure would go down for ever
    have hanti : ∀ u v, t ≤ u → u ≤ v → m v ≤ m u := by
      intro u v hu huv
      induction v, huv using Nat.le_induction with
      | base => exact le_rfl
      | succ v huv ih => exact (hle v (hQ v (hu.trans huv))).trans ih
    have hdown : ∀ b u, t ≤ u → m u ≤ b → False := by
      intro b
      induction b using Nat.strong_induction_on with
      | _ b ih =>
        intro u hu hb
        obtain ⟨v, huv, hv⟩ := hF u
        have hdrop := hlt v (hQ v (hu.trans huv)) hv
        have hmono := hanti u v hu huv
        exact ih (m (v + 1)) (by omega) (v + 1) (by omega) le_rfl
    exact hdown (m t) t le_rfl le_rfl
  refine ⟨Nat.find hex, (Nat.find_spec hex).1, (Nat.find_spec hex).2, fun v htv hv hq => ?_⟩
  exact Nat.find_min hex hv ⟨htv, hq⟩

/-! ### Logs -/

/-- The events of the cycles below `n`, in order. -/
def log (f : ℕ → Option α) : ℕ → List α
  | 0 => []
  | n + 1 => log f n ++ (f n).toList

@[simp] theorem log_zero (f : ℕ → Option α) : log f 0 = [] := rfl

theorem log_succ (f : ℕ → Option α) (n : ℕ) : log f (n + 1) = log f n ++ (f n).toList := rfl

theorem log_succ_of_none {f : ℕ → Option α} {n : ℕ} (h : f n = none) :
    log f (n + 1) = log f n := by
  rw [log_succ, h, Option.toList_none, List.append_nil]

theorem log_succ_of_some {f : ℕ → Option α} {n : ℕ} {a : α} (h : f n = some a) :
    log f (n + 1) = log f n ++ [a] := by
  rw [log_succ, h, Option.toList_some]

/-- A log only grows. -/
theorem log_mono (f : ℕ → Option α) {m n : ℕ} (h : m ≤ n) : log f m <+: log f n := by
  induction n with
  | zero =>
    obtain rfl := Nat.le_zero.mp h
    exact List.prefix_rfl
  | succ n ih =>
    rcases Nat.le_succ_iff.mp h with h' | rfl
    · exact (ih h').trans (List.prefix_append _ _)
    · exact List.prefix_rfl

/-- What is in a log stays at its place. -/
theorem getElem?_mono {l l' : List α} (h : l <+: l') {k : ℕ} {a : α} (ha : l[k]? = some a) :
    l'[k]? = some a := by
  obtain ⟨m, rfl⟩ := h
  rw [List.getElem?_append_left (List.getElem?_eq_some_iff.mp ha).1, ha]

/-- Mapping every event maps the log. -/
theorem log_map (g : α → β) (f : ℕ → Option α) (n : ℕ) :
    log (fun t => (f t).map g) n = (log f n).map g := by
  induction n with
  | zero => rfl
  | succ n ih => rw [log_succ, log_succ, ih, List.map_append]; cases f n <;> rfl

/-- Events that agree below `n` give the same log. -/
theorem log_congr {f g : ℕ → Option α} {n : ℕ} (h : ∀ t < n, f t = g t) : log f n = log g n := by
  induction n with
  | zero => rfl
  | succ n ih =>
    rw [log_succ, log_succ, ih fun t ht => h t (Nat.lt_succ_of_lt ht), h n (Nat.lt_succ_self n)]

/-- A log without events. -/
theorem log_eq_nil {f : ℕ → Option α} {n : ℕ} (h : ∀ t < n, f t = none) : log f n = [] := by
  induction n with
  | zero => rfl
  | succ n ih =>
    rw [log_succ_of_none (h n (Nat.lt_succ_self n)), ih fun t ht => h t (Nat.lt_succ_of_lt ht)]

/-- A log of cycles with an event each. -/
theorem log_eq_map {f : ℕ → Option α} {g : ℕ → α} {n : ℕ} (h : ∀ t < n, f t = some (g t)) :
    log f n = (List.range n).map g := by
  induction n with
  | zero => rfl
  | succ n ih =>
    rw [log_succ_of_some (h n (Nat.lt_succ_self n)), ih fun t ht => h t (Nat.lt_succ_of_lt ht),
      List.range_succ, List.map_append]
    rfl

/-- A log, cut after `m` cycles. -/
theorem log_add (f : ℕ → Option α) (m n : ℕ) :
    log f (m + n) = log f m ++ log (fun t => f (m + t)) n := by
  induction n with
  | zero => rw [Nat.add_zero, log_zero, List.append_nil]
  | succ n ih => rw [← Nat.add_assoc, log_succ, ih, log_succ, List.append_assoc]

/-- The log of events that repeat after `p` cycles. -/
theorem log_periodic {f : ℕ → Option α} {p : ℕ} (h : ∀ t, f (p + t) = f t) (m : ℕ) :
    log f (m * p) = (List.replicate m (log f p)).flatten := by
  induction m with
  | zero => rw [Nat.zero_mul]; rfl
  | succ m ih =>
    rw [Nat.succ_mul, Nat.add_comm, log_add, log_congr fun t _ => h t, ih]
    rfl

/-- A list that is repeated gives its own elements first. -/
theorem eq_of_getElem?_repeat {l : List α} {m k : ℕ} {a b : α}
    (ha : (List.replicate m l).flatten[k]? = some a) (hb : l[k]? = some b) : a = b := by
  cases m with
  | zero => exact absurd ha (by simp)
  | succ m =>
    rw [List.replicate_succ, List.flatten_cons,
      getElem?_mono (List.prefix_append l _) hb] at ha
    exact (Option.some.inj ha).symm

/-- Delaying every event by `k` cycles delays the log. -/
theorem log_delay {f g : ℕ → Option α} {k : ℕ} (h₀ : ∀ t < k, g t = none)
    (h : ∀ t, g (t + k) = f t) (n : ℕ) : log g (n + k) = log f n := by
  induction n with
  | zero => rw [Nat.zero_add, log_eq_nil h₀, log_zero]
  | succ n ih => rw [Nat.add_right_comm, log_succ, ih, h, log_succ]

end Sync

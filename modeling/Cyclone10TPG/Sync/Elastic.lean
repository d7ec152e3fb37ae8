import Cyclone10TPG.Sync.Run
import Mathlib.Logic.Function.Iterate

/-!
# Elastic sources

A source of data for a sink that says one cycle ahead whether it will take something. The
source goes through the states of a plain sequence `x, next x, next (next x), …` and shows
what a state has to show in one cycle. When the sink has not been ready, it shows nothing and
keeps the next state *parked* until it has been.

So a source is always `readies` many steps along its sequence, where `readies` counts the
cycles in which the sink has been ready (`elastic_run`), and what it has shown is what the
sequence has to show that far (`log_elasticOut`). That is all that the pattern of stalls
decides.
-/

namespace Sync

variable {X β : Type*}

/-- The state of an elastic source: it shows `x`, or it shows nothing and `x` is next. -/
inductive Elastic (X : Type*)
  | active (x : X)
  | parked (x : X)
  deriving Repr, DecidableEq

/-- One cycle, with the sink ready or not. -/
def elasticStep (next : X → X) : Elastic X → Bool → Elastic X
  | .active x, true => .active (next x)
  | .active x, false => .parked (next x)
  | .parked x, true => .active x
  | .parked x, false => .parked x

/-- What is shown. -/
def elasticOut (out : X → Option β) : Elastic X → Option β
  | .active x => out x
  | .parked _ => none

/-- The number of cycles before `t` in which the sink has been ready. -/
def readies (ready : ℕ → Bool) : ℕ → ℕ
  | 0 => 0
  | t + 1 => readies ready t + (ready t).toNat

section

variable {next : X → X} {x₀ : X} {ready : ℕ → Bool}

theorem readies_succ_of_ready {t : ℕ} (h : ready t = true) :
    readies ready (t + 1) = readies ready t + 1 := by
  rw [readies, h, Bool.toNat_true]

theorem readies_succ_of_not_ready {t : ℕ} (h : ready t = false) :
    readies ready (t + 1) = readies ready t := by
  rw [readies, h, Bool.toNat_false, Nat.add_zero]

theorem readies_mono {t t' : ℕ} (h : t ≤ t') : readies ready t ≤ readies ready t' := by
  induction t' with
  | zero =>
    obtain rfl := Nat.le_zero.mp h
    exact le_rfl
  | succ t' ih =>
    rcases Nat.le_succ_iff.mp h with h | rfl
    · exact (ih h).trans (Nat.le_add_right _ _)
    · exact le_rfl

/-- A sink that has been ready a bounded number of times is not ready any more in the end. -/
theorem exists_forall_not_ready {N : ℕ} (h : ∀ t, readies ready t ≤ N) :
    ∃ T, ∀ t, T ≤ t → ready t = false := by
  by_contra hno
  push Not at hno
  -- otherwise the count passes every number
  have hunbounded : ∀ n, ∃ t, n ≤ readies ready t := by
    intro n
    induction n with
    | zero => exact ⟨0, Nat.zero_le _⟩
    | succ n ih =>
      obtain ⟨T, hT⟩ := ih
      obtain ⟨t, ht, hready⟩ := hno T
      refine ⟨t + 1, ?_⟩
      rw [readies_succ_of_ready (eq_true_of_ne_false hready)]
      exact Nat.succ_le_succ (hT.trans (readies_mono ht))
  obtain ⟨t, ht⟩ := hunbounded (N + 1)
  exact absurd (ht.trans (h t)) (Nat.not_succ_le_self N)

/-- **The source is as many steps along its sequence as the sink has been ready.** It shows
that state if the sink was ready in the cycle before, and has the next one parked if not. -/
theorem elastic_run (t : ℕ) :
    run (elasticStep next) (.active x₀) ready (t + 1) =
      if ready t then .active (next^[readies ready (t + 1)] x₀)
      else .parked (next^[readies ready (t + 1) + 1] x₀) := by
  induction t with
  | zero =>
    rw [run_succ, run_zero]
    cases h : ready 0 with
    | true => rw [readies_succ_of_ready h]; rfl
    | false => rw [readies_succ_of_not_ready h]; rfl
  | succ t ih =>
    rw [run_succ, ih]
    cases h' : ready (t + 1) with
    | true =>
      rw [readies_succ_of_ready h', Function.iterate_succ_apply']
      cases ready t <;> rfl
    | false =>
      rw [readies_succ_of_not_ready h', Function.iterate_succ_apply']
      cases ready t <;> rfl

/-- **What has been shown** in the cycles up to `n` depends on the number of ready cycles
only. -/
theorem log_elasticOut (out : X → Option β) (n : ℕ) :
    log (fun t => elasticOut out (run (elasticStep next) (.active x₀) ready t)) (n + 1) =
      log (fun k => out (next^[k] x₀)) (readies ready n + 1) := by
  induction n with
  | zero => rfl
  | succ n ih =>
    rw [log_succ, ih, elastic_run]
    cases h : ready n with
    | true => rw [if_pos rfl, readies_succ_of_ready h, log_succ _ (readies ready n + 1)]; rfl
    | false =>
      rw [if_neg Bool.false_ne_true, readies_succ_of_not_ready h]
      exact List.append_nil _

/-- Two patterns of stalls: one of the two has shown a prefix of what the other has. -/
theorem log_elasticOut_comparable (out : X → Option β) (ready ready' : ℕ → Bool) (n n' : ℕ) :
    log (fun t => elasticOut out (run (elasticStep next) (.active x₀) ready t)) n <+:
        log (fun t => elasticOut out (run (elasticStep next) (.active x₀) ready' t)) n' ∨
      log (fun t => elasticOut out (run (elasticStep next) (.active x₀) ready' t)) n' <+:
        log (fun t => elasticOut out (run (elasticStep next) (.active x₀) ready t)) n := by
  cases n with
  | zero => exact Or.inl List.nil_prefix
  | succ n =>
    cases n' with
    | zero => exact Or.inr List.nil_prefix
    | succ n' =>
      rw [log_elasticOut, log_elasticOut]
      exact (Nat.le_total _ _).imp (log_mono _) (log_mono _)

/-- Something is shown only when the sink was ready in the cycle before. -/
theorem ready_of_elasticOut {out : X → Option β} {t : ℕ}
    (h : elasticOut out (run (elasticStep next) (.active x₀) ready (t + 1)) ≠ none) :
    ready t = true := by
  rw [elastic_run] at h
  cases hr : ready t with
  | true => rfl
  | false => rw [hr] at h; exact absurd rfl h

end

end Sync

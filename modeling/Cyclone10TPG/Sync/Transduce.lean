import Cyclone10TPG.Sync.Run

/-!
# Transducers and logs

A transducer maps a list to a list of the same length. It goes over the list with a state,
and what it makes of an element depends on the state that the elements before it lead to.

A circuit that sees an element in some of its cycles is one when the idle cycles between them
do not matter: then its state is always that of the elements so far (`foldl_log`), and the
log of what it shows is the transducer on the log of what it has seen (`log_transduce`).
-/

namespace Sync

variable {σ α β : Type*}

/-- The transducer with the given next state and output, from the state `s`. -/
def transduce (next : σ → α → σ) (emit : σ → α → β) : σ → List α → List β
  | _, [] => []
  | s, a :: l => emit s a :: transduce next emit (next s a) l

section

variable {next : σ → α → σ} {emit : σ → α → β} {s : σ}

/-- The output of a last element. -/
theorem transduce_concat (l : List α) (a : α) :
    transduce next emit s (l ++ [a]) = transduce next emit s l ++ [emit (l.foldl next s) a] := by
  induction l generalizing s with
  | nil => rfl
  | cons b l ih =>
    show emit s b :: transduce next emit (next s b) (l ++ [a]) = _
    rw [ih]
    rfl

/-- A list in two parts. -/
theorem transduce_append (l l' : List α) :
    transduce next emit s (l ++ l') =
      transduce next emit s l ++ transduce next emit (l.foldl next s) l' := by
  induction l generalizing s with
  | nil => rfl
  | cons a l ih =>
    show emit s a :: transduce next emit (next s a) (l ++ l') = _
    rw [ih]
    rfl

/-- The first elements come out first. -/
theorem transduce_take (l : List α) (k : ℕ) :
    transduce next emit s (l.take k) = (transduce next emit s l).take k := by
  induction l generalizing s k with
  | nil =>
    rw [List.take_nil]
    exact List.take_nil.symm
  | cons a l ih =>
    cases k with
    | zero => rfl
    | succ k => exact congrArg (List.cons _) (ih k)

/-- Elements that leave the state as it is. -/
theorem foldl_of_fixed {l : List α} (h : ∀ a ∈ l, next s a = s) : l.foldl next s = s := by
  induction l with
  | nil => rfl
  | cons a l ih =>
    obtain ⟨ha, hl⟩ := List.forall_mem_cons.mp h
    rw [List.foldl_cons, ha, ih hl]

theorem transduce_of_fixed {l : List α} (h : ∀ a ∈ l, next s a = s) :
    transduce next emit s l = l.map (emit s) := by
  induction l with
  | nil => rfl
  | cons a l ih =>
    obtain ⟨ha, hl⟩ := List.forall_mem_cons.mp h
    show emit s a :: transduce next emit (next s a) l = _
    rw [ha, ih hl]
    rfl

/-- A list that leads back to the state, over and over. -/
theorem transduce_replicate {l : List α} (h : l.foldl next s = s) (q : ℕ) (l' : List α) :
    transduce next emit s ((List.replicate q l).flatten ++ l') =
      (List.replicate q (transduce next emit s l)).flatten ++ transduce next emit s l' := by
  induction q with
  | zero => rfl
  | succ q ih =>
    rw [List.replicate_succ, List.flatten_cons, List.append_assoc, transduce_append, h, ih]
    simp only [List.replicate_succ, List.flatten_cons, List.append_assoc]

/-- The state of a circuit that moves on with an element, and stands still without one. -/
theorem foldl_log {f : ℕ → Option α} {q : ℕ → σ} {n : ℕ} (h₀ : q 0 = s)
    (h : ∀ t < n, q (t + 1) = (f t).elim (q t) (next (q t))) :
    q n = (log f n).foldl next s := by
  induction n with
  | zero => exact h₀
  | succ n ih =>
    have ih' := ih fun t ht => h t (Nat.lt_succ_of_lt ht)
    rw [h n (Nat.lt_succ_self n), log_succ, List.foldl_append, ← ih']
    cases f n <;> rfl

/-- **The log of a circuit that is a transducer** in every cycle with an element. -/
theorem log_transduce {f : ℕ → Option α} {g : ℕ → Option β} {n : ℕ}
    (h : ∀ t < n, g t = (f t).map (emit ((log f t).foldl next s))) :
    log g n = transduce next emit s (log f n) := by
  induction n with
  | zero => rfl
  | succ n ih =>
    have ih' := ih fun t ht => h t (Nat.lt_succ_of_lt ht)
    have hg := h n (Nat.lt_succ_self n)
    cases hf : f n with
    | none => rw [log_succ_of_none hf, log_succ_of_none (by rw [hg, hf]; rfl), ih']
    | some a =>
      rw [hf] at hg
      rw [log_succ_of_some hf, log_succ_of_some hg, transduce_concat, ih']

/-- Conversely, a last element that comes out right shows the state it was met in. -/
theorem emit_of_log_transduce {f : ℕ → Option α} {g : ℕ → Option β} {n : ℕ} {a : α} {b : β}
    (h : log g (n + 1) = transduce next emit s (log f (n + 1))) (hf : f n = some a)
    (hg : g n = some b) : b = emit ((log f n).foldl next s) a := by
  rw [log_succ_of_some hf, log_succ_of_some hg, transduce_concat] at h
  exact List.singleton_injective (List.append_inj_right' h rfl)

end

end Sync

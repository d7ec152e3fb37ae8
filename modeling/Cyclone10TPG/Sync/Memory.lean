import Mathlib.Data.List.Basic
import Mathlib.Logic.Function.Basic

/-!
# An ideal memory

A memory `α → δ` that executes reads and partial writes one after another. A write
carries some `w : ω`, and `put w old` is the word that it leaves, so that byte enables and
the like are the business of `put`.

`memExec` is the memory after a list of operations and `memReads` the list of the words
that its reads return. Both are computed from the front; the lemmas `memExec_concat` and
`memReads_concat` take the last operation off, as a run that issues one operation after
the other needs it. More operations never change what the earlier ones have returned
(`memReads_mono`).
-/

namespace Sync

/-- An operation on a memory with addresses `α`. -/
inductive MemOp (α ω : Type*)
  | read (a : α)
  | write (a : α) (w : ω)
  deriving Repr, DecidableEq

section

variable {α ω δ : Type*} [DecidableEq α] (put : ω → δ → δ)

/-- The memory after one operation. -/
def memStep (m : α → δ) : MemOp α ω → α → δ
  | .read _ => m
  | .write a w => Function.update m a (put w (m a))

/-- The memory after a list of operations. -/
def memExec (m : α → δ) (ops : List (MemOp α ω)) : α → δ := ops.foldl (memStep put) m

/-- What one operation returns. -/
def memOut (m : α → δ) : MemOp α ω → Option δ
  | .read a => some (m a)
  | .write _ _ => none

/-- The words that the reads in a list of operations return. -/
def memReads (m : α → δ) : List (MemOp α ω) → List δ
  | [] => []
  | op :: ops => (memOut m op).toList ++ memReads (memStep put m op) ops

variable {put} {m : α → δ}

theorem memExec_append (ops ops' : List (MemOp α ω)) :
    memExec put m (ops ++ ops') = memExec put (memExec put m ops) ops' :=
  List.foldl_append

theorem memExec_concat (ops : List (MemOp α ω)) (op : MemOp α ω) :
    memExec put m (ops ++ [op]) = memStep put (memExec put m ops) op :=
  memExec_append ops [op]

theorem memReads_append (ops ops' : List (MemOp α ω)) :
    memReads put m (ops ++ ops') = memReads put m ops ++ memReads put (memExec put m ops) ops' := by
  induction ops generalizing m with
  | nil => rfl
  | cons op ops ih =>
    rw [List.cons_append, memReads, memReads, ih, List.append_assoc]
    rfl

theorem memReads_concat (ops : List (MemOp α ω)) (op : MemOp α ω) :
    memReads put m (ops ++ [op]) =
      memReads put m ops ++ (memOut (memExec put m ops) op).toList := by
  rw [memReads_append, memReads, memReads, List.append_nil]

/-- Later operations do not change what earlier ones have returned. -/
theorem memReads_mono {ops ops' : List (MemOp α ω)} (h : ops <+: ops') :
    memReads put m ops <+: memReads put m ops' := by
  obtain ⟨rest, rfl⟩ := h
  rw [memReads_append]
  exact List.prefix_append _ _

end

end Sync

import Cyclone10TPG.Video.LineBuffer

/-!
# The padding stalls for good

Whether the machine can leave `WAIT` is decided by the counters alone. The read position stands
still, and the writer either gets past it or is held up before. `WriterPasses` says which: the
column must be one that `hincnt` can exceed, and the line one that the writer is on or will still
come to. `readlinebuffer` has two alternatives for read positions beyond the input image, but
they look at the input counters, which never get there.

So a machine that waits goes on exactly when `WriterPasses` holds (`exists_valid_iff`). With an
output at least as wide as the input image, column `hinsize - 1` is reached and never left
(`exists_forall_not_valid`).
-/

namespace Cyclone10
namespace Video
namespace Padding

open Sync

/-! ### The read position and the writer -/

/-- The writer gets ahead of the read position, or is ahead of it already. In line 0 it is held
up only before the read position in its own line 0; in the other lines it is held up as soon as
it has reached the line. -/
def Regs.WriterPasses (s : Regs) : Prop :=
  s.houtcnt < hinsize - 1 ∧
    if s.voutcnt = 0 then s.houtcnt ≤ s.hincnt ∨ 0 < s.vincnt
    else s.voutcnt < s.vincnt ∨ (s.voutcnt = s.vincnt ∧ s.houtcnt < s.hincnt)

/-- The machine does not wait, or for a read position that the writer passes. -/
def Regs.CanGo (s : Regs) : Prop := s.state = .wait → s.WriterPasses

section Step

variable {W H : ℕ} {s : Regs}

/-- The state and the read position after a cycle of waiting. -/
theorem step_wait (hw : s.state = .wait) (doutReady : Bool) :
    (step W H s doutReady).state =
        (if doutReady && readlinebuffer s then s.savedstate else .wait) ∧
      (step W H s doutReady).savedstate = s.savedstate ∧
      (step W H s doutReady).houtcnt = s.houtcnt ∧ (step W H s doutReady).voutcnt = s.voutcnt := by
  obtain ⟨state, savedstate, houtcnt, voutcnt, hincnt, vincnt, linebuffer, latch⟩ := s
  obtain rfl : state = .wait := hw
  unfold step nextState
  split_ifs <;> exact ⟨rfl, rfl, rfl, rfl⟩

/-- **A writer that passes comes closer** as long as it is not ahead. -/
theorem Regs.WriterPasses.step (h : s.WriterPasses) (hs : s.InImage) (hw : s.state = .wait)
    (hno : readlinebuffer s = false) (doutReady : Bool) :
    (Padding.step W H s doutReady).WriterPasses ∧
      s.houtcnt + 1 - (Padding.step W H s doutReady).hincnt < s.houtcnt + 1 - s.hincnt := by
  obtain ⟨-, -, hh', hv'⟩ := step_wait (W := W) (H := H) hw doutReady
  have hcnt : ((Padding.step W H s doutReady).hincnt, (Padding.step W H s doutReady).vincnt) =
      incnt s := rfl
  have hbehind : ¬ (s.houtcnt < s.hincnt ∧ s.voutcnt ≤ s.vincnt) := by
    rw [← readlinebuffer_iff hs, hno]
    exact Bool.false_ne_true
  obtain ⟨hcol, hline⟩ := h
  have hcol' : s.houtcnt < 299 := hcol
  have hwrite : writelinebuffer s = true := by
    rw [writelinebuffer_iff]
    split_ifs at hline with hv <;> omega
  -- the writer is before the read position or at it, so it stays in its line
  have hle : s.hincnt ≤ s.houtcnt := by
    split_ifs at hline with hv <;> omega
  rw [incnt_of_lt hs hwrite (Nat.lt_of_le_of_lt hle hcol'), Prod.mk.injEq] at hcnt
  unfold Regs.WriterPasses
  rw [hh', hv', hcnt.1, hcnt.2]
  refine ⟨⟨hcol, ?_⟩, by omega⟩
  split_ifs at hline ⊢ with hv <;> omega

/-- **A writer that does not pass never will.** -/
theorem not_writerPasses_step (h : ¬ s.WriterPasses) (hs : s.InImage) (hw : s.state = .wait)
    (doutReady : Bool) :
    (step W H s doutReady).state = .wait ∧ ¬ (step W H s doutReady).WriterPasses := by
  obtain ⟨hstate, -, hh', hv'⟩ := step_wait (W := W) (H := H) hw doutReady
  have hcnt : ((step W H s doutReady).hincnt, (step W H s doutReady).vincnt) = incnt s := rfl
  have hin := hs.hincnt
  have hsize : hinsize - 1 = 299 := rfl
  unfold Regs.WriterPasses at h ⊢
  rw [hsize] at h ⊢
  have hno : readlinebuffer s = false := by
    by_contra hread
    have hahead := (readlinebuffer_iff hs).mp (Bool.eq_true_of_not_eq_false hread)
    refine h ⟨by omega, ?_⟩
    split_ifs <;> omega
  refine ⟨?_, ?_⟩
  · rw [hstate, hno, Bool.and_false, if_neg Bool.false_ne_true]
  · rw [hh', hv']
    by_cases hcol : s.houtcnt < 299
    · -- the writer is held up
      have hline : ¬ (if s.voutcnt = 0 then s.houtcnt ≤ s.hincnt ∨ 0 < s.vincnt
          else s.voutcnt < s.vincnt ∨ (s.voutcnt = s.vincnt ∧ s.houtcnt < s.hincnt)) :=
        fun hline => h ⟨hcol, hline⟩
      have hheld : writelinebuffer s = false := by
        by_contra hwrite
        have hwrite' := writelinebuffer_iff.mp (Bool.eq_true_of_not_eq_false hwrite)
        split_ifs at hline with hv <;> omega
      rw [incnt_of_not_write hheld, Prod.mk.injEq] at hcnt
      rw [hcnt.1, hcnt.2]
      exact h
    · exact fun hpass => hcol hpass.1

/-- A state that sends. -/
theorem output_valid (s : Regs) :
    (output W H s).valid = true ↔ s.state ≠ .idle ∧ s.state ≠ .wait ∧ s.state ≠ .undef := by
  unfold output
  cases s.state <;> simp

/-- After the idle state, the machine sends, or waits at the start of the frame. -/
theorem step_idle (hi : s.state = .idle) (doutReady : Bool) :
    (step W H s doutReady).state = .sendctrl1 ∨
      ((step W H s doutReady).state = .wait ∧ (step W H s doutReady).savedstate = .sendctrl1 ∧
        (step W H s doutReady).WriterPasses) := by
  have hnext : nextState W H s doutReady = s.goTo doutReady .sendctrl1 := by
    unfold nextState
    rw [hi]
  have hcnt : outcnt W s = (0, 0) := by
    unfold outcnt
    rw [hi]
    rfl
  have hstate : (step W H s doutReady).state = (s.goTo doutReady .sendctrl1).state := by
    rw [← hnext]
    rfl
  have hsaved : (step W H s doutReady).savedstate = (s.goTo doutReady .sendctrl1).savedstate := by
    rw [← hnext]
    rfl
  unfold Regs.goTo at hstate hsaved
  cases hgo : doutReady && readlinebuffer s with
  | true =>
    rw [hgo, if_pos rfl] at hstate
    exact Or.inl hstate
  | false =>
    rw [hgo, if_neg Bool.false_ne_true] at hstate hsaved
    refine Or.inr ⟨hstate, hsaved, ?_⟩
    show (outcnt W s).1 < 299 ∧ if (outcnt W s).2 = 0 then (outcnt W s).1 ≤ _ ∨ _ else _
    rw [hcnt]
    exact ⟨Nat.succ_pos 298, Or.inl (Nat.zero_le _)⟩

end Step

/-! ### Runs -/

/-- The sink is ready from cycle `t` on. -/
def keepReady (ready : ℕ → Bool) (t k : ℕ) : Bool := decide (t ≤ k) || ready k

section Run

variable {W H : ℕ} {s₀ : Regs} {ready : ℕ → Bool} {t : ℕ}

theorem keepReady_of_le {k : ℕ} (h : t ≤ k) : keepReady ready t k = true := by
  rw [keepReady, decide_eq_true h, Bool.true_or]

/-- While the sink is ready, a machine that waits for a position that the writer passes goes on
to the saved state. -/
theorem exists_state_eq (hready : ∀ k, t ≤ k → ready k = true)
    (hw : (regsAt W H s₀ ready t).state = .wait)
    (hp : (regsAt W H s₀ ready t).WriterPasses) :
    ∃ n, (regsAt W H s₀ ready (t + n)).state = (regsAt W H s₀ ready t).savedstate := by
  obtain ⟨x, hx⟩ : ∃ x, (regsAt W H s₀ ready t).savedstate = x := ⟨_, rfl⟩
  rw [hx]
  -- the distance of the writer goes down until it is ahead
  have hstep : ∀ k,
      ((regsAt W H s₀ ready k).state = .wait ∧ (regsAt W H s₀ ready k).savedstate = x ∧
        (regsAt W H s₀ ready k).WriterPasses) →
      ¬ readlinebuffer (regsAt W H s₀ ready k) = true →
      ((regsAt W H s₀ ready (k + 1)).state = .wait ∧ (regsAt W H s₀ ready (k + 1)).savedstate = x ∧
          (regsAt W H s₀ ready (k + 1)).WriterPasses) ∧
        (regsAt W H s₀ ready (k + 1)).houtcnt + 1 - (regsAt W H s₀ ready (k + 1)).hincnt <
          (regsAt W H s₀ ready k).houtcnt + 1 - (regsAt W H s₀ ready k).hincnt := by
    rintro k ⟨hw, hsaved, hp⟩ hno
    have hno' := Bool.eq_false_of_not_eq_true hno
    obtain ⟨hstate, hsaved', hh', -⟩ := step_wait (W := W) (H := H) hw (ready k)
    obtain ⟨hp', hlt⟩ :=
      hp.step (W := W) (H := H) (inImage_regsAt W H s₀ ready k) hw hno' (ready k)
    rw [hno', Bool.and_false, if_neg Bool.false_ne_true] at hstate
    refine ⟨⟨hstate, hsaved'.trans hsaved, hp'⟩, ?_⟩
    show (step W H (regsAt W H s₀ ready k) (ready k)).houtcnt + 1 - _ < _
    rw [hh']
    exact hlt
  obtain ⟨n, -, ⟨hwait, hsaved, -⟩, hread, -⟩ := exists_of_measure
    (P := fun k => (regsAt W H s₀ ready k).state = .wait ∧
      (regsAt W H s₀ ready k).savedstate = x ∧ (regsAt W H s₀ ready k).WriterPasses)
    (Q := fun k => readlinebuffer (regsAt W H s₀ ready k) = true)
    (m := fun k => (regsAt W H s₀ ready k).houtcnt + 1 - (regsAt W H s₀ ready k).hincnt)
    hstep ⟨hw, hx, hp⟩
  refine ⟨n + 1, ?_⟩
  show (step W H (regsAt W H s₀ ready (t + n)) (ready (t + n))).state = x
  rw [(step_wait hwait _).1, hready _ (Nat.le_add_right t n), hread, hsaved]
  rfl

/-- A machine that waits for a position that the writer does not pass waits for good. -/
theorem wait_of_not_writerPasses (hw : (regsAt W H s₀ ready t).state = .wait)
    (hp : ¬ (regsAt W H s₀ ready t).WriterPasses) (n : ℕ) :
    (regsAt W H s₀ ready (t + n)).state = .wait ∧
      ¬ (regsAt W H s₀ ready (t + n)).WriterPasses := by
  induction n with
  | zero => exact ⟨hw, hp⟩
  | succ n ih =>
    exact not_writerPasses_step ih.2 (inImage_regsAt W H s₀ ready (t + n)) ih.1 (ready (t + n))

/-- The machine is in a shown state, or waits with one saved. -/
theorem state_cases (W H : ℕ) (s₀ : Regs) (ready : ℕ → Bool) (t : ℕ) :
    (regsAt W H s₀ ready t).state ≠ .undef ∧
      ((regsAt W H s₀ ready t).state = .wait → (regsAt W H s₀ ready t).savedstate ≠ .undef ∧
        (regsAt W H s₀ ready t).savedstate ≠ .wait) := by
  have hok := (elastic_regsAt (W := W) (H := H) s₀ ready t).1
  generalize regsAt W H s₀ ready t = s at hok
  rcases hok with ⟨hundef, hwait⟩ | ⟨hwait, hundef', hwait'⟩
  · refine ⟨fun h => hundef (congrArg State.tpg h), fun h => ?_⟩
    exact absurd (congrArg State.tpg h) hwait
  · refine ⟨fun h => ?_, fun _ => ⟨fun h => ?_, fun h => ?_⟩⟩
    · have hundef : s.tpg.state = .undef := congrArg State.tpg h
      rw [hwait] at hundef
      cases hundef
    · exact hundef' (congrArg State.tpg h)
    · exact hwait' (congrArg State.tpg h)

/-- From the idle state on, a ready sink gets a beat. -/
theorem exists_valid_of_idle (hready : ∀ k, t ≤ k → ready k = true)
    (hi : (regsAt W H s₀ ready t).state = .idle) :
    ∃ n, validAt W H s₀ ready (t + n) = true := by
  rcases step_idle (W := W) (H := H) hi (ready t) with hnext | ⟨hwait, hsaved, hp⟩
  · refine ⟨1, (output_valid _).mpr ?_⟩
    have hnext' : (regsAt W H s₀ ready (t + 1)).state = .sendctrl1 := hnext
    rw [hnext']
    exact ⟨State.noConfusion, State.noConfusion, State.noConfusion⟩
  · have hready' : ∀ k, t + 1 ≤ k → ready k = true := fun k hk => hready k (Nat.le_of_succ_le hk)
    obtain ⟨n, hn⟩ := exists_state_eq hready' hwait hp
    refine ⟨1 + n, (output_valid _).mpr ?_⟩
    have hsaved' : (regsAt W H s₀ ready (t + 1)).savedstate = .sendctrl1 := hsaved
    rw [← Nat.add_assoc, hn, hsaved']
    exact ⟨State.noConfusion, State.noConfusion, State.noConfusion⟩

/-- **When a ready sink gets a beat**: not when the machine waits for a position that the writer
does not pass, and otherwise always. -/
theorem exists_valid_iff (W H : ℕ) (s₀ : Regs) (ready : ℕ → Bool) (t : ℕ) :
    (∃ n, validAt W H s₀ (keepReady ready t) (t + n) = true) ↔
      (regsAt W H s₀ (keepReady ready t) t).CanGo := by
  have hready : ∀ k, t ≤ k → keepReady ready t k = true := fun k hk => keepReady_of_le hk
  constructor
  · rintro ⟨n, hvalid⟩ hw
    by_contra hp
    exact ((output_valid _).mp hvalid).2.1 (wait_of_not_writerPasses hw hp n).1
  · intro hgo
    obtain ⟨hundef, hsaved⟩ := state_cases W H s₀ (keepReady ready t) t
    by_cases hw : (regsAt W H s₀ (keepReady ready t) t).state = .wait
    · obtain ⟨hundef', hwait'⟩ := hsaved hw
      obtain ⟨n, hn⟩ := exists_state_eq hready hw (hgo hw)
      by_cases hi : (regsAt W H s₀ (keepReady ready t) t).savedstate = .idle
      · -- the frame is over, and the next one begins
        have hready' : ∀ k, t + n ≤ k → keepReady ready t k = true :=
          fun k hk => hready k (Nat.le_trans (Nat.le_add_right t n) hk)
        obtain ⟨n', hvalid⟩ := exists_valid_of_idle hready' (hn.trans hi)
        exact ⟨n + n', by rwa [← Nat.add_assoc]⟩
      · refine ⟨n, (output_valid _).mpr ?_⟩
        rw [hn]
        exact ⟨hi, hwait', hundef'⟩
    · by_cases hi : (regsAt W H s₀ (keepReady ready t) t).state = .idle
      · exact exists_valid_of_idle hready hi
      · exact ⟨0, (output_valid _).mpr ⟨hi, hw, hundef⟩⟩

/-! ### Outputs as wide as the input image -/

/-- **The stream ends in the first line**, whatever the sink does. -/
theorem exists_forall_not_valid (hW : hinsize ≤ W) (s₀ : Regs) (ready : ℕ → Bool) :
    ∃ T, ∀ t, T ≤ t → validAt W H s₀ ready t = false := by
  have hgone : ∀ t, readies (goesAt W H s₀ ready) t ≤ 304 := fun t =>
    (firstLine_regsAt s₀ ready hW t).le
  obtain ⟨T, hT⟩ := exists_forall_not_ready hgone
  refine ⟨T + 1, fun t ht => ?_⟩
  by_contra hvalid
  obtain ⟨k, rfl, hgo⟩ := goes_of_valid W H s₀ ready (Bool.eq_true_of_not_eq_false hvalid)
  rw [hT k (Nat.le_of_succ_le_succ ht)] at hgo
  exact absurd hgo Bool.false_ne_true

/-- A sink that is always ready does not get beats for ever. -/
theorem not_forall_exists_valid :
    ¬ ∀ t, ∃ n, validAt 1920 1080 default (keepReady (fun _ => true) t) (t + n) = true := by
  intro h
  obtain ⟨T, hT⟩ :=
    exists_forall_not_valid (W := 1920) (H := 1080) (by decide) default fun _ => true
  obtain ⟨n, hn⟩ := h T
  have halways : keepReady (fun _ => true) T = fun _ => true := funext fun k => Bool.or_true _
  rw [halways, hT _ (Nat.le_add_right T n)] at hn
  exact absurd hn Bool.false_ne_true

end Run

end Padding
end Video
end Cyclone10

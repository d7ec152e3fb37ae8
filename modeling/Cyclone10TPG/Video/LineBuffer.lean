import Cyclone10TPG.Video.Refinement
import Mathlib.Tactic.IntervalCases

/-!
# The line buffer on the first line

What becomes of writer and reader when the output is at least as wide as the input image.
`readlinebuffer` asks for `houtcnt < hincnt`, and `hincnt` stays below `hinsize`, so the reader
does not get past column `hinsize - 2` of the first line. In line 0 the writer is free: it is
held up only by `voutcnt = 0` and a line counter that has wrapped. So it goes on through the
whole input image, and over it again, whatever the reader does.

`FirstLine` is the invariant. The position of the reader is counted by the cycles in which the
machine has gone on; it is linked to the writer by `ahead`, which keeps the reader out of column
`hinsize - 1`, and by `lead`, which says that the writer is held up only at the start of a line.

The tags record for each word of the buffer the input position that it has been written for.
A pixel that is shown carries the right tag exactly when the writer was still on the line of the
reader one cycle before (`tagAt_iff`).
-/

namespace Cyclone10
namespace Video
namespace Padding

open Sync

/-! ### The two conditions -/

section Conditions

variable {s : Regs}

/-- The input counters stay inside of the input image. -/
structure Regs.InImage (s : Regs) : Prop where
  hincnt : s.hincnt < 300
  vincnt : s.vincnt < 200

/-- The step of the writer. -/
theorem incnt_eq (hs : s.InImage) :
    incnt s =
      if writelinebuffer s then
        if s.hincnt < 299 then (s.hincnt + 1, s.vincnt)
        else (0, if s.vincnt < 199 then s.vincnt + 1 else 0)
      else (s.hincnt, s.vincnt) := by
  have hh : (s.hincnt + 1) % 65536 = s.hincnt + 1 := Nat.mod_eq_of_lt (by have := hs.hincnt; omega)
  have hv : (s.vincnt + 1) % 65536 = s.vincnt + 1 := Nat.mod_eq_of_lt (by have := hs.vincnt; omega)
  show (if writelinebuffer s then
      if s.hincnt < 299 then ((s.hincnt + 1) % 65536, s.vincnt)
      else (0, if s.vincnt < 199 then (s.vincnt + 1) % 65536 else 0)
    else (s.hincnt, s.vincnt)) = _
  rw [hh, hv]

/-- A writer that is held up stays where it is. -/
theorem incnt_of_not_write (hw : writelinebuffer s = false) : incnt s = (s.hincnt, s.vincnt) := by
  rw [incnt, hw, if_neg Bool.false_ne_true]

/-- A writer that works goes on in its line. -/
theorem incnt_of_lt (hs : s.InImage) (hw : writelinebuffer s = true) (hlt : s.hincnt < 299) :
    incnt s = (s.hincnt + 1, s.vincnt) := by
  rw [incnt_eq hs, if_pos hw, if_pos hlt]

/-- At the end of its line, it goes on to the next line, and from the last one to the first. -/
theorem incnt_of_last (hs : s.InImage) (hw : writelinebuffer s = true)
    (hlast : ¬ s.hincnt < 299) : incnt s = (0, (s.vincnt + 1) % 200) := by
  have hv := hs.vincnt
  have hnext : (if s.vincnt < 199 then s.vincnt + 1 else 0) = (s.vincnt + 1) % 200 := by
    split_ifs <;> omega
  rw [incnt_eq hs, if_pos hw, if_neg hlast, hnext]

/-- A writer that has not been held up before cycle `t` has not after it when it works. -/
theorem incnt_of_free (hs : s.InImage) (hw : writelinebuffer s = true) {t : ℕ}
    (hfree : s.hincnt = t % 300 ∧ s.vincnt = t / 300 % 200) :
    incnt s = ((t + 1) % 300, (t + 1) / 300 % 200) := by
  obtain ⟨hh, hv⟩ := hfree
  by_cases hlt : s.hincnt < 299
  · rw [incnt_of_lt hs hw hlt, Prod.mk.injEq]
    omega
  · rw [incnt_of_last hs hw hlt, Prod.mk.injEq]
    omega

/-- Inside of the image, the alternatives for positions beyond it play no part. -/
theorem readlinebuffer_iff (hs : s.InImage) :
    readlinebuffer s = true ↔ s.houtcnt < s.hincnt ∧ s.voutcnt ≤ s.vincnt := by
  have hh : ¬ hinsize ≤ s.hincnt := Nat.not_le.mpr hs.hincnt
  have hv : ¬ vinsize ≤ s.vincnt := Nat.not_le.mpr hs.vincnt
  simp only [readlinebuffer, hh, hv, decide_false, Bool.or_false, Bool.and_eq_true,
    decide_eq_true_eq]

theorem writelinebuffer_iff :
    writelinebuffer s = true ↔
      (s.houtcnt ≤ s.hincnt ∧ (s.voutcnt < s.vincnt ∨ s.voutcnt = 0)) ∨
        (s.hincnt < s.houtcnt ∧ s.voutcnt < s.vincnt) := by
  simp only [writelinebuffer, Bool.or_eq_true, Bool.and_eq_true, decide_eq_true_eq, beq_iff_eq]

theorem Regs.InImage.step {W H : ℕ} (hs : s.InImage) (doutReady : Bool) :
    (step W H s doutReady).InImage := by
  have hh := hs.hincnt
  have hv := hs.vincnt
  constructor
  · show (incnt s).1 < 300
    rw [incnt_eq hs]
    split_ifs <;> omega
  · show (incnt s).2 < 200
    rw [incnt_eq hs]
    split_ifs <;> omega

theorem inImage_regsAt (W H : ℕ) (s₀ : Regs) (ready : ℕ → Bool) (t : ℕ) :
    (regsAt W H s₀ ready t).InImage :=
  run_invariant (P := Regs.InImage) ⟨Nat.succ_pos 299, Nat.succ_pos 199⟩ (fun _ r h => h.step r) t

end Conditions

/-! ### Tags -/

/-- **The tags**: the input position that each word of the line buffer has last been written
for, before cycle `t`. -/
def tagAt (W H : ℕ) (s₀ : Regs) (ready : ℕ → Bool) : ℕ → ℕ → Option (ℕ × ℕ)
  | 0 => fun _ => none
  | t + 1 =>
    let s := regsAt W H s₀ ready t
    writeLine W s (tagAt W H s₀ ready t) (some (s.hincnt, s.vincnt))

section Tags

variable {W H : ℕ} (s₀ : Regs) (ready : ℕ → Bool)

/-- **What the writer has done of its line** is in the buffer, as far as the line fits. -/
theorem tagAt_of_fits (t : ℕ) :
    ∀ x < (regsAt W H s₀ ready t).hincnt, x < W →
      tagAt W H s₀ ready t x = some (x, (regsAt W H s₀ ready t).vincnt) := by
  induction t with
  | zero => exact fun x hx => absurd hx (Nat.not_lt_zero x)
  | succ t ih =>
    have hs := inImage_regsAt W H s₀ ready t
    have hcnt : ((regsAt W H s₀ ready (t + 1)).hincnt, (regsAt W H s₀ ready (t + 1)).vincnt) =
        incnt (regsAt W H s₀ ready t) := rfl
    intro x hx hxW
    show writeLine W (regsAt W H s₀ ready t) (tagAt W H s₀ ready t) _ x = _
    unfold writeLine
    cases hw : writelinebuffer (regsAt W H s₀ ready t) with
    | false =>
      -- nothing is written, and the writer stands still
      rw [incnt_of_not_write hw, Prod.mk.injEq] at hcnt
      rw [hcnt.1] at hx
      rw [hcnt.2, Bool.false_and, if_neg Bool.false_ne_true]
      exact ih x hx hxW
    | true =>
      by_cases hlt : (regsAt W H s₀ ready t).hincnt < 299
      · rw [incnt_of_lt hs hw hlt, Prod.mk.injEq] at hcnt
        rw [hcnt.1] at hx
        rw [hcnt.2, Bool.true_and]
        -- the word just written, or an earlier one of the line
        rcases Nat.lt_succ_iff_lt_or_eq.mp hx with hx | rfl
        · split_ifs
          · rw [Function.update_of_ne hx.ne]
            exact ih x hx hxW
          · exact ih x hx hxW
        · rw [decide_eq_true hxW, if_pos rfl, Function.update_self]
      · rw [incnt_of_last hs hw hlt, Prod.mk.injEq] at hcnt
        rw [hcnt.1] at hx
        exact absurd hx (Nat.not_lt_zero x)

/-- All of the line fits into an output at least as wide as the input image. -/
theorem tagAt_of_lt (hW : hinsize ≤ W) (t : ℕ) :
    ∀ x < (regsAt W H s₀ ready t).hincnt,
      tagAt W H s₀ ready t x = some (x, (regsAt W H s₀ ready t).vincnt) := fun x hx =>
  tagAt_of_fits s₀ ready t x hx
    (hx.trans ((inImage_regsAt W H s₀ ready t).hincnt.trans_le hW))

end Tags

/-! ### The position of the reader -/

/-- The number of cycles before `t` in which the machine has gone on. -/
def goneAt (W H : ℕ) (s₀ : Regs) (ready : ℕ → Bool) (t : ℕ) : ℕ :=
  readies (goesAt W H s₀ ready) t

section Position

variable {W H : ℕ} (s₀ : Regs) (ready : ℕ → Bool)

theorem counters_of_elastic {s : Regs} {x : Tpg.Pos}
    (h : s.tpg.elastic = .active x ∨ s.tpg.elastic = .parked x) :
    s.houtcnt = x.houtcnt ∧ s.voutcnt = x.voutcnt := by
  unfold Tpg.Regs.elastic at h
  split_ifs at h
  · obtain rfl := Elastic.parked.inj (h.resolve_left id)
    exact ⟨rfl, rfl⟩
  · obtain rfl := Elastic.active.inj (h.resolve_right id)
    exact ⟨rfl, rfl⟩

/-- The counters are those of the position after the last one that was left, shown or not. -/
theorem counters_regsAt (t : ℕ) :
    (regsAt W H s₀ ready (t + 1)).houtcnt =
        ((Tpg.Pos.next W H)^[goneAt W H s₀ ready t + 1] Tpg.Pos.start).houtcnt ∧
      (regsAt W H s₀ ready (t + 1)).voutcnt =
        ((Tpg.Pos.next W H)^[goneAt W H s₀ ready t + 1] Tpg.Pos.start).voutcnt := by
  have helastic := (elastic_regsAt (W := W) (H := H) s₀ ready (t + 1)).2
  rw [elastic_run] at helastic
  refine counters_of_elastic ?_
  cases hgo : goesAt W H s₀ ready t with
  | true =>
    rw [hgo, if_pos rfl, readies_succ_of_ready hgo] at helastic
    exact Or.inl helastic
  | false =>
    rw [hgo, if_neg Bool.false_ne_true, readies_succ_of_not_ready hgo] at helastic
    exact Or.inr helastic

/-- The first pixels of the first line come one column after the other. -/
theorem iterate_next_firstLine (hW : hinsize ≤ W) {p : ℕ} (hp : p ≤ 299) :
    (Tpg.Pos.next W H)^[6 + p] Tpg.Pos.start = ⟨.sendingvideo, p, 0⟩ := by
  induction p with
  | zero => rfl
  | succ p ih =>
    have hle : 300 ≤ W := hW
    -- column `p` is not the last one of the output
    have hlast : ¬ W - 1 ≤ p := by omega
    have hwrap : (p + 1) % 65536 = p + 1 := Nat.mod_eq_of_lt (by omega)
    rw [← Nat.add_assoc, Function.iterate_succ_apply', ih (Nat.le_of_succ_le hp)]
    show Tpg.Pos.mk (if decide (W - 1 ≤ p) && _ then .endvideo else .sendingvideo)
      (if W - 1 ≤ p then (0, _) else ((p + 1) % 65536, 0)).1
      (if W - 1 ≤ p then (0, _) else ((p + 1) % 65536, 0)).2 = _
    rw [decide_eq_false hlast, Bool.false_and, if_neg Bool.false_ne_true, if_neg hlast, hwrap]

/-- The counters of the first 306 positions: five of the packets' beats, and the pixels of the
first line. -/
theorem counters_pos (hW : hinsize ≤ W) {k : ℕ} (hk : k ≤ 305) :
    ((Tpg.Pos.next W H)^[k] Tpg.Pos.start).houtcnt = k - 6 ∧
      ((Tpg.Pos.next W H)^[k] Tpg.Pos.start).voutcnt = 0 := by
  rcases Nat.lt_or_ge k 6 with hlt | hge
  · interval_cases k <;> exact ⟨rfl, rfl⟩
  · obtain ⟨p, rfl⟩ := Nat.exists_eq_add_of_le hge
    rw [iterate_next_firstLine hW (Nat.le_of_add_le_add_left hk)]
    exact ⟨(Nat.add_sub_cancel_left 6 p).symm, rfl⟩

end Position

/-! ### The first line -/

/-- **The invariant**, in cycle `t`: the machine has gone on `k` times before the cycle before,
and it did in that cycle if `go`. -/
structure FirstLine (k : ℕ) (go : Bool) (t : ℕ) (s : Regs) : Prop where
  le : k ≤ 304
  houtcnt : s.houtcnt = k - 5
  voutcnt : s.voutcnt = 0
  /-- A pixel is shown only while the writer is two columns ahead, or at the start of a line. -/
  ahead : go = true → k ≤ 303 ∧ (k ≤ 4 ∨ k - 5 + 2 ≤ s.hincnt ∨ s.hincnt = 0)
  /-- In its first line the writer is not behind the reader but at the start. -/
  lead : s.vincnt = 0 → k - 5 ≤ s.hincnt ∨ s.hincnt = 0
  /-- The writer runs freely, or it waits at the very start for a reader that waits too. -/
  writer : (s.hincnt = t % 300 ∧ s.vincnt = t / 300 % 200) ∨
    (go = false ∧ s.hincnt = 0 ∧ s.vincnt = 0 ∧ 5 < k)

section FirstLine

variable {k t : ℕ} {go : Bool} {s : Regs}

/-- The reader goes on when the writer is ahead of it. -/
theorem FirstLine.lt_of_readlinebuffer (h : FirstLine k go t s) (hs : s.InImage)
    (hr : readlinebuffer s = true) : k - 5 < s.hincnt := by
  have hlt := ((readlinebuffer_iff hs).mp hr).1
  rwa [h.houtcnt] at hlt

/-- The writer writes unless it is behind the reader in its first line. -/
theorem FirstLine.writelinebuffer_iff (h : FirstLine k go t s) :
    writelinebuffer s = true ↔ k - 5 ≤ s.hincnt ∨ (s.hincnt < k - 5 ∧ 0 < s.vincnt) := by
  rw [Padding.writelinebuffer_iff, h.houtcnt, h.voutcnt]
  simp only [or_true, and_true]

/-- **The step of the invariant.** The new counters are given as the position has them. -/
theorem FirstLine.step (h : FirstLine k go t s) (hs : s.InImage) {ready : Bool} {s' : Regs}
    (hcnt : (s'.hincnt, s'.vincnt) = incnt s)
    (hpos : k + go.toNat ≤ 304 → s'.houtcnt = k + go.toNat - 5 ∧ s'.voutcnt = 0) :
    FirstLine (k + go.toNat) (ready && readlinebuffer s) (t + 1) s' := by
  have hle : k + go.toNat ≤ 304 := by
    cases go with
    | true => exact Nat.succ_le_succ (h.ahead rfl).1
    | false => exact h.le
  obtain ⟨hh', hv'⟩ := hpos hle
  have hgone : go.toNat ≤ 1 := Bool.toNat_le go
  -- going on needs the writer ahead
  have hgo : (ready && readlinebuffer s) = true → k - 5 < s.hincnt := fun hgo =>
    h.lt_of_readlinebuffer hs (Bool.and_eq_true_iff.mp hgo).2
  cases hw : writelinebuffer s with
  | true =>
    -- the writer moves on, so it has not been held up
    have hwrite := h.writelinebuffer_iff.mp hw
    have hfree : s.hincnt = t % 300 ∧ s.vincnt = t / 300 % 200 := by
      refine h.writer.resolve_right ?_
      rintro ⟨-, hzero, hline, hk⟩
      omega
    rw [incnt_of_free hs hw hfree, Prod.mk.injEq] at hcnt
    have hmove : s'.hincnt = s.hincnt + 1 ∧ s'.vincnt = s.vincnt ∨ s'.hincnt = 0 := by omega
    refine ⟨hle, hh', hv', fun hgo' => ?_, fun hb => ?_, Or.inl hcnt⟩
    · have hlt := hgo hgo'
      have hcol := hs.hincnt
      have hahead := h.ahead
      cases go with
      | true =>
        have hshown := hahead rfl
        simp only [Bool.toNat_true]
        omega
      | false =>
        simp only [Bool.toNat_false]
        omega
    · have hlead := h.lead
      omega
  | false =>
    -- it is behind the reader in its first line, so it is at the start and the reader waits
    have hbehind : s.hincnt < k - 5 ∧ s.vincnt = 0 := by
      have hno := mt h.writelinebuffer_iff.mpr (Bool.eq_false_iff.mp hw)
      omega
    have hzero : s.hincnt = 0 := (h.lead hbehind.2).resolve_left (Nat.not_le.mpr hbehind.1)
    rw [incnt_of_not_write hw, Prod.mk.injEq] at hcnt
    have hwait : (ready && readlinebuffer s) = false := by
      by_contra hgo'
      have hlt := hgo (Bool.eq_true_of_not_eq_false hgo')
      exact absurd (hlt.trans hbehind.1) (Nat.lt_irrefl _)
    have hk : 5 < k := Nat.lt_of_sub_pos (Nat.zero_lt_of_lt hbehind.1)
    refine ⟨hle, hh', hv', fun hgo' => absurd (hwait.symm.trans hgo') Bool.false_ne_true, ?_, ?_⟩
    · exact fun _ => Or.inr (hcnt.1.trans hzero)
    · exact Or.inr ⟨hwait, hcnt.1.trans hzero, hcnt.2.trans hbehind.2,
        hk.trans_le (Nat.le_add_right k _)⟩

end FirstLine

section Run

variable {W H : ℕ} (s₀ : Regs) (ready : ℕ → Bool)

/-- **The reader stays in the first line**, whatever the sink does. -/
theorem firstLine_regsAt (hW : hinsize ≤ W) (t : ℕ) :
    FirstLine (goneAt W H s₀ ready t) (goesAt W H s₀ ready t) (t + 1)
      (regsAt W H s₀ ready (t + 1)) := by
  have hpos : ∀ t, goneAt W H s₀ ready t ≤ 304 →
      (regsAt W H s₀ ready (t + 1)).houtcnt = goneAt W H s₀ ready t - 5 ∧
        (regsAt W H s₀ ready (t + 1)).voutcnt = 0 := by
    intro t hle
    have hcnt := counters_regsAt (W := W) (H := H) s₀ ready t
    have hval := counters_pos (H := H) hW (k := goneAt W H s₀ ready t + 1) (Nat.succ_le_succ hle)
    rw [hcnt.1, hcnt.2, hval.1, hval.2]
    exact ⟨by omega, rfl⟩
  induction t with
  | zero =>
    -- nothing is in the buffer yet, so the machine waits in the first cycle
    have hwait : goesAt W H s₀ ready 0 = false := Bool.and_false (ready 0)
    have hcnt := hpos 0 (Nat.zero_le 304)
    rw [hwait]
    refine ⟨Nat.zero_le 304, hcnt.1, hcnt.2, fun h => absurd h Bool.false_ne_true, ?_, ?_⟩
    · exact fun _ => Or.inl (Nat.zero_le _)
    · exact Or.inl ⟨rfl, rfl⟩
  | succ t ih => exact ih.step (inImage_regsAt W H s₀ ready (t + 1)) rfl (hpos (t + 1))

/-! ### Coherence -/

section Coherence

variable {s₀ ready} (hW : hinsize ≤ W) {t : ℕ}

include hW

/-- When the machine has gone on, the writer was ahead of the reader and running. -/
theorem writer_of_goes (hgo : goesAt W H s₀ ready t = true) :
    (regsAt W H s₀ ready t).houtcnt < (regsAt W H s₀ ready t).hincnt ∧
      (regsAt W H s₀ ready t).voutcnt = 0 ∧
      (regsAt W H s₀ ready t).vincnt = t / 300 % 200 := by
  cases t with
  | zero => exact absurd (hgo.symm.trans (Bool.and_false (ready 0))) Bool.false_ne_true.symm
  | succ t =>
    have h := firstLine_regsAt (H := H) s₀ ready hW t
    have hlt := ((readlinebuffer_iff (inImage_regsAt W H s₀ ready (t + 1))).mp
      (Bool.and_eq_true_iff.mp hgo).2).1
    refine ⟨hlt, h.voutcnt, ?_⟩
    rcases h.writer with hfree | ⟨-, hzero, -⟩
    · exact hfree.2
    · exact absurd hlt (by rw [hzero]; exact Nat.not_lt_zero _)

/-- The reader moves on by one column at most. -/
theorem houtcnt_succ_le (hgo : goesAt W H s₀ ready t = true) :
    (regsAt W H s₀ ready (t + 1)).houtcnt ≤ (regsAt W H s₀ ready t).houtcnt + 1 := by
  cases t with
  | zero => exact absurd (hgo.symm.trans (Bool.and_false (ready 0))) Bool.false_ne_true.symm
  | succ t =>
    rw [(firstLine_regsAt s₀ ready hW t).houtcnt,
      (firstLine_regsAt s₀ ready hW (t + 1)).houtcnt]
    have hstep : goneAt W H s₀ ready (t + 1) ≤ goneAt W H s₀ ready t + 1 :=
      Nat.add_le_add_left (Bool.toNat_le _) _
    omega

/-- **What the buffer holds after the machine has gone on**: at the new read position, the word
that the writer has written there in the line it was on. -/
theorem tagAt_of_goes (hgo : goesAt W H s₀ ready t = true) :
    tagAt W H s₀ ready (t + 1) (regsAt W H s₀ ready (t + 1)).houtcnt =
      some ((regsAt W H s₀ ready (t + 1)).houtcnt, (regsAt W H s₀ ready t).vincnt) := by
  obtain ⟨hlt, hv, -⟩ := writer_of_goes hW hgo
  have hle : (regsAt W H s₀ ready (t + 1)).houtcnt ≤ (regsAt W H s₀ ready t).hincnt :=
    (houtcnt_succ_le hW hgo).trans hlt
  have hfits : (regsAt W H s₀ ready t).hincnt < W :=
    (inImage_regsAt W H s₀ ready t).hincnt.trans_le hW
  have hw : writelinebuffer (regsAt W H s₀ ready t) = true :=
    writelinebuffer_iff.mpr (Or.inl ⟨hlt.le, Or.inr hv⟩)
  show writeLine W (regsAt W H s₀ ready t) (tagAt W H s₀ ready t) _ _ = _
  rw [writeLine, hw, Bool.true_and, decide_eq_true hfits, if_pos rfl]
  -- the word just written, or an earlier one of the line
  rcases Nat.lt_or_eq_of_le hle with hx | hx
  · rw [Function.update_of_ne hx.ne]
    exact tagAt_of_lt s₀ ready hW t _ hx
  · rw [hx, Function.update_self]

end Coherence

/-- A cycle that shows a pixel has a valid beat. -/
theorem validAt_of_pixel {t : ℕ} (h : (regsAt W H s₀ ready t).state.pixel = true) :
    validAt W H s₀ ready t = true := by
  unfold validAt
  generalize regsAt W H s₀ ready t = s at h
  obtain ⟨state, savedstate, houtcnt, voutcnt, hincnt, vincnt, linebuffer, latch⟩ := s
  cases state with
  | sendingvideo => rfl
  | endvideo => rfl
  | _ => exact absurd h Bool.false_ne_true

end Run

/-- **The pixels that are coherent**, for an output at least as wide as the input image. When a
pixel is shown, the word read for it has been written for the same column and line exactly when,
in the cycle before, the writer was on the line of the reader; and that is so in the first of the
200 lines of 300 cycles that the writer takes for the image. -/
theorem tagAt_iff (W H : ℕ) (hW : hinsize ≤ W) (s₀ : Regs) (ready : ℕ → Bool) (t : ℕ)
    (hpixel : (regsAt W H s₀ ready t).state.pixel = true) :
    ∃ u, t = u + 1 ∧
      (tagAt W H s₀ ready t (regsAt W H s₀ ready t).houtcnt =
          some ((regsAt W H s₀ ready t).houtcnt, (regsAt W H s₀ ready t).voutcnt) ↔
        (regsAt W H s₀ ready u).vincnt = (regsAt W H s₀ ready u).voutcnt) ∧
      ((regsAt W H s₀ ready u).vincnt = (regsAt W H s₀ ready u).voutcnt ↔ u % 60000 < 300) := by
  obtain ⟨u, rfl, hgo⟩ := goes_of_valid W H s₀ ready (validAt_of_pixel s₀ ready hpixel)
  obtain ⟨-, hv, hb⟩ := writer_of_goes hW hgo
  refine ⟨u, rfl, ?_, ?_⟩
  · rw [tagAt_of_goes hW hgo, (firstLine_regsAt s₀ ready hW u).voutcnt, hv,
      Option.some.injEq, Prod.mk.injEq]
    exact ⟨fun h => h.2, fun h => ⟨rfl, h⟩⟩
  · rw [hv, hb]
    omega

/-! ### A sink that is late -/

/-- A sink that is ready from cycle 301 on. -/
def lateSink (k : ℕ) : Bool := decide (301 ≤ k)

section Late

/-- While the packets' first beats are sent, the machine goes on as the sink allows. -/
theorem goesAt_of_gone_le {W H : ℕ} {s₀ : Regs} {ready : ℕ → Bool}
    (hW : hinsize ≤ W) {t : ℕ}
    (hgone : goneAt W H s₀ ready t ≤ 5) (hmod : 0 < (t + 1) % 300) :
    goesAt W H s₀ ready (t + 1) = ready (t + 1) := by
  have h := firstLine_regsAt (H := H) s₀ ready hW t
  have hread : readlinebuffer (regsAt W H s₀ ready (t + 1)) = true := by
    rw [readlinebuffer_iff (inImage_regsAt W H s₀ ready (t + 1)), h.houtcnt, h.voutcnt]
    rcases h.writer with hfree | ⟨-, -, -, hk⟩
    · omega
    · omega
  rw [goesAt, hread, Bool.and_true]

/-- Five beats after the start, the first pixel is shown. -/
theorem pixel_of_gone {W H : ℕ} {s₀ : Regs} {ready : ℕ → Bool} {t : ℕ}
    (hgo : goesAt W H s₀ ready t = true) (hgone : goneAt W H s₀ ready t = 5) :
    (regsAt W H s₀ ready (t + 1)).state.pixel = true := by
  have helastic := (elastic_regsAt (W := W) (H := H) s₀ ready (t + 1)).2
  rw [elastic_run, hgo, if_pos rfl, readies_succ_of_ready hgo, ← goneAt, hgone] at helastic
  generalize regsAt W H s₀ ready (t + 1) = s at helastic ⊢
  have hstate : s.state.tpg = .sendingvideo := by
    unfold Tpg.Regs.elastic at helastic
    split_ifs at helastic
    exact congrArg Tpg.Pos.state (Elastic.active.inj helastic)
  cases hs : s.state with
  | sendingvideo => rfl
  | _ => rw [hs] at hstate; cases hstate

/-- The late sink takes the packets' first beats without a pause. -/
theorem goneAt_lateSink {n : ℕ} (hn : n ≤ 6) : goneAt 1920 1080 default lateSink (301 + n) = n := by
  have hW : hinsize ≤ 1920 := by decide
  induction n with
  | zero =>
    have hnone : ∀ t ≤ 301, goneAt 1920 1080 default lateSink t = 0 := by
      intro t ht
      induction t with
      | zero => rfl
      | succ t ih =>
        have hlate : goesAt 1920 1080 default lateSink t = false := by
          rw [goesAt, lateSink, decide_eq_false (Nat.not_le.mpr ht), Bool.false_and]
        exact (readies_succ_of_not_ready hlate).trans (ih (Nat.le_of_succ_le ht))
    exact hnone 301 le_rfl
  | succ n ih =>
    have hgone := ih (Nat.le_of_succ_le hn)
    have hprev : goneAt 1920 1080 default lateSink (300 + n) ≤ 5 := by
      have hstep : goneAt 1920 1080 default lateSink (300 + n) ≤
          goneAt 1920 1080 default lateSink (300 + n + 1) := Nat.le_add_right _ _
      rw [show 300 + n + 1 = 301 + n by omega, hgone] at hstep
      omega
    have hgoes := goesAt_of_gone_le hW hprev (by omega)
    rw [show 300 + n + 1 = 301 + n by omega] at hgoes
    have hready : lateSink (301 + n) = true := decide_eq_true (Nat.le_add_right 301 n)
    exact (readies_succ_of_ready (hgoes.trans hready)).trans (congrArg (· + 1) hgone)

/-- The first pixel for the late sink. -/
theorem pixel_lateSink :
    goesAt 1920 1080 default lateSink 306 = true ∧
      (regsAt 1920 1080 default lateSink 307).state.pixel = true := by
  have hgone : goneAt 1920 1080 default lateSink 306 = 5 := by
    have hfive := goneAt_lateSink (n := 5) (Nat.le_succ 5)
    exact hfive
  have hgo : goesAt 1920 1080 default lateSink 306 = true := by
    have hprev : goneAt 1920 1080 default lateSink 305 ≤ 5 := by
      have hfour := goneAt_lateSink (n := 4) (by omega)
      exact hfour.le.trans (Nat.le_succ 4)
    exact goesAt_of_gone_le (by decide) hprev (by omega)
  exact ⟨hgo, pixel_of_gone hgo hgone⟩

end Late

theorem tagAt_iff_lateSink :
    ∃ u, 307 = u + 1 ∧
      (tagAt 1920 1080 default lateSink 307 (regsAt 1920 1080 default lateSink 307).houtcnt =
          some ((regsAt 1920 1080 default lateSink 307).houtcnt,
            (regsAt 1920 1080 default lateSink 307).voutcnt) ↔
        (regsAt 1920 1080 default lateSink u).vincnt =
          (regsAt 1920 1080 default lateSink u).voutcnt) ∧
      ((regsAt 1920 1080 default lateSink u).vincnt =
          (regsAt 1920 1080 default lateSink u).voutcnt ↔ u % 60000 < 300) :=
  tagAt_iff 1920 1080 (by decide) default lateSink 307 pixel_lateSink.2

/-- The first pixel for the late sink is read from a word written for the second line. -/
theorem not_coherent_lateSink :
    ¬ ∀ t, (regsAt 1920 1080 default lateSink t).state.pixel = true →
      (regsAt 1920 1080 default lateSink t).houtcnt < hinsize →
      (regsAt 1920 1080 default lateSink t).voutcnt < vinsize →
      tagAt 1920 1080 default lateSink t (regsAt 1920 1080 default lateSink t).houtcnt =
        some ((regsAt 1920 1080 default lateSink t).houtcnt,
          (regsAt 1920 1080 default lateSink t).voutcnt) := by
  intro h
  have hW : hinsize ≤ 1920 := by decide
  obtain ⟨hgo, hpixel⟩ := pixel_lateSink
  have hfirst : FirstLine _ _ 307 (regsAt 1920 1080 default lateSink 307) :=
    firstLine_regsAt default lateSink hW 306
  have hcol : (regsAt 1920 1080 default lateSink 307).houtcnt < 300 := by
    have hle := hfirst.le
    rw [hfirst.houtcnt]
    omega
  have hrow : (regsAt 1920 1080 default lateSink 307).voutcnt < 200 := by
    rw [hfirst.voutcnt]
    exact Nat.succ_pos 199
  have htag := (tagAt_of_goes hW hgo).symm.trans (h 307 hpixel hcol hrow)
  have hline : (regsAt 1920 1080 default lateSink 306).vincnt = 306 / 300 % 200 :=
    (writer_of_goes hW hgo).2.2
  rw [Option.some.injEq, Prod.mk.injEq, hline, hfirst.voutcnt] at htag
  exact absurd htag.2 (by decide)

end Padding
end Video
end Cyclone10

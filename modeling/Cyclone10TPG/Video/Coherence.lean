import Cyclone10TPG.Video.Cropping

/-!
# Right pixels end the stream

In line 0 the writer runs free. In a later line it stands still while the reader is in its line,
and so it is still there when the reader comes to the next line, and from there neither of the two
goes on. `Caught` is the reader in the line of the writer.

A reader that is not to be caught has to stay behind the line of the writer, and gets what has been
written for a later line. So a padding that goes on for ever shows no pixel that is right, but in
the first line and the first column (`exists_forall_not_valid_of_tag`).
-/

namespace Cyclone10
namespace Video
namespace Padding

open Sync

/-! ### Positions in a frame -/

/-- Where the counters are, by the state. -/
def InFrame (W H : ℕ) (x : Tpg.Pos) : Prop :=
  match x.state with
  | .sendingvideo => x.houtcnt < W ∧ x.voutcnt < H
  | .endvideo => x.houtcnt = 0 ∧ x.voutcnt = H
  | .idle => True
  | _ => x.houtcnt = 0 ∧ x.voutcnt = 0

section Frame

variable {W H : ℕ} (hW : 1 ≤ W ∧ W ≤ 65535) (hH : 1 ≤ H ∧ H ≤ 65535)

include hW hH

theorem InFrame.next {x : Tpg.Pos} (h : InFrame W H x) : InFrame W H (Tpg.Pos.next W H x) := by
  obtain ⟨state, hout, vout⟩ := x
  cases state with
  | sendingvideo =>
    obtain ⟨hh, hv⟩ := h
    rw [next_pixel hW hH hh hv]
    split_ifs with hlast hrow
    · exact ⟨hlast, hv⟩
    · exact ⟨hW.1, hrow⟩
    · exact ⟨rfl, Nat.le_antisymm hv (Nat.le_of_not_lt hrow)⟩
  | startvideo =>
    obtain ⟨rfl, rfl⟩ := h
    exact ⟨hW.1, hH.1⟩
  | sendctrl1 | sendctrl2 | sendctrl3 | sendctrl4 => exact h
  | idle => exact ⟨rfl, rfl⟩
  | endvideo | waitforsink | undef => exact trivial

theorem inFrame_regsAt (s₀ : Regs) (ready : ℕ → Bool) (t : ℕ) :
    InFrame W H (posOf (regsAt W H s₀ ready t).tpg.elastic) := by
  rw [(elastic_regsAt s₀ ready t).2]
  have hstart : InFrame W H (posOf (.active Tpg.Pos.start)) := trivial
  refine run_invariant (P := fun e => InFrame W H (posOf e)) hstart (fun e go h => ?_) t
  cases e with
  | active x => cases go <;> exact InFrame.next hW hH h
  | parked x => cases go <;> exact h

omit hW hH in
/-- After the first column, a pixel is shown in the state for pixels. -/
theorem InFrame.eq_of_pixel {s : Regs} (h : InFrame W H (posOf s.tpg.elastic))
    (hpixel : s.state.pixel = true) (hcol : 1 ≤ s.houtcnt) :
    posOf s.tpg.elastic = ⟨.sendingvideo, s.houtcnt, s.voutcnt⟩ ∧ s.houtcnt < W ∧
      s.voutcnt < H := by
  obtain ⟨state, savedstate, houtcnt, voutcnt, hincnt, vincnt, linebuffer, latch⟩ := s
  cases state with
  | sendingvideo => exact ⟨rfl, h⟩
  | endvideo =>
    have hzero : houtcnt = 0 := h.1
    exact absurd (hcol.trans_eq hzero) (Nat.not_succ_le_zero 0)
  | _ => exact absurd hpixel Bool.false_ne_true

end Frame

/-! ### The reader in the line of the writer -/

/-- **Caught**: the reader is in line `v` with the writer, or it has left the line and the writer
has not. -/
inductive Caught (W H v : ℕ) : Elastic Tpg.Pos → ℕ → Prop
  | reading {x : Elastic Tpg.Pos} {h w : ℕ} (hx : posOf x = ⟨.sendingvideo, h, v⟩) (hh : h < W)
      (hv : v < H) (hw : w / 300 = v) : Caught W H v x w
  | arrived {x : Tpg.Pos} {w : ℕ} (hx : x.state = .sendingvideo ∨ x.state = .endvideo)
      (hv : x.voutcnt = v + 1) (hw : w / 300 = v) : Caught W H v (.active x) w
  | stuck {x : Tpg.Pos} {w : ℕ} (hv : v < x.voutcnt) (hw : w / 300 = v) : Caught W H v (.parked x) w

/-- How often the reader can still go on. -/
def goesLeft (W v : ℕ) : Elastic Tpg.Pos → ℕ
  | .active x => if x.voutcnt = v then W - x.houtcnt else 0
  | .parked x => if x.voutcnt = v then W + 1 - x.houtcnt else 0

section Caught

variable {W H v w : ℕ} (hW : 1 ≤ W ∧ W ≤ 65535) (hH : 1 ≤ H ∧ H ≤ 65535) (hv : 1 ≤ v)

include hW hH hv

omit hW hH hv in
/-- A pixel is not followed by an earlier line. -/
theorem voutcnt_le_next {x : Tpg.Pos} (hx : x.state = .sendingvideo ∨ x.state = .endvideo)
    (hwrap : x.voutcnt + 1 < 65536) : x.voutcnt ≤ (Tpg.Pos.next W H x).voutcnt := by
  obtain ⟨state, hout, vout⟩ := x
  have hnext : (Tpg.Pos.next W H ⟨state, hout, vout⟩).voutcnt =
      if W - 1 ≤ hout then (vout + 1) % 65536 else vout := by
    rcases hx with hs | hs <;> cases hs
    all_goals
      show (if W - 1 ≤ hout then (0, (vout + 1) % 65536) else ((hout + 1) % 65536, vout)).2 = _
      split_ifs <;> rfl
  rw [hnext]
  split_ifs
  · rw [Nat.mod_eq_of_lt hwrap]
    exact Nat.le_succ vout
  · exact le_rfl

omit hW hH in
/-- The writer stands still, and a reader that has left its line too. -/
theorem Caught.held {x : Elastic Tpg.Pos} (h : Caught W H v x w) :
    ¬ Writes (posOf x) w ∧ (v < (posOf x).voutcnt → ¬ Reads (posOf x) w) := by
  have hline : w / 300 = v ∧ v ≤ (posOf x).voutcnt := by
    cases h with
    | reading hx _ _ hw => exact ⟨hw, by rw [hx]⟩
    | arrived _ hv' hw => exact ⟨hw, (Nat.le_succ v).trans_eq hv'.symm⟩
    | stuck hv' hw => exact ⟨hw, hv'.le⟩
  unfold Writes Reads
  omega

/-- **The reader stays caught**, and goes on to the end of the line at most. -/
theorem Caught.step {x : Elastic Tpg.Pos} (h : Caught W H v x w) (hlt : w < 60000) (ready : Bool) :
    Caught W H v (pointersStep W H (x, w) ready).1 (pointersStep W H (x, w) ready).2 ∧
      goesLeft W v (pointersStep W H (x, w) ready).1 +
        (ready && decide (Reads (posOf x) w)).toNat ≤ goesLeft W v x := by
  -- the writer stands still, so only the reader can move
  obtain ⟨hwrite, hread⟩ := h.held hv
  obtain ⟨go, hgo⟩ : ∃ go, (ready && decide (Reads (posOf x) w)) = go := ⟨_, rfl⟩
  have hstep : pointersStep W H (x, w) ready = (elasticStep (Tpg.Pos.next W H) x go, w) := by
    rw [← hgo]
    exact congrArg (Prod.mk _) (if_neg hwrite)
  -- in a later line there is nothing for the reader to read
  have hstay : v < (posOf x).voutcnt → go = false := by
    intro hlate
    rw [← hgo, decide_eq_false (hread hlate), Bool.and_false]
  rw [hstep, hgo]
  show Caught W H v (elasticStep (Tpg.Pos.next W H) x go) w ∧
    goesLeft W v (elasticStep (Tpg.Pos.next W H) x go) + go.toNat ≤ goesLeft W v x
  cases h with
  | @reading _ hout _ hx hh hvH hw =>
    cases x with
    | parked x =>
      -- a parked reader wakes up where it is
      obtain rfl : x = ⟨.sendingvideo, hout, v⟩ := hx
      cases go with
      | false => exact ⟨.reading rfl hh hvH hw, le_rfl⟩
      | true =>
        refine ⟨.reading rfl hh hvH hw, ?_⟩
        show (if v = v then W - hout else 0) + 1 ≤ if v = v then W + 1 - hout else 0
        rw [if_pos rfl, if_pos rfl]
        omega
    | active x =>
      obtain rfl : x = ⟨.sendingvideo, hout, v⟩ := hx
      have hnext := next_pixel hW hH hh hvH
      have hleft : goesLeft W v (.active ⟨.sendingvideo, hout, v⟩) = W - hout := if_pos rfl
      rw [hleft]
      by_cases hlast : hout + 1 < W
      · -- another pixel of the line
        rw [if_pos hlast] at hnext
        have hactive : goesLeft W v (.active ⟨.sendingvideo, hout + 1, v⟩) = W - (hout + 1) :=
          if_pos rfl
        have hparked : goesLeft W v (.parked ⟨.sendingvideo, hout + 1, v⟩) = W + 1 - (hout + 1) :=
          if_pos rfl
        cases go with
        | true =>
          show Caught W H v (.active (Tpg.Pos.next W H _)) w ∧
            goesLeft W v (.active (Tpg.Pos.next W H _)) + 1 ≤ W - hout
          rw [hnext, hactive]
          exact ⟨.reading rfl hlast hvH hw, by omega⟩
        | false =>
          show Caught W H v (.parked (Tpg.Pos.next W H _)) w ∧
            goesLeft W v (.parked (Tpg.Pos.next W H _)) + 0 ≤ W - hout
          rw [hnext, hparked]
          exact ⟨.reading rfl hlast hvH hw, by omega⟩
      · -- the line is over, and the writer is still in it
        rw [if_neg hlast] at hnext
        have hstate : (Tpg.Pos.next W H ⟨.sendingvideo, hout, v⟩).state = .sendingvideo ∨
            (Tpg.Pos.next W H ⟨.sendingvideo, hout, v⟩).state = .endvideo := by
          rw [hnext]
          exact (em (v + 1 < H)).imp (fun h => if_pos h) fun h => if_neg h
        have hrow : (Tpg.Pos.next W H ⟨.sendingvideo, hout, v⟩).voutcnt = v + 1 := by rw [hnext]
        have hother : ¬ (Tpg.Pos.next W H ⟨.sendingvideo, hout, v⟩).voutcnt = v := by omega
        cases go with
        | true =>
          refine ⟨.arrived hstate hrow hw, ?_⟩
          show (if (Tpg.Pos.next W H _).voutcnt = v then _ else 0) + 1 ≤ W - hout
          rw [if_neg hother]
          omega
        | false =>
          refine ⟨.stuck (Nat.lt_of_succ_le hrow.ge) hw, ?_⟩
          show (if (Tpg.Pos.next W H _).voutcnt = v then _ else 0) + 0 ≤ W - hout
          rw [if_neg hother]
          exact Nat.zero_le _
  | @arrived x _ hx hv' hw =>
    -- the reader has left line `v` for good
    obtain rfl := hstay (Nat.lt_of_succ_le hv'.ge)
    have hle := voutcnt_le_next (W := W) (H := H) hx (by omega)
    refine ⟨.stuck (by omega) hw, ?_⟩
    show (if (Tpg.Pos.next W H x).voutcnt = v then _ else 0) + 0 ≤ _
    rw [if_neg (by omega)]
    exact Nat.zero_le _
  | stuck hv' hw =>
    obtain rfl := hstay hv'
    exact ⟨.stuck hv' hw, le_rfl⟩

/-- **A caught reader ends the stream.** -/
theorem exists_forall_not_valid_of_caught {s₀ : Regs} {ready : ℕ → Bool} {t : ℕ}
    (h : Caught W H v (regsAt W H s₀ ready t).tpg.elastic (regsAt W H s₀ ready t).writer) :
    ∃ T, ∀ k, T ≤ k → validAt W H s₀ ready k = false := by
  have hpointers := pointers_regsAt W H s₀ ready
  have hrun : ∀ n, Caught W H v (regsAt W H s₀ ready (t + n)).pointers.1
        (regsAt W H s₀ ready (t + n)).pointers.2 ∧
      goesLeft W v (regsAt W H s₀ ready (t + n)).pointers.1 + goneAt W H s₀ ready (t + n) ≤
        goesLeft W v (regsAt W H s₀ ready t).pointers.1 + goneAt W H s₀ ready t := by
    intro n
    induction n with
    | zero => exact ⟨h, le_rfl⟩
    | succ n ih =>
      have hin := inImage_regsAt W H s₀ ready (t + n)
      have hnext : (regsAt W H s₀ ready (t + n + 1)).pointers =
          pointersStep W H ((regsAt W H s₀ ready (t + n)).pointers.1,
            (regsAt W H s₀ ready (t + n)).pointers.2) (ready (t + n)) := by
        rw [hpointers (t + n + 1), run_succ, ← hpointers]
      obtain ⟨hcaught, hsum⟩ := ih
      obtain ⟨hcaught', hleft⟩ := hcaught.step hW hH hv (writer_lt hin) (ready (t + n))
      have hgone : goneAt W H s₀ ready (t + n + 1) = goneAt W H s₀ ready (t + n) +
          (ready (t + n) && decide (Reads (posOf (regsAt W H s₀ ready (t + n)).pointers.1)
            (regsAt W H s₀ ready (t + n)).pointers.2)).toNat := by
        rw [goneAt, readies, goesAt, reads_iff hin]
        rfl
      rw [← Nat.add_assoc, hnext, hgone]
      exact ⟨hcaught', by omega⟩
  refine exists_forall_not_valid_of_gone (N := goesLeft W v (regsAt W H s₀ ready t).pointers.1 +
    goneAt W H s₀ ready t) fun k => ?_
  rcases Nat.le_total k t with hk | hk
  · exact (readies_mono hk).trans (Nat.le_add_left _ _)
  · obtain ⟨n, rfl⟩ := Nat.exists_eq_add_of_le hk
    exact (Nat.le_add_left _ _).trans (hrun n).2

end Caught

/-! ### What the reader gets -/

section Tags

variable {W H : ℕ} (hW : 1 ≤ W ∧ W ≤ 65535) (hH : 1 ≤ H ∧ H ≤ 65535) {s₀ : Regs} {ready : ℕ → Bool}
  {t : ℕ}

/-- The counters move on by one column in a line. -/
theorem outcnt_column {s : Regs} (hcol : 1 ≤ (outcnt W s).1) :
    (outcnt W s).2 = s.voutcnt ∧ (outcnt W s).1 ≤ s.houtcnt + 1 := by
  unfold outcnt at hcol ⊢
  cases hmode : outcntmode s.state with
  | idle => exact ⟨rfl, Nat.le_succ _⟩
  | reset =>
    rw [hmode] at hcol
    exact absurd hcol (Nat.not_lt_zero 0)
  | run =>
    rw [hmode] at hcol
    simp only at hcol ⊢
    split_ifs at hcol ⊢ with hlast
    · exact absurd hcol (Nat.not_lt_zero 0)
    · exact ⟨rfl, Nat.mod_le _ _⟩

/-- What is shown in the state for pixels is a pixel. -/
theorem pixel_of_active {s : Regs} {x : Tpg.Pos} (h : s.tpg.elastic = .active x)
    (hx : x.state = .sendingvideo) : s.state.pixel = true := by
  obtain ⟨state, savedstate, houtcnt, voutcnt, hincnt, vincnt, linebuffer, latch⟩ := s
  have hshown : state.tpg = .sendingvideo := by
    unfold Tpg.Regs.elastic at h
    split_ifs at h
    exact (congrArg Tpg.Pos.state (Elastic.active.inj h)).trans hx
  cases state with
  | sendingvideo => rfl
  | _ => cases hshown

/-- When the writer is in a later line, the reader gets what has been written for that. -/
theorem tagAt_of_later (hgo : goesAt W H s₀ ready t = true)
    (hcol : 1 ≤ (regsAt W H s₀ ready (t + 1)).houtcnt)
    (hfits : (regsAt W H s₀ ready (t + 1)).houtcnt < W)
    (hlater : (regsAt W H s₀ ready t).voutcnt < (regsAt W H s₀ ready t).vincnt) :
    tagAt W H s₀ ready (t + 1) (regsAt W H s₀ ready (t + 1)).houtcnt =
      some ((regsAt W H s₀ ready (t + 1)).houtcnt, (regsAt W H s₀ ready t).vincnt) := by
  have hin := inImage_regsAt W H s₀ ready t
  have hread := ((readlinebuffer_iff hin).mp (Bool.and_eq_true_iff.mp hgo).2).1
  have hnext : (regsAt W H s₀ ready (t + 1)).houtcnt ≤ (regsAt W H s₀ ready t).houtcnt + 1 :=
    (outcnt_column (s := regsAt W H s₀ ready t) hcol).2
  have hw : writelinebuffer (regsAt W H s₀ ready t) = true :=
    writelinebuffer_iff.mpr (Or.inl ⟨hread.le, Or.inl hlater⟩)
  show writeLine W (regsAt W H s₀ ready t) (tagAt W H s₀ ready t) _ _ = _
  rw [writeLine, hw, Bool.true_and]
  -- the word just written, or an earlier one of the line
  rcases Nat.lt_or_eq_of_le (hnext.trans hread) with hx | hx
  · have htag := tagAt_of_fits s₀ ready t _ hx hfits
    split_ifs
    · rw [Function.update_of_ne hx.ne, htag]
    · exact htag
  · rw [decide_eq_true (hx ▸ hfits), if_pos rfl, hx, Function.update_self]

include hW hH

/-- **A pixel that is right catches the reader.** After the first line and the first column, the
word read for a pixel is one of its line only when the writer is in the line, and stands still. -/
theorem caught_of_tag (hpixel : (regsAt W H s₀ ready t).state.pixel = true)
    (hcol : 1 ≤ (regsAt W H s₀ ready t).houtcnt) (hline : 1 ≤ (regsAt W H s₀ ready t).voutcnt)
    (htag : tagAt W H s₀ ready t (regsAt W H s₀ ready t).houtcnt =
      some ((regsAt W H s₀ ready t).houtcnt, (regsAt W H s₀ ready t).voutcnt)) :
    Caught W H (regsAt W H s₀ ready t).voutcnt (regsAt W H s₀ ready t).tpg.elastic
      (regsAt W H s₀ ready t).writer := by
  obtain ⟨u, rfl, hgo⟩ := goes_of_valid W H s₀ ready (validAt_of_pixel s₀ ready hpixel)
  obtain ⟨hpos, hfits, hrow⟩ :=
    (inFrame_regsAt hW hH s₀ ready (u + 1)).eq_of_pixel hpixel hcol
  have hin := inImage_regsAt W H s₀ ready u
  have hsame : (regsAt W H s₀ ready (u + 1)).voutcnt = (regsAt W H s₀ ready u).voutcnt :=
    (outcnt_column (s := regsAt W H s₀ ready u) hcol).1
  have hle := ((readlinebuffer_iff hin).mp (Bool.and_eq_true_iff.mp hgo).2).2
  -- the writer is not in a later line
  have hwriter : (regsAt W H s₀ ready u).vincnt = (regsAt W H s₀ ready (u + 1)).voutcnt := by
    by_contra hne
    rw [tagAt_of_later hgo hcol hfits (by omega), Option.some.injEq, Prod.mk.injEq] at htag
    exact hne htag.2
  have hheld : writelinebuffer (regsAt W H s₀ ready u) = false := by
    by_contra hw
    have hw' := writelinebuffer_iff.mp (Bool.eq_true_of_not_eq_false hw)
    omega
  have hstay : (regsAt W H s₀ ready (u + 1)).vincnt = (regsAt W H s₀ ready u).vincnt :=
    congrArg Prod.snd (incnt_of_not_write hheld)
  refine .reading hpos hfits hrow ?_
  rw [(writer_div (inImage_regsAt W H s₀ ready (u + 1))).1, hstay, hwriter]

/-- **No padding is both right and lasting.** When a pixel after the first line and the first column
is shown with the word that has been written for its column and line, the stream ends. -/
theorem exists_forall_not_valid_of_tag (hpixel : (regsAt W H s₀ ready t).state.pixel = true)
    (hcol : 1 ≤ (regsAt W H s₀ ready t).houtcnt) (hline : 1 ≤ (regsAt W H s₀ ready t).voutcnt)
    (htag : tagAt W H s₀ ready t (regsAt W H s₀ ready t).houtcnt =
      some ((regsAt W H s₀ ready t).houtcnt, (regsAt W H s₀ ready t).voutcnt)) :
    ∃ T, ∀ k, T ≤ k → validAt W H s₀ ready k = false :=
  exists_forall_not_valid_of_caught hW hH hline (caught_of_tag hW hH hpixel hcol hline htag)

omit hW hH in
theorem eq_of_pointers {s : Regs} {x : Elastic Tpg.Pos} {w : ℕ} (h : s.pointers = (x, w)) :
    s.tpg.elastic = x ∧ s.writer = w :=
  ⟨congrArg Prod.fst h, congrArg Prod.snd h⟩

omit hW hH in
/-- The last pixel of two lines of two, for a sink that is ready from cycle 301 on. -/
theorem exists_forall_not_valid_of_tag_lateSink :
    ∃ T, ∀ k, T ≤ k → validAt 2 2 default lateSink k = false := by
  have hrun : run (pointersStep 2 2) (.active Tpg.Pos.start, 0) lateSink 310 =
      (.active ⟨.sendingvideo, 1, 1⟩, 309) := by
    decide +kernel
  obtain ⟨hactive, hwriter⟩ :=
    eq_of_pointers ((pointers_regsAt 2 2 default lateSink 310).trans hrun)
  obtain ⟨hline, hcol⟩ := writer_div (inImage_regsAt 2 2 default lateSink 310)
  rw [hwriter] at hline hcol
  obtain ⟨hh, hv⟩ := counters_of_elastic (Or.inl hactive)
  refine exists_forall_not_valid_of_tag (by decide) (by decide) (pixel_of_active hactive rfl)
    hh.ge hv.ge ?_
  rw [hh, tagAt_of_fits default lateSink 310 1 (hcol ▸ by decide) (by decide), ← hline, hv]

end Tags

end Padding
end Video
end Cyclone10

import Cyclone10TPG.Video.Stalls
import Mathlib.Tactic.Ring

/-!
# Frames of the test pattern generator

A frame is a control packet, whose payload gives the width and the height in nibbles, and a
video packet with one beat for each pixel. `frame` is the frame as the packets announce it:
`W * H` pixels, with `endofpacket` on the last. What the generator sends is `sentFrame`. It
leaves `SENDINGVIDEO` with the pixel for which `lastpixelout` holds, but `ENDVIDEO`, which
comes then, is one pixel more, and has the `endofpacket`.

So all beats before the last pixel are right, and no later run is
(`beats_prefix_frames_iff`).
-/

namespace Cyclone10
namespace Video
namespace Tpg

open Sync

section

variable (W H : ℕ)

/-! ### Packets -/

/-- A beat of three symbols with a nibble each. The first symbol is the lowest byte. -/
def symbols (a b c : BitVec 4) : BitVec 24 := 0#4 ++ c ++ 0#4 ++ b ++ 0#4 ++ a

/-- The control packet: the width, the height, and 3 for progressive video. -/
def ctrlPacket : List Beat :=
  [⟨0x00000F#24, true, false⟩,
    ⟨symbols (nibble W 3) (nibble W 2) (nibble W 1), false, false⟩,
    ⟨symbols (nibble W 0) (nibble H 3) (nibble H 2), false, false⟩,
    ⟨symbols (nibble H 1) (nibble H 0) 3#4, false, true⟩]

/-- The colour of the pixels in column `x`. -/
def colour (x : ℕ) : BitVec 24 := if W / 2 < x then 0xF000F0#24 else 0x00F000#24

/-- Pixel `p` of a frame, in raster order. -/
def pixel (p : ℕ) (endofpacket : Bool) : Beat := ⟨colour W (p % W), false, endofpacket⟩

def videoHeader : Beat := ⟨0x000000#24, true, false⟩

/-- **The frame**, with `endofpacket` on its last pixel. -/
def frame : List Beat :=
  ctrlPacket W H ++
    videoHeader :: (List.range (W * H)).map fun p => pixel W p (decide (p + 1 = W * H))

/-- The frame that is sent: one pixel longer. -/
def sentFrame : List Beat :=
  ctrlPacket W H ++
    videoHeader :: ((List.range (W * H)).map fun p => pixel W p false) ++ [pixel W 0 true]

/-! ### Raster order -/

variable {W H}

/-- The pixel after the last of a line is the first of the next line. -/
theorem raster_of_last (hW : 1 ≤ W) {p : ℕ} (h : W - 1 ≤ p % W) :
    (p + 1) % W = 0 ∧ (p + 1) / W = p / W + 1 := by
  have hr : p % W < W := Nat.mod_lt p hW
  have hp : p + 1 = W * (p / W + 1) := by
    have hdm : W * (p / W) + p % W = p := Nat.div_add_mod p W
    rw [Nat.mul_succ]
    omega
  rw [hp]
  exact ⟨Nat.mul_mod_right _ _, Nat.mul_div_cancel_left _ hW⟩

/-- The pixel after another one of a line is the next on the line. -/
theorem raster_of_not_last (hW : 1 ≤ W) {p : ℕ} (h : ¬ W - 1 ≤ p % W) :
    (p + 1) % W = p % W + 1 ∧ (p + 1) / W = p / W := by
  have hlt : p % W + 1 < W := by omega
  have hp : p + 1 = W * (p / W) + (p % W + 1) := by
    rw [← Nat.add_assoc, Nat.div_add_mod]
  constructor
  · rw [hp, Nat.mul_add_mod, Nat.mod_eq_of_lt hlt]
  · rw [hp, Nat.mul_add_div hW, Nat.div_eq_of_lt hlt, Nat.add_zero]

/-- The last pixel of all. -/
theorem raster_last_iff (hW : 1 ≤ W) {p : ℕ} (hp : p < W * H) :
    (W - 1 ≤ p % W ∧ H - 1 ≤ p / W) ↔ p + 1 = W * H := by
  have hline : p / W < H := Nat.div_lt_of_lt_mul hp
  constructor
  · rintro ⟨hcol, hrow⟩
    obtain ⟨hmod, hdiv⟩ := raster_of_last hW hcol
    have hH : (p + 1) / W = H := by omega
    rw [← Nat.div_add_mod (p + 1) W, hmod, hH, Nat.add_zero]
  · intro hend
    have hmod : (p + 1) % W = 0 := by rw [hend, Nat.mul_mod_right]
    have hdiv : (p + 1) / W = H := by rw [hend, Nat.mul_div_cancel_left _ hW]
    by_cases hcol : W - 1 ≤ p % W
    · have hnext := (raster_of_last hW hcol).2
      have hrow : p / W + 1 = H := hnext.symm.trans hdiv
      exact ⟨hcol, Nat.sub_le_of_le_add hrow.ge⟩
    · have hnext := (raster_of_not_last hW hcol).1
      exact absurd (hnext.symm.trans hmod) (Nat.succ_ne_zero _)

/-! ### The positions of a frame -/

section

variable (hW : 1 ≤ W ∧ W ≤ 65535) (hH : 1 ≤ H ∧ H ≤ 65535)

include hW hH

/-- The counters go through the pixels in raster order, without overflow. -/
theorem outcnt_raster {x : Regs} (hmode : outcntmode x.state = .run) {p : ℕ} (hp : p < W * H)
    (hh : x.houtcnt = p % W) (hv : x.voutcnt = p / W) :
    outcnt W x = ((p + 1) % W, (p + 1) / W) := by
  have hcol : p % W < W := Nat.mod_lt p hW.1
  have hline : p / W < H := Nat.div_lt_of_lt_mul hp
  unfold outcnt
  rw [hmode, hh, hv]
  show (if W - 1 ≤ p % W then (0, (p / W + 1) % 65536) else ((p % W + 1) % 65536, p / W)) = _
  split_ifs with hlast
  · rw [(raster_of_last hW.1 hlast).1, (raster_of_last hW.1 hlast).2, Nat.mod_eq_of_lt (by omega)]
  · rw [(raster_of_not_last hW.1 hlast).1, (raster_of_not_last hW.1 hlast).2,
      Nat.mod_eq_of_lt (by omega)]

/-- The position of pixel `p`, and after the last one that of `ENDVIDEO`. -/
theorem iterate_next_raster {p : ℕ} (hp : p ≤ W * H) :
    (Pos.next W H)^[6 + p] Pos.start =
      ⟨if p = W * H then .endvideo else .sendingvideo, p % W, p / W⟩ := by
  induction p with
  | zero =>
    rw [if_neg (Nat.mul_pos hW.1 hH.1).ne, Nat.zero_mod, Nat.zero_div]
    rfl
  | succ p ih =>
    have hp' : p < W * H := hp
    have hlast : lastpixelout W H (Pos.regs ⟨.sendingvideo, p % W, p / W⟩) =
        decide (p + 1 = W * H) := by
      rw [lastpixelout, ← Bool.decide_and, decide_eq_decide]
      exact raster_last_iff hW.1 hp'
    rw [← Nat.add_assoc, Function.iterate_succ_apply', ih hp'.le, if_neg hp'.ne, Pos.next,
      outcnt_raster hW hH rfl hp' rfl rfl, hlast]
    show Pos.mk (if decide (p + 1 = W * H) = true then .endvideo else .sendingvideo) _ _ = _
    simp only [decide_eq_true_eq]

/-- After `ENDVIDEO` comes the next frame. Its first position has other counters, but it is
idle and resets them. -/
theorem beatAt_periodic (k : ℕ) : beatAt W H (6 + W * H + 1 + k) = beatAt W H k := by
  have hidle : ∃ h v, (Pos.next W H)^[6 + W * H + 1] Pos.start = ⟨.idle, h, v⟩ := by
    rw [Function.iterate_succ_apply', iterate_next_raster hW hH le_rfl, if_pos rfl]
    exact ⟨_, _, rfl⟩
  obtain ⟨h, v, hidle⟩ := hidle
  unfold beatAt
  cases k with
  | zero =>
    rw [Nat.add_zero, hidle]
    rfl
  | succ k =>
    rw [Nat.add_comm, Function.iterate_add_apply, hidle, Function.iterate_succ_apply,
      Function.iterate_succ_apply]
    rfl

/-! ### The beats of a frame -/

theorem beatAt_pixel {p : ℕ} (hp : p < W * H) : beatAt W H (6 + p) = some (pixel W p false) := by
  rw [beatAt, iterate_next_raster hW hH hp.le, if_neg hp.ne]
  rfl

theorem beatAt_end : beatAt W H (6 + W * H) = some (pixel W 0 true) := by
  rw [beatAt, iterate_next_raster hW hH le_rfl, if_pos rfl, Nat.mul_mod_right, pixel, Nat.zero_mod]
  rfl

/-- The beats of a frame up to pixel `p`. -/
theorem log_pixels {p : ℕ} (hp : p ≤ W * H) :
    log (beatAt W H) (6 + p) =
      ctrlPacket W H ++ videoHeader :: (List.range p).map fun q => pixel W q false := by
  have hpixels : log (fun q => beatAt W H (6 + q)) p =
      (List.range p).map fun q => pixel W q false :=
    log_eq_map fun q hq => beatAt_pixel hW hH (hq.trans_le hp)
  rw [log_add, hpixels]
  rfl

/-- **The frame that is sent.** -/
theorem log_sentFrame : log (beatAt W H) (6 + W * H + 1) = sentFrame W H := by
  rw [log_succ_of_some (beatAt_end hW hH), log_pixels hW hH le_rfl]
  rfl

/-! ### The beats of a run -/

variable (s₀ : Regs) (ready : ℕ → Bool)

/-- The announced frame is right up to its last pixel. -/
theorem frame_eq {p : ℕ} (hp : W * H = p + 1) :
    frame W H = log (beatAt W H) (6 + p) ++ [pixel W p true] := by
  have hinit : (List.range p).map (fun q => pixel W q (decide (q + 1 = W * H))) =
      (List.range p).map fun q => pixel W q false := by
    refine List.map_congr_left fun q hq => ?_
    have hq' : q < p := List.mem_range.mp hq
    rw [decide_eq_false (by omega)]
  have hlast : decide (p + 1 = W * H) = true := decide_eq_true hp.symm
  rw [log_pixels hW hH (by omega), frame, hp, List.range_succ, List.map_append, ← hp, hinit]
  simp [hlast]

/-- **The beats are those of the announced frames just as long as the last pixel is not
reached**: as long as fewer than `W * H + 5` of the cycles before the last one were ready. In
every run that goes further, the beat of the last pixel has no `endofpacket`. -/
theorem beats_prefix_frames_iff (n : ℕ) :
    (∃ m, beats W H s₀ ready (n + 1) <+: (List.replicate m (frame W H)).flatten) ↔
      readies ready n < W * H + 5 := by
  obtain ⟨p, hp⟩ : ∃ p, W * H = p + 1 :=
    Nat.exists_eq_succ_of_ne_zero (Nat.mul_pos hW.1 hH.1).ne'
  have hlen : (log (beatAt W H) (6 + p)).length = p + 5 := by
    rw [log_pixels hW hH (by omega)]
    simp [ctrlPacket]
  rw [beats_succ]
  constructor
  · rintro ⟨m, hm⟩
    by_contra hr
    -- The beat of pixel `p` has been sent, without `endofpacket`.
    have hpixel : (log (beatAt W H) (6 + p + 1))[p + 5]? = some (pixel W p false) := by
      rw [log_succ_of_some (beatAt_pixel hW hH (by omega)), ← hlen]
      exact List.getElem?_concat_length
    have hsent := getElem?_mono ((log_mono _ (by omega)).trans hm) hpixel
    -- The frame has `endofpacket` there.
    have hframe : (frame W H)[p + 5]? = some (pixel W p true) := by
      rw [frame_eq hW hH hp, ← hlen]
      exact List.getElem?_concat_length
    exact absurd (eq_of_getElem?_repeat hsent hframe) (by simp [pixel])
  · intro hr
    refine ⟨1, ?_⟩
    rw [List.replicate_one, List.flatten_singleton, frame_eq hW hH hp]
    exact (log_mono _ (by omega)).trans (List.prefix_append _ _)

end

/-- 3 pixels by 2, and a sink that is busy in cycle 4: four pixels have been sent, and are right. -/
theorem beats_prefix_frames_iff_stall :
    (beats 3 2 default (fun t => t != 4) 11).length = 9 ∧
      ∃ m, beats 3 2 default (fun t => t != 4) 11 <+: (List.replicate m (frame 3 2)).flatten :=
  ⟨by decide, (beats_prefix_frames_iff ⟨by decide, by decide⟩ ⟨by decide, by decide⟩ default
    (fun t => t != 4) 10).mpr (by decide)⟩

/-- With `W = H = 1` and a sink that is always ready, two pixels are sent. -/
theorem not_beats_prefix_frames :
    ¬ ∃ m, beats 1 1 default (fun _ => true) 8 <+: (List.replicate m (frame 1 1)).flatten := by
  rintro ⟨m, hm⟩
  have hpixel : (beats 1 1 default (fun _ => true) 8)[5]? =
      some ⟨0x00F000#24, false, false⟩ := by decide
  have hframe : (frame 1 1)[5]? = some ⟨0x00F000#24, false, true⟩ := by decide
  exact absurd (eq_of_getElem?_repeat (getElem?_mono hm hpixel) hframe) (by decide)

end

end Tpg
end Video
end Cyclone10

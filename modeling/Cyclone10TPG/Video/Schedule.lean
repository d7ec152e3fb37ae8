import Cyclone10TPG.Sync.Pace
import Cyclone10TPG.Video.Frame

/-!
# When the frames come

A frame takes `W * H + 7` ready cycles: one for `IDLE`, four for the control packet, one for the
header of the video packet, `W * H` for the pixels and one for `ENDVIDEO`. So the number of ready
cycles says everything about a run of the generator (`beats_eq_frames`): how many frames have been
sent, and how far it is in the next one.
-/

namespace Cyclone10
namespace Video
namespace Tpg

open Sync

section

variable {W H : ℕ} (hW : 1 ≤ W ∧ W ≤ 65535) (hH : 1 ≤ H ∧ H ≤ 65535)

theorem length_sentFrame (W H : ℕ) : (sentFrame W H).length = W * H + 6 := by
  simp [sentFrame, ctrlPacket]

include hW hH

/-- The frames, in positions. -/
theorem log_frame : log (beatAt W H) (W * H + 7) = sentFrame W H := by
  rw [← log_sentFrame hW hH]
  congr 1
  omega

theorem beatAt_frame (k : ℕ) : beatAt W H (W * H + 7 + k) = beatAt W H k := by
  rw [← beatAt_periodic hW hH k]
  congr 1
  omega

theorem beatAt_frames (q k : ℕ) : beatAt W H (q * (W * H + 7) + k) = beatAt W H k := by
  induction q with
  | zero => rw [Nat.zero_mul, Nat.zero_add]
  | succ q ih => rw [Nat.succ_mul, Nat.add_comm (q * _), Nat.add_assoc, beatAt_frame hW hH, ih]

/-- Of the first positions of a frame, only `IDLE` shows no beat. -/
theorem log_beatAt_eq_take {r : ℕ} (hr : r ≤ W * H + 7) :
    log (beatAt W H) r = (sentFrame W H).take (r - 1) := by
  have hprefix : log (beatAt W H) r <+: sentFrame W H := log_frame hW hH ▸ log_mono _ hr
  have hlen : (log (beatAt W H) r).length = r - 1 := by
    -- if more of the positions showed none, the frame would be shorter
    have htotal := congrArg List.length (log_frame hW hH)
    obtain ⟨k, hk⟩ := Nat.exists_eq_add_of_le hr
    rw [hk, log_add, List.length_append, length_sentFrame] at htotal
    have hrest := length_log_le (fun t => beatAt W H (r + t)) k
    have hfirst : (log (beatAt W H) r).length ≤ r - 1 := by
      cases r with
      | zero => exact Nat.le_refl 0
      | succ r =>
        have hidle : log (beatAt W H) 1 = [] := rfl
        have htail := length_log_le (fun t => beatAt W H (1 + t)) r
        rwa [Nat.add_comm r 1, log_add, hidle, List.nil_append, Nat.add_sub_cancel_left]
    omega
  rw [← hlen]
  exact List.prefix_iff_eq_take.mp hprefix

/-- The first `r` positions: all frames that fit in, and the start of the next one. -/
theorem log_beatAt (r : ℕ) :
    log (beatAt W H) r = (List.replicate (r / (W * H + 7)) (sentFrame W H)).flatten ++
      (sentFrame W H).take (r % (W * H + 7) - 1) := by
  have hmod : r % (W * H + 7) ≤ W * H + 7 := (Nat.mod_lt _ (Nat.succ_pos _)).le
  calc log (beatAt W H) r
      = log (beatAt W H) (r / (W * H + 7) * (W * H + 7) + r % (W * H + 7)) := by
        rw [Nat.div_add_mod']
    _ = log (beatAt W H) (r / (W * H + 7) * (W * H + 7)) ++
          log (beatAt W H) (r % (W * H + 7)) := by
        rw [log_add]
        simp only [beatAt_frames hW hH]
    _ = _ := by
        rw [log_periodic (beatAt_frame hW hH), log_frame hW hH, log_beatAt_eq_take hW hH hmod]

/-- **What has been sent**, in every run: when the sink has been ready in `r` of the cycles before
the last one, all frames that fit in `r + 1` positions, and the beats of the next one as far as
it goes. -/
theorem beats_eq_frames (s₀ : Regs) (ready : ℕ → Bool) (n : ℕ) :
    beats W H s₀ ready (n + 1) =
      (List.replicate ((readies ready n + 1) / (W * H + 7)) (sentFrame W H)).flatten ++
        (sentFrame W H).take ((readies ready n + 1) % (W * H + 7) - 1) :=
  (beats_succ s₀ ready n).trans (log_beatAt hW hH _)

end

/-- A sink that is ready in every second cycle. -/
theorem beats_eq_frames_half :
    beats 640 480 default (fun t => t % 2 == 0) (1000000 + 1) =
      (List.replicate ((readies (fun t => t % 2 == 0) 1000000 + 1) / (640 * 480 + 7))
          (sentFrame 640 480)).flatten ++
        (sentFrame 640 480).take
          ((readies (fun t => t % 2 == 0) 1000000 + 1) % (640 * 480 + 7) - 1) :=
  beats_eq_frames ⟨by decide, by decide⟩ ⟨by decide, by decide⟩ default (fun t => t % 2 == 0)
    1000000

end Tpg
end Video
end Cyclone10

import Cyclone10TPG.Video.Schedule
import Cyclone10TPG.Video.CtrlPacketOverride

/-!
# The override on the stream of the generator

The override is made for control packets like those of the generator: both have an Avalon-ST
interface of 24 bits, and the override passes `dout_ready` on, so the sink behind it stalls the
generator. The override counts cycles, so what it makes of the control packets depends on the
stalls: the sink has to be ready in the three cycles in which the first beats of a packet are
shown. As long as it is, `count` is a function of the state of the generator (`InStep`), and frames
come out that announce 640 by 480 pixels, whatever the size of the generator
(`beatsOut_eq_frames`). The first time that it is not, the cycles stop being aligned
(`aligned_iff_ready`).
-/

namespace Cyclone10
namespace Video
namespace Pipeline

open Sync CtrlPacketOverride

/-! ### In step -/

/-- The states that show a beat before the end of the control packet. -/
def Header (x : Tpg.State) : Prop := x = .sendctrl1 ∨ x = .sendctrl2 ∨ x = .sendctrl3

instance (x : Tpg.State) : Decidable (Header x) := inferInstanceAs (Decidable (_ ∨ _))

/-- The `count` that belongs to a state of the generator. -/
def countOf : Tpg.State → BitVec 2
  | .sendctrl2 => 1#2
  | .sendctrl3 => 2#2
  | .sendctrl4 => 3#2
  | _ => 0#2

/-- `count` belongs to the state, and the generator is not waiting inside a control packet. -/
structure InStep (count : BitVec 2) (s : Tpg.Regs) : Prop where
  ok : s.Ok
  count_eq : count = countOf s.state
  saved : s.state = .waitforsink → countOf s.savedstate = 0#2

section Step

variable {W H : ℕ} {count : BitVec 2} {s : Tpg.Regs}

/-- Only the header of a control packet starts the count. -/
theorem step_zero {din : Source}
    (h : ¬ (din.startofpacket = true ∧ din.data = 0x00000F#24)) :
    CtrlPacketOverride.step 0#2 din = 0#2 := by
  rw [CtrlPacketOverride.step, if_neg]
  rintro (hstart | hne)
  · exact h hstart
  · exact hne rfl

/-- Outside the first three beats of a control packet nothing starts or runs on. -/
theorem not_start {x : Tpg.State} (hx : s.state = x) (hne : x ≠ .sendctrl1) :
    ¬ ((Tpg.output W H s).startofpacket = true ∧ (Tpg.output W H s).data = 0x00000F#24) := by
  subst hx
  unfold Tpg.output
  cases hs : s.state <;> simp [hs] at hne ⊢

/-- **The generator and `count` stay in step** through every cycle but a stall inside a control
packet. -/
theorem InStep.step (h : InStep count s) {doutReady : Bool}
    (hr : Header s.state → doutReady = true) :
    InStep (CtrlPacketOverride.step count (Tpg.output W H s)) (Tpg.step W H s doutReady) := by
  obtain ⟨hok, hcount, hsaved⟩ := h
  have hok' := (hok.step (W := W) (H := H) doutReady).1
  subst hcount
  cases hs : s.state with
  | sendctrl1 | sendctrl2 | sendctrl3 =>
    -- the next beat is shown in the next cycle
    obtain rfl : doutReady = true := hr (by simp [Header, hs])
    refine ⟨hok', ?_, ?_⟩ <;>
      simp [CtrlPacketOverride.step, Tpg.output, Tpg.step, Tpg.nextState, Tpg.Regs.goTo, countOf,
        hs]
  | sendctrl4 =>
    -- the count runs out
    refine ⟨hok', ?_, ?_⟩ <;> cases doutReady <;>
      simp [CtrlPacketOverride.step, Tpg.output, Tpg.step, Tpg.nextState, Tpg.Regs.goTo, countOf,
        hs]
  | waitforsink =>
    have hsave := hsaved hs
    refine ⟨hok', ?_, ?_⟩
    · show CtrlPacketOverride.step 0#2 _ = _
      rw [step_zero (not_start hs (by decide))]
      cases doutReady with
      | true => simp [Tpg.step, Tpg.nextState, hs, hsave]
      | false => simp [Tpg.step, Tpg.nextState, hs, countOf]
    · intro hw
      cases doutReady <;> simpa [Tpg.step, Tpg.nextState, hs] using hsave
  | undef =>
    refine ⟨hok', ?_, ?_⟩
    · show CtrlPacketOverride.step 0#2 _ = _
      rw [step_zero (not_start hs (by decide))]
      simp [Tpg.step, Tpg.nextState, hs, countOf]
    · simp [Tpg.step, Tpg.nextState, hs]
  | idle | startvideo | sendingvideo | endvideo =>
    -- no beat of a control packet is shown or saved but the first
    refine ⟨hok', ?_, ?_⟩
    · show CtrlPacketOverride.step 0#2 _ = _
      rw [step_zero (not_start hs (by decide))]
      cases doutReady <;> cases hlast : Tpg.lastpixelout W H s <;>
        simp [Tpg.step, Tpg.nextState, Tpg.Regs.goTo, hs, hlast, countOf]
    · cases doutReady <;> cases hlast : Tpg.lastpixelout W H s <;>
        simp [Tpg.step, Tpg.nextState, Tpg.Regs.goTo, hs, hlast, countOf]

theorem InStep.aligned (h : InStep count s) : Aligned count (Tpg.output W H s) := by
  obtain ⟨-, rfl, -⟩ := h
  cases hs : s.state <;> simp [Aligned, countOf, Tpg.output, hs]

/-- A stall inside the control packet. -/
theorem InStep.not_aligned (h : InStep count s) (hs : Header s.state) :
    ¬ Aligned (CtrlPacketOverride.step count (Tpg.output W H s))
      (Tpg.output W H (Tpg.step W H s false)) := by
  obtain ⟨-, rfl, -⟩ := h
  rcases hs with hs | hs | hs <;>
    simp [Aligned, CtrlPacketOverride.step, countOf, Tpg.output, Tpg.step, Tpg.nextState,
      Tpg.Regs.goTo, hs]

end Step

/-! ### Runs -/

section Runs

variable (W H : ℕ) (s₀ : Tpg.Regs) (ready : ℕ → Bool)

/-- The signals between the two. The generator sees the `din_ready` of the override. -/
def din (t : ℕ) : Source :=
  Tpg.output W H (Tpg.regsAt W H s₀ (fun t => dinReady (ready t)) t)

/-- In the cycles before `n`, the sink is ready while one of the first three beats of a control
packet is shown. -/
def HeadersReady (n : ℕ) : Prop :=
  ∀ t < n, Header (Tpg.regsAt W H s₀ ready t).state → ready t = true

variable {W H s₀ ready} {n : ℕ}

theorem HeadersReady.mono (h : HeadersReady W H s₀ ready n) {m : ℕ} (hm : m ≤ n) :
    HeadersReady W H s₀ ready m := fun t ht => h t (ht.trans_le hm)

theorem HeadersReady.inStep (h : HeadersReady W H s₀ ready n) :
    InStep (countAt (din W H s₀ ready) n) (Tpg.regsAt W H s₀ ready n) := by
  induction n with
  | zero => exact ⟨Tpg.Regs.Ok.reset s₀, rfl, fun hw => absurd hw Tpg.State.noConfusion⟩
  | succ n ih => exact (ih (h.mono (Nat.le_succ n))).step (h n (Nat.lt_succ_self n))

/-- **Which sinks the override needs.** All cycles up to cycle `n` are aligned just when the sink
has been ready for the headers until then. -/
theorem aligned_iff_ready (W H : ℕ) (s₀ : Tpg.Regs) (ready : ℕ → Bool) (n : ℕ) :
    (∀ t ≤ n, Aligned (countAt (din W H s₀ ready) t) (din W H s₀ ready t)) ↔
      HeadersReady W H s₀ ready n := by
  constructor
  · intro h
    induction n with
    | zero => exact fun t ht => absurd ht (Nat.not_lt_zero t)
    | succ n ih =>
      have hn : HeadersReady W H s₀ ready n := ih fun t ht => h t (Nat.le_succ_of_le ht)
      intro t ht hs
      rcases Nat.lt_succ_iff_lt_or_eq.mp ht with ht' | rfl
      · exact hn t ht' hs
      · -- the generator and the count have been in step so far
        by_contra hready
        have hstall : ready t = false := Bool.eq_false_of_not_eq_true hready
        have hnext : Aligned (CtrlPacketOverride.step (countAt (din W H s₀ ready) t)
            (Tpg.output W H (Tpg.regsAt W H s₀ ready t)))
            (Tpg.output W H (Tpg.step W H (Tpg.regsAt W H s₀ ready t) (ready t))) :=
          h (t + 1) le_rfl
        rw [hstall] at hnext
        exact hn.inStep.not_aligned hs hnext
  · intro h t ht
    exact (h.mono ht).inStep.aligned

/-! ### Frames -/

/-- The video packet of the generator. -/
def videoPacket (W H : ℕ) : List Beat :=
  Tpg.videoHeader :: ((List.range (W * H)).map fun p => Tpg.pixel W p false) ++
    [Tpg.pixel W 0 true]

/-- The frame of the generator, announced as one of 640 by 480 pixels. -/
def resizedFrame (W H : ℕ) : List Beat := Tpg.ctrlPacket 640 480 ++ videoPacket W H

theorem sentFrame_eq (W H : ℕ) : Tpg.sentFrame W H = Tpg.ctrlPacket W H ++ videoPacket W H :=
  List.append_assoc _ _ _

/-- No beat of a video packet is the first of a control packet. -/
theorem next_videoPacket {b : Beat} (hb : b ∈ videoPacket W H) : Place.next .other b = .other := by
  simp only [videoPacket, List.cons_append, List.mem_cons, List.mem_append, List.mem_map,
    List.not_mem_nil, or_false] at hb
  obtain rfl | ⟨p, -, rfl⟩ | rfl := hb
  · decide
  · rfl
  · rfl

/-- The override takes the control packet for one, whatever it announces. -/
theorem foldl_ctrlPacket (W H : ℕ) : (Tpg.ctrlPacket W H).foldl Place.next .other = .other := rfl

theorem overridden_ctrlPacket (W H : ℕ) :
    overridden (Tpg.ctrlPacket W H) = Tpg.ctrlPacket 640 480 := rfl

theorem foldl_sentFrame (W H : ℕ) : (Tpg.sentFrame W H).foldl Place.next .other = .other := by
  rw [sentFrame_eq, List.foldl_append, foldl_ctrlPacket]
  exact foldl_of_fixed fun b hb => next_videoPacket hb

theorem overridden_sentFrame (W H : ℕ) : overridden (Tpg.sentFrame W H) = resizedFrame W H := by
  calc overridden (Tpg.sentFrame W H)
      = overridden (Tpg.ctrlPacket W H) ++ overridden (videoPacket W H) := by
        rw [sentFrame_eq, overridden, transduce_append, foldl_ctrlPacket]
        rfl
    _ = Tpg.ctrlPacket 640 480 ++ (videoPacket W H).map (Place.emit .other) := by
        rw [overridden_ctrlPacket, overridden, transduce_of_fixed fun b hb => next_videoPacket hb]
    _ = resizedFrame W H := congrArg _ (List.map_id _)

/-- **What comes out behind the override**, in every run in which the sink is ready for the headers:
frames of `W * H + 1` pixels, announced as 640 by 480, as many of them and as far into the last one
as the ready cycles say. -/
theorem beatsOut_eq_frames (hW : 1 ≤ W ∧ W ≤ 65535) (hH : 1 ≤ H ∧ H ≤ 65535)
    (hready : HeadersReady W H s₀ ready n) :
    beatsOut (din W H s₀ ready) (n + 1) =
      (List.replicate ((readies ready n + 1) / (W * H + 7)) (resizedFrame W H)).flatten ++
        (resizedFrame W H).take ((readies ready n + 1) % (W * H + 7) - 1) := by
  have hplace : ∀ t < n + 1, place (countAt (din W H s₀ ready) t) =
      placeOf (din W H s₀ ready) t := by
    intro t ht
    refine place_countAt fun u hu => InStep.aligned ?_
    exact (hready.mono (hu.le.trans (Nat.lt_succ_iff.mp ht))).inStep
  have hin : beatsIn (din W H s₀ ready) (n + 1) = log (Tpg.beatAt W H) (readies ready n + 1) :=
    Tpg.beats_succ s₀ ready n
  rw [beatsOut_eq hplace, hin, Tpg.log_beatAt hW hH, ← overridden_sentFrame, overridden,
    transduce_replicate (foldl_sentFrame W H), transduce_take]
  rfl

/-- A sink that stalls in the header of the video packet. -/
theorem beatsOut_eq_frames_stall :
    beatsOut (din 2 2 default (fun t => t != 5)) (30 + 1) =
      (List.replicate ((readies (fun t => t != 5) 30 + 1) / (2 * 2 + 7))
          (resizedFrame 2 2)).flatten ++
        (resizedFrame 2 2).take ((readies (fun t => t != 5) 30 + 1) % (2 * 2 + 7) - 1) :=
  beatsOut_eq_frames ⟨by decide, by decide⟩ ⟨by decide, by decide⟩
    (by unfold HeadersReady; decide)

end Runs

end Pipeline
end Video
end Cyclone10

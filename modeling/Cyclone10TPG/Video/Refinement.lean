import Cyclone10TPG.Video.Padding
import Cyclone10TPG.Video.Stalls

/-!
# The padding refines the test pattern generator

The state machine of the padding is that of the generator, in the module's own copy, under a
`dout_ready` that is lowered whenever `readlinebuffer` is low. `step_tpg` is the simulation:
the registers of the padding, read as registers of the generator, make the generator's step.
`readlinebuffer` depends on the counters that the step moves, but for the simulation it is only
one more reason to wait, and what an elastic source shows does not depend on when it waits.

The pixels differ, so the two streams are compared as *skeletons*: the framing of every beat,
and the data of the beats that are not pixels.
-/

namespace Cyclone10
namespace Video

open Sync

/-! ### Skeletons -/

/-- A beat, without the data if it is a pixel. -/
structure Skeleton where
  data : Option (BitVec 24)
  startofpacket : Bool
  endofpacket : Bool
  deriving Repr, DecidableEq

def Beat.skeleton (b : Beat) (pixel : Bool) : Skeleton :=
  ⟨if pixel then none else some b.data, b.startofpacket, b.endofpacket⟩

namespace Tpg

/-- The states that show a pixel. -/
def State.pixel : State → Bool
  | .sendingvideo | .endvideo => true
  | _ => false

section

variable (W H : ℕ)

/-- The skeleton of the beat on the output. -/
def skeleton (s : Regs) : Option Skeleton :=
  (output W H s).beat.map fun b => b.skeleton s.state.pixel

/-- The skeletons of the valid beats in the cycles before `n`. -/
def skeletons (s₀ : Regs) (ready : ℕ → Bool) (n : ℕ) : List Skeleton :=
  log (fun t => skeleton W H (regsAt W H s₀ ready t)) n

/-- The skeleton that a position shows. -/
def Pos.skeleton (x : Pos) : Option Skeleton := Tpg.skeleton W H x.regs

end

variable {W H : ℕ}

theorem Regs.Ok.skeleton {s : Regs} (hs : s.Ok) :
    skeleton W H s = elasticOut (Pos.skeleton W H) s.elastic := by
  obtain ⟨state, savedstate, houtcnt, voutcnt, latch⟩ := s
  rcases hs with hs | ⟨hw, -⟩
  · cases state with
    | undef => exact absurd rfl hs.1
    | waitforsink => exact absurd rfl hs.2
    | _ => rfl
  · obtain rfl : state = .waitforsink := hw
    rfl

/-- A sink that is always ready gets one position in every cycle. -/
theorem skeletons_always (s₀ : Regs) (n : ℕ) :
    skeletons W H s₀ (fun _ => true) (n + 1) =
      log (fun k => Pos.skeleton W H ((Pos.next W H)^[k] Pos.start)) (n + 1) := by
  have hready : readies (fun _ => true) n = n := by
    induction n with
    | zero => rfl
    | succ n ih => rw [readies_succ_of_ready rfl, ih]
  have hcongr : skeletons W H s₀ (fun _ => true) (n + 1) = log (fun t =>
      elasticOut (Pos.skeleton W H)
        (run (elasticStep (Pos.next W H)) (.active Pos.start) (fun _ => true) t)) (n + 1) := by
    refine log_congr fun t _ => ?_
    obtain ⟨hok, helastic⟩ := elastic_regsAt (W := W) (H := H) s₀ (fun _ => true) t
    rw [hok.skeleton, helastic]
  rw [hcongr, log_elasticOut, hready]

end Tpg

/-! ### The simulation -/

namespace Padding

/-- The states, in the generator's names. -/
def State.tpg : State → Tpg.State
  | .undef => .undef
  | .idle => .idle
  | .sendctrl1 => .sendctrl1
  | .sendctrl2 => .sendctrl2
  | .sendctrl3 => .sendctrl3
  | .sendctrl4 => .sendctrl4
  | .wait => .waitforsink
  | .startvideo => .startvideo
  | .sendingvideo => .sendingvideo
  | .endvideo => .endvideo

/-- The registers of the state machine, as registers of the generator. -/
def Regs.tpg (s : Regs) : Tpg.Regs :=
  ⟨s.state.tpg, s.savedstate.tpg, s.houtcnt, s.voutcnt, s.latch⟩

/-- The states that show a pixel. -/
def State.pixel : State → Bool
  | .sendingvideo | .endvideo => true
  | _ => false

section

variable (W H : ℕ)

/-- The skeleton of the beat on the output. -/
def skeleton (s : Regs) : Option Skeleton :=
  (output W H s).beat.map fun b => b.skeleton s.state.pixel

/-- The skeletons of the valid beats in the cycles before `n`. -/
def skeletons (s₀ : Regs) (ready : ℕ → Bool) (n : ℕ) : List Skeleton :=
  log (fun t => skeleton W H (regsAt W H s₀ ready t)) n

/-- The sink and the line buffer are both ready in cycle `t`. -/
def goesAt (s₀ : Regs) (ready : ℕ → Bool) (t : ℕ) : Bool :=
  ready t && readlinebuffer (regsAt W H s₀ ready t)

end

variable {W H : ℕ}

theorem goTo_tpg (s : Regs) (doutReady : Bool) (x : State) :
    (s.goTo doutReady x).tpg = s.tpg.goTo (doutReady && readlinebuffer s) x.tpg := by
  unfold Regs.goTo Tpg.Regs.goTo
  cases doutReady && readlinebuffer s <;> rfl

theorem nextState_tpg (s : Regs) (doutReady : Bool) :
    (nextState W H s doutReady).tpg =
      Tpg.nextState W H s.tpg (doutReady && readlinebuffer s) := by
  cases hs : s.state with
  | wait =>
    simp only [nextState, Tpg.nextState, Regs.tpg, hs, State.tpg]
    cases doutReady && readlinebuffer s <;> rfl
  | undef => simp only [nextState, Tpg.nextState, Regs.tpg, hs, State.tpg]
  | sendingvideo =>
    simp only [nextState, hs, goTo_tpg]
    simp only [Tpg.nextState, Regs.tpg, hs, State.tpg]
    show Tpg.Regs.goTo _ _ (if lastpixelout W H s then State.endvideo else .sendingvideo).tpg =
      Tpg.Regs.goTo _ _ (if lastpixelout W H s then .endvideo else .sendingvideo)
    cases lastpixelout W H s <;> rfl
  | _ =>
    simp only [nextState, hs, goTo_tpg]
    simp only [Tpg.nextState, Regs.tpg, hs, State.tpg]

theorem outcnt_tpg (s : Regs) : outcnt W s = Tpg.outcnt W s.tpg := by
  obtain ⟨state, savedstate, houtcnt, voutcnt, hincnt, vincnt, linebuffer, latch⟩ := s
  cases state <;> rfl

/-- **The simulation**: the step of the padding is that of the generator, but for the latch of
`dout_data`, when the line buffer counts as part of the sink. -/
theorem step_tpg (s : Regs) (doutReady : Bool) :
    (step W H s doutReady).tpg =
      { Tpg.step W H s.tpg (doutReady && readlinebuffer s) with
        latch := (output W H s).data } := by
  have hnext := nextState_tpg (W := W) (H := H) s doutReady
  have hcnt := outcnt_tpg (W := W) s
  unfold Tpg.step
  rw [← hnext, ← hcnt]
  rfl

theorem skeleton_tpg {s : Regs} (hs : s.tpg.Ok) : skeleton W H s = Tpg.skeleton W H s.tpg := by
  obtain ⟨state, savedstate, houtcnt, voutcnt, hincnt, vincnt, linebuffer, latch⟩ := s
  cases state <;> rfl

section Run

variable (s₀ : Regs) (ready : ℕ → Bool)

/-- The state machine follows the elastic source of the generator. -/
theorem elastic_regsAt (t : ℕ) :
    (regsAt W H s₀ ready t).tpg.Ok ∧
      (regsAt W H s₀ ready t).tpg.elastic =
        run (elasticStep (Tpg.Pos.next W H)) (.active Tpg.Pos.start) (goesAt W H s₀ ready) t := by
  induction t with
  | zero => exact ⟨Tpg.Regs.Ok.reset s₀.tpg, rfl⟩
  | succ t ih =>
    obtain ⟨hok, helastic⟩ := ih.1.step (W := W) (H := H) (goesAt W H s₀ ready t)
    have hstep : (regsAt W H s₀ ready (t + 1)).tpg = _ := step_tpg (regsAt W H s₀ ready t) (ready t)
    -- neither `Ok` nor the position reads the latch
    rw [hstep]
    exact ⟨hok, helastic.trans (by rw [run_succ, ih.2])⟩

/-- The skeleton in a cycle is that of the elastic source. -/
theorem skeleton_regsAt (t : ℕ) :
    skeleton W H (regsAt W H s₀ ready t) =
      elasticOut (Tpg.Pos.skeleton W H)
        (run (elasticStep (Tpg.Pos.next W H)) (.active Tpg.Pos.start) (goesAt W H s₀ ready) t) := by
  obtain ⟨hok, helastic⟩ := elastic_regsAt (W := W) (H := H) s₀ ready t
  rw [skeleton_tpg hok, hok.skeleton, helastic]

theorem skeleton_ne_none {s : Regs} : skeleton W H s ≠ none ↔ (output W H s).valid = true := by
  unfold skeleton
  rw [← Tpg.Source.beat_ne_none, ne_eq, Option.map_eq_none_iff]

end Run

/-! ### The main result -/

section

variable (W H : ℕ) (s₀ : Regs) (s₀' : Tpg.Regs) (ready : ℕ → Bool)

/-- What the padding has sent is the beginning of what the generator sends. -/
theorem exists_skeletons_eq (n : ℕ) :
    ∃ m, skeletons W H s₀ ready n = Tpg.skeletons W H s₀' (fun _ => true) m := by
  cases n with
  | zero => exact ⟨0, rfl⟩
  | succ n =>
    refine ⟨readies (goesAt W H s₀ ready) n + 1, ?_⟩
    calc skeletons W H s₀ ready (n + 1)
      _ = log (fun t => elasticOut (Tpg.Pos.skeleton W H)
            (run (elasticStep (Tpg.Pos.next W H)) (.active Tpg.Pos.start) (goesAt W H s₀ ready) t))
            (n + 1) := log_congr fun t _ => skeleton_regsAt s₀ ready t
      _ = log (fun k => Tpg.Pos.skeleton W H ((Tpg.Pos.next W H)^[k] Tpg.Pos.start))
            (readies (goesAt W H s₀ ready) n + 1) := log_elasticOut (Tpg.Pos.skeleton W H) n
      _ = Tpg.skeletons W H s₀' (fun _ => true) (readies (goesAt W H s₀ ready) n + 1) :=
        (Tpg.skeletons_always s₀' _).symm

/-- `dout_valid` answers a `dout_ready` of the preceding cycle, and a `readlinebuffer`. -/
theorem goes_of_valid {t : ℕ} (h : validAt W H s₀ ready t = true) :
    ∃ k, t = k + 1 ∧ goesAt W H s₀ ready k = true := by
  have hne : skeleton W H (regsAt W H s₀ ready t) ≠ none := skeleton_ne_none.mpr h
  rw [skeleton_regsAt] at hne
  cases t with
  | zero => exact absurd rfl hne
  | succ k => exact ⟨k, rfl, ready_of_elasticOut hne⟩

/-- **The padding refines the generator.** For every pattern of `dout_ready`, the framing of the
beats it has sent, and their data where they are not pixels, are a prefix of what the generator
sends to a sink that is always ready, and no beat is valid in a cycle after one in which
`dout_ready` was low. -/
theorem refines_tpg :
    (∀ n, ∃ m, skeletons W H s₀ ready n = Tpg.skeletons W H s₀' (fun _ => true) m) ∧
      ∀ t, validAt W H s₀ ready t = true → ∃ k, t = k + 1 ∧ ready k = true := by
  refine ⟨exists_skeletons_eq W H s₀ s₀' ready, fun t h => ?_⟩
  obtain ⟨k, rfl, hgoes⟩ := goes_of_valid W H s₀ ready h
  unfold goesAt at hgoes
  exact ⟨k, rfl, (Bool.and_eq_true_iff.mp hgoes).1⟩

end

end Padding
end Video
end Cyclone10

import Cyclone10TPG.Video.Frame
import Cyclone10TPG.Video.PaddingStall

/-!
# Which sizes the padding can send

Reader and writer are two pointers: a position in the output, and the place `w` of the next pixel
of the input image, `300` of them in a line. Nothing else decides how the machine goes on
(`pointers_regsAt`).

The reader needs the writer in the same line but in a later column, or in a later line. The writer
is held up when the reader is in its line, but not in line 0. So a reader that comes to line
`v + 1` before the writer has left it finds a writer that stands still. This is what a sink that
is always ready makes happen, in line 1 (`validAt_always_iff`).

A sink that knows the pointers can hold the reader back until the writer is a line ahead. This goes
well until the image ends before the output does: `exists_forall_exists_valid_iff` has the sizes
that leave enough room.
-/

namespace Cyclone10
namespace Video
namespace Padding

open Sync

/-! ### Two pointers -/

/-- The position that is shown, or that waits. -/
def posOf : Elastic Tpg.Pos → Tpg.Pos
  | .active x => x
  | .parked x => x

/-- The place of the writer in the input image. -/
def Regs.writer (s : Regs) : ℕ := 300 * s.vincnt + s.hincnt

/-- The position can be read. -/
def Reads (x : Tpg.Pos) (w : ℕ) : Prop := x.houtcnt < w % 300 ∧ x.voutcnt ≤ w / 300

/-- The writer is not held up. -/
def Writes (x : Tpg.Pos) (w : ℕ) : Prop :=
  x.voutcnt < w / 300 ∨ (x.voutcnt = 0 ∧ x.houtcnt ≤ w % 300)

instance (x : Tpg.Pos) (w : ℕ) : Decidable (Reads x w) := inferInstanceAs (Decidable (_ ∧ _))

instance (x : Tpg.Pos) (w : ℕ) : Decidable (Writes x w) := inferInstanceAs (Decidable (_ ∨ _))

/-- The two pointers. -/
def Regs.pointers (s : Regs) : Elastic Tpg.Pos × ℕ := (s.tpg.elastic, s.writer)

/-- One cycle. -/
def pointersStep (W H : ℕ) (s : Elastic Tpg.Pos × ℕ) (ready : Bool) : Elastic Tpg.Pos × ℕ :=
  (elasticStep (Tpg.Pos.next W H) s.1 (ready && decide (Reads (posOf s.1) s.2)),
    if Writes (posOf s.1) s.2 then (s.2 + 1) % 60000 else s.2)

section Step

variable {W H : ℕ} {s : Regs}

theorem counters_posOf (s : Regs) :
    s.houtcnt = (posOf s.tpg.elastic).houtcnt ∧ s.voutcnt = (posOf s.tpg.elastic).voutcnt := by
  refine counters_of_elastic ?_
  cases s.tpg.elastic with
  | active x => exact Or.inl rfl
  | parked x => exact Or.inr rfl

theorem writer_div (hs : s.InImage) : s.writer / 300 = s.vincnt ∧ s.writer % 300 = s.hincnt := by
  have hcol := hs.hincnt
  unfold Regs.writer
  omega

theorem writer_lt (hs : s.InImage) : s.writer < 60000 := by
  have hcol := hs.hincnt
  have hline := hs.vincnt
  unfold Regs.writer
  omega

theorem reads_iff (hs : s.InImage) :
    readlinebuffer s = decide (Reads (posOf s.tpg.elastic) s.writer) := by
  obtain ⟨hh, hv⟩ := counters_posOf s
  rw [Bool.eq_iff_iff, decide_eq_true_iff, readlinebuffer_iff hs, Reads, (writer_div hs).1,
    (writer_div hs).2, hh, hv]

theorem writes_iff (hs : s.InImage) :
    writelinebuffer s = true ↔ Writes (posOf s.tpg.elastic) s.writer := by
  obtain ⟨hh, hv⟩ := counters_posOf s
  rw [writelinebuffer_iff, Writes, (writer_div hs).1, (writer_div hs).2, ← hh, ← hv]
  omega

/-- The writer goes through the input image line by line. -/
theorem writer_step (hs : s.InImage) (doutReady : Bool) : (step W H s doutReady).writer =
    if Writes (posOf s.tpg.elastic) s.writer then (s.writer + 1) % 60000 else s.writer := by
  have hcol := hs.hincnt
  have hline := hs.vincnt
  have hcnt : (step W H s doutReady).writer = 300 * (incnt s).2 + (incnt s).1 := rfl
  rw [hcnt]
  by_cases hw : Writes (posOf s.tpg.elastic) s.writer
  · rw [if_pos hw, incnt_eq hs, if_pos ((writes_iff hs).mpr hw), Regs.writer]
    split_ifs with hlt hlast
    · show 300 * s.vincnt + (s.hincnt + 1) = _
      omega
    · show 300 * (s.vincnt + 1) + 0 = _
      omega
    · show 300 * 0 + 0 = _
      omega
  · have hno : writelinebuffer s = false :=
      Bool.eq_false_of_not_eq_true fun h => hw ((writes_iff hs).mp h)
    rw [if_neg hw, incnt_of_not_write hno]
    rfl

/-- **The step of the two pointers.** -/
theorem pointers_step (hok : s.tpg.Ok) (hs : s.InImage) (doutReady : Bool) :
    (step W H s doutReady).pointers = pointersStep W H s.pointers doutReady := by
  have helastic : (step W H s doutReady).tpg.elastic =
      elasticStep (Tpg.Pos.next W H) s.tpg.elastic (doutReady && readlinebuffer s) := by
    rw [step_tpg]
    exact (hok.step (W := W) (H := H) (doutReady && readlinebuffer s)).2
  rw [Regs.pointers, helastic, writer_step hs, reads_iff hs]
  rfl

/-- What is shown is sent, but for the idle state. -/
theorem valid_of_active (hok : s.tpg.Ok) {x : Tpg.Pos} (h : s.tpg.elastic = .active x)
    (hx : x.state ≠ .idle) : (output W H s).valid = true := by
  have hwait : s.tpg.state ≠ .waitforsink := by
    intro hwait
    rw [Tpg.Regs.elastic_of_wait hwait] at h
    cases h
  have hshown := hok.resolve_right fun hpark => hwait hpark.1
  rw [Tpg.Regs.elastic_of_shown hshown, Elastic.active.injEq] at h
  subst h
  refine (output_valid s).mpr ⟨fun hs => hx ?_, fun hs => hwait ?_, fun hs => hshown.1 ?_⟩
  · exact congrArg State.tpg hs
  · exact congrArg State.tpg hs
  · exact congrArg State.tpg hs

/-- Nothing is sent while the machine waits. -/
theorem not_valid_of_parked (hok : s.tpg.Ok) {x : Tpg.Pos} (h : s.tpg.elastic = .parked x) :
    (output W H s).valid = false := by
  by_contra hvalid
  have hne := skeleton_ne_none.mpr (Bool.eq_true_of_not_eq_false hvalid)
  rw [skeleton_tpg hok, hok.skeleton, h] at hne
  exact hne rfl

end Step

/-- **The run of the padding, as a run of the two pointers.** -/
theorem pointers_regsAt (W H : ℕ) (s₀ : Regs) (ready : ℕ → Bool) (t : ℕ) :
    (regsAt W H s₀ ready t).pointers =
      run (pointersStep W H) (.active Tpg.Pos.start, 0) ready t := by
  induction t with
  | zero => rfl
  | succ t ih =>
    rw [run_succ, ← ih]
    exact pointers_step (elastic_regsAt s₀ ready t).1 (inImage_regsAt W H s₀ ready t) (ready t)

/-! ### A line that is never left -/

section Line

variable {W H : ℕ} (hW : 1 ≤ W ∧ W ≤ 65535) (hH : 1 ≤ H ∧ H ≤ 65535) {s₀ : Regs} {ready : ℕ → Bool}

/-- A machine that has gone on a bounded number of times sends nothing any more in the end. -/
theorem exists_forall_not_valid_of_gone {N : ℕ} (h : ∀ t, goneAt W H s₀ ready t ≤ N) :
    ∃ T, ∀ t, T ≤ t → validAt W H s₀ ready t = false := by
  obtain ⟨T, hT⟩ := exists_forall_not_ready h
  refine ⟨T + 1, fun t ht => ?_⟩
  by_contra hvalid
  obtain ⟨k, rfl, hgo⟩ := goes_of_valid W H s₀ ready (Bool.eq_true_of_not_eq_false hvalid)
  rw [hT k (Nat.le_of_succ_le_succ ht)] at hgo
  exact absurd hgo Bool.false_ne_true

include hW hH

/-- The first two positions of a line. -/
theorem voutcnt_line {L : ℕ} (hL : L ≤ H) (hwrap : L < 65535) :
    ((Tpg.Pos.next W H)^[6 + W * L] Tpg.Pos.start).voutcnt = L ∧
      L ≤ ((Tpg.Pos.next W H)^[6 + W * L + 1] Tpg.Pos.start).voutcnt := by
  have hpos := Tpg.iterate_next_raster hW hH (Nat.mul_le_mul_left W hL)
  rw [Nat.mul_mod_right, Nat.mul_div_cancel_left L hW.1] at hpos
  refine ⟨by rw [hpos], ?_⟩
  rw [Function.iterate_succ_apply', hpos]
  -- the counters run, from column 0
  have hrun : Tpg.outcnt W
      (Tpg.Pos.regs ⟨if W * L = W * H then .endvideo else .sendingvideo, 0, L⟩) =
      if W - 1 ≤ 0 then (0, (L + 1) % 65536) else (1, L) := by
    split <;> rfl
  show L ≤ (Tpg.outcnt W _).2
  rw [hrun]
  split_ifs
  · show L ≤ (L + 1) % 65536
    omega
  · exact le_rfl

/-- If the machine never goes on from line `L` on, it does not get past the start of that line. -/
theorem gone_le_of_line {L : ℕ} (hL : L ≤ H) (hwrap : L < 65535)
    (hno : ∀ t, L ≤ (regsAt W H s₀ ready t).voutcnt → goesAt W H s₀ ready t = false) (t : ℕ) :
    goneAt W H s₀ ready t ≤ 6 + W * L := by
  induction t with
  | zero => exact Nat.zero_le _
  | succ t ih =>
    rcases Nat.lt_or_eq_of_le ih with hlt | heq
    · exact (Nat.add_le_add_left (Bool.toNat_le _) _).trans hlt
    · suffices hstay : goesAt W H s₀ ready t = false by
        rw [goneAt, readies_succ_of_not_ready hstay]
        exact ih
      apply hno
      cases t with
      | zero =>
        have hzero : 0 = 6 + W * L := heq
        omega
      | succ t =>
        rw [(counters_regsAt s₀ ready t).2]
        obtain ⟨hfirst, hsecond⟩ := voutcnt_line hW hH hL hwrap
        cases hgo : goesAt W H s₀ ready t with
        | true =>
          rw [goneAt, readies_succ_of_ready hgo, ← goneAt] at heq
          rw [heq, hfirst]
        | false =>
          rw [goneAt, readies_succ_of_not_ready hgo, ← goneAt] at heq
          rw [heq]
          exact hsecond

/-- **Outputs as high as the input image**: the stream ends in the first frame, whatever the sink
does. -/
theorem exists_forall_not_valid_of_height (hheight : vinsize ≤ H) :
    ∃ T, ∀ t, T ≤ t → validAt W H s₀ ready t = false := by
  have hL : 200 ≤ H := hheight
  refine exists_forall_not_valid_of_gone (gone_le_of_line hW hH hL (by decide) fun t ht => ?_)
  -- the writer never is in line 200
  have hline := (inImage_regsAt W H s₀ ready t).vincnt
  have hno : readlinebuffer (regsAt W H s₀ ready t) = false := by
    by_contra hread
    have hle := ((readlinebuffer_iff (inImage_regsAt W H s₀ ready t)).mp
      (Bool.eq_true_of_not_eq_false hread)).2
    omega
  rw [goesAt, hno, Bool.and_false]

end Line

/-! ### The last line -/

/-- The position after a pixel. -/
theorem next_pixel {W H : ℕ} (hW : 1 ≤ W ∧ W ≤ 65535) (hH : 1 ≤ H ∧ H ≤ 65535) {h v : ℕ}
    (hh : h < W) (hv : v < H) : Tpg.Pos.next W H ⟨.sendingvideo, h, v⟩ =
      if h + 1 < W then ⟨.sendingvideo, h + 1, v⟩
      else ⟨if v + 1 < H then .sendingvideo else .endvideo, 0, v + 1⟩ := by
  show Tpg.Pos.mk (if (decide (W - 1 ≤ h) && decide (H - 1 ≤ v)) = true then .endvideo
      else .sendingvideo)
    (if W - 1 ≤ h then (0, (v + 1) % 65536) else ((h + 1) % 65536, v)).1
    (if W - 1 ≤ h then (0, (v + 1) % 65536) else ((h + 1) % 65536, v)).2 = _
  rw [Nat.mod_eq_of_lt (show h + 1 < 65536 by omega),
    Nat.mod_eq_of_lt (show v + 1 < 65536 by omega)]
  split_ifs with hcol hlast hlast hrow hrow <;>
    simp only [Bool.and_eq_true, decide_eq_true_eq] at * <;> first | rfl | omega

/-- A step in which the writer goes on. -/
theorem pointersStep_of_writes {W H : ℕ} {x : Elastic Tpg.Pos} {w : ℕ} {ready : Bool} (go : Bool)
    (hgo : go = true ↔ ready = true ∧ Reads (posOf x) w) (hw : Writes (posOf x) w) {w' : ℕ}
    (hnext : (w + 1) % 60000 = w') :
    pointersStep W H (x, w) ready = (elasticStep (Tpg.Pos.next W H) x go, w') := by
  have hready : (ready && decide (Reads (posOf x) w)) = go := by
    rw [Bool.eq_iff_iff, Bool.and_eq_true, decide_eq_true_iff]
    exact hgo.symm
  unfold pointersStep
  rw [hready, if_pos hw, hnext]

/-- A step in which neither of the two goes on. -/
theorem pointersStep_of_held {W H : ℕ} {x : Elastic Tpg.Pos} {w : ℕ} (hread : ¬ Reads (posOf x) w)
    (hwrite : ¬ Writes (posOf x) w) (ready : Bool) :
    pointersStep W H (x, w) ready = (elasticStep (Tpg.Pos.next W H) x false, w) := by
  unfold pointersStep
  rw [decide_eq_false hread, Bool.and_false, if_neg hwrite]

/-- What a step does to the two pointers. -/
theorem pointersStep_cases (W H : ℕ) (x : Elastic Tpg.Pos) (w : ℕ) (ready : Bool) :
    ∃ go w', pointersStep W H (x, w) ready = (elasticStep (Tpg.Pos.next W H) x go, w') ∧
      (go = true → Reads (posOf x) w) ∧
      (Writes (posOf x) w ∧ w' = (w + 1) % 60000 ∨ ¬ Writes (posOf x) w ∧ w' = w) := by
  refine ⟨_, _, rfl, fun hgo => ?_, ?_⟩
  · exact of_decide_eq_true (Bool.and_eq_true_iff.mp hgo).2
  · by_cases hw : Writes (posOf x) w
    · exact Or.inl ⟨hw, if_pos hw⟩
    · exact Or.inr ⟨hw, if_neg hw⟩

/-- The reader in line 0 stays there, or goes on to the start of line 1. -/
theorem next_firstLine {W : ℕ} {x : Tpg.Pos} (hv : x.voutcnt = 0) (hne : x.state ≠ .endvideo) :
    ((Tpg.Pos.next W 199 x).voutcnt = 0 ∧ (Tpg.Pos.next W 199 x).state ≠ .endvideo) ∨
      (W - 1 ≤ x.houtcnt ∧ Tpg.Pos.next W 199 x = ⟨.sendingvideo, 0, 1⟩) := by
  obtain ⟨state, h, v⟩ := x
  obtain rfl : v = 0 := hv
  have hlast : Tpg.lastpixelout W 199 (Tpg.Pos.regs ⟨state, h, 0⟩) = false := Bool.and_false _
  unfold Tpg.Pos.next
  rw [hlast]
  cases state with
  | endvideo => exact absurd rfl hne
  | sendingvideo =>
    show (if W - 1 ≤ h then (0, 0 + 1) else ((h + 1) % 65536, 0)).2 = 0 ∧ _ ∨ W - 1 ≤ h ∧
      Tpg.Pos.mk .sendingvideo (if W - 1 ≤ h then (0, 0 + 1) else ((h + 1) % 65536, 0)).1
        (if W - 1 ≤ h then (0, 0 + 1) else ((h + 1) % 65536, 0)).2 = _
    split_ifs with hcol
    · exact Or.inr ⟨hcol, rfl⟩
    · exact Or.inl ⟨rfl, Tpg.State.noConfusion⟩
  | _ => exact Or.inl ⟨rfl, Tpg.State.noConfusion⟩

/-- **Late in the image**: with 199 lines of at least 298 pixels, a reader that has left line 0 is
in the line of the writer or behind it, or so late in the next one that the writer comes to the end
of the image before the last pixel is shown. -/
inductive Behind (W : ℕ) : Elastic Tpg.Pos → ℕ → Prop
  | first {x : Elastic Tpg.Pos} {w : ℕ} (hv : (posOf x).voutcnt = 0)
      (hne : (posOf x).state ≠ .endvideo) : Behind W x w
  | active {h v w : ℕ} (hh : h < W) (hv : 1 ≤ v ∧ v ≤ 198)
      (hw : v < w / 300 → (h = 0 ∧ w = 300 * (v + 1)) ∨ 300 * (v + 1) + h + 2 ≤ w) :
      Behind W (.active ⟨.sendingvideo, h, v⟩) w
  | parked {h v w : ℕ} (hh : h < W) (hv : 1 ≤ v ∧ v ≤ 198)
      (hw : v < w / 300 → 300 * (v + 1) + h ≤ w) : Behind W (.parked ⟨.sendingvideo, h, v⟩) w
  | last {x : Elastic Tpg.Pos} {w : ℕ} (hx : x = .active ⟨.endvideo, 0, 199⟩ ∨
      x = .parked ⟨.endvideo, 0, 199⟩ ∨ x = .parked ⟨.idle, 1, 199⟩) (hw : w / 300 < 199) :
      Behind W x w

section Behind

variable {W w : ℕ} (hW : 298 ≤ W ∧ W ≤ 299)

include hW

/-- The reader leaves a pixel outside of line 0. -/
theorem behind_of_active {h v w' : ℕ} {go : Bool} (hlt : w < 60000) (hh : h < W)
    (hv : 1 ≤ v ∧ v ≤ 198)
    (hw : v < w / 300 → (h = 0 ∧ w = 300 * (v + 1)) ∨ 300 * (v + 1) + h + 2 ≤ w)
    (hread : go = true → Reads ⟨.sendingvideo, h, v⟩ w)
    (hwrite : Writes ⟨.sendingvideo, h, v⟩ w ∧ w' = (w + 1) % 60000 ∨
      ¬ Writes ⟨.sendingvideo, h, v⟩ w ∧ w' = w) :
    Behind W (elasticStep (Tpg.Pos.next W 199) (.active ⟨.sendingvideo, h, v⟩) go) w' := by
  unfold Reads at hread
  unfold Writes at hwrite
  simp only at hread hwrite
  have hnext := next_pixel (W := W) (H := 199) (by omega) (by decide) hh (show v < 199 by omega)
  cases go with
  | true =>
    show Behind W (.active (Tpg.Pos.next W 199 _)) w'
    have hcol := hread rfl
    rw [hnext]
    split_ifs with hlast hrow
    · exact .active hlast hv (by omega)
    · exact .active (by omega) ⟨by omega, by omega⟩ (by omega)
    · obtain rfl : v = 198 := by omega
      exact .last (Or.inl rfl) (by omega)
  | false =>
    show Behind W (.parked (Tpg.Pos.next W 199 _)) w'
    rw [hnext]
    split_ifs with hlast hrow
    · exact .parked hlast hv (by omega)
    · exact .parked (by omega) ⟨by omega, by omega⟩ (by omega)
    · obtain rfl : v = 198 := by omega
      exact .last (Or.inr (Or.inl rfl)) (by omega)

/-- **Every step keeps the reader behind.** -/
theorem Behind.step {x : Elastic Tpg.Pos} (h : Behind W x w) (hlt : w < 60000) (ready : Bool) :
    Behind W (pointersStep W 199 (x, w) ready).1 (pointersStep W 199 (x, w) ready).2 := by
  obtain ⟨go, w', hstep, hread, hwrite⟩ := pointersStep_cases W 199 x w ready
  rw [hstep]
  show Behind W (elasticStep (Tpg.Pos.next W 199) x go) w'
  cases h with
  | first hv hne =>
    cases x with
    | parked x => cases go <;> exact .first hv hne
    | active x =>
      simp only [posOf] at hv hne hread hwrite
      rcases next_firstLine hv hne with ⟨hv', hne'⟩ | ⟨hcol, hnext⟩
      · cases go <;> exact .first hv' hne'
      · cases go with
        | false =>
          show Behind W (.parked (Tpg.Pos.next W 199 x)) w'
          rw [hnext]
          exact .parked (by omega) ⟨le_rfl, by decide⟩ (by omega)
        | true =>
          show Behind W (.active (Tpg.Pos.next W 199 x)) w'
          rw [hnext]
          -- the writer is in one of the last two columns of its line
          have hahead : x.houtcnt < w % 300 := (hread rfl).1
          unfold Writes at hwrite
          exact .active (by omega) ⟨le_rfl, by decide⟩ (by omega)
  | active hh hv hw => exact behind_of_active hW hlt hh hv hw hread hwrite
  | @parked h v _ hh hv hw =>
    unfold Reads at hread
    unfold Writes at hwrite
    simp only [posOf] at hread hwrite
    cases go with
    | true =>
      have hahead := hread rfl
      exact .active hh hv (by omega)
    | false => exact .parked hh hv (by omega)
  | last hx hw =>
    -- neither of the two can go on
    have hline : (posOf x).voutcnt = 199 := by
      rcases hx with rfl | rfl | rfl <;> rfl
    have hstay : go = false := by
      by_contra hgo
      have hle := (hread (Bool.eq_true_of_not_eq_false hgo)).2
      omega
    have hheld : w' = w := by
      unfold Writes at hwrite
      omega
    rw [hstay, hheld]
    refine .last ?_ hw
    rcases hx with rfl | rfl | rfl
    · have hnext : Tpg.Pos.next W 199 ⟨.endvideo, 0, 199⟩ = ⟨.idle, 1, 199⟩ := by
        show Tpg.Pos.mk .idle (if W - 1 ≤ 0 then (0, 200) else (1, 199)).1
          (if W - 1 ≤ 0 then (0, 200) else (1, 199)).2 = _
        rw [if_neg (by omega)]
      exact Or.inr (Or.inr (congrArg Elastic.parked hnext))
    · exact Or.inr (Or.inl rfl)
    · exact Or.inr (Or.inr rfl)

/-- The reader is behind in every cycle, and in the last line it never goes on. -/
theorem behind_regsAt (s₀ : Regs) (ready : ℕ → Bool) (t : ℕ) :
    Behind W (regsAt W 199 s₀ ready t).tpg.elastic (regsAt W 199 s₀ ready t).writer := by
  have hpointers := pointers_regsAt W 199 s₀ ready
  induction t with
  | zero => exact .first rfl Tpg.State.noConfusion
  | succ t ih =>
    have hstep := ih.step hW (writer_lt (inImage_regsAt W 199 s₀ ready t)) (ready t)
    have hnext : (regsAt W 199 s₀ ready (t + 1)).pointers =
        pointersStep W 199 (regsAt W 199 s₀ ready t).pointers (ready t) := by
      rw [hpointers, hpointers, run_succ]
    show Behind W (regsAt W 199 s₀ ready (t + 1)).pointers.1
      (regsAt W 199 s₀ ready (t + 1)).pointers.2
    rw [hnext]
    exact hstep

omit hW in
/-- A reader behind the writer cannot go on in the last line. -/
theorem Behind.not_reads {x : Elastic Tpg.Pos} (h : Behind W x w) (hv : 199 ≤ (posOf x).voutcnt) :
    ¬ Reads (posOf x) w := by
  intro hread
  have hline := hv.trans hread.2
  cases h with
  | first hv' => exact absurd (hv.trans_eq hv') (by decide)
  | active _ hv' => exact absurd (hv.trans hv'.2) (by decide)
  | parked _ hv' => exact absurd (hv.trans hv'.2) (by decide)
  | last _ hw => exact absurd hline (Nat.not_le_of_lt hw)

/-- **199 lines of 298 or 299 pixels**: the stream ends before the last beat of the first frame. -/
theorem exists_forall_not_valid_of_behind (s₀ : Regs) (ready : ℕ → Bool) :
    ∃ T, ∀ t, T ≤ t → validAt W 199 s₀ ready t = false := by
  refine exists_forall_not_valid_of_gone (gone_le_of_line (L := 199) (by omega) (by decide) le_rfl
    (by decide) fun t ht => ?_)
  rw [(counters_posOf _).2] at ht
  have hno := (behind_regsAt hW s₀ ready t).not_reads ht
  rw [goesAt, reads_iff (inImage_regsAt W 199 s₀ ready t), decide_eq_false hno, Bool.and_false]

end Behind

/-! ### A sink that keeps the stream going -/

section Sink

variable (W H : ℕ)

/-- Where the writer is when the first pixel of line `v` is shown: the last pixel of the line is
shown when the writer comes to the line after the next. The last line of all is early by two
columns, if there is room, because `ENDVIDEO` follows at once. -/
def lineStart (v : ℕ) : ℕ := 300 * (v + 2) + 1 - W - if v + 1 = H ∧ W ≤ 297 then 2 else 0

/-- **The sink.** It lets the frame begin when the writer has begun with the image, and every line
when the writer has come to `lineStart`. -/
def sink : Elastic Tpg.Pos × ℕ → Bool
  | (.active x, _) =>
    match x.state with
    | .idle | .startvideo => false
    | .sendingvideo => decide (x.houtcnt + 1 < W) || x.voutcnt + 1 == H
    | _ => true
  | (.parked x, w) =>
    match x.state with
    | .sendctrl1 => w == 1
    | .sendingvideo => w + 1 == lineStart W H x.voutcnt
    | _ => true

/-- A bound on the cycles until the next beat. -/
def delay : Elastic Tpg.Pos → ℕ → ℕ
  | .active x, _ => if x.state = .idle then 60001 else 0
  | .parked x, w =>
    match x.state with
    | .sendctrl1 => (60001 - w) % 60000 + 1
    | .sendingvideo => lineStart W H x.voutcnt - w
    | _ => 1

/-- **On time**: where the writer is when the sink gets a position. -/
inductive OnTime : Elastic Tpg.Pos → ℕ → Prop
  | idle {h v w : ℕ} : OnTime (.active ⟨.idle, h, v⟩) w
  | rest {w : ℕ} : OnTime (.parked ⟨.sendctrl1, 0, 0⟩) w
  | ctrl1 : OnTime (.active ⟨.sendctrl1, 0, 0⟩) 2
  | ctrl2 : OnTime (.active ⟨.sendctrl2, 0, 0⟩) 3
  | ctrl3 : OnTime (.active ⟨.sendctrl3, 0, 0⟩) 4
  | ctrl4 : OnTime (.active ⟨.sendctrl4, 0, 0⟩) 5
  | start : OnTime (.active ⟨.startvideo, 0, 0⟩) 6
  | gap {v w : ℕ} (hv : v < H) (hw : (v = 0 ∧ 7 ≤ w) ∨ 300 * (v + 1) < w)
      (hlt : w < lineStart W H v) : OnTime (.parked ⟨.sendingvideo, 0, v⟩) w
  | pixel {h v : ℕ} (hh : h < W) (hv : v < H) :
      OnTime (.active ⟨.sendingvideo, h, v⟩) (lineStart W H v + h)
  | wait (hwide : 297 < W) : OnTime (.parked ⟨.endvideo, 0, H⟩) (300 * (H + 1) + 1)
  | finish {w : ℕ} (hread : Reads ⟨.endvideo, 0, H⟩ w) : OnTime (.active ⟨.endvideo, 0, H⟩) w

variable {W H}

/-- One cycle with this sink. -/
def sinkStep (W H : ℕ) (x : Elastic Tpg.Pos) (w : ℕ) : Elastic Tpg.Pos × ℕ :=
  pointersStep W H (x, w) (sink W H (x, w))

/-- A cycle in which the writer goes on. -/
theorem sinkStep_of_writes {x : Elastic Tpg.Pos} {w : ℕ} (go : Bool)
    (hgo : go = true ↔ sink W H (x, w) = true ∧ Reads (posOf x) w) (hw : Writes (posOf x) w)
    {w' : ℕ} (hnext : (w + 1) % 60000 = w') :
    sinkStep W H x w = (elasticStep (Tpg.Pos.next W H) x go, w') :=
  pointersStep_of_writes go hgo hw hnext

variable (hW : 1 ≤ W) (hH : 1 ≤ H) (hsize : (W ≤ 297 ∧ H ≤ 199) ∨ (W ≤ 299 ∧ H ≤ 198))

include hsize

/-- The two cases of `lineStart`. -/
theorem lineStart_cases {v : ℕ} (hv : v < H) :
    (v + 1 = H ∧ W ≤ 297 ∧ lineStart W H v + W = 300 * (v + 2) - 1) ∨
      ((v + 1 = H → 298 ≤ W) ∧ lineStart W H v + W = 300 * (v + 2) + 1) := by
  unfold lineStart
  split_ifs with hlast <;> omega

/-- The pixels come on time: after a pixel the next one, or the next line, or the end. -/
theorem onTime_of_pixel {h v : ℕ} (hh : h < W) (hv : v < H) {s : Elastic Tpg.Pos × ℕ}
    (hs : sinkStep W H (.active ⟨.sendingvideo, h, v⟩) (lineStart W H v + h) = s) :
    OnTime W H s.1 s.2 := by
  have hcases := lineStart_cases hsize hv
  have hreads : Reads ⟨.sendingvideo, h, v⟩ (lineStart W H v + h) ↔
      h + 1 < W ∨ v + 1 = H ∧ W ≤ 297 := by
    unfold Reads
    simp only
    omega
  have hwrites : Writes ⟨.sendingvideo, h, v⟩ (lineStart W H v + h) := by
    unfold Writes
    simp only
    omega
  have hgo : decide (h + 1 < W ∨ v + 1 = H ∧ W ≤ 297) = true ↔
      sink W H (.active ⟨.sendingvideo, h, v⟩, lineStart W H v + h) = true ∧
        Reads ⟨.sendingvideo, h, v⟩ (lineStart W H v + h) := by
    show _ ↔ (decide (h + 1 < W) || v + 1 == H) = true ∧ _
    rw [hreads, decide_eq_true_iff, Bool.or_eq_true, decide_eq_true_iff, beq_iff_eq]
    tauto
  have hnext := next_pixel (W := W) (H := H) (by omega) (by omega) hh hv
  rw [sinkStep_of_writes _ hgo hwrites (Nat.mod_eq_of_lt (by omega))] at hs
  subst hs
  by_cases hlast : h + 1 < W
  · -- the next pixel of the line
    rw [decide_eq_true (Or.inl hlast)]
    show OnTime W H (.active (Tpg.Pos.next W H _)) (lineStart W H v + h + 1)
    rw [hnext, if_pos hlast]
    exact .pixel hlast hv
  by_cases hrow : v + 1 < H
  · -- the line is over, and the sink waits for the writer
    rw [decide_eq_false (by omega)]
    show OnTime W H (.parked (Tpg.Pos.next W H _)) (lineStart W H v + h + 1)
    rw [hnext, if_neg hlast, if_pos hrow]
    have hcases' := lineStart_cases hsize hrow
    exact .gap hrow (by omega) (by omega)
  obtain rfl : H = v + 1 := by omega
  by_cases hroom : W ≤ 297
  · -- the last line is over, and the beat behind the image follows at once
    rw [decide_eq_true (Or.inr ⟨rfl, hroom⟩)]
    show OnTime W (v + 1) (.active (Tpg.Pos.next W (v + 1) _)) (lineStart W (v + 1) v + h + 1)
    rw [hnext, if_neg hlast, if_neg hrow]
    refine .finish ⟨?_, ?_⟩
    · show 0 < (lineStart W (v + 1) v + h + 1) % 300
      omega
    · show v + 1 ≤ (lineStart W (v + 1) v + h + 1) / 300
      omega
  · -- no room is left in the line of the writer
    rw [decide_eq_false (by omega)]
    show OnTime W (v + 1) (.parked (Tpg.Pos.next W (v + 1) _)) (lineStart W (v + 1) v + h + 1)
    rw [hnext, if_neg hlast, if_neg hrow]
    have hend : lineStart W (v + 1) v + h + 1 = 300 * (v + 1 + 1) + 1 := by omega
    rw [hend]
    exact .wait (by omega)

include hW hH

/-- **Every step is on time**, and brings the next beat closer. -/
theorem OnTime.step {x : Elastic Tpg.Pos} {w : ℕ} (h : OnTime W H x w) (hlt : w < 60000)
    {s : Elastic Tpg.Pos × ℕ} (hs : sinkStep W H x w = s) :
    OnTime W H s.1 s.2 ∧ (delay W H x w ≠ 0 → delay W H s.1 s.2 < delay W H x w) := by
  cases h with
  | idle =>
    -- the writer may be anywhere in the image, or just at its start
    subst hs
    refine ⟨.rest, fun _ => ?_⟩
    show (60001 - _) % 60000 + 1 < 60001
    exact Nat.succ_lt_succ (Nat.mod_lt _ (by decide))
  | rest =>
    by_cases hone : w = 1
    · -- the first beat of the control packet
      subst hone
      exact ⟨hs ▸ .ctrl1, fun _ => hs ▸ Nat.one_pos⟩
    · -- the sink waits for the writer to begin with the image
      have hgo : false = true ↔ sink W H (.parked ⟨.sendctrl1, 0, 0⟩, w) = true ∧
          Reads ⟨.sendctrl1, 0, 0⟩ w :=
        ⟨fun h => absurd h Bool.false_ne_true, fun h => absurd (beq_iff_eq.mp h.1) hone⟩
      rw [sinkStep_of_writes false hgo (Or.inr ⟨rfl, Nat.zero_le _⟩) rfl] at hs
      subst hs
      refine ⟨.rest, fun _ => ?_⟩
      show (60001 - (w + 1) % 60000) % 60000 + 1 < (60001 - w) % 60000 + 1
      omega
  -- the headers take a cycle each, in step with the writer
  | ctrl1 => exact ⟨hs ▸ .ctrl2, fun h => absurd rfl h⟩
  | ctrl2 => exact ⟨hs ▸ .ctrl3, fun h => absurd rfl h⟩
  | ctrl3 => exact ⟨hs ▸ .ctrl4, fun h => absurd rfl h⟩
  | ctrl4 => exact ⟨hs ▸ .start, fun h => absurd rfl h⟩
  | start =>
    -- the sink waits for the first line
    have hcases := lineStart_cases hsize hH
    have hstep : sinkStep W H (.active ⟨.startvideo, 0, 0⟩) 6 =
        (.parked ⟨.sendingvideo, 0, 0⟩, 7) := rfl
    rw [hstep] at hs
    subst hs
    exact ⟨.gap hH (Or.inl ⟨rfl, le_rfl⟩) (by omega), fun h => absurd rfl h⟩
  | @gap v _ hv hw hlt =>
    -- the writer is in a line that the sink does not read from yet, and is not held up
    have hcases := lineStart_cases hsize hv
    have hwrites : Writes ⟨.sendingvideo, 0, v⟩ w := by
      unfold Writes
      simp only
      omega
    have hgo : decide (w + 1 = lineStart W H v) = true ↔
        sink W H (.parked ⟨.sendingvideo, 0, v⟩, w) = true ∧ Reads ⟨.sendingvideo, 0, v⟩ w := by
      show _ ↔ (w + 1 == lineStart W H v) = true ∧ _
      rw [decide_eq_true_iff, beq_iff_eq]
      unfold Reads
      simp only
      omega
    rw [sinkStep_of_writes _ hgo hwrites (Nat.mod_eq_of_lt (by omega))] at hs
    subst hs
    by_cases hend : w + 1 = lineStart W H v
    · -- the line begins
      rw [decide_eq_true hend, hend]
      refine ⟨.pixel (h := 0) hW hv, fun _ => ?_⟩
      show 0 < lineStart W H v - w
      omega
    · -- one cycle less to wait for
      rw [decide_eq_false hend]
      refine ⟨.gap hv (by omega) (by omega), fun _ => ?_⟩
      show lineStart W H v - (w + 1) < lineStart W H v - w
      omega
  | pixel hh hv => exact ⟨onTime_of_pixel hsize hh hv hs, fun h => absurd rfl h⟩
  | wait hwide =>
    -- the writer has begun with another line, and the beat behind the image can be read
    have hwrites : Writes ⟨.endvideo, 0, H⟩ (300 * (H + 1) + 1) := by
      unfold Writes
      simp only
      omega
    have hreads : Reads ⟨.endvideo, 0, H⟩ (300 * (H + 1) + 1) := by
      unfold Reads
      simp only
      omega
    rw [sinkStep_of_writes (x := .parked ⟨.endvideo, 0, H⟩) true
      ⟨fun _ => ⟨rfl, hreads⟩, fun _ => rfl⟩ hwrites (Nat.mod_eq_of_lt (by omega))] at hs
    subst hs
    refine ⟨.finish ⟨?_, ?_⟩, fun _ => Nat.one_pos⟩
    · show 0 < (300 * (H + 1) + 1 + 1) % 300
      omega
    · show H ≤ (300 * (H + 1) + 1 + 1) / 300
      omega
  | finish hread =>
    -- the frame is over
    subst hs
    refine ⟨?_, fun h => absurd rfl h⟩
    show OnTime W H (elasticStep (Tpg.Pos.next W H) (.active ⟨.endvideo, 0, H⟩)
      (true && decide (Reads ⟨.endvideo, 0, H⟩ w))) _
    rw [Bool.true_and, decide_eq_true hread]
    exact .idle

omit hW hH hsize in
/-- A beat is sent when none is waited for. -/
theorem OnTime.shown {x : Elastic Tpg.Pos} {w : ℕ} (h : OnTime W H x w)
    (hdelay : delay W H x w = 0) : ∃ y : Tpg.Pos, x = .active y ∧ y.state ≠ .idle := by
  cases h with
  | idle => exact absurd hdelay (Nat.succ_ne_zero 60000)
  | rest => exact absurd hdelay (Nat.succ_ne_zero _)
  | gap hv hw hlt => exact absurd hdelay (Nat.sub_ne_zero_of_lt hlt)
  | wait => exact absurd hdelay Nat.one_ne_zero
  | _ => exact ⟨_, rfl, Tpg.State.noConfusion⟩

/-- The delay in cycle `t` of a run. -/
def delayAt (W H : ℕ) (s₀ : Regs) (ready : ℕ → Bool) (t : ℕ) : ℕ :=
  delay W H (regsAt W H s₀ ready t).pointers.1 (regsAt W H s₀ ready t).pointers.2

/-- **The stream of smaller outputs**: some sink gets beats for ever. -/
theorem exists_forall_exists_valid (s₀ : Regs) :
    ∃ ready : ℕ → Bool, ∀ t, ∃ n, validAt W H s₀ ready (t + n) = true := by
  obtain ⟨ready, hready⟩ :=
    exists_feedback (pointersStep W H) (.active Tpg.Pos.start, 0) (sink W H)
  refine ⟨ready, fun t => ?_⟩
  have hnext : ∀ k, sinkStep W H (regsAt W H s₀ ready k).pointers.1
      (regsAt W H s₀ ready k).pointers.2 = (regsAt W H s₀ ready (k + 1)).pointers := by
    intro k
    rw [pointers_regsAt W H s₀ ready k, pointers_regsAt W H s₀ ready (k + 1), run_succ, hready k]
    rfl
  have honTime : ∀ k, OnTime W H (regsAt W H s₀ ready k).pointers.1
      (regsAt W H s₀ ready k).pointers.2 := by
    intro k
    induction k with
    | zero => exact .idle
    | succ k ih =>
      exact (ih.step hW hH hsize (writer_lt (inImage_regsAt W H s₀ ready k)) (hnext k)).1
  have hcloser : ∀ k, delayAt W H s₀ ready k ≠ 0 →
      delayAt W H s₀ ready (k + 1) < delayAt W H s₀ ready k := fun k =>
    ((honTime k).step hW hH hsize (writer_lt (inImage_regsAt W H s₀ ready k)) (hnext k)).2
  obtain ⟨n, -, -, hdelay, -⟩ := exists_of_measure (P := fun _ => True)
    (Q := fun k => delayAt W H s₀ ready k = 0) (m := delayAt W H s₀ ready)
    (fun k _ hwait => ⟨trivial, hcloser k hwait⟩) (t := t) trivial
  obtain ⟨y, hy, hne⟩ := (honTime (t + n)).shown hdelay
  exact ⟨n, valid_of_active (elastic_regsAt s₀ ready (t + n)).1 hy hne⟩

end Sink

/-- **Which sizes the padding can send.** There is a sink that gets beats for ever exactly when the
output is smaller than the input image, in both directions, and by one line or two columns more.
Outputs of other sizes end in the first frame, whatever the sink does. -/
theorem exists_forall_exists_valid_iff {W H : ℕ} (hW : 1 ≤ W ∧ W ≤ 65535)
    (hH : 1 ≤ H ∧ H ≤ 65535) (s₀ : Regs) :
    (∃ ready : ℕ → Bool, ∀ t, ∃ n, validAt W H s₀ ready (t + n) = true) ↔
      (W + 2 < hinsize ∧ H < vinsize) ∨ (W < hinsize ∧ H + 1 < vinsize) := by
  have hwidth : hinsize = 300 := rfl
  have hheight : vinsize = 200 := rfl
  constructor
  · rintro ⟨ready, hvalid⟩
    by_contra hsize
    suffices hend : ∃ T, ∀ t, T ≤ t → validAt W H s₀ ready t = false by
      obtain ⟨T, hT⟩ := hend
      obtain ⟨n, hn⟩ := hvalid T
      rw [hT _ (Nat.le_add_right T n)] at hn
      exact absurd hn Bool.false_ne_true
    by_cases hwide : hinsize ≤ W
    · exact exists_forall_not_valid hwide s₀ ready
    by_cases hhigh : vinsize ≤ H
    · exact exists_forall_not_valid_of_height hW hH hhigh
    obtain rfl : H = 199 := by omega
    exact exists_forall_not_valid_of_behind (by omega) s₀ ready
  · intro hsize
    exact exists_forall_exists_valid hW.1 hH.1 (by omega) s₀

/-- 16 pixels by 9, and 320 by 240. -/
theorem exists_forall_exists_valid_iff_small :
    (∃ ready : ℕ → Bool, ∀ t, ∃ n, validAt 16 9 default ready (t + n) = true) ∧
      ¬ ∃ ready : ℕ → Bool, ∀ t, ∃ n, validAt 320 240 default ready (t + n) = true :=
  ⟨(exists_forall_exists_valid_iff (by decide) (by decide) default).mpr (Or.inl (by decide)),
    fun h => absurd ((exists_forall_exists_valid_iff (by decide) (by decide) default).mp h)
      (by decide)⟩

/-! ### A sink that is always ready -/

section Always

variable {W H : ℕ}

/-- The positions before the first pixel. -/
theorem counters_header {k : ℕ} (hk : k ≤ 6) :
    ((Tpg.Pos.next W H)^[k] Tpg.Pos.start).houtcnt = 0 ∧
      ((Tpg.Pos.next W H)^[k] Tpg.Pos.start).voutcnt = 0 := by
  interval_cases k <;> exact ⟨rfl, rfl⟩

/-- A shown position other than the first is not the idle state, up to the start of line 1. -/
theorem state_ne_idle (hW : 1 ≤ W ∧ W ≤ 65535) (hH : 1 ≤ H ∧ H ≤ 65535) {k : ℕ} (hk : 1 ≤ k)
    (hle : k ≤ 6 + W * H) : ((Tpg.Pos.next W H)^[k] Tpg.Pos.start).state ≠ .idle := by
  by_cases hheader : k < 6
  · interval_cases k <;> exact Tpg.State.noConfusion
  · obtain ⟨p, rfl⟩ := Nat.exists_eq_add_of_le (Nat.le_of_not_lt hheader)
    rw [Tpg.iterate_next_raster hW hH (Nat.le_of_add_le_add_left hle)]
    show (if p = W * H then Tpg.State.endvideo else .sendingvideo) ≠ .idle
    split_ifs <;> exact Tpg.State.noConfusion

variable (hW : 1 ≤ W ∧ W ≤ 293) (hH : 1 ≤ H ∧ H ≤ 65535)

/-- The two pointers when the sink is always ready. -/
def alwaysAt (W H : ℕ) : ℕ → Elastic Tpg.Pos × ℕ :=
  run (pointersStep W H) (.active Tpg.Pos.start, 0) fun _ => true

include hW hH

/-- In the first line, the writer stays seven columns ahead. -/
theorem alwaysAt_of_le {k : ℕ} (hk : k ≤ W + 5) :
    alwaysAt W H (2 + k) = (.active ((Tpg.Pos.next W H)^[1 + k] Tpg.Pos.start), 2 + k) := by
  induction k with
  | zero =>
    -- the writer begins first
    have hfirst : pointersStep W H (.active Tpg.Pos.start, 0) true =
        (.parked ⟨.sendctrl1, 0, 0⟩, 1) := rfl
    rw [Nat.add_zero, alwaysAt, run_succ, run_succ, run_zero, hfirst]
    rfl
  | succ k ih =>
    have hpos : ((Tpg.Pos.next W H)^[1 + k] Tpg.Pos.start).houtcnt ≤ k ∧
        ((Tpg.Pos.next W H)^[1 + k] Tpg.Pos.start).voutcnt = 0 := by
      by_cases hheader : 1 + k ≤ 6
      · obtain ⟨hh, hv⟩ := counters_header (W := W) (H := H) hheader
        exact ⟨hh.trans_le (Nat.zero_le k), hv⟩
      · obtain ⟨p, hp⟩ := Nat.exists_eq_add_of_le (Nat.le_of_not_le hheader)
        have hlt : p < W := by omega
        have hle : p ≤ W * H := hlt.le.trans (Nat.le_mul_of_pos_right W hH.1)
        rw [hp, Tpg.iterate_next_raster ⟨hW.1, by omega⟩ hH hle]
        refine ⟨?_, Nat.div_eq_of_lt hlt⟩
        show p % W ≤ k
        rw [Nat.mod_eq_of_lt hlt]
        omega
    have hreads : Reads ((Tpg.Pos.next W H)^[1 + k] Tpg.Pos.start) (2 + k) := by
      unfold Reads
      omega
    have hwrites : Writes ((Tpg.Pos.next W H)^[1 + k] Tpg.Pos.start) (2 + k) := by
      unfold Writes
      omega
    rw [← Nat.add_assoc, alwaysAt, run_succ, ← alwaysAt, ih (Nat.le_of_succ_le hk),
      pointersStep_of_writes (x := .active _) true ⟨fun _ => ⟨rfl, hreads⟩, fun _ => rfl⟩ hwrites
        (Nat.mod_eq_of_lt (by omega)), ← Nat.add_assoc, Function.iterate_succ_apply']
    rfl

omit hH in
/-- Behind line 0, nothing is read or written when the writer is seven columns ahead. -/
theorem not_reads_not_writes {x : Tpg.Pos} (hx : 1 ≤ x.voutcnt) :
    ¬ Reads x (W + 7) ∧ ¬ Writes x (W + 7) := by
  have hwriter : (W + 7) / 300 ≤ 1 ∧ ((W + 7) / 300 = 1 → (W + 7) % 300 = 0) := by omega
  refine ⟨fun hread => ?_, fun hwrite => ?_⟩
  · unfold Reads at hread
    omega
  · unfold Writes at hwrite
    omega

/-- The first position of line 1 and the one behind it. -/
theorem voutcnt_secondLine : ((Tpg.Pos.next W H)^[W + 6] Tpg.Pos.start).voutcnt = 1 ∧
    1 ≤ ((Tpg.Pos.next W H)^[W + 7] Tpg.Pos.start).voutcnt := by
  have hline := voutcnt_line ⟨hW.1, hW.2.trans (by decide)⟩ hH (L := 1) hH.1 (by decide)
  rwa [Nat.mul_one, Nat.add_comm 6 W] at hline

/-- At the start of line 1, both stand still. -/
theorem alwaysAt_of_ge (k : ℕ) :
    alwaysAt W H (W + 8 + k) = (.parked ((Tpg.Pos.next W H)^[W + 7] Tpg.Pos.start), W + 7) := by
  obtain ⟨hfirst, hsecond⟩ := voutcnt_secondLine hW hH
  have hheld : ∀ x : Elastic Tpg.Pos, 1 ≤ (posOf x).voutcnt →
      pointersStep W H (x, W + 7) true = (elasticStep (Tpg.Pos.next W H) x false, W + 7) := by
    intro x hx
    obtain ⟨hread, hwrite⟩ := not_reads_not_writes hW hx
    exact pointersStep_of_held hread hwrite true
  induction k with
  | zero =>
    have hlast := alwaysAt_of_le hW hH (k := W + 5) le_rfl
    have hindex : 1 + (W + 5) = W + 6 := by omega
    have hcycle : 2 + (W + 5) = W + 7 := by omega
    rw [hindex, hcycle] at hlast
    rw [Nat.add_zero, alwaysAt, run_succ, ← alwaysAt, hlast,
      hheld (.active ((Tpg.Pos.next W H)^[W + 6] Tpg.Pos.start)) hfirst.ge,
      Function.iterate_succ_apply' _ (W + 6)]
    rfl
  | succ k ih =>
    rw [← Nat.add_assoc, alwaysAt, run_succ, ← alwaysAt, ih,
      hheld (.parked ((Tpg.Pos.next W H)^[W + 7] Tpg.Pos.start)) hsecond]
    rfl

/-- **A sink that is always ready** gets the control packet, the first line and one beat more, in
consecutive cycles, and nothing after that: reader and writer hold each other up. -/
theorem validAt_always_iff (s₀ : Regs) (t : ℕ) :
    (validAt W H s₀ (fun _ => true) t = true ↔ 2 ≤ t ∧ t ≤ W + 7) ∧
      (W + 8 ≤ t → readlinebuffer (regsAt W H s₀ (fun _ => true) t) = false ∧
        writelinebuffer (regsAt W H s₀ (fun _ => true) t) = false) := by
  have hok := (elastic_regsAt (W := W) (H := H) s₀ (fun _ => true) t).1
  have hpointers : (regsAt W H s₀ (fun _ => true) t).pointers = alwaysAt W H t :=
    pointers_regsAt W H s₀ (fun _ => true) t
  rcases Nat.lt_or_ge t 2 with hfirst | htwo
  · refine ⟨iff_of_false (fun hvalid => ?_) (by omega), fun hend => absurd hend (by omega)⟩
    obtain ⟨k, rfl, hgo⟩ := goes_of_valid W H s₀ _ hvalid
    -- the writer has not begun in cycle 0
    obtain rfl : k = 0 := by omega
    exact absurd hgo Bool.false_ne_true
  rcases Nat.lt_or_ge (W + 7) t with hend | hend
  · obtain ⟨k, rfl⟩ := Nat.exists_eq_add_of_le (show W + 8 ≤ t from hend)
    rw [alwaysAt_of_ge hW hH] at hpointers
    obtain ⟨hreader, hwriter⟩ := Prod.mk.inj hpointers
    have hpark := not_valid_of_parked (W := W) (H := H) hok hreader
    refine ⟨iff_of_false (fun hvalid => ?_) (by omega), fun _ => ?_⟩
    · exact absurd (hpark.symm.trans hvalid) Bool.false_ne_true
    · have hs := inImage_regsAt W H s₀ (fun _ => true) (W + 8 + k)
      obtain ⟨hread, hwrite⟩ := not_reads_not_writes hW (voutcnt_secondLine hW hH).2
      refine ⟨?_, Bool.eq_false_of_not_eq_true fun h => hwrite ?_⟩
      · rw [reads_iff hs, hreader, hwriter]
        exact decide_eq_false hread
      · rw [writes_iff hs, hreader, hwriter] at h
        exact h
  · obtain ⟨k, rfl⟩ := Nat.exists_eq_add_of_le htwo
    rw [alwaysAt_of_le hW hH (by omega)] at hpointers
    have hle : W ≤ W * H := Nat.le_mul_of_pos_right W hH.1
    refine ⟨iff_of_true (valid_of_active hok (congrArg Prod.fst hpointers) ?_) ⟨htwo, hend⟩,
      fun hlater => absurd hlater (by omega)⟩
    exact state_ne_idle ⟨hW.1, by omega⟩ hH (by omega) (by omega)

omit hW hH in
/-- 16 pixels by 9. -/
theorem validAt_always_iff_small :
    validAt 16 9 default (fun _ => true) 23 = true ∧
      ¬ validAt 16 9 default (fun _ => true) 24 = true :=
  ⟨(validAt_always_iff (by decide) (by decide) default 23).1.mpr (by decide),
    fun h => absurd ((validAt_always_iff (by decide) (by decide) default 24).1.mp h) (by decide)⟩

end Always

end Padding
end Video
end Cyclone10

import Cyclone10TPG.Video.Tpg
import Cyclone10TPG.Sync.Transduce

/-!
# The control packet override

`VideoStreamCtrlPacketOverride` sits in a video stream and puts its own frame size into the
control packets. A control packet starts with a beat with `startofpacket` and the data
`0x00000F`. The register `count` is 0 before that and selects a constant for `dout_data` in
the three cycles after it; all other signals go through.

`count` looks at neither `din_valid` nor `din_endofpacket`. It counts cycles, so it selects
the right beats just when the three beats come without a gap and belong to the packet
(`Aligned`). What the module is for is the transducer `overridden` on the beats, which knows
no cycles.
-/

namespace Cyclone10
namespace Video
namespace CtrlPacketOverride

open Sync

/-! ### The circuit -/

/-- `count` after the edge. -/
def step (count : BitVec 2) (din : Source) : BitVec 2 :=
  if (din.startofpacket ∧ din.data = 0x00000F#24) ∨ count ≠ 0#2 then
    match count with
    | 0#2 => count + 1#2
    | 1#2 => count + 1#2
    | 2#2 => count + 1#2
    | 3#2 => 0#2
  else 0#2

def doutData (count : BitVec 2) (din : Source) : BitVec 24 :=
  if count = 0#2 then din.data
  else if count = 1#2 then 0x080200#24
  else if count = 2#2 then 0x010000#24
  else if count = 3#2 then 0x03000E#24
  else din.data

/-- The signals of `dout`. -/
def output (count : BitVec 2) (din : Source) : Source :=
  ⟨doutData count din, din.valid, din.startofpacket, din.endofpacket⟩

/-- `din_ready`. -/
def dinReady (doutReady : Bool) : Bool := doutReady

section

variable (din : ℕ → Source)

/-- `count` in cycle `t` of the run from reset. -/
def countAt : ℕ → BitVec 2 := run step 0#2 din

/-- The beats on `din` in the cycles before `n`. -/
def beatsIn (n : ℕ) : List Beat := log (fun t => (din t).beat) n

/-- The beats on `dout` in the cycles before `n`. -/
def beatsOut (n : ℕ) : List Beat := log (fun t => (output (countAt din t) (din t)).beat) n

end

/-! ### What the override is for -/

/-- The place of the next beat: one of the first three after the header of a control packet,
as long as the packet has not ended, or none of these. -/
inductive Place
  | other | first | second | third
  deriving Repr, DecidableEq

/-- The place after a beat. A header inside the three beats is none of its own. -/
def Place.next (p : Place) (b : Beat) : Place :=
  if b.endofpacket then .other
  else
    match p with
    | .other => if b.startofpacket ∧ b.data = 0x00000F#24 then .first else .other
    | .first => .second
    | .second => .third
    | .third => .other

/-- The beat with the data for its place. -/
def Place.emit (p : Place) (b : Beat) : Beat :=
  match p with
  | .other => b
  | .first => { b with data := 0x080200#24 }
  | .second => { b with data := 0x010000#24 }
  | .third => { b with data := 0x03000E#24 }

/-- **The stream with its control packets overridden.** -/
def overridden (l : List Beat) : List Beat := transduce Place.next Place.emit .other l

/-! ### Aligned cycles -/

/-- The place that `count` stands for. -/
def place (count : BitVec 2) : Place :=
  if count = 0#2 then .other
  else if count = 1#2 then .first
  else if count = 2#2 then .second
  else .third

/-- **A cycle in which counting cycles and counting beats is the same**: where `count` starts
or runs on, there is a beat, and only the last of them may end its packet. -/
def Aligned (count : BitVec 2) (din : Source) : Prop :=
  (din.startofpacket = true ∧ din.data = 0x00000F#24) ∨ count ≠ 0#2 →
    din.valid = true ∧ (count ≠ 3#2 → din.endofpacket = false)

instance (count : BitVec 2) (din : Source) : Decidable (Aligned count din) :=
  inferInstanceAs (Decidable (_ → _))

theorem count_cases (count : BitVec 2) :
    count = 0#2 ∨ count = 1#2 ∨ count = 2#2 ∨ count = 3#2 := by
  revert count
  decide

/-- `count` moves on to the place of the next beat in the aligned cycles, and only in these. -/
theorem aligned_iff (count : BitVec 2) (din : Source) :
    Aligned count din ↔
      place (step count din) = din.beat.elim (place count) (place count).next := by
  obtain ⟨data, valid, sop, eop⟩ := din
  rcases count_cases count with rfl | rfl | rfl | rfl
  · -- before a header the data decides whether the count starts
    by_cases hdata : data = 0x00000F#24
    · subst hdata
      revert valid sop eop
      decide
    · cases valid <;> cases eop <;>
        simp [Aligned, step, place, Source.beat, Place.next, hdata]
  -- from then on it runs, whatever is on the signals
  all_goals
    cases valid <;> cases eop <;> simp [Aligned, step, place, Source.beat, Place.next]

/-- `dout` is the beat on `din` with the data for the place of `count`. -/
theorem output_beat (count : BitVec 2) (din : Source) :
    (output count din).beat = din.beat.map (place count).emit := by
  obtain ⟨data, valid, sop, eop⟩ := din
  rcases count_cases count with rfl | rfl | rfl | rfl <;> cases valid <;> rfl

/-- A beat whose data is none of the constants tells the places apart. -/
theorem emit_injective {b : Beat} (hb : b.data = 0#24) {p q : Place} (h : p.emit b = q.emit b) :
    p = q := by
  have hdata := congrArg Beat.data h
  cases p <;> cases q <;> simp [Place.emit, hb] at hdata ⊢

/-! ### Runs -/

section

variable {din : ℕ → Source} {n : ℕ}

/-- The place of the beats before cycle `n`. -/
def placeOf (din : ℕ → Source) (n : ℕ) : Place := (beatsIn din n).foldl Place.next .other

/-- As long as all cycles are aligned, `count` is at the place of the beats. -/
theorem place_countAt (h : ∀ t < n, Aligned (countAt din t) (din t)) :
    place (countAt din n) = placeOf din n :=
  foldl_log (q := fun t => place (countAt din t)) rfl fun t ht => (aligned_iff _ _).mp (h t ht)

/-- If `count` is always at the place of the beats, all cycles are aligned. -/
theorem aligned_of_place (h : ∀ m ≤ n, place (countAt din m) = placeOf din m) {t : ℕ}
    (ht : t < n) : Aligned (countAt din t) (din t) := by
  have hnext : placeOf din (t + 1) = (din t).beat.elim (placeOf din t) (placeOf din t).next := by
    unfold placeOf beatsIn
    rw [log_succ, List.foldl_append]
    cases (din t).beat <;> rfl
  rw [aligned_iff, h t ht.le, ← hnext]
  exact h (t + 1) ht

/-- The beats come out right up to a cycle if `count` has been at their place so far. -/
theorem beatsOut_eq (h : ∀ t < n, place (countAt din t) = placeOf din t) :
    beatsOut din n = overridden (beatsIn din n) :=
  log_transduce fun t ht => by
    rw [output_beat, h t ht]
    rfl

/-- A beat that tells the places apart. -/
def probe : Source := ⟨0#24, true, false, false⟩

/-- The stream up to cycle `m`, and then the probe. -/
def probed (din : ℕ → Source) (m : ℕ) : ℕ → Source := fun t => if t < m then din t else probe

/-- If the beats come out right whatever comes in cycle `m`, `count` is at their place. -/
theorem place_of_beatsOut {m : ℕ} (h : ∀ din', (∀ t < m, din' t = din t) →
    beatsOut din' (m + 1) = overridden (beatsIn din' (m + 1))) :
    place (countAt din m) = placeOf din m := by
  have hlt : ∀ t < m, probed din m t = din t := fun t ht => if_pos ht
  have hm : probed din m m = probe := if_neg (Nat.lt_irrefl m)
  have hcount : countAt (probed din m) m = countAt din m := run_congr hlt
  have hplace : placeOf (probed din m) m = placeOf din m := by
    unfold placeOf beatsIn
    rw [log_congr fun t ht => by rw [hlt t ht]]
  -- the probe comes out right, which tells where the machine takes it to be
  have hout := emit_of_log_transduce (a := ⟨0#24, false, false⟩) (h (probed din m) hlt)
    (by rw [hm]; rfl) (by rw [output_beat, hm]; rfl)
  rw [← hcount, ← hplace]
  exact emit_injective rfl hout

/-- **The override is right exactly when its cycles are aligned.** In a run whose cycles before
`n` are aligned the beats that come out up to cycle `n` are those that come in with the control
packets overridden, wherever the gaps are otherwise. And if a cycle is not aligned, a beat
comes out wrong in a run that is the same until then. -/
theorem aligned_iff_beatsOut (din : ℕ → Source) (n : ℕ) :
    (∀ t < n, Aligned (countAt din t) (din t)) ↔
      ∀ m ≤ n, ∀ din', (∀ t < m, din' t = din t) →
        beatsOut din' (m + 1) = overridden (beatsIn din' (m + 1)) := by
  constructor
  · intro h m hm din' hdin'
    refine beatsOut_eq fun t ht => place_countAt fun u hu => ?_
    have hu' : u < m := hu.trans_le (Nat.lt_succ_iff.mp ht)
    have hcount : countAt din' u = countAt din u := run_congr fun v hv => hdin' v (hv.trans hu')
    rw [hcount, hdin' u hu']
    exact h u (hu'.trans_le hm)
  · intro h t ht
    exact aligned_of_place (fun m hm => place_of_beatsOut (h m hm)) ht

/-- A control packet with one idle cycle after its header. -/
def gap : ℕ → Source := fun t =>
  [⟨0x00000F#24, true, true, false⟩, ⟨0x00000F#24, false, false, false⟩,
    ⟨0x080700#24, true, false, false⟩, ⟨0x040000#24, true, false, false⟩,
    ⟨0x030803#24, true, false, true⟩].getD t ⟨0#24, false, false, false⟩

/-- The idle cycle takes the first constant, and the last beat is not overridden. -/
theorem beatsOut_gap :
    beatsOut gap 5 = [⟨0x00000F#24, true, false⟩, ⟨0x010000#24, false, false⟩,
        ⟨0x03000E#24, false, false⟩, ⟨0x030803#24, false, true⟩] ∧
      ¬ ∀ din n, beatsOut din n = overridden (beatsIn din n) := by
  refine ⟨by decide, fun h => absurd (h gap 5) (by decide)⟩

end

end CtrlPacketOverride
end Video
end Cyclone10

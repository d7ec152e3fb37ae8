import Cyclone10TPG.Video.Tpg

/-!
# Stalls of the test pattern generator

The generator is an elastic source. Its *positions* are the shown states with the pixel
counters; `WAITFORSINK` with a `savedstate` is that position, parked. The counters run on the
state that is shown, not on `dout_ready`, and this is what makes it work: every position is
shown in one cycle only, so the counters advance once for every pixel.

So the sink decides when a beat comes but not which (`beats_comparable`), and a sink that
takes what is valid one cycle after it was ready takes every beat once.
-/

namespace Cyclone10
namespace Video
namespace Tpg

open Sync

/-! ### Positions -/

/-- A position in the stream: the state that is shown, and the pixel counters. -/
structure Pos where
  state : State
  houtcnt : ℕ
  voutcnt : ℕ
  deriving Repr, DecidableEq

/-- The registers that show a position. -/
def Pos.regs (x : Pos) : Regs := ⟨x.state, x.state, x.houtcnt, x.voutcnt, 0⟩

/-- A state of the stream, that is neither waiting nor outside the machine. -/
def State.Shown (x : State) : Prop := x ≠ .undef ∧ x ≠ .waitforsink

/-- The state that comes after a shown one. -/
def State.succ (last : Bool) : State → State
  | .idle => .sendctrl1
  | .sendctrl1 => .sendctrl2
  | .sendctrl2 => .sendctrl3
  | .sendctrl3 => .sendctrl4
  | .sendctrl4 => .startvideo
  | .startvideo => .sendingvideo
  | .sendingvideo => if last then .endvideo else .sendingvideo
  | .endvideo | .waitforsink | .undef => .idle

section

variable (W H : ℕ)

/-- The position after this one. -/
def Pos.next (x : Pos) : Pos :=
  ⟨x.state.succ (lastpixelout W H x.regs), (outcnt W x.regs).1, (outcnt W x.regs).2⟩

/-- The beat that a position shows. -/
def Pos.beat (x : Pos) : Option Beat := (output W H x.regs).beat

/-- The first position. -/
def Pos.start : Pos := ⟨.idle, 0, 0⟩

/-- What the generator shows `k` positions after the first. -/
def beatAt (k : ℕ) : Option Beat := Pos.beat W H ((Pos.next W H)^[k] Pos.start)

end


/-! ### The registers as an elastic source -/

/-- What the registers show, or have saved. -/
def Regs.elastic (s : Regs) : Elastic Pos :=
  if s.state = .waitforsink then .parked ⟨s.savedstate, s.houtcnt, s.voutcnt⟩
  else .active ⟨s.state, s.houtcnt, s.voutcnt⟩

/-- The registers show a state, or wait with one saved. -/
def Regs.Ok (s : Regs) : Prop :=
  s.state.Shown ∨ (s.state = .waitforsink ∧ s.savedstate.Shown)

variable {W H : ℕ}

theorem State.Shown.succ {x : State} (hx : x.Shown) (last : Bool) : (x.succ last).Shown := by
  cases x with
  | undef => exact absurd rfl hx.1
  | waitforsink => exact absurd rfl hx.2
  | sendingvideo => cases last <;> exact ⟨State.noConfusion, State.noConfusion⟩
  | _ => exact ⟨State.noConfusion, State.noConfusion⟩

theorem Regs.Ok.reset (s : Regs) : s.reset.Ok := Or.inl ⟨State.noConfusion, State.noConfusion⟩

/-- A shown state has one successor, which is next or saved. -/
theorem nextState_of_shown {s : Regs} (hs : s.state.Shown) (doutReady : Bool) :
    nextState W H s doutReady = s.goTo doutReady (s.state.succ (lastpixelout W H s)) := by
  obtain ⟨state, savedstate, houtcnt, voutcnt, latch⟩ := s
  cases state with
  | undef => exact absurd rfl hs.1
  | waitforsink => exact absurd rfl hs.2
  | _ => rfl

theorem Regs.elastic_of_shown {s : Regs} (hs : s.state.Shown) :
    s.elastic = .active ⟨s.state, s.houtcnt, s.voutcnt⟩ := if_neg hs.2

theorem Regs.elastic_of_wait {s : Regs} (hs : s.state = .waitforsink) :
    s.elastic = .parked ⟨s.savedstate, s.houtcnt, s.voutcnt⟩ := if_pos hs

/-- **The generator is an elastic source** of its positions. -/
theorem Regs.Ok.step {s : Regs} (hs : s.Ok) (doutReady : Bool) :
    (step W H s doutReady).Ok ∧
      (step W H s doutReady).elastic = elasticStep (Pos.next W H) s.elastic doutReady := by
  rcases hs with hs | ⟨hw, hs⟩
  · -- The counters run on in this step, ready or not.
    have hx := hs.succ (lastpixelout W H s)
    rw [Regs.elastic_of_shown hs, Tpg.step, nextState_of_shown hs]
    cases doutReady with
    | true => exact ⟨Or.inl hx, Regs.elastic_of_shown hx⟩
    | false => exact ⟨Or.inr ⟨rfl, hx⟩, Regs.elastic_of_wait rfl⟩
  · -- The counters stand still while the machine waits.
    rw [Regs.elastic_of_wait hw]
    obtain ⟨state, savedstate, houtcnt, voutcnt, latch⟩ := s
    obtain rfl : state = .waitforsink := hw
    cases doutReady with
    | true => exact ⟨Or.inl hs, Regs.elastic_of_shown hs⟩
    | false => exact ⟨Or.inr ⟨rfl, hs⟩, Regs.elastic_of_wait rfl⟩

/-- A beat is on the output just when a position with a beat is shown. The latch holds
`dout_data` in the other cycles only. -/
theorem Regs.Ok.beat {s : Regs} (hs : s.Ok) :
    (output W H s).beat = elasticOut (Pos.beat W H) s.elastic := by
  obtain ⟨state, savedstate, houtcnt, voutcnt, latch⟩ := s
  rcases hs with hs | ⟨hw, -⟩
  · cases state with
    | undef => exact absurd rfl hs.1
    | waitforsink => exact absurd rfl hs.2
    | _ => rfl
  · obtain rfl : state = .waitforsink := hw
    rfl

/-! ### The beats of a run -/

section

variable (s₀ : Regs) (ready : ℕ → Bool)

/-- The registers of a run follow the elastic source from `Pos.start`. -/
theorem elastic_regsAt (t : ℕ) :
    (regsAt W H s₀ ready t).Ok ∧
      (regsAt W H s₀ ready t).elastic =
        run (elasticStep (Pos.next W H)) (.active Pos.start) ready t := by
  induction t with
  | zero => exact ⟨Regs.Ok.reset s₀, rfl⟩
  | succ t ih =>
    obtain ⟨hok, helastic⟩ := ih.1.step (W := W) (H := H) (ready t)
    exact ⟨hok, helastic.trans (by rw [run_succ, ih.2])⟩

/-- The beat in a cycle is that of the elastic source. -/
theorem beat_regsAt (t : ℕ) :
    (output W H (regsAt W H s₀ ready t)).beat =
      elasticOut (Pos.beat W H) (run (elasticStep (Pos.next W H)) (.active Pos.start) ready t) := by
  rw [(elastic_regsAt s₀ ready t).1.beat, (elastic_regsAt s₀ ready t).2]

/-- **The beats of a run** are those of the positions that the ready cycles lead through. -/
theorem beats_succ (n : ℕ) :
    beats W H s₀ ready (n + 1) = log (beatAt W H) (readies ready n + 1) := by
  unfold beats
  rw [log_congr fun t _ => beat_regsAt s₀ ready t]
  exact log_elasticOut (Pos.beat W H) n

end

/-! ### Back-pressure -/

theorem Source.beat_ne_none {o : Source} : o.beat ≠ none ↔ o.valid = true := by
  rw [Source.beat]
  cases o.valid <;> simp

section

variable (W H : ℕ) (s₀ s₀' : Regs) (ready ready' : ℕ → Bool)

/-- The beats before cycle `n` that a sink with ready latency 1 takes: those on the output
one cycle after it was ready. -/
def taken (n : ℕ) : List Beat :=
  log (fun t =>
    if 0 < t ∧ ready (t - 1) = true then (output W H (regsAt W H s₀ ready t)).beat else none) n

/-- Of two runs, one has sent a prefix of what the other has, at any two times. -/
theorem beats_comparable (n n' : ℕ) :
    beats W H s₀ ready n <+: beats W H s₀' ready' n' ∨
      beats W H s₀' ready' n' <+: beats W H s₀ ready n := by
  unfold beats
  simp only [beat_regsAt]
  exact log_elasticOut_comparable (Pos.beat W H) ready ready' n n'

/-- `dout_valid` answers a `dout_ready` of the preceding cycle. -/
theorem ready_of_valid {t : ℕ} (h : (output W H (regsAt W H s₀ ready t)).valid = true) :
    0 < t ∧ ready (t - 1) = true := by
  rw [← Source.beat_ne_none, beat_regsAt] at h
  cases t with
  | zero => exact absurd rfl h
  | succ t => exact ⟨Nat.succ_pos t, ready_of_elasticOut h⟩

/-- A sink with ready latency 1 takes every beat, once and in order. -/
theorem taken_eq_beats (n : ℕ) : taken W H s₀ ready n = beats W H s₀ ready n := by
  refine log_congr fun t _ => ?_
  split_ifs with h
  · rfl
  · -- A beat in this cycle would have been asked for.
    by_contra hne
    exact h (ready_of_valid W H s₀ ready (Source.beat_ne_none.mp (Ne.symm hne)))

/-- **Back-pressure decides when the beats come, not which.** The beats of one run are a
prefix of those of the other, so the beat at a place depends on the place and the parameters
only; `dout_valid` follows `dout_ready` by one cycle, and a sink with ready latency 1 takes
every beat once. -/
theorem backpressure_independent :
    ((∀ n, ∃ n', beats W H s₀ ready n <+: beats W H s₀' ready' n') ∨
        ∀ n', ∃ n, beats W H s₀' ready' n' <+: beats W H s₀ ready n) ∧
      (∀ (n n' k : ℕ) (b b' : Beat), (beats W H s₀ ready n)[k]? = some b →
        (beats W H s₀' ready' n')[k]? = some b' → b = b') ∧
      (∀ t, (output W H (regsAt W H s₀ ready t)).valid = true → 0 < t ∧ ready (t - 1) = true) ∧
      ∀ n, taken W H s₀ ready n = beats W H s₀ ready n := by
  refine ⟨?_, ?_, fun t => ready_of_valid W H s₀ ready, taken_eq_beats W H s₀ ready⟩
  · by_cases h : ∀ n, ∃ n', beats W H s₀ ready n <+: beats W H s₀' ready' n'
    · exact Or.inl h
    · -- Some time of the first run is ahead of the whole second run.
      push Not at h
      obtain ⟨n, hn⟩ := h
      exact Or.inr fun n' =>
        ⟨n, (beats_comparable W H s₀ s₀' ready ready' n n').resolve_left (hn n')⟩
  · intro n n' k b b' hb hb'
    rcases beats_comparable W H s₀ s₀' ready ready' n n' with h | h
    · exact Option.some.inj ((getElem?_mono h hb).symm.trans hb')
    · exact Option.some.inj (hb.symm.trans (getElem?_mono h hb'))

end

end Tpg
end Video
end Cyclone10

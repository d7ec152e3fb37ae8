import Cyclone10TPG.Video.Tpg
import Mathlib.Logic.Function.Basic

/-!
# The padding of a video stream

`VideoStreamPadding`, the generator again, with its own copy of the state machine, and a line
buffer in front of it. The writer fills the buffer, one pixel of an input image of `hinsize` by
`vinsize` at a time; the reader, the state machine, shows `linebuffer[houtcnt]`. The two hold
each other up: the writer works when `writelinebuffer` is up, and the reader goes on when
`readlinebuffer` is up and the sink is ready. Otherwise the next state is saved, and the machine
waits in `WAIT`.

The input image is not connected: the writer writes `24'h80F050` everywhere, and the sink side
of the module (`din_…`, `ctrlcount`) is not used. `hinsize` and `vinsize` are registers that
nothing assigns. As in the generator, `savedstate`, the latch of `dout_data`, and here the line
buffer, have no reset.
-/

namespace Cyclone10
namespace Video
namespace Padding

open Sync
open Tpg (OutcntMode nibble)

/-! ### Registers -/

/-- The states. `undef` also stands for the codes that no `localparam` names. -/
inductive State
  | undef | idle | sendctrl1 | sendctrl2 | sendctrl3 | sendctrl4 | wait
  | startvideo | sendingvideo | endvideo
  deriving Repr, DecidableEq, Inhabited

/-- The registers. `linebuffer` has `OUTPUT_WIDTH` words. -/
structure Regs where
  state : State
  savedstate : State
  houtcnt : ℕ
  voutcnt : ℕ
  hincnt : ℕ
  vincnt : ℕ
  linebuffer : ℕ → BitVec 24
  latch : BitVec 24
  deriving Inhabited

/-- The width of the input image. -/
def hinsize : ℕ := 300

/-- The height of the input image. -/
def vinsize : ℕ := 200

/-- The registers after `reset`. -/
def Regs.reset (s : Regs) : Regs :=
  { s with state := .idle, houtcnt := 0, voutcnt := 0, hincnt := 0, vincnt := 0 }

/-! ### The writer -/

def writelinebuffer (s : Regs) : Bool :=
  (decide (s.houtcnt ≤ s.hincnt) && (decide (s.voutcnt < s.vincnt) || s.voutcnt == 0)) ||
    (decide (s.hincnt < s.houtcnt) && decide (s.voutcnt < s.vincnt))

/-- The input counters after the edge, of 16 bits each. -/
def incnt (s : Regs) : ℕ × ℕ :=
  if writelinebuffer s then
    if s.hincnt < hinsize - 1 then ((s.hincnt + 1) % 65536, s.vincnt)
    else (0, if s.vincnt < vinsize - 1 then (s.vincnt + 1) % 65536 else 0)
  else (s.hincnt, s.vincnt)

/-- The writer reads nothing of the input, so this is what it writes. -/
def indata : BitVec 24 := 0x80F050#24

section

variable (W H : ℕ)

/-- The line buffer after the edge. A word outside of it is not written. -/
def writeLine {α : Type} (s : Regs) (buffer : ℕ → α) (data : α) : ℕ → α :=
  if writelinebuffer s && decide (s.hincnt < W) then Function.update buffer s.hincnt data
  else buffer

/-! ### The next state -/

def readlinebuffer (s : Regs) : Bool :=
  (decide (s.houtcnt < s.hincnt) || decide (hinsize ≤ s.hincnt)) &&
    (decide (s.voutcnt ≤ s.vincnt) || decide (vinsize ≤ s.vincnt))

def lastpixelout (s : Regs) : Bool := decide (W - 1 ≤ s.houtcnt) && decide (H - 1 ≤ s.voutcnt)

/-- The state `x` is next: at once, or saved until the machine can go on. -/
def Regs.goTo (s : Regs) (doutReady : Bool) (x : State) : Regs :=
  if doutReady && readlinebuffer s then { s with state := x }
  else { s with savedstate := x, state := .wait }

/-- The state machine after the edge. -/
def nextState (s : Regs) (doutReady : Bool) : Regs :=
  match s.state with
  | .idle => s.goTo doutReady .sendctrl1
  | .sendctrl1 => s.goTo doutReady .sendctrl2
  | .sendctrl2 => s.goTo doutReady .sendctrl3
  | .sendctrl3 => s.goTo doutReady .sendctrl4
  | .sendctrl4 => s.goTo doutReady .startvideo
  | .wait =>
    if doutReady && readlinebuffer s then { s with state := s.savedstate }
    else { s with state := .wait }
  | .startvideo => s.goTo doutReady .sendingvideo
  | .sendingvideo => s.goTo doutReady (if lastpixelout W H s then .endvideo else .sendingvideo)
  | .endvideo => s.goTo doutReady .idle
  | .undef => { s with state := .idle }

/-! ### The outputs -/

/-- The pixel at the read position. -/
def outdata (s : Regs) : BitVec 24 := s.linebuffer s.houtcnt

def outcntmode : State → OutcntMode
  | .idle => .reset
  | .sendingvideo | .endvideo => .run
  | _ => .idle

/-- The outputs, by the state. -/
def output (s : Regs) : Source :=
  match s.state with
  | .idle => ⟨s.latch, false, false, false⟩
  | .sendctrl1 => ⟨0x00000F#24, true, true, false⟩
  | .sendctrl2 =>
    ⟨0#4 ++ nibble W 1 ++ 0#4 ++ nibble W 2 ++ 0#4 ++ nibble W 3, true, false, false⟩
  | .sendctrl3 =>
    ⟨0#4 ++ nibble H 2 ++ 0#4 ++ nibble H 3 ++ 0#4 ++ nibble W 0, true, false, false⟩
  | .sendctrl4 =>
    ⟨0#4 ++ 3#4 ++ 0#4 ++ nibble H 0 ++ 0#4 ++ nibble H 1, true, false, true⟩
  | .wait => ⟨s.latch, false, false, false⟩
  | .startvideo => ⟨0x000000#24, true, true, false⟩
  | .sendingvideo => ⟨outdata s, true, false, false⟩
  | .endvideo => ⟨outdata s, true, false, true⟩
  | .undef => ⟨s.latch, false, false, false⟩

/-! ### One clock edge -/

/-- The output counters after the edge, of 16 bits each. -/
def outcnt (s : Regs) : ℕ × ℕ :=
  match outcntmode s.state with
  | .idle => (s.houtcnt, s.voutcnt)
  | .run =>
    if W - 1 ≤ s.houtcnt then (0, (s.voutcnt + 1) % 65536)
    else ((s.houtcnt + 1) % 65536, s.voutcnt)
  | .reset => (0, 0)

/-- All registers after the edge that ends a cycle with `dout_ready`. -/
def step (s : Regs) (doutReady : Bool) : Regs :=
  { nextState W H s doutReady with
    houtcnt := (outcnt W s).1
    voutcnt := (outcnt W s).2
    hincnt := (incnt s).1
    vincnt := (incnt s).2
    linebuffer := writeLine W s s.linebuffer indata
    latch := (output W H s).data }

/-- The registers in cycle `t` of the run from reset. -/
def regsAt (s₀ : Regs) (ready : ℕ → Bool) : ℕ → Regs := run (step W H) s₀.reset ready

/-- `dout_valid` in cycle `t`. -/
def validAt (s₀ : Regs) (ready : ℕ → Bool) (t : ℕ) : Bool :=
  (output W H (regsAt W H s₀ ready t)).valid

end

end Padding
end Video
end Cyclone10

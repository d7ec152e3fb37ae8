import Cyclone10TPG.Sync.Elastic
import Mathlib.Tactic.Common

/-!
# The test pattern generator

`VideoStreamTPG`, a source of Avalon-ST video: a control packet with the frame size, then a
video packet, over and over. The state names what is on the output in this cycle. When the
sink is not ready, the next state goes to `savedstate` and the machine waits in
`WAITFORSINK`.

`W` and `H` are the parameters `OUTPUT_WIDTH` and `OUTPUT_HEIGHT`, which are at least 1. The
output block is combinational, but `dout_data = dout_data` makes a latch of `dout_data`; the
field `latch` is what it has held since the last cycle. `savedstate` and the latch have no
reset.
-/

namespace Cyclone10
namespace Video

/-! ### Streams -/

/-- One beat of a video stream. -/
structure Beat where
  data : BitVec 24
  startofpacket : Bool
  endofpacket : Bool
  deriving Repr, DecidableEq

/-- The signals of a source in one cycle. -/
structure Source where
  data : BitVec 24
  valid : Bool
  startofpacket : Bool
  endofpacket : Bool
  deriving Repr, DecidableEq

/-- The beat on the signals, if it is valid. -/
def Source.beat (o : Source) : Option Beat :=
  if o.valid then some ⟨o.data, o.startofpacket, o.endofpacket⟩ else none

namespace Tpg

open Sync

/-! ### Registers -/

/-- The states. `undef` also stands for the codes that no `localparam` names. -/
inductive State
  | undef | idle | sendctrl1 | sendctrl2 | sendctrl3 | sendctrl4 | waitforsink
  | startvideo | sendingvideo | endvideo
  deriving Repr, DecidableEq, Inhabited

inductive OutcntMode
  | idle | run | reset
  deriving Repr, DecidableEq

structure Regs where
  state : State
  savedstate : State
  houtcnt : ℕ
  voutcnt : ℕ
  latch : BitVec 24
  deriving Repr, DecidableEq, Inhabited

/-- The registers after `reset`. -/
def Regs.reset (s : Regs) : Regs := { s with state := .idle, houtcnt := 0, voutcnt := 0 }

section

variable (W H : ℕ)

/-! ### The next state -/

def lastpixelout (s : Regs) : Bool := decide (W - 1 ≤ s.houtcnt) && decide (H - 1 ≤ s.voutcnt)

/-- The state `x` is next: at once, or saved until the sink is ready. -/
def Regs.goTo (s : Regs) (doutReady : Bool) (x : State) : Regs :=
  if doutReady then { s with state := x }
  else { s with savedstate := x, state := .waitforsink }

/-- The state machine after the edge. -/
def nextState (s : Regs) (doutReady : Bool) : Regs :=
  match s.state with
  | .idle => s.goTo doutReady .sendctrl1
  | .sendctrl1 => s.goTo doutReady .sendctrl2
  | .sendctrl2 => s.goTo doutReady .sendctrl3
  | .sendctrl3 => s.goTo doutReady .sendctrl4
  | .sendctrl4 => s.goTo doutReady .startvideo
  | .waitforsink =>
    if doutReady then { s with state := s.savedstate } else { s with state := .waitforsink }
  | .startvideo => s.goTo doutReady .sendingvideo
  | .sendingvideo => s.goTo doutReady (if lastpixelout W H s then .endvideo else .sendingvideo)
  | .endvideo => s.goTo doutReady .idle
  | .undef => { s with state := .idle }

/-! ### The outputs -/

/-- Bits `4 k + 3` to `4 k` of a number. -/
def nibble (n k : ℕ) : BitVec 4 := BitVec.ofNat 4 (n >>> (4 * k))

/-- The colour of the pixel in the column of `houtcnt`. -/
def outdata (s : Regs) : BitVec 24 := if W / 2 < s.houtcnt then 0xF000F0#24 else 0x00F000#24

def outcntmode : State → OutcntMode
  | .idle => .reset
  | .sendingvideo | .endvideo => .run
  | _ => .idle

/-- The outputs, by the state. -/
def output (s : Regs) : Source :=
  match s.state with
  | .idle => ⟨s.latch, false, false, false⟩
  | .sendctrl1 => ⟨0x00000F#24, true, true, false⟩
  | .sendctrl2 =>
    ⟨0#4 ++ nibble W 1 ++ 0#4 ++ nibble W 2 ++ 0#4 ++ nibble W 3, true, false, false⟩
  | .sendctrl3 =>
    ⟨0#4 ++ nibble H 2 ++ 0#4 ++ nibble H 3 ++ 0#4 ++ nibble W 0, true, false, false⟩
  | .sendctrl4 =>
    ⟨0#4 ++ 3#4 ++ 0#4 ++ nibble H 0 ++ 0#4 ++ nibble H 1, true, false, true⟩
  | .waitforsink => ⟨s.latch, false, false, false⟩
  | .startvideo => ⟨0x000000#24, true, true, false⟩
  | .sendingvideo => ⟨outdata W s, true, false, false⟩
  | .endvideo => ⟨outdata W s, true, false, true⟩
  | .undef => ⟨s.latch, false, false, false⟩

/-! ### One clock edge -/

/-- The pixel counters after the edge, of 16 bits each. -/
def outcnt (s : Regs) : ℕ × ℕ :=
  match outcntmode s.state with
  | .idle => (s.houtcnt, s.voutcnt)
  | .run =>
    if W - 1 ≤ s.houtcnt then (0, (s.voutcnt + 1) % 65536)
    else ((s.houtcnt + 1) % 65536, s.voutcnt)
  | .reset => (0, 0)

/-- All registers after the edge that ends a cycle with `dout_ready`. -/
def step (s : Regs) (doutReady : Bool) : Regs :=
  { nextState W H s doutReady with
    houtcnt := (outcnt W s).1
    voutcnt := (outcnt W s).2
    latch := (output W H s).data }

/-- The registers in cycle `t` of the run from reset. -/
def regsAt (s₀ : Regs) (ready : ℕ → Bool) : ℕ → Regs := run (step W H) s₀.reset ready

/-- The valid beats in the cycles before `n`. -/
def beats (s₀ : Regs) (ready : ℕ → Bool) (n : ℕ) : List Beat :=
  log (fun t => (output W H (regsAt W H s₀ ready t)).beat) n

end

end Tpg
end Video
end Cyclone10

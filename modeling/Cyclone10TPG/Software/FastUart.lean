import Cyclone10TPG.Sync.Circular
import Cyclone10TPG.Sync.Run

/-!
# The interrupt-driven driver of the UART

The other driver of the UART, for systems that are built without `ALT_USE_SMALL_DRIVERS`: two
circular buffers of 64 slots between the program and the interrupt handler. The program is in a call
of `write`, `read` or `close`, and the handler runs as a whole between any two of its accesses to
the shared variables; only `ctrl` is changed with interrupts off. The semaphores and event flags are
those of a system without threads, that is, nothing.

`Pc` has a place in front of each such access. What a call does with its own variables is done with
the access before it or behind it, where the handler cannot see it.
-/

namespace Cyclone10
namespace Software
namespace FastUart

open Sync

/-! ### The state -/

/-- The length of the buffers. An index is masked with the length minus one. -/
def BUF_LEN : ℕ := 64

/-- The bits of `ctrl` that the driver changes after the initialisation. The control register is
written whenever they have been changed. -/
structure Ctrl where
  rrdy : Bool
  trdy : Bool
  dcts : Bool
  deriving Repr, DecidableEq

/-- A call of the program. -/
inductive Call (β : Type)
  | write (ptr : List β) (noBlock : Bool)
  | read (len : ℕ) (noBlock : Bool)
  | close (noBlock : Bool)

/-- Where the program is. Between two calls there is the value of the last one, `none` for
`-EWOULDBLOCK`. -/
inductive Pc (β : Type)
  | idle (value : Option ℕ)
  | writeLoop (noBlock : Bool) (len : ℕ) (ptr : List β)
  | writeArm (len : ℕ) (x : β) (ptr : List β)
  | writeWait (len : ℕ) (x : β) (ptr : List β)
  | writeStore (noBlock : Bool) (len : ℕ) (x : β) (ptr : List β)
  | writePublish (noBlock : Bool) (len : ℕ) (x : β) (ptr : List β)
  | writeDone (len count : ℕ)
  | readLoop (noBlock : Bool) (len count : ℕ)
  | readCopy (noBlock : Bool) (len count : ℕ)
  | readAdvance (noBlock : Bool) (len count : ℕ)
  | readTest (noBlock : Bool) (len count : ℕ)
  | readArm (len : ℕ)
  | readDone (value : Option ℕ)
  | closeLoop (noBlock : Bool)

/-- `altera_avalon_uart_state`, and the program. `fc` is the flag for flow control. -/
structure Uart (β : Type) where
  ctrl : Ctrl
  rx : Circular β
  tx : Circular β
  fc : Bool
  pc : Pc β

/-- After `altera_avalon_uart_init`. -/
def init {β : Type} (rxBuf txBuf : ℕ → β) (fc : Bool) : Uart β where
  ctrl := ⟨true, false, true⟩
  rx := ⟨rxBuf, 0, 0⟩
  tx := ⟨txBuf, 0, 0⟩
  fc := fc
  pc := .idle none

section

variable {β : Type}

/-! ### The interrupt handler -/

/-- What the handler gets from the device: the status bits, the register RXDATA, and the bit CTS
when the status is read again. -/
structure Irq (β : Type) where
  rrdy : Bool
  trdy : Bool
  dcts : Bool
  cts : Bool
  pe : Bool
  fe : Bool
  rxdata : β
  ctsAgain : Bool

/-- A character is received, or there was an error and it is discarded. -/
def rxirq (s : Uart β) (i : Irq β) : Uart β :=
  if i.pe || i.fe then s
  else if (s.rx.push BUF_LEN i.rxdata).isFull BUF_LEN then
    { s with rx := s.rx.push BUF_LEN i.rxdata, ctrl := { s.ctrl with rrdy := false } }
  else { s with rx := s.rx.push BUF_LEN i.rxdata }

/-- The transmitter may be given a character. -/
def clearToSend (s : Uart β) (i : Irq β) : Bool := !s.fc || i.cts

/-- The transmit interrupt, up to the test for an empty buffer. -/
def transmit (s : Uart β) (i : Irq β) : Uart β :=
  if s.tx.isEmpty then s
  else if clearToSend s i then
    { s with tx := s.tx.pop BUF_LEN, ctrl := { s.ctrl with trdy := true } }
  else if i.ctsAgain then s
  else { s with ctrl := { s.ctrl with trdy := false } }

def txirq (s : Uart β) (i : Irq β) : Uart β :=
  if (transmit s i).tx.isEmpty then
    { transmit s i with ctrl := { (transmit s i).ctrl with trdy := false, dcts := false } }
  else transmit s i

/-- What `txirq` writes to the register TXDATA. -/
def txdata (s : Uart β) (i : Irq β) : Option β :=
  if s.tx.isEmpty then none else if clearToSend s i then some s.tx.head else none

def irq (s : Uart β) (i : Irq β) : Uart β :=
  -- both interrupts are served, the receive interrupt first, whichever of them is on
  if i.trdy || i.dcts then txirq (if i.rrdy then rxirq s i else s) i
  else if i.rrdy then rxirq s i else s

/-! ### The program -/

/-- One step of the program. -/
def fore (s : Uart β) (call : Option (Call β)) : Uart β :=
  match s.pc with
  | .idle _ =>
    match call with
    | none => s
    | some (.write ptr noBlock) => { s with pc := .writeLoop noBlock ptr.length ptr }
    | some (.read len noBlock) => { s with pc := .readLoop noBlock len 0 }
    | some (.close noBlock) => { s with pc := .closeLoop noBlock }
  | .writeLoop _ len [] => { s with pc := .writeDone len 0 }
  | .writeLoop noBlock len (x :: ptr) =>
    if s.tx.isFull BUF_LEN then
      -- `count` still counts `x`
      if noBlock then { s with pc := .writeDone len (ptr.length + 1) }
      else { s with pc := .writeArm len x ptr }
    else { s with pc := .writeStore noBlock len x ptr }
  | .writeArm len x ptr =>
    { s with ctrl := { s.ctrl with trdy := true, dcts := true }, pc := .writeWait len x ptr }
  | .writeWait len x ptr =>
    if s.tx.isFull BUF_LEN then s else { s with pc := .writeStore false len x ptr }
  | .writeStore noBlock len x ptr =>
    { s with tx := s.tx.store x, pc := .writePublish noBlock len x ptr }
  | .writePublish noBlock len _ ptr =>
    { s with tx := s.tx.publish BUF_LEN, pc := .writeLoop noBlock len ptr }
  | .writeDone len count =>
    { s with ctrl := { s.ctrl with trdy := true, dcts := true }, pc := .idle (some (len - count)) }
  | .readLoop noBlock len count =>
    if count < len ∧ s.rx.isEmpty = false then { s with pc := .readCopy noBlock len count }
    else { s with pc := .readTest noBlock len count }
  | .readCopy noBlock len count => { s with pc := .readAdvance noBlock len count }
  | .readAdvance noBlock len count =>
    { s with rx := s.rx.pop BUF_LEN, pc := .readLoop noBlock len (count + 1) }
  | .readTest noBlock len count =>
    -- the two tests of the outer loop, the second one only about `count` and `len`
    if count = 0 ∧ s.rx.isEmpty = true then
      if noBlock then { s with pc := .readDone none } else { s with pc := .readArm len }
    else if count = 0 ∧ len ≠ 0 then { s with pc := .readLoop noBlock len count }
    else { s with pc := .readDone (some count) }
  | .readArm len =>
    { s with
      ctrl := { s.ctrl with rrdy := true }
      pc := if len ≠ 0 then .readLoop false len 0 else .readDone (some 0) }
  | .readDone value => { s with ctrl := { s.ctrl with rrdy := true }, pc := .idle value }
  | .closeLoop noBlock =>
    if s.tx.isEmpty then { s with pc := .idle (some 0) }
    else if noBlock then { s with pc := .idle none }
    else s

/-! ### Runs -/

/-- What comes next: the handler, or a step of the program, with a call if it is in none. -/
inductive Move (β : Type)
  | irq (i : Irq β)
  | fore (call : Option (Call β))

def step (s : Uart β) : Move β → Uart β
  | .irq i => irq s i
  | .fore call => fore s call

/-- The characters of a call of `write` that begins. -/
def Uart.writes (s : Uart β) (m : Move β) : List β :=
  match s.pc, m with
  | .idle _, .fore (some (.write ptr _)) => ptr
  | _, _ => []

/-- The character that goes into the transmit buffer. -/
def Uart.accepts (s : Uart β) : Move β → Option β
  | .fore _ =>
    match s.pc with
    | .writePublish _ _ x _ => some x
    | _ => none
  | .irq _ => none

/-- The character that goes to the device. -/
def Uart.sends (s : Uart β) : Move β → Option β
  | .irq i => if i.trdy || i.dcts then txdata s i else none
  | .fore _ => none

/-- The character that comes from the device. -/
def Uart.receives (_ : Uart β) : Move β → Option β
  | .irq i => if i.rrdy && !(i.pe || i.fe) then some i.rxdata else none
  | .fore _ => none

/-- The character that goes to the program. -/
def Uart.delivers (s : Uart β) : Move β → Option β
  | .fore _ =>
    match s.pc with
    | .readCopy _ _ _ => some s.rx.head
    | _ => none
  | .irq _ => none

/-- What a call of `write` still has to put into the buffer. -/
def Uart.pending (s : Uart β) : List β :=
  match s.pc with
  | .writeLoop _ _ ptr => ptr
  | .writeArm _ x ptr | .writeWait _ x ptr | .writeStore _ _ x ptr | .writePublish _ _ x ptr =>
    x :: ptr
  | _ => []

variable (s₀ : Uart β) (inp : ℕ → Move β)

/-- The state after `t` moves. -/
def uartAt (t : ℕ) : Uart β := run step s₀ inp t

/-- The characters of the calls of `write`. -/
def written : ℕ → List β
  | 0 => []
  | t + 1 => written t ++ (uartAt s₀ inp t).writes (inp t)

def accepted (n : ℕ) : List β := log (fun t => (uartAt s₀ inp t).accepts (inp t)) n

def sent (n : ℕ) : List β := log (fun t => (uartAt s₀ inp t).sends (inp t)) n

def received (n : ℕ) : List β := log (fun t => (uartAt s₀ inp t).receives (inp t)) n

def delivered (n : ℕ) : List β := log (fun t => (uartAt s₀ inp t).delivers (inp t)) n

end

end FastUart
end Software
end Cyclone10

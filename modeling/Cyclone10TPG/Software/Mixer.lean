import Cyclone10TPG.Sync.Pace
import Cyclone10TPG.Software.Uart
import Mathlib.Data.List.Infix

/-!
# The program

`main` of `hello_world_small.c` sets up the video mixer, with messages on the UART and a blinking
LED in between, and then moves the picture down the diagonal, one pixel a second, for ever.

All that the program does are writes to registers of its devices. How long a message takes is up
to the UART, so the program is a machine that goes on by one pass of a loop or by one statement
(`next`), and its input is whether the UART is ready. What is written does not depend on that
(`accesses_eq_text`): it is the text of the program, so many iterations of the loop as have been
begun. And if the UART gets ready again and again, the program gets as far as one likes
(`exists_text`).

The offsets of the picture are two registers, so they are not written at once. What the mixer sees
is `Placed`.
-/

namespace Cyclone10
namespace Software

open Sync

/-! ### Statements -/

/-- `IOWR`: a write to a register of a device. -/
structure Access where
  base : ℕ
  reg : ℕ
  data : ℕ
  deriving Repr, DecidableEq

/-- The calls that `main` is made of. -/
inductive Cmd
  | putstr (str : String)
  | iowr (a : Access)
  | usleep (us : ℕ)
  deriving Repr, DecidableEq

def ALT_VIP_CL_MIXER_0_BASE : ℕ := 0x0
def PIO_0_BASE : ℕ := 0x4000
def UART_0_BASE : ℕ := 0x4100

def REG_MIX_CONTROL : ℕ := 0
def REG_MIX_IN0_XOFFSET : ℕ := 8
def REG_MIX_IN0_YOFFSET : ℕ := 9
def REG_MIX_IN0_INPUTCONTROL : ℕ := 10

def waitWithLed (ticks tickTimeMs : ℕ) : List Cmd :=
  (List.replicate ticks
    [Cmd.iowr ⟨PIO_0_BASE, 0x00, 0x3⟩, .usleep (tickTimeMs / 2 * 1000),
      .iowr ⟨PIO_0_BASE, 0x00, 0x0⟩, .usleep (tickTimeMs / 2 * 1000)]).flatten

def setStartPosition (x y : ℕ) : List Cmd :=
  [.iowr ⟨ALT_VIP_CL_MIXER_0_BASE, REG_MIX_IN0_XOFFSET, x⟩,
    .iowr ⟨ALT_VIP_CL_MIXER_0_BASE, REG_MIX_IN0_YOFFSET, y⟩]

/-- `main`, up to the event loop. -/
def setup : List Cmd :=
  .putstr "\n\rInitializeren van mixer na LED geroffel..." ::
    waitWithLed 60 40 ++
    [.iowr ⟨ALT_VIP_CL_MIXER_0_BASE, REG_MIX_CONTROL, 0x1⟩,
      .putstr "-->Klaar met instellen.\n\r"] ++
    waitWithLed 4 1000 ++
    [.putstr "beginpositie instellen na LED geroffel..."] ++
    waitWithLed 60 40 ++
    [.iowr ⟨ALT_VIP_CL_MIXER_0_BASE, REG_MIX_IN0_XOFFSET, 30⟩,
      .iowr ⟨ALT_VIP_CL_MIXER_0_BASE, REG_MIX_IN0_YOFFSET, 30⟩,
      .putstr "-->Klaar met instellen.\n\r"] ++
    waitWithLed 5 1000 ++
    [.putstr "enable input 0 na LED geroffel..."] ++
    waitWithLed 60 40 ++
    [.iowr ⟨ALT_VIP_CL_MIXER_0_BASE, REG_MIX_IN0_INPUTCONTROL, 0x1⟩,
      .putstr "-->Klaar met instellen.\n\r",
      .putstr "Dat was het.\n\r"]

/-- The event loop. -/
def body (xPos yPos : ℕ) : List Cmd := waitWithLed 1 1000 ++ setStartPosition xPos yPos

def maxPos : ℕ := 50

/-- `x_pos` and `y_pos` after an iteration of the loop. -/
def nextPos (xPos yPos : ℕ) : ℕ × ℕ :=
  if maxPos ≤ xPos ∨ maxPos ≤ yPos then (0, 0) else (xPos + 1, yPos + 1)

/-! ### The program as a machine -/

/-- What is left to do before the next iteration of the event loop, `x_pos` and `y_pos` for it, and
the variables of `altera_avalon_uart_write` while the first statement left is inside it. -/
structure State where
  todo : List Cmd
  xPos : ℕ
  yPos : ℕ
  uart : Option Write
  deriving Repr, DecidableEq

/-- The bytes of a string, up to the terminating zero. -/
def chars (str : String) : List ℕ := str.toList.map Char.toNat

def strlen (str : String) : ℕ := (chars str).length

/-- The call of `altera_avalon_uart_write` in `alt_putstr`, which blocks. -/
def State.write (s : State) (str : String) : Write := s.uart.getD ⟨0, strlen str⟩

/-- One step: a statement, or one pass of the loop in `altera_avalon_uart_write`. -/
def State.next (s : State) (trdy : Bool) : State :=
  match s.todo with
  | [] =>
    { todo := body s.xPos s.yPos
      xPos := (nextPos s.xPos s.yPos).1
      yPos := (nextPos s.xPos s.yPos).2
      uart := none }
  | .putstr str :: rest =>
    if ((s.write str).poll trdy).count ≠ 0 then { s with uart := some ((s.write str).poll trdy) }
    else { s with todo := rest, uart := none }
  | .iowr _ :: rest => { s with todo := rest }
  | .usleep _ :: rest => { s with todo := rest }

/-- What is written in a step. -/
def State.access (s : State) (trdy : Bool) : Option Access :=
  match s.todo with
  | [] => none
  | .putstr str :: _ =>
    if trdy then some ⟨UART_0_BASE, 1, (chars str).getD (s.write str).ptr 0⟩ else none
  | .iowr a :: _ => some a
  | .usleep _ :: _ => none

def start : State := ⟨setup, 0, 0, none⟩

section

variable (trdy : ℕ → Bool)

/-- The state before step `t`. -/
def stateAt (t : ℕ) : State := run State.next start trdy t

/-- What has been written in the steps before `t`. -/
def accesses (t : ℕ) : List Access := log (fun u => (stateAt trdy u).access (trdy u)) t

end

/-! ### The text of the program -/

/-- What a statement writes. -/
def Cmd.accesses : Cmd → List Access
  | .putstr str => (chars str).map fun c => ⟨UART_0_BASE, 1, c⟩
  | .iowr a => [a]
  | .usleep _ => []

/-- `x_pos` and `y_pos` before iteration `k` of the loop. -/
def posAt (k : ℕ) : ℕ × ℕ := (fun x => nextPos x.1 x.2)^[k] (0, 0)

/-- The program, with `n` iterations of the loop. -/
def program (n : ℕ) : List Cmd :=
  setup ++ (List.range n).flatMap fun k => body (posAt k).1 (posAt k).2

/-- What the program writes, with `n` iterations of the loop. -/
def text (n : ℕ) : List Access := (program n).flatMap Cmd.accesses

/-- What is left to write before the next iteration. -/
def State.rest (s : State) : List Access :=
  (s.todo.flatMap Cmd.accesses).drop (s.uart.elim 0 Write.ptr)

/-- No message is empty, and a call of `altera_avalon_uart_write` is between its first and its last
byte. -/
structure State.Ok (s : State) : Prop where
  nonempty : ∀ str, Cmd.putstr str ∈ s.todo → 0 < strlen str
  inside : ∀ w, s.uart = some w → ∃ str rest, s.todo = .putstr str :: rest ∧
    w.ptr < strlen str ∧ w.count = strlen str - w.ptr

/-! ### One step -/

section Step

variable {s : State}

/-- Outside of a message, the driver is not called. -/
theorem State.Ok.uart_eq_none (h : s.Ok) (hne : ∀ str rest, s.todo ≠ .putstr str :: rest) :
    s.uart = none := by
  cases hw : s.uart with
  | none => rfl
  | some w =>
    obtain ⟨str, rest, htodo, -⟩ := h.inside w hw
    exact absurd htodo (hne str rest)

/-- Between two iterations. -/
theorem rest_of_done (hdone : s.todo = []) : s.rest = [] := by
  rw [State.rest, hdone]
  exact List.drop_nil

/-- The call of the driver in a message. -/
theorem State.Ok.write_eq (h : s.Ok) {str : String} {rest : List Cmd}
    (htodo : s.todo = .putstr str :: rest) : ∃ k < strlen str,
      s.write str = ⟨k, strlen str - k⟩ ∧ s.uart.elim 0 Write.ptr = k := by
  unfold State.write
  cases hw : s.uart with
  | none =>
    refine ⟨0, h.nonempty str (htodo ▸ List.mem_cons_self), ?_, rfl⟩
    simp
  | some w =>
    obtain ⟨str', rest', htodo', hlt, hcount⟩ := h.inside w hw
    rw [htodo] at htodo'
    cases htodo'
    exact ⟨w.ptr, hlt, by rw [← hcount]; rfl, rfl⟩

/-- The next byte of a message. -/
theorem drop_putstr {str : String} {k : ℕ} (hk : k < strlen str) (l : List Access) :
    ((Cmd.putstr str).accesses ++ l).drop k =
      ⟨UART_0_BASE, 1, (chars str).getD k 0⟩ :: ((Cmd.putstr str).accesses ++ l).drop (k + 1) := by
  have hlt : k < ((Cmd.putstr str).accesses ++ l).length := by
    rw [List.length_append, Cmd.accesses, List.length_map]
    exact Nat.lt_add_right _ hk
  have hbyte : ((Cmd.putstr str).accesses ++ l)[k] = ⟨UART_0_BASE, 1, (chars str).getD k 0⟩ := by
    have hlt' : k < (Cmd.putstr str).accesses.length := by rwa [Cmd.accesses, List.length_map]
    have hk' : k < (chars str).length := hk
    rw [List.getElem_append_left hlt']
    simp [Cmd.accesses, List.getElem?_eq_getElem hk']
  rw [List.drop_eq_getElem_cons hlt, hbyte]

/-- A step inside of a message. -/
theorem next_putstr {str : String} {rest : List Cmd} {k : ℕ} (htodo : s.todo = .putstr str :: rest)
    (hwrite : s.write str = ⟨k, strlen str - k⟩) (hk : k < strlen str) (trdy : Bool) :
    s.next trdy =
      if k + trdy.toNat < strlen str then
        { s with uart := some ⟨k + trdy.toNat, strlen str - (k + trdy.toNat : ℕ)⟩ }
      else { s with todo := rest, uart := none } := by
  have hnext : s.next trdy = if ((s.write str).poll trdy).count ≠ 0 then
        { s with uart := some ((s.write str).poll trdy) }
      else { s with todo := rest, uart := none } := by
    unfold State.next
    rw [htodo]
  have hle : trdy.toNat ≤ 1 := Bool.toNat_le trdy
  rw [hnext, hwrite, Write.poll_eq]
  refine if_congr ?_ rfl rfl
  show (strlen str : ℤ) - (k + trdy.toNat : ℕ) ≠ 0 ↔ _
  omega

/-- What a message writes in a step. -/
theorem access_putstr {str : String} {rest : List Cmd} {k : ℕ}
    (htodo : s.todo = .putstr str :: rest) (hwrite : s.write str = ⟨k, strlen str - k⟩)
    (trdy : Bool) : s.access trdy =
      if trdy then some ⟨UART_0_BASE, 1, (chars str).getD k 0⟩ else none := by
  unfold State.access
  rw [htodo]
  show (if trdy then some (Access.mk UART_0_BASE 1 ((chars str).getD (s.write str).ptr 0))
    else none) = _
  rw [hwrite]

/-- All other statements take one step. -/
theorem next_of_ne {c : Cmd} {rest : List Cmd} (htodo : s.todo = c :: rest)
    (hc : ∀ str, c ≠ .putstr str) (trdy : Bool) :
    s.next trdy = { s with todo := rest } ∧ (s.access trdy).toList = c.accesses := by
  unfold State.next State.access
  rw [htodo]
  cases c with
  | putstr str => exact absurd rfl (hc str)
  | iowr | usleep => exact ⟨rfl, rfl⟩

/-- **A step writes the next of what is left to write**, and leaves the positions as they are. -/
theorem State.Ok.next (h : s.Ok) (hne : s.todo ≠ []) (trdy : Bool) :
    (s.next trdy).Ok ∧ s.rest = (s.access trdy).toList ++ (s.next trdy).rest ∧
      (s.next trdy).xPos = s.xPos ∧ (s.next trdy).yPos = s.yPos := by
  cases htodo : s.todo with
  | nil => exact absurd htodo hne
  | cons c rest =>
    have hnonempty : ∀ str, Cmd.putstr str ∈ rest → 0 < strlen str := fun str hmem =>
      h.nonempty str (htodo ▸ List.mem_cons_of_mem c hmem)
    cases c with
    | putstr str =>
      obtain ⟨k, hk, hwrite, hptr⟩ := h.write_eq htodo
      have hrest : s.rest = ((Cmd.putstr str).accesses ++ rest.flatMap Cmd.accesses).drop k := by
        rw [State.rest, htodo, hptr]
        rfl
      have hlen : (Cmd.putstr str).accesses.length = strlen str := List.length_map _
      rw [next_putstr htodo hwrite hk, access_putstr htodo hwrite, hrest]
      split_ifs with hlt hready hready
      · -- a byte of the message
        subst hready
        refine ⟨⟨h.nonempty, fun w hw => ?_⟩, ?_, rfl, rfl⟩
        · cases hw
          exact ⟨str, rest, htodo, hlt, rfl⟩
        · rw [drop_putstr hk, State.rest, htodo]
          rfl
      · -- the device is busy
        obtain rfl : trdy = false := Bool.eq_false_of_not_eq_true hready
        refine ⟨⟨h.nonempty, fun w hw => ?_⟩, ?_, rfl, rfl⟩
        · cases hw
          exact ⟨str, rest, htodo, hlt, rfl⟩
        · rw [State.rest, htodo]
          rfl
      · -- the last byte
        subst hready
        have hlast : k + 1 = strlen str := Nat.le_antisymm hk (Nat.le_of_not_lt hlt)
        refine ⟨⟨hnonempty, fun w hw => by cases hw⟩, ?_, rfl, rfl⟩
        rw [drop_putstr hk, hlast, ← hlen, List.drop_left]
        rfl
      · -- while the device is busy, a byte is left
        rw [Bool.eq_false_of_not_eq_true hready] at hlt
        exact absurd hk hlt
    | iowr | usleep =>
      -- one step, and no `write` is under way
      have huart : s.uart = none := h.uart_eq_none fun str rest' hput => by
        rw [htodo] at hput
        cases hput
      obtain ⟨hnext, haccess⟩ := next_of_ne htodo (fun str => Cmd.noConfusion) trdy
      rw [hnext, haccess]
      refine ⟨⟨hnonempty, fun w hw => ?_⟩, ?_, rfl, rfl⟩
      · rw [huart] at hw
        cases hw
      · rw [State.rest, State.rest, htodo, huart]
        rfl

end Step

/-- How many steps a statement takes, if the UART is always ready. -/
def Cmd.steps : Cmd → ℕ
  | .putstr str => strlen str
  | .iowr _ | .usleep _ => 1

/-- The steps before the next iteration. -/
def State.left (s : State) : ℕ := (s.todo.map Cmd.steps).sum - s.uart.elim 0 Write.ptr

/-- A step when the UART is ready brings the next iteration nearer, and no step takes it away. -/
theorem State.Ok.left_next {s : State} (h : s.Ok) (hne : s.todo ≠ []) (trdy : Bool) :
    (s.next trdy).left + trdy.toNat ≤ s.left := by
  have hle : trdy.toNat ≤ 1 := Bool.toNat_le trdy
  cases htodo : s.todo with
  | nil => exact absurd htodo hne
  | cons c rest =>
    cases c with
    | putstr str =>
      obtain ⟨k, hk, hwrite, hptr⟩ := h.write_eq htodo
      have hleft : s.left = strlen str + (rest.map Cmd.steps).sum - k := by
        rw [State.left, htodo, hptr]
        rfl
      rw [next_putstr htodo hwrite hk, hleft]
      split_ifs with hlt
      · show ((s.todo.map Cmd.steps).sum - (k + trdy.toNat)) + trdy.toNat ≤ _
        rw [htodo]
        show (strlen str + (rest.map Cmd.steps).sum - (k + trdy.toNat)) + trdy.toNat ≤ _
        omega
      · show (rest.map Cmd.steps).sum + trdy.toNat ≤ _
        omega
    | iowr | usleep =>
      have huart : s.uart = none := h.uart_eq_none fun str rest' hput => by
        rw [htodo] at hput
        cases hput
      obtain ⟨hnext, -⟩ := next_of_ne htodo (fun str => Cmd.noConfusion) trdy
      rw [hnext, State.left, State.left, htodo, huart]
      show (rest.map Cmd.steps).sum + trdy.toNat ≤ 1 + (rest.map Cmd.steps).sum
      omega

/-! ### Runs -/

theorem text_succ (n : ℕ) :
    text (n + 1) = text n ++ (body (posAt n).1 (posAt n).2).flatMap Cmd.accesses := by
  simp only [text, program, List.range_succ, List.flatMap_append, List.append_assoc]
  simp only [List.flatMap_cons, List.flatMap_nil, List.append_nil]

theorem posAt_succ (k : ℕ) : posAt (k + 1) = nextPos (posAt k).1 (posAt k).2 :=
  Function.iterate_succ_apply' _ _ _

/-- The LED blinks without messages. -/
theorem putstr_notMem_waitWithLed (str : String) (ticks tickTimeMs : ℕ) :
    Cmd.putstr str ∉ waitWithLed ticks tickTimeMs := by
  simp [waitWithLed]

theorem nonempty_setup {str : String} (h : Cmd.putstr str ∈ setup) : 0 < strlen str := by
  simp only [setup, List.cons_append, List.mem_cons, List.mem_append, putstr_notMem_waitWithLed,
    Cmd.putstr.injEq, reduceCtorEq, List.not_mem_nil, or_false, false_or] at h
  obtain rfl | ((((rfl | rfl) | rfl) | rfl) | rfl | rfl) := h <;> simp [strlen, chars]

theorem putstr_notMem_body (str : String) (xPos yPos : ℕ) : Cmd.putstr str ∉ body xPos yPos := by
  simp [body, waitWithLed, setStartPosition]

section Run

variable (trdy : ℕ → Bool)

/-- The iterations of the loop begun before step `t`. -/
def begun (t : ℕ) : ℕ := Nat.count (fun u => (stateAt trdy u).todo = []) t

theorem stateAt_succ (t : ℕ) : stateAt trdy (t + 1) = (stateAt trdy t).next (trdy t) := rfl

theorem accesses_succ (t : ℕ) :
    accesses trdy (t + 1) = accesses trdy t ++ ((stateAt trdy t).access (trdy t)).toList := rfl

/-- **What has been written and what is left is the text of the program**, with the iterations
that have been begun. -/
theorem accesses_append_rest (t : ℕ) : (stateAt trdy t).Ok ∧
    ((stateAt trdy t).xPos, (stateAt trdy t).yPos) = posAt (begun trdy t) ∧
    accesses trdy t ++ (stateAt trdy t).rest = text (begun trdy t) := by
  induction t with
  | zero =>
    refine ⟨⟨fun str h => nonempty_setup h, fun w hw => by cases hw⟩, rfl, ?_⟩
    rw [begun, Nat.count_zero, text, program, List.range_zero, List.flatMap_nil, List.append_nil]
    rfl
  | succ t ih =>
    obtain ⟨hok, hpos, htext⟩ := ih
    rw [stateAt_succ, accesses_succ, begun, Nat.count_succ, ← begun]
    by_cases hdone : (stateAt trdy t).todo = []
    · -- the next iteration begins
      have hnext : (stateAt trdy t).next (trdy t) =
          ⟨body (posAt (begun trdy t)).1 (posAt (begun trdy t)).2,
            (posAt (begun trdy t + 1)).1, (posAt (begun trdy t + 1)).2, none⟩ := by
        rw [posAt_succ, ← hpos, State.next, hdone]
      have haccess : (stateAt trdy t).access (trdy t) = none := by rw [State.access, hdone]
      rw [hnext, haccess, if_pos hdone, text_succ, ← htext, rest_of_done hdone]
      refine ⟨⟨fun str h => absurd h (putstr_notMem_body str _ _), fun w hw => by cases hw⟩, rfl,
        ?_⟩
      rw [List.append_nil, Option.toList_none, List.append_nil]
      rfl
    · obtain ⟨hok', hrest, hx, hy⟩ := hok.next hdone (trdy t)
      rw [if_neg hdone, hx, hy, List.append_assoc, ← hrest]
      exact ⟨hok', hpos, htext⟩

/-- While the UART gets ready again and again, every iteration comes to its end. -/
theorem exists_done (hready : ∀ t, ∃ u, t ≤ u ∧ trdy u = true) (t : ℕ) :
    ∃ u, t ≤ u ∧ (stateAt trdy u).todo = [] ∧ begun trdy u = begun trdy t := by
  have hstep : ∀ u, (stateAt trdy u).todo ≠ [] →
      (stateAt trdy (u + 1)).left + (trdy u).toNat ≤ (stateAt trdy u).left := fun u hne =>
    (accesses_append_rest trdy u).1.left_next hne (trdy u)
  obtain ⟨u, hu, hdone, hbefore⟩ := exists_of_fair (F := fun u => trdy u = true)
    (Q := fun u => (stateAt trdy u).todo = []) (m := fun u => (stateAt trdy u).left)
    (fun u hne => (Nat.le_add_right _ _).trans (hstep u hne))
    (fun u hne hu => by
      have hlt := hstep u hne
      rwa [hu] at hlt)
    hready t
  exact ⟨u, hu, hdone, count_eq_of_not hu hbefore⟩

theorem exists_text (hready : ∀ t, ∃ u, t ≤ u ∧ trdy u = true) (n : ℕ) :
    ∃ t, (stateAt trdy t).todo = [] ∧ begun trdy t = n ∧ accesses trdy t = text n := by
  have hend : ∀ t, (stateAt trdy t).todo = [] → accesses trdy t = text (begun trdy t) := by
    intro t hdone
    rw [← (accesses_append_rest trdy t).2.2, rest_of_done hdone, List.append_nil]
  induction n with
  | zero =>
    obtain ⟨t, -, hdone, hbegun⟩ := exists_done trdy hready 0
    exact ⟨t, hdone, hbegun, by rw [hend t hdone, hbegun]; rfl⟩
  | succ n ih =>
    obtain ⟨t, hdone, hbegun, -⟩ := ih
    obtain ⟨u, -, hdone', hbegun'⟩ := exists_done trdy hready (t + 1)
    have hsucc : begun trdy u = n + 1 := by
      rw [hbegun', begun, Nat.count_succ, if_pos hdone, ← begun, hbegun]
    exact ⟨u, hdone', hsucc, by rw [hend u hdone', hsucc]⟩

/-- **The program does what it says**, whatever the UART does: at any time it has written a part
of its text. And if the UART gets ready again and again, it comes to the end of every iteration,
and then has written the text as far as there. -/
theorem accesses_eq_text : (∀ t, ∃ n, accesses trdy t <+: text n) ∧
    ((∀ t, ∃ u, t ≤ u ∧ trdy u = true) → ∀ n, ∃ t, accesses trdy t = text n) := by
  constructor
  · intro t
    refine ⟨begun trdy t, ?_⟩
    rw [← (accesses_append_rest trdy t).2.2]
    exact List.prefix_append _ _
  · intro hready n
    obtain ⟨t, -, -, htext⟩ := exists_text trdy hready n
    exact ⟨t, htext⟩

end Run

/-! ### The mixer -/

/-- The registers of the mixer, after the given writes. -/
def mixer (l : List Access) (reg : ℕ) : Option ℕ :=
  ((l.filter fun a => a.base = ALT_VIP_CL_MIXER_0_BASE ∧ a.reg = reg).map Access.data).getLast?

theorem mixer_append (l : List Access) (a : Access) (reg : ℕ) :
    mixer (l ++ [a]) reg =
      if a.base = ALT_VIP_CL_MIXER_0_BASE ∧ a.reg = reg then some a.data else mixer l reg := by
  unfold mixer
  rw [List.filter_append]
  split_ifs with h
  · simp [h]
  · simp [h]

theorem mixer_write_self (l : List Access) (reg data : ℕ) :
    mixer (l ++ [⟨ALT_VIP_CL_MIXER_0_BASE, reg, data⟩]) reg = some data := by
  rw [mixer_append, if_pos ⟨rfl, rfl⟩]

theorem mixer_write_of_ne (l : List Access) {reg reg' : ℕ} (data : ℕ) (h : reg ≠ reg') :
    mixer (l ++ [⟨ALT_VIP_CL_MIXER_0_BASE, reg, data⟩]) reg' = mixer l reg' := by
  rw [mixer_append, if_neg]
  exact fun hreg => h hreg.2

/-- Writes to other devices are nothing to the mixer. -/
theorem mixer_filter (l : List Access) (reg : ℕ) :
    mixer (l.filter fun a => a.base = ALT_VIP_CL_MIXER_0_BASE) reg = mixer l reg := by
  unfold mixer
  rw [List.filter_filter]
  congr 3
  funext a
  by_cases h : a.base = ALT_VIP_CL_MIXER_0_BASE <;> simp [h]

/-- The positions of the loop. -/
theorem posAt_eq (k : ℕ) : posAt k = (k % 51, k % 51) := by
  induction k with
  | zero => rfl
  | succ k ih =>
    rw [posAt_succ, ih, nextPos, maxPos]
    split_ifs with h
    · rw [show (k + 1) % 51 = 0 by omega]
    · rw [show (k + 1) % 51 = k % 51 + 1 by omega]

/-- The writes to the mixer, in `n` iterations. -/
def mixerText : ℕ → List Access
  | 0 =>
    [⟨ALT_VIP_CL_MIXER_0_BASE, REG_MIX_CONTROL, 1⟩,
      ⟨ALT_VIP_CL_MIXER_0_BASE, REG_MIX_IN0_XOFFSET, 30⟩,
      ⟨ALT_VIP_CL_MIXER_0_BASE, REG_MIX_IN0_YOFFSET, 30⟩,
      ⟨ALT_VIP_CL_MIXER_0_BASE, REG_MIX_IN0_INPUTCONTROL, 1⟩]
  | n + 1 =>
    mixerText n ++ [⟨ALT_VIP_CL_MIXER_0_BASE, REG_MIX_IN0_XOFFSET, n % 51⟩] ++
      [⟨ALT_VIP_CL_MIXER_0_BASE, REG_MIX_IN0_YOFFSET, n % 51⟩]

theorem filter_waitWithLed (ticks tickTimeMs : ℕ) :
    ((waitWithLed ticks tickTimeMs).flatMap Cmd.accesses).filter
      (fun a => a.base = ALT_VIP_CL_MIXER_0_BASE) = [] := by
  induction ticks with
  | zero => rfl
  | succ ticks ih =>
    show ((_ ++ waitWithLed ticks tickTimeMs).flatMap Cmd.accesses).filter _ = []
    rw [List.flatMap_append, List.filter_append, ih]
    rfl

theorem filter_putstr (str : String) :
    (Cmd.putstr str).accesses.filter (fun a => a.base = ALT_VIP_CL_MIXER_0_BASE) = [] := by
  rw [List.filter_eq_nil_iff]
  simp [Cmd.accesses, UART_0_BASE, ALT_VIP_CL_MIXER_0_BASE]

theorem filter_text (n : ℕ) :
    (text n).filter (fun a => a.base = ALT_VIP_CL_MIXER_0_BASE) = mixerText n := by
  induction n with
  | zero =>
    rw [text, program, List.range_zero, List.flatMap_nil, List.append_nil, setup]
    simp only [List.flatMap_append, List.flatMap_cons, List.flatMap_nil, List.filter_append,
      filter_waitWithLed, filter_putstr, List.cons_append, List.append_nil, List.nil_append]
    rfl
  | succ n ih =>
    rw [text_succ, List.filter_append, ih, posAt_eq, body, List.flatMap_append, List.filter_append,
      filter_waitWithLed, mixerText, List.append_assoc]
    rfl

/-- Where the picture is after `n` iterations. -/
def shown : ℕ → ℕ
  | 0 => 30
  | n + 1 => n % 51

theorem mixer_mixerText (n : ℕ) : mixer (mixerText n) REG_MIX_CONTROL = some 1 ∧
    mixer (mixerText n) REG_MIX_IN0_INPUTCONTROL = some 1 ∧
    mixer (mixerText n) REG_MIX_IN0_XOFFSET = some (shown n) ∧
    mixer (mixerText n) REG_MIX_IN0_YOFFSET = some (shown n) := by
  induction n with
  | zero => decide
  | succ n ih =>
    obtain ⟨hcontrol, hinput, -, -⟩ := ih
    rw [mixerText, shown]
    refine ⟨?_, ?_, ?_, mixer_write_self _ _ _⟩
    · rw [mixer_write_of_ne _ _ (by decide), mixer_write_of_ne _ _ (by decide), hcontrol]
    · rw [mixer_write_of_ne _ _ (by decide), mixer_write_of_ne _ _ (by decide), hinput]
    · rw [mixer_write_of_ne _ _ (by decide), mixer_write_self]

/-! ### What the mixer sees -/

/-- **The picture goes through all positions of the diagonal**, again and again. -/
theorem exists_placed (trdy : ℕ → Bool) (hready : ∀ t, ∃ u, t ≤ u ∧ trdy u = true) {p : ℕ}
    (hp : p ≤ 50) (t : ℕ) : ∃ u, t ≤ u ∧
      mixer (accesses trdy u) REG_MIX_IN0_INPUTCONTROL = some 1 ∧
      mixer (accesses trdy u) REG_MIX_IN0_XOFFSET = some p ∧
      mixer (accesses trdy u) REG_MIX_IN0_YOFFSET = some p := by
  obtain ⟨u, -, hbegun, htext⟩ := exists_text trdy hready (51 * t + p + 1)
  have hu : begun trdy u ≤ u := Nat.count_le _
  have hshown : shown (51 * t + p + 1) = p := by
    rw [shown]
    omega
  obtain ⟨-, hinput, hx, hy⟩ := mixer_mixerText (51 * t + p + 1)
  rw [hshown] at hx hy
  rw [← filter_text, mixer_filter, ← htext] at hinput hx hy
  exact ⟨u, by omega, hinput, hx, hy⟩

/-- A UART that is ready in every third pass. -/
theorem exists_placed_third : ∃ u, 1000 ≤ u ∧
    mixer (accesses (fun t => t % 3 == 0) u) REG_MIX_IN0_INPUTCONTROL = some 1 ∧
    mixer (accesses (fun t => t % 3 == 0) u) REG_MIX_IN0_XOFFSET = some 25 ∧
    mixer (accesses (fun t => t % 3 == 0) u) REG_MIX_IN0_YOFFSET = some 25 :=
  exists_placed (fun t => t % 3 == 0) (fun t => ⟨3 * t, by omega, by simp⟩) (by decide) 1000

end Software
end Cyclone10

import Cyclone10TPG.Software.FastUart

/-!
# The transmit buffer of the interrupt-driven driver

The program stores and the handler takes, and the handler can come between any two accesses of the
program. What the program has found out about the room in the buffer stays true, since the handler
only makes more of it (`TxInv`). So the device gets the characters of the calls of `write`, each
one once and in order (`written_eq`).
-/

namespace Cyclone10
namespace Software
namespace FastUart

open Sync

section Step

variable {β : Type} {s : Uart β}

/-! ### What the handler does to the transmit buffer -/

theorem rxirq_tx (s : Uart β) (i : Irq β) :
    (rxirq s i).tx = s.tx ∧ (rxirq s i).pc = s.pc ∧ (rxirq s i).fc = s.fc := by
  unfold rxirq
  split_ifs <;> exact ⟨rfl, rfl, rfl⟩

theorem sends_irq (s : Uart β) (i : Irq β) :
    s.sends (.irq i) = if i.trdy || i.dcts then txdata s i else none := rfl

/-- The character that is sent is the first one of the buffer. -/
theorem sends_irq_iff {i : Irq β} {x : β} : s.sends (.irq i) = some x ↔
    (i.trdy || i.dcts) = true ∧ s.tx.isEmpty = false ∧ clearToSend s i = true ∧ s.tx.head = x := by
  rw [sends_irq, txdata]
  split_ifs with hcause hempty hclear <;> simp_all

theorem txirq_tx (s : Uart β) (i : Irq β) :
    (txirq s i).tx = (if (txdata s i).isSome then s.tx.pop BUF_LEN else s.tx) ∧
      (txirq s i).pc = s.pc ∧ (txirq s i).fc = s.fc := by
  have htransmit : (transmit s i).tx = (if (txdata s i).isSome then s.tx.pop BUF_LEN else s.tx) ∧
      (transmit s i).pc = s.pc ∧ (transmit s i).fc = s.fc := by
    unfold transmit txdata
    split_ifs <;> first | exact ⟨rfl, rfl, rfl⟩ | contradiction
  obtain ⟨htx, hpc, hfc⟩ : (txirq s i).tx = (transmit s i).tx ∧
      (txirq s i).pc = (transmit s i).pc ∧ (txirq s i).fc = (transmit s i).fc := by
    unfold txirq
    split_ifs <;> exact ⟨rfl, rfl, rfl⟩
  rw [htx, hpc, hfc]
  exact htransmit

/-- The handler takes the character that it sends, and nothing else. -/
theorem irq_tx (s : Uart β) (i : Irq β) :
    (irq s i).tx = (if (s.sends (.irq i)).isSome then s.tx.pop BUF_LEN else s.tx) ∧
      (irq s i).pc = s.pc ∧ (irq s i).fc = s.fc := by
  -- the receive interrupt comes first
  obtain ⟨s', hs', hrx⟩ : ∃ s', (if i.rrdy then rxirq s i else s) = s' ∧ s'.tx = s.tx ∧
      s'.pc = s.pc ∧ s'.fc = s.fc := by
    refine ⟨_, rfl, ?_⟩
    split_ifs
    · exact rxirq_tx s i
    · exact ⟨rfl, rfl, rfl⟩
  obtain ⟨htx, hpc, hfc⟩ := hrx
  have hsame : txdata s' i = txdata s i := by
    unfold txdata clearToSend
    rw [htx, hfc]
  rw [sends_irq, irq, hs']
  by_cases hcause : (i.trdy || i.dcts) = true
  · obtain ⟨htx', hpc', hfc'⟩ := txirq_tx s' i
    rw [if_pos hcause, if_pos hcause, htx', hsame, htx]
    exact ⟨rfl, hpc'.trans hpc, hfc'.trans hfc⟩
  · rw [if_neg hcause, if_neg hcause]
    exact ⟨htx, hpc, hfc⟩

/-! ### The invariant -/

/-- **The transmit buffer**: of the characters `l` that have been put in, `n` have been sent. Where
the program has found room, there still is. -/
structure TxInv (s : Uart β) (l : List β) (n : ℕ) : Prop where
  holds : s.tx.Holds BUF_LEN l n
  room : l.length < n + BUF_LEN
  call : match s.pc with
    | .writeStore _ _ _ _ => l.length + 1 < n + BUF_LEN
    | .writePublish _ _ x _ =>
      l.length + 1 < n + BUF_LEN ∧ s.tx.buf (l.length % BUF_LEN) = x
    | _ => True

variable {l : List β} {n : ℕ}

/-- The handler sends the next character. -/
theorem TxInv.irq (h : TxInv s l n) (i : Irq β) :
    TxInv (irq s i) l (n + (s.sends (.irq i)).toList.length) ∧
      ∀ x ∈ s.sends (.irq i), l[n]? = some x := by
  obtain ⟨htx, hpc, -⟩ := irq_tx s i
  obtain ⟨holds, room, call⟩ := h
  cases hsent : s.sends (.irq i) with
  | none =>
    -- nothing was sent, and the buffer is as it was
    rw [hsent] at htx
    refine ⟨⟨?_, room, ?_⟩, fun x hx => absurd hx (Option.not_mem_none x)⟩
    · rw [htx]
      exact holds
    · rw [hpc, htx]
      exact call
  | some x =>
    -- the oldest character leaves the buffer
    obtain ⟨-, hempty, -, hhead⟩ := sends_irq_iff.mp hsent
    have hlt : n < l.length := holds.lt_of_isEmpty_eq_false hempty
    rw [hsent] at htx
    have htx' : (FastUart.irq s i).tx = s.tx.pop BUF_LEN := htx
    refine ⟨⟨?_, ?_, ?_⟩, ?_⟩
    · rw [htx']
      exact holds.pop hlt
    · show l.length < n + 1 + BUF_LEN
      omega
    · -- the handler only makes more room, and the program has not moved
      show match (FastUart.irq s i).pc with
        | .writeStore _ _ _ _ => l.length + 1 < n + 1 + BUF_LEN
        | .writePublish _ _ x _ => l.length + 1 < n + 1 + BUF_LEN ∧ _
        | _ => True
      rw [hpc, htx']
      cases hs : s.pc <;> simp only [hs] at call ⊢
      · omega
      · exact ⟨by omega, call.2⟩
    · rintro y hy
      obtain rfl := Option.mem_some_iff.mp hy
      rw [List.getElem?_eq_getElem hlt, ← hhead, holds.head hlt room.le]

/-- The program puts the next character in. -/
theorem TxInv.fore (h : TxInv s l n) (call : Option (Call β)) :
    TxInv (fore s call) (l ++ (s.accepts (.fore call)).toList) n := by
  obtain ⟨ctrl, rx, tx, fc, pc⟩ := s
  obtain ⟨holds, room, hcall⟩ := h
  have hroom : tx.isFull BUF_LEN = false → l.length + 1 < n + BUF_LEN := by
    intro hfull
    refine lt_of_le_of_ne room fun heq => ?_
    rw [(holds.isFull_iff_of_lt room).mpr heq] at hfull
    exact absurd hfull Bool.noConfusion
  cases pc with
  | writePublish noBlock len x ptr =>
    -- the handler sees the character from here on
    refine ⟨holds.publish hcall.2, ?_, trivial⟩
    show (l ++ [x]).length < n + BUF_LEN
    rw [List.length_append, List.length_singleton]
    exact hcall.1
  | writeStore noBlock len x ptr =>
    -- the slot is free, as one more is
    obtain ⟨holds', hx⟩ := holds.store room x
    simp only [Uart.accepts, Option.toList_none, List.append_nil]
    exact ⟨holds', room, hcall, hx⟩
  | writeLoop noBlock len ptr =>
    simp only [Uart.accepts, Option.toList_none, List.append_nil]
    cases ptr with
    | nil => exact ⟨holds, room, trivial⟩
    | cons x ptr =>
      unfold FastUart.fore
      simp only
      split_ifs with hfull hblock
      · exact ⟨holds, room, trivial⟩
      · exact ⟨holds, room, trivial⟩
      · exact ⟨holds, room, hroom (Bool.eq_false_of_not_eq_true hfull)⟩
  | writeWait len x ptr =>
    simp only [Uart.accepts, Option.toList_none, List.append_nil]
    unfold FastUart.fore
    simp only
    split_ifs with hfull
    · exact ⟨holds, room, trivial⟩
    · exact ⟨holds, room, hroom (Bool.eq_false_of_not_eq_true hfull)⟩
  | idle value =>
    simp only [Uart.accepts, Option.toList_none, List.append_nil]
    rcases call with - | (- | - | -) <;> exact ⟨holds, room, trivial⟩
  | readLoop | readTest | readArm | closeLoop =>
    simp only [Uart.accepts, Option.toList_none, List.append_nil]
    unfold FastUart.fore
    simp only
    split_ifs <;> exact ⟨holds, room, trivial⟩
  | _ =>
    simp only [Uart.accepts, Option.toList_none, List.append_nil]
    exact ⟨holds, room, trivial⟩

/-! ### Blocking calls -/

/-- The program is not in a call of `write` that gives up when there is no room. -/
def Uart.Blocking (s : Uart β) : Prop :=
  match s.pc with
  | .writeLoop noBlock _ _ | .writeStore noBlock _ _ _ | .writePublish noBlock _ _ _ =>
    noBlock = false
  | _ => True

/-- A call of `write` that begins does not give up. -/
def Move.Blocking : Move β → Prop
  | .fore (some (.write _ noBlock)) => noBlock = false
  | _ => True

/-- A blocking call puts the characters into the buffer one after the other. -/
theorem pending_fore {call : Option (Call β)} (hs : s.Blocking)
    (hm : (Move.fore call).Blocking) : (fore s call).Blocking ∧
      s.pending ++ s.writes (.fore call) =
        (s.accepts (.fore call)).toList ++ (fore s call).pending := by
  obtain ⟨ctrl, rx, tx, fc, pc⟩ := s
  cases pc with
  | idle value =>
    -- a call of `write` has all its characters before it
    rcases call with _ | (⟨ptr, noBlock⟩ | ⟨len, noBlock⟩ | ⟨noBlock⟩)
    · exact ⟨trivial, rfl⟩
    · exact ⟨hm, rfl⟩
    · exact ⟨trivial, rfl⟩
    · exact ⟨trivial, rfl⟩
  | writeLoop noBlock len ptr =>
    obtain rfl : noBlock = false := hs
    cases ptr with
    | nil => exact ⟨trivial, rfl⟩
    | cons x ptr =>
      -- it stores the character or waits for room; the branch that gives up is not for it
      unfold fore
      simp only [Bool.false_eq_true, if_false]
      split_ifs
      · exact ⟨trivial, List.append_nil _⟩
      · exact ⟨rfl, List.append_nil _⟩
  | writeWait len x ptr =>
    unfold fore
    simp only
    split_ifs
    · exact ⟨trivial, List.append_nil _⟩
    · exact ⟨rfl, List.append_nil _⟩
  | writeArm len x ptr => exact ⟨trivial, List.append_nil _⟩
  | writeStore noBlock len x ptr => exact ⟨hs, List.append_nil _⟩
  | writePublish noBlock len x ptr =>
    -- the character goes from the call into the buffer
    exact ⟨hs, List.append_nil _⟩
  | readLoop | readTest | readArm | closeLoop =>
    unfold fore
    simp only
    split_ifs <;> exact ⟨trivial, rfl⟩
  | _ => exact ⟨trivial, rfl⟩

/-- The handler begins no call. -/
theorem writes_irq (s : Uart β) (i : Irq β) : s.writes (.irq i) = [] := by
  unfold Uart.writes
  split
  · contradiction
  · rfl

/-- The handler leaves the calls of the program alone. -/
theorem pending_irq (i : Irq β) (hs : s.Blocking) : (irq s i).Blocking ∧
    s.pending ++ s.writes (.irq i) = (irq s i).pending := by
  obtain ⟨-, hpc, -⟩ := irq_tx s i
  unfold Uart.Blocking Uart.pending at *
  rw [hpc, writes_irq, List.append_nil]
  exact ⟨hs, rfl⟩

/-! ### The transmit interrupt is on -/

/-- **There is no deadlock**: when there is something to send, the transmit interrupt is on, but for
the time between a change of the buffer and the end of a call of `write`. -/
def Uart.Armed (s : Uart β) : Prop :=
  match s.pc with
  | .writeLoop _ _ _ | .writeArm _ _ _ | .writeStore _ _ _ _ | .writePublish _ _ _ _
  | .writeDone _ _ => True
  | _ => s.tx.isEmpty = false → s.ctrl.trdy = true

theorem txirq_trdy (i : Irq β) (hfc : s.fc = false) (hne : (txirq s i).tx.isEmpty = false) :
    (txirq s i).ctrl.trdy = true := by
  have hclear : clearToSend s i = true := by
    rw [clearToSend, hfc]
    rfl
  unfold txirq at hne ⊢
  split_ifs at hne ⊢ with hempty
  · exact absurd (hne.symm.trans hempty) Bool.false_ne_true
  · by_cases hs : s.tx.isEmpty = true
    · rw [transmit, if_pos hs] at hempty
      exact absurd hs hempty
    · rw [transmit, if_neg hs, if_pos hclear]

/-- Without flow control, the handler leaves the transmit interrupt on while there is something to
send. -/
theorem irq_trdy (i : Irq β) (hfc : s.fc = false) :
    if (i.trdy || i.dcts) = true then (irq s i).tx.isEmpty = false → (irq s i).ctrl.trdy = true
    else (irq s i).tx = s.tx ∧ (irq s i).ctrl.trdy = s.ctrl.trdy := by
  obtain ⟨s', hs', htx, hfc', htrdy⟩ : ∃ s', (if i.rrdy then rxirq s i else s) = s' ∧
      s'.tx = s.tx ∧ s'.fc = s.fc ∧ s'.ctrl.trdy = s.ctrl.trdy := by
    refine ⟨_, rfl, ?_⟩
    unfold rxirq
    split_ifs <;> exact ⟨rfl, rfl, rfl⟩
  unfold irq
  rw [hs']
  split_ifs with hcause
  · exact txirq_trdy i (hfc'.trans hfc)
  · exact ⟨htx, htrdy⟩

theorem Uart.Armed.irq (h : s.Armed) (i : Irq β) (hfc : s.fc = false) : (irq s i).Armed := by
  obtain ⟨-, hpc, -⟩ := irq_tx s i
  have hkeep : (s.tx.isEmpty = false → s.ctrl.trdy = true) →
      (FastUart.irq s i).tx.isEmpty = false → (FastUart.irq s i).ctrl.trdy = true := by
    intro hs
    have htrdy := irq_trdy i hfc
    split_ifs at htrdy with hcause
    · exact htrdy
    · rw [htrdy.1, htrdy.2]
      exact hs
  unfold Uart.Armed at h ⊢
  rw [hpc]
  cases hs : s.pc <;> simp only [hs] at h ⊢ <;> exact hkeep h

theorem Uart.Armed.fore (h : s.Armed) (call : Option (Call β)) : (fore s call).Armed := by
  obtain ⟨ctrl, rx, tx, fc, pc⟩ := s
  cases pc with
  | idle value => rcases call with _ | (_ | _ | _) <;> first | exact h | exact trivial
  | writeLoop noBlock len ptr =>
    cases ptr with
    | nil => exact trivial
    | cons x ptr =>
      unfold FastUart.fore
      simp only
      split_ifs <;> exact trivial
  | writeArm | writeDone => exact fun _ => rfl
  | writeWait len x ptr =>
    unfold FastUart.fore
    simp only
    split_ifs
    · exact h
    · exact trivial
  | writeStore | writePublish => exact trivial
  | readLoop | readTest | closeLoop =>
    unfold FastUart.fore
    simp only
    split_ifs <;> exact h
  | readArm len =>
    unfold FastUart.fore
    simp only
    split_ifs <;> exact h
  | _ => exact h

end Step

/-! ### Whole runs -/

section Run

variable {β : Type} (rxBuf txBuf : ℕ → β) (fc : Bool) (inp : ℕ → Move β)

theorem uartAt_succ (s₀ : Uart β) (t : ℕ) :
    uartAt s₀ inp (t + 1) = step (uartAt s₀ inp t) (inp t) := rfl

/-- The buffer between what has been accepted and what has been sent. -/
theorem txInv_uartAt (t : ℕ) :
    TxInv (uartAt (init rxBuf txBuf fc) inp t) (accepted (init rxBuf txBuf fc) inp t)
        (sent (init rxBuf txBuf fc) inp t).length ∧
      sent (init rxBuf txBuf fc) inp t =
        (accepted (init rxBuf txBuf fc) inp t).take (sent (init rxBuf txBuf fc) inp t).length := by
  induction t with
  | zero => exact ⟨⟨.nil, Nat.succ_pos 63, trivial⟩, rfl⟩
  | succ t ih =>
    obtain ⟨hinv, hsent⟩ := ih
    rw [uartAt_succ, accepted, sent, log_succ, log_succ, ← accepted, ← sent]
    cases hmove : inp t with
    | fore call =>
      have hno : (uartAt (init rxBuf txBuf fc) inp t).sends (.fore call) = none := rfl
      rw [hno, Option.toList_none, List.append_nil]
      refine ⟨hinv.fore call, ?_⟩
      rw [List.take_append_of_le_length hinv.holds.le]
      exact hsent
    | irq i =>
      have hno : (uartAt (init rxBuf txBuf fc) inp t).accepts (.irq i) = none := rfl
      obtain ⟨hinv', hnext⟩ := hinv.irq i
      rw [hno, Option.toList_none, List.append_nil, List.length_append]
      refine ⟨hinv', ?_⟩
      cases hx : (uartAt (init rxBuf txBuf fc) inp t).sends (.irq i) with
      | none =>
        simp only [Option.toList_none, List.append_nil, List.length_nil, Nat.add_zero]
        exact hsent
      | some x =>
        have hget := hnext x (hx ▸ Option.mem_some_self x)
        rw [Option.toList_some, List.length_singleton, List.take_add_one, hget, ← hsent]
        rfl

/-- **The device gets what has been accepted**, in order, and the rest is in the buffer. -/
theorem accepted_eq (t : ℕ) : accepted (init rxBuf txBuf fc) inp t =
    sent (init rxBuf txBuf fc) inp t ++ (uartAt (init rxBuf txBuf fc) inp t).tx.toList BUF_LEN := by
  obtain ⟨hinv, hsent⟩ := txInv_uartAt rxBuf txBuf fc inp t
  have hlist := hinv.holds.toList hinv.room
  calc accepted (init rxBuf txBuf fc) inp t
      = (accepted (init rxBuf txBuf fc) inp t).take (sent (init rxBuf txBuf fc) inp t).length ++
          (accepted (init rxBuf txBuf fc) inp t).drop (sent (init rxBuf txBuf fc) inp t).length :=
        (List.take_append_drop _ _).symm
    _ = _ := by rw [← hsent, hlist]

/-- The characters of blocking calls have been accepted, or are still with the call. -/
theorem written_accepted (hblock : ∀ t, (inp t).Blocking) (t : ℕ) :
    (uartAt (init rxBuf txBuf fc) inp t).Blocking ∧
      written (init rxBuf txBuf fc) inp t = accepted (init rxBuf txBuf fc) inp t ++
        (uartAt (init rxBuf txBuf fc) inp t).pending := by
  induction t with
  | zero => exact ⟨trivial, rfl⟩
  | succ t ih =>
    obtain ⟨hs, hwritten⟩ := ih
    rw [uartAt_succ, accepted, log_succ, ← accepted, written, hwritten]
    have hm := hblock t
    cases hmove : inp t with
    | irq i =>
      obtain ⟨hs', hpending⟩ := pending_irq i hs
      refine ⟨hs', ?_⟩
      have hno : (uartAt (init rxBuf txBuf fc) inp t).accepts (.irq i) = none := rfl
      rw [List.append_assoc, hpending, hno, Option.toList_none, List.append_nil]
      rfl
    | fore call =>
      rw [hmove] at hm
      obtain ⟨hs', hpending⟩ := pending_fore hs hm
      refine ⟨hs', ?_⟩
      rw [List.append_assoc, hpending, ← List.append_assoc]
      rfl

/-- **No character is lost, doubled or out of order**, whenever the handler comes: the characters of
blocking calls of `write` have been sent, or are in the buffer, or are still with the call. -/
theorem written_eq (hblock : ∀ t, (inp t).Blocking) (t : ℕ) :
    written (init rxBuf txBuf fc) inp t =
      sent (init rxBuf txBuf fc) inp t ++
        (uartAt (init rxBuf txBuf fc) inp t).tx.toList BUF_LEN ++
          (uartAt (init rxBuf txBuf fc) inp t).pending := by
  rw [(written_accepted rxBuf txBuf fc inp hblock t).2, ← accepted_eq]

end Run

/-! ### A text that does not fit into the buffer -/

section Burst

def text : List (BitVec 8) := (List.range 100).map (BitVec.ofNat 8)

def start : Uart (BitVec 8) := init (fun _ => 0) (fun _ => 0) false

/-- The program writes the text and then closes. The handler comes in every second cycle, if its
interrupt is on. -/
def turnOf (s : Uart (BitVec 8)) (t : ℕ) : Move (BitVec 8) :=
  if t % 2 = 1 ∧ s.ctrl.trdy = true then
    .irq
      { rrdy := false
        trdy := true
        dcts := false
        cts := false
        pe := false
        fe := false
        rxdata := 0
        ctsAgain := false }
  else .fore (some (if t = 0 then .write text false else .close false))

/-- The state after `t` moves of this run. -/
def burstAt : ℕ → Uart (BitVec 8)
  | 0 => start
  | t + 1 => step (burstAt t) (turnOf (burstAt t) t)

/-- The moves of the run. -/
def burst (t : ℕ) : Move (BitVec 8) := turnOf (burstAt t) t

theorem uartAt_burst (t : ℕ) : uartAt start burst t = burstAt t := by
  induction t with
  | zero => rfl
  | succ t ih =>
    rw [uartAt_succ, ih]
    rfl

theorem burst_blocking (t : ℕ) : (burst t).Blocking := by
  unfold burst turnOf
  split_ifs <;> first | exact rfl | exact trivial

/-- As long as the interrupt is off, the program is alone. -/
theorem burstAt_succ_of_off {t : ℕ} (hoff : (burstAt t).ctrl.trdy = false) :
    ∃ call, burstAt (t + 1) = fore (burstAt t) call := by
  refine ⟨some (if t = 0 then .write text false else .close false), ?_⟩
  rw [burstAt, turnOf, if_neg]
  · rfl
  · rw [hoff]
    exact fun h => Bool.false_ne_true h.2

/-- It takes three steps to put a character into the buffer. -/
theorem burstAt_push {t len : ℕ} {x : BitVec 8} {ptr : List (BitVec 8)}
    (hoff : (burstAt t).ctrl.trdy = false) (hpc : (burstAt t).pc = .writeLoop false len (x :: ptr))
    (hroom : (burstAt t).tx.isFull BUF_LEN = false) :
    burstAt (t + 3) =
      { burstAt t with tx := (burstAt t).tx.push BUF_LEN x, pc := .writeLoop false len ptr } := by
  have hloop : burstAt (t + 1) = { burstAt t with pc := .writeStore false len x ptr } := by
    obtain ⟨call, hcall⟩ := burstAt_succ_of_off hoff
    rw [hcall]
    unfold fore
    simp only [hpc, hroom, Bool.false_eq_true, if_false]
  have hstore : burstAt (t + 2) = { burstAt t with
      tx := (burstAt t).tx.store x, pc := .writePublish false len x ptr } := by
    have hoff' : (burstAt (t + 1)).ctrl.trdy = false := by rw [hloop]; exact hoff
    obtain ⟨call, hcall⟩ := burstAt_succ_of_off hoff'
    rw [hcall, hloop]
    rfl
  have hoff' : (burstAt (t + 2)).ctrl.trdy = false := by rw [hstore]; exact hoff
  obtain ⟨call, hcall⟩ := burstAt_succ_of_off hoff'
  rw [hcall, hstore]
  rfl

/-- The program fills the buffer before the handler comes for the first time. -/
theorem burstAt_fill {k : ℕ} (hk : k ≤ 63) : (burstAt (3 * k + 1)).ctrl.trdy = false ∧
    (burstAt (3 * k + 1)).pc = .writeLoop false 100 (text.drop k) ∧
    (burstAt (3 * k + 1)).tx.first = 0 ∧ (burstAt (3 * k + 1)).tx.stop = k := by
  induction k with
  | zero => exact ⟨rfl, rfl, rfl, rfl⟩
  | succ k ih =>
    obtain ⟨hoff, hpc, hfirst, hstop⟩ := ih (Nat.le_of_succ_le hk)
    have hlen : k < text.length := by
      rw [text, List.length_map, List.length_range]
      omega
    rw [List.drop_eq_getElem_cons hlen] at hpc
    have hroom : (burstAt (3 * k + 1)).tx.isFull BUF_LEN = false := by
      rw [Circular.isFull, hfirst, hstop, BUF_LEN, Nat.mod_eq_of_lt (by omega)]
      rfl
    have hindex : 3 * (k + 1) + 1 = 3 * k + 1 + 3 := by omega
    rw [hindex, burstAt_push hoff hpc hroom]
    refine ⟨hoff, rfl, hfirst, ?_⟩
    show ((burstAt (3 * k + 1)).tx.stop + 1) % BUF_LEN = k + 1
    rw [hstop, BUF_LEN, Nat.mod_eq_of_lt (by omega)]

/-- The buffer is full, and 37 characters are still with the call. -/
theorem written_eq_burst : (uartAt start burst 190).tx.isFull BUF_LEN = true ∧
    written start burst 190 = sent start burst 190 ++
      (uartAt start burst 190).tx.toList BUF_LEN ++ (uartAt start burst 190).pending := by
  refine ⟨?_, written_eq (fun _ => 0) (fun _ => 0) false burst burst_blocking 190⟩
  obtain ⟨-, -, hfirst, hstop⟩ := burstAt_fill (k := 63) le_rfl
  rw [uartAt_burst, Circular.isFull, hfirst, hstop]
  rfl

end Burst

end FastUart
end Software
end Cyclone10

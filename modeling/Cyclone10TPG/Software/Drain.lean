import Cyclone10TPG.Software.Transmit

/-!
# The transmit buffer drains

Without flow control, every character that has been accepted is sent in the end, the calls of
`write` and `close` return (`exists_idle`), and so every character of a blocking call of `write` is
sent (`exists_sent`), if the program goes on and the interrupt is served when it stays on.

The danger is a wakeup that gets lost: the handler turns the transmit interrupt off when it finds
the buffer empty, and the program may be between its look at the buffer and its next access then.
But a call of `write` turns the interrupt on before it waits and before it returns (`Uart.Armed`),
so it is off for the few steps of `stepsLeft` at most while there is something to send.
-/

namespace Cyclone10
namespace Software
namespace FastUart

open Sync

section Step

variable {β : Type} {s : Uart β} {l : List β} {n : ℕ}

/-- The steps of the program until a call of `write` or `close` returns, when it does not wait. -/
def stepsLeft : Pc β → ℕ
  | .writeLoop _ _ ptr => 5 * ptr.length + 2
  | .writeArm _ _ ptr => 5 * ptr.length + 6
  | .writeWait _ _ ptr => 5 * ptr.length + 5
  | .writeStore _ _ _ ptr => 5 * ptr.length + 4
  | .writePublish _ _ _ ptr => 5 * ptr.length + 3
  | .writeDone _ _ => 1
  | .closeLoop _ => 1
  | _ => 0

/-- The program is in a call of `write` or `close`. -/
def Uart.Calling (s : Uart β) : Prop := 0 < stepsLeft s.pc

/-- A call of `write` waits for room, or a call of `close` for the last character. -/
def Uart.Waiting (s : Uart β) : Prop :=
  match s.pc with
  | .writeWait _ _ _ => s.tx.isFull BUF_LEN = true
  | .closeLoop _ => s.tx.isEmpty = false
  | _ => False

/-- The program leaves the flags alone, and never turns the transmit interrupt off. -/
theorem fore_keeps (s : Uart β) (call : Option (Call β)) :
    (fore s call).fc = s.fc ∧ (s.ctrl.trdy = true → (fore s call).ctrl.trdy = true) := by
  obtain ⟨ctrl, rx, tx, fc, pc⟩ := s
  cases pc with
  | idle value => rcases call with _ | (_ | _ | _) <;> exact ⟨rfl, id⟩
  | writeLoop noBlock len ptr =>
    cases ptr with
    | nil => exact ⟨rfl, id⟩
    | cons x ptr =>
      unfold fore
      simp only
      split_ifs <;> exact ⟨rfl, id⟩
  | writeWait | readLoop | readTest | closeLoop =>
    unfold fore
    simp only
    split_ifs <;> exact ⟨rfl, id⟩
  -- the two places where it is turned on
  | writeArm | writeDone => exact ⟨rfl, fun _ => rfl⟩
  | _ => exact ⟨rfl, id⟩

/-- A step of the program brings a call of `write` or `close` closer to its end, unless it waits. -/
theorem stepsLeft_fore (hcalling : s.Calling) (hwait : ¬ s.Waiting) (call : Option (Call β)) :
    stepsLeft (fore s call).pc < stepsLeft s.pc := by
  obtain ⟨ctrl, rx, tx, fc, pc⟩ := s
  cases pc with
  | writeLoop noBlock len ptr =>
    cases ptr with
    | nil => exact Nat.lt_succ_self 1
    | cons x ptr =>
      unfold fore
      simp only
      split_ifs
      · -- the call gives up
        show 1 < 5 * (ptr.length + 1) + 2
        omega
      · show 5 * ptr.length + 6 < 5 * (ptr.length + 1) + 2
        omega
      · show 5 * ptr.length + 4 < 5 * (ptr.length + 1) + 2
        omega
  | writeWait len x ptr =>
    unfold fore
    simp only
    split_ifs with hfull
    · exact absurd hfull hwait
    · -- there is room, and the call goes on
      exact Nat.lt_succ_self (5 * ptr.length + 4)
  | closeLoop noBlock =>
    unfold fore
    simp only
    split_ifs with hempty
    · -- everything has been sent
      exact Nat.one_pos
    · exact absurd (Bool.eq_false_of_not_eq_true hempty) hwait
    · exact absurd (Bool.eq_false_of_not_eq_true hempty) hwait
  | writeArm len x ptr => exact Nat.lt_succ_self (5 * ptr.length + 5)
  | writeStore noBlock len x ptr => exact Nat.lt_succ_self (5 * ptr.length + 3)
  | writePublish noBlock len x ptr => exact Nat.lt_succ_self (5 * ptr.length + 2)
  | writeDone len count => exact Nat.one_pos
  | _ => exact absurd hcalling (Nat.lt_irrefl 0)

/-- A step that waits does not bring it further away. -/
theorem stepsLeft_fore_le (hwait : s.Waiting) (call : Option (Call β)) :
    stepsLeft (fore s call).pc ≤ stepsLeft s.pc := by
  obtain ⟨ctrl, rx, tx, fc, pc⟩ := s
  cases pc with
  | writeWait len x ptr =>
    unfold fore
    simp only
    split_ifs with hfull
    · exact le_rfl
    · exact absurd hwait hfull
  | closeLoop noBlock =>
    unfold fore
    simp only
    split_ifs
    · exact Nat.zero_le 1
    · exact Nat.zero_le 1
    · exact le_rfl
  | _ => exact hwait.elim

/-- A call that waits finds something in the buffer. -/
theorem isEmpty_of_waiting (hinv : TxInv s l n) (hwait : s.Waiting) : s.tx.isEmpty = false := by
  have hfull : s.tx.isFull BUF_LEN = true → s.tx.isEmpty = false := by
    intro hfull
    have hlen := (hinv.holds.isFull_iff_of_lt hinv.room).mp hfull
    refine Bool.eq_false_of_not_eq_true fun hempty => ?_
    have heq := (hinv.holds.isEmpty_iff_of_lt hinv.room).mp hempty
    have hbuf : BUF_LEN = 64 := rfl
    omega
  unfold Uart.Waiting at hwait
  split at hwait
  · exact hfull hwait
  · exact hwait
  · exact hwait.elim

/-- **The interrupt is on, or a call goes on to turn it on**, while there is something to send. -/
theorem calling_of_off (harmed : s.Armed) (hne : s.tx.isEmpty = false)
    (hoff : s.ctrl.trdy = false) : s.Calling ∧ ¬ s.Waiting := by
  have hon : ¬ (s.tx.isEmpty = false → s.ctrl.trdy = true) := fun h =>
    Bool.false_ne_true (hoff.symm.trans (h hne))
  obtain ⟨ctrl, rx, tx, fc, pc⟩ := s
  cases pc with
  | writeLoop | writeArm | writeStore | writePublish | writeDone =>
    exact ⟨Nat.succ_pos _, id⟩
  | _ =>
    -- the interrupt would be on
    exact absurd harmed hon

/-- A call that waits puts nothing into the buffer. -/
theorem accepts_of_waiting (hwait : s.Waiting) (m : Move β) : s.accepts m = none := by
  obtain ⟨ctrl, rx, tx, fc, pc⟩ := s
  cases m with
  | irq i => rfl
  | fore call =>
    cases pc with
    | writePublish => exact hwait.elim
    | _ => rfl

/-- Outside the calls of `write` there is nothing that still has to be put into the buffer. -/
theorem pending_of_not_calling (h : ¬ s.Calling) : s.pending = [] := by
  obtain ⟨ctrl, rx, tx, fc, pc⟩ := s
  cases pc with
  | writeLoop | writeArm | writeWait | writeStore | writePublish =>
    exact absurd (Nat.succ_pos _) h
  | _ => rfl

/-- A call of `write` or `close` goes on or returns. -/
theorem fore_calling (hcalling : s.Calling) (call : Option (Call β)) :
    (fore s call).Calling ∨ ∃ value, (fore s call).pc = .idle value := by
  obtain ⟨ctrl, rx, tx, fc, pc⟩ := s
  cases pc with
  | writeLoop noBlock len ptr =>
    refine .inl ?_
    cases ptr with
    | nil => exact Nat.succ_pos _
    | cons x ptr =>
      unfold fore
      simp only
      split_ifs <;> exact Nat.succ_pos _
  | writeWait len x ptr =>
    refine .inl ?_
    unfold fore
    simp only
    split_ifs <;> exact Nat.succ_pos _
  | writeArm | writeStore | writePublish => exact .inl (Nat.succ_pos _)
  | writeDone len count => exact .inr ⟨_, rfl⟩
  | closeLoop noBlock =>
    unfold fore
    simp only
    split_ifs
    · exact .inr ⟨_, rfl⟩
    · exact .inr ⟨_, rfl⟩
    · exact .inl (Nat.succ_pos _)
  | _ => exact absurd hcalling (Nat.lt_irrefl 0)

end Step

/-! ### Whole runs -/

section Run

variable {β : Type} (rxBuf txBuf : ℕ → β) (inp : ℕ → Move β)

/-- **Fairness**: the program goes on, and a transmit interrupt that stays on is served. -/
structure Fair (s₀ : Uart β) : Prop where
  program : ∀ t, ∃ u, t ≤ u ∧ ∃ call, inp u = .fore call
  interrupt : ∀ t, (∀ u, t ≤ u → (uartAt s₀ inp u).ctrl.trdy = true) →
    ∃ u, t ≤ u ∧ ∃ i, inp u = .irq i ∧ i.trdy = true

variable {rxBuf txBuf inp}

/-- The program and the handler keep the transmit interrupt on when it must be, without flow
control. -/
theorem armed_uartAt (t : ℕ) : (uartAt (init rxBuf txBuf false) inp t).fc = false ∧
    (uartAt (init rxBuf txBuf false) inp t).Armed := by
  induction t with
  | zero => exact ⟨rfl, fun h => absurd h.symm Bool.false_ne_true⟩
  | succ t ih =>
    obtain ⟨hfc, harmed⟩ := ih
    rw [uartAt_succ]
    cases inp t with
    | irq i => exact ⟨(irq_tx _ i).2.2.trans hfc, harmed.irq i hfc⟩
    | fore call => exact ⟨(fore_keeps _ call).1.trans hfc, harmed.fore call⟩

/-- There is something in the buffer when less has been sent than accepted. -/
theorem isEmpty_eq_false_iff (t : ℕ) : (uartAt (init rxBuf txBuf false) inp t).tx.isEmpty = false ↔
    (sent (init rxBuf txBuf false) inp t).length <
      (accepted (init rxBuf txBuf false) inp t).length := by
  have hinv := (txInv_uartAt rxBuf txBuf false inp t).1
  rw [Bool.eq_false_iff, Ne, hinv.holds.isEmpty_iff_of_lt hinv.room]
  have hle := hinv.holds.le
  omega

theorem written_mono (s₀ : Uart β) {t u : ℕ} (h : t ≤ u) :
    written s₀ inp t <+: written s₀ inp u := by
  induction u, h using Nat.le_induction with
  | base => exact List.prefix_rfl
  | succ u h ih => exact ih.trans (List.prefix_append _ _)

/-- A character is waiting, and its interrupt is on. -/
def Uart.Ready (s : Uart β) : Prop := s.tx.isEmpty = false ∧ s.ctrl.trdy = true

/-- What is ready stays ready until the handler sends. -/
theorem ready_succ {t : ℕ} (hready : (uartAt (init rxBuf txBuf false) inp t).Ready)
    (hno : (uartAt (init rxBuf txBuf false) inp t).sends (inp t) = none) :
    (uartAt (init rxBuf txBuf false) inp (t + 1)).Ready := by
  obtain ⟨hne, htrdy⟩ := hready
  have hne' : (uartAt (init rxBuf txBuf false) inp (t + 1)).tx.isEmpty = false := by
    rw [isEmpty_eq_false_iff] at hne ⊢
    rw [sent, accepted, log_succ_of_none hno, log_succ, List.length_append]
    exact Nat.lt_add_right _ hne
  refine ⟨hne', ?_⟩
  rw [uartAt_succ] at hne' ⊢
  cases hmove : inp t with
  | fore call => exact (fore_keeps _ call).2 htrdy
  | irq i =>
    rw [hmove] at hne'
    have hfc : (uartAt (init rxBuf txBuf false) inp t).fc = false := (armed_uartAt t).1
    have hirq := irq_trdy i hfc
    split_ifs at hirq with hcause
    · exact hirq hne'
    · exact hirq.2.trans htrdy

/-- **While there is something to send, the handler sends again.** -/
theorem exists_sends (hfair : Fair inp (init rxBuf txBuf false)) {t : ℕ}
    (hlt : (sent (init rxBuf txBuf false) inp t).length <
      (accepted (init rxBuf txBuf false) inp t).length) :
    ∃ u, t ≤ u ∧ (uartAt (init rxBuf txBuf false) inp u).sends (inp u) ≠ none := by
  by_contra! hno
  -- there is something to send for ever
  have hsome : ∀ u, t ≤ u → (uartAt (init rxBuf txBuf false) inp u).tx.isEmpty = false := by
    intro u hu
    have hsent : sent (init rxBuf txBuf false) inp u = sent (init rxBuf txBuf false) inp t := by
      induction u, hu using Nat.le_induction with
      | base => rfl
      | succ u hu ih => rw [sent, log_succ_of_none (hno u hu), ← sent, ih]
    rw [isEmpty_eq_false_iff, hsent]
    exact hlt.trans_le (log_mono _ hu).length_le
  -- the program turns the interrupt on, if it is off
  have hfore : ∀ u, ¬ (t ≤ u → (uartAt (init rxBuf txBuf false) inp u).Ready) →
      (∃ call, inp u = .fore call) →
      stepsLeft (uartAt (init rxBuf txBuf false) inp (u + 1)).pc <
        stepsLeft (uartAt (init rxBuf txBuf false) inp u).pc := by
    rintro u hoff ⟨call, hmove⟩
    obtain ⟨htu, hoff⟩ := Classical.not_imp.mp hoff
    have htrdy : (uartAt (init rxBuf txBuf false) inp u).ctrl.trdy = false :=
      Bool.eq_false_of_not_eq_true fun hon => hoff ⟨hsome u htu, hon⟩
    obtain ⟨hcalling, hwait⟩ := calling_of_off (armed_uartAt u).2 (hsome u htu) htrdy
    rw [uartAt_succ, hmove]
    exact stepsLeft_fore hcalling hwait call
  have hle : ∀ u, ¬ (t ≤ u → (uartAt (init rxBuf txBuf false) inp u).Ready) →
      stepsLeft (uartAt (init rxBuf txBuf false) inp (u + 1)).pc ≤
        stepsLeft (uartAt (init rxBuf txBuf false) inp u).pc := by
    intro u hoff
    cases hmove : inp u with
    | fore call => exact (hfore u hoff ⟨call, hmove⟩).le
    | irq i =>
      rw [uartAt_succ, hmove]
      exact (congrArg stepsLeft (irq_tx _ i).2.1).le
  obtain ⟨u, htu, hready, -⟩ := exists_of_fair
    (m := fun u => stepsLeft (uartAt (init rxBuf txBuf false) inp u).pc) hle hfore hfair.program t
  -- and then it stays on, but the handler does not come
  have hforever : ∀ v, u ≤ v → (uartAt (init rxBuf txBuf false) inp v).Ready := by
    intro v hv
    induction v, hv using Nat.le_induction with
    | base => exact hready htu
    | succ v hv ih => exact ready_succ ih (hno v (htu.trans hv))
  obtain ⟨v, huv, i, hmove, htrdy⟩ := hfair.interrupt u fun v hv => (hforever v hv).2
  have hsends : (uartAt (init rxBuf txBuf false) inp v).sends (.irq i) =
      some (uartAt (init rxBuf txBuf false) inp v).tx.head := by
    refine sends_irq_iff.mpr ⟨by rw [htrdy]; rfl, (hforever v huv).1, ?_, rfl⟩
    rw [clearToSend, (armed_uartAt v).1]
    rfl
  have hnone := hno v (htu.trans huv)
  rw [hmove, hsends] at hnone
  exact absurd hnone (Option.some_ne_none _)

/-- What has been sent is the first part of what has been accepted. -/
theorem sent_prefix_accepted (t : ℕ) :
    sent (init rxBuf txBuf false) inp t <+: accepted (init rxBuf txBuf false) inp t := by
  rw [accepted_eq]
  exact List.prefix_append _ _

/-- **What has been accepted is sent in the end.** -/
theorem exists_accepted_sent (hfair : Fair inp (init rxBuf txBuf false)) (t : ℕ) :
    ∃ u, t ≤ u ∧
      accepted (init rxBuf txBuf false) inp t <+: sent (init rxBuf txBuf false) inp u := by
  -- one character after the other
  have hlen : ∀ k, k ≤ (accepted (init rxBuf txBuf false) inp t).length →
      ∃ u, t ≤ u ∧ k ≤ (sent (init rxBuf txBuf false) inp u).length := by
    intro k
    induction k with
    | zero => exact fun _ => ⟨t, le_rfl, Nat.zero_le _⟩
    | succ k ih =>
      intro hk
      obtain ⟨u, htu, hku⟩ := ih (Nat.le_of_succ_le hk)
      rcases Nat.lt_or_ge k (sent (init rxBuf txBuf false) inp u).length with hlt | hge
      · exact ⟨u, htu, hlt⟩
      · have hlt : (sent (init rxBuf txBuf false) inp u).length <
            (accepted (init rxBuf txBuf false) inp u).length :=
          (hge.trans_lt hk).trans_le (log_mono _ htu).length_le
        obtain ⟨v, huv, hsends⟩ := exists_sends hfair hlt
        obtain ⟨x, hx⟩ := Option.ne_none_iff_exists'.mp hsends
        refine ⟨v + 1, htu.trans (Nat.le_succ_of_le huv), ?_⟩
        rw [sent, log_succ_of_some hx, List.length_append, List.length_singleton]
        exact Nat.succ_le_succ (hku.trans (log_mono _ huv).length_le)
  obtain ⟨u, htu, hu⟩ := hlen _ le_rfl
  exact ⟨u, htu, List.prefix_of_prefix_length_le (log_mono _ htu) (sent_prefix_accepted u) hu⟩

/-- The program does not wait for ever. -/
theorem exists_not_waiting (hfair : Fair inp (init rxBuf txBuf false)) (t : ℕ) :
    ∃ u, t ≤ u ∧ (∃ call, inp u = .fore call) ∧
      ¬ (uartAt (init rxBuf txBuf false) inp u).Waiting := by
  by_contra! hno
  -- nothing new is accepted
  have haccepted : ∀ u, t ≤ u →
      accepted (init rxBuf txBuf false) inp u = accepted (init rxBuf txBuf false) inp t := by
    intro u hu
    induction u, hu using Nat.le_induction with
    | base => rfl
    | succ u hu ih =>
      have hnone : (uartAt (init rxBuf txBuf false) inp u).accepts (inp u) = none := by
        cases hmove : inp u with
        | fore call => exact accepts_of_waiting (hno u hu ⟨call, hmove⟩) _
        | irq i => rfl
      rw [accepted, log_succ_of_none hnone, ← accepted, ih]
  obtain ⟨u, htu, hsent⟩ := exists_accepted_sent hfair t
  obtain ⟨v, huv, call, hmove⟩ := hfair.program u
  have hne := isEmpty_of_waiting (txInv_uartAt rxBuf txBuf false inp v).1
    (hno v (htu.trans huv) ⟨call, hmove⟩)
  -- but all of it has been sent
  have hlt := (isEmpty_eq_false_iff v).mp hne
  rw [haccepted v (htu.trans huv)] at hlt
  have hmono : (sent (init rxBuf txBuf false) inp u).length ≤
      (sent (init rxBuf txBuf false) inp v).length := (log_mono _ huv).length_le
  have hall := hsent.length_le
  omega

/-- A call of `write` or `close` comes to a step of the program with which it returns. -/
theorem exists_return (hfair : Fair inp (init rxBuf txBuf false)) {t : ℕ}
    (hcalling : (uartAt (init rxBuf txBuf false) inp t).Calling) :
    ∃ u call value, t ≤ u ∧
      (∀ v, t ≤ v → v ≤ u → (uartAt (init rxBuf txBuf false) inp v).Calling) ∧
      inp u = .fore call ∧
      (fore (uartAt (init rxBuf txBuf false) inp u) call).pc = .idle value := by
  have hlt : ∀ u, ¬ (t ≤ u → ¬ (uartAt (init rxBuf txBuf false) inp u).Calling) →
      ((∃ call, inp u = .fore call) ∧ ¬ (uartAt (init rxBuf txBuf false) inp u).Waiting) →
      stepsLeft (uartAt (init rxBuf txBuf false) inp (u + 1)).pc <
        stepsLeft (uartAt (init rxBuf txBuf false) inp u).pc := by
    rintro u hin ⟨⟨call, hmove⟩, hwait⟩
    rw [uartAt_succ, hmove]
    exact stepsLeft_fore (not_not.mp (Classical.not_imp.mp hin).2) hwait call
  have hle : ∀ u, ¬ (t ≤ u → ¬ (uartAt (init rxBuf txBuf false) inp u).Calling) →
      stepsLeft (uartAt (init rxBuf txBuf false) inp (u + 1)).pc ≤
        stepsLeft (uartAt (init rxBuf txBuf false) inp u).pc := by
    intro u hin
    cases hmove : inp u with
    | fore call =>
      by_cases hwait : (uartAt (init rxBuf txBuf false) inp u).Waiting
      · rw [uartAt_succ, hmove]
        exact stepsLeft_fore_le hwait call
      · exact (hlt u hin ⟨⟨call, hmove⟩, hwait⟩).le
    | irq i =>
      rw [uartAt_succ, hmove]
      exact (congrArg stepsLeft (irq_tx _ i).2.1).le
  obtain ⟨u, htu, hout, hfirst⟩ := exists_of_fair
    (m := fun u => stepsLeft (uartAt (init rxBuf txBuf false) inp u).pc) hle hlt
    (exists_not_waiting hfair) t
  have hin : ∀ v, t ≤ v → v < u → (uartAt (init rxBuf txBuf false) inp v).Calling :=
    fun v htv hvu => not_not.mp (Classical.not_imp.mp (hfirst v htv hvu)).2
  -- the step before `u`
  have hne : t < u := lt_of_le_of_ne htu fun heq => hout htu (heq ▸ hcalling)
  obtain ⟨w, rfl⟩ := Nat.exists_eq_succ_of_ne_zero (Nat.ne_zero_of_lt hne)
  have hw := hin w (Nat.le_of_lt_succ hne) (Nat.lt_succ_self w)
  have hout := hout htu
  rw [uartAt_succ] at hout
  cases hmove : inp w with
  | irq i =>
    rw [hmove] at hout
    refine absurd ?_ hout
    show 0 < stepsLeft (irq (uartAt (init rxBuf txBuf false) inp w) i).pc
    rw [(irq_tx _ i).2.1]
    exact hw
  | fore call =>
    rw [hmove] at hout
    obtain ⟨value, hvalue⟩ := (fore_calling hw call).resolve_left hout
    exact ⟨w, call, value, Nat.le_of_lt_succ hne,
      fun v htv hvw => hin v htv (Nat.lt_succ_of_le hvw), hmove, hvalue⟩

/-- Behind the last step of a call, what blocking calls have been given has been accepted. -/
theorem written_of_idle (hblock : ∀ t, (inp t).Blocking) {t : ℕ} {value : Option ℕ}
    (hidle : (uartAt (init rxBuf txBuf false) inp t).pc = .idle value) :
    written (init rxBuf txBuf false) inp t = accepted (init rxBuf txBuf false) inp t := by
  have hpending : (uartAt (init rxBuf txBuf false) inp t).pending = [] := by
    rw [Uart.pending, hidle]
  rw [(written_accepted rxBuf txBuf false inp hblock t).2, hpending, List.append_nil]

/-- **Everything is sent in the end**: without flow control, the characters of blocking calls of
`write` all go to the device, in order. -/
theorem exists_sent (rxBuf txBuf : ℕ → β) (inp : ℕ → Move β) (hblock : ∀ t, (inp t).Blocking)
    (hfair : Fair inp (init rxBuf txBuf false)) (t : ℕ) :
    ∃ u, t ≤ u ∧
      written (init rxBuf txBuf false) inp t <+: sent (init rxBuf txBuf false) inp u := by
  -- the call has to return first, if there is one
  obtain ⟨u, htu, hwritten⟩ : ∃ u, t ≤ u ∧
      written (init rxBuf txBuf false) inp u = accepted (init rxBuf txBuf false) inp u := by
    by_cases hcalling : (uartAt (init rxBuf txBuf false) inp t).Calling
    · obtain ⟨u, call, value, htu, -, hmove, hvalue⟩ := exists_return hfair hcalling
      have hidle : (uartAt (init rxBuf txBuf false) inp (u + 1)).pc = .idle value := by
        rw [uartAt_succ, hmove]
        exact hvalue
      exact ⟨u + 1, Nat.le_succ_of_le htu, written_of_idle hblock hidle⟩
    · refine ⟨t, le_rfl, ?_⟩
      rw [(written_accepted rxBuf txBuf false inp hblock t).2, pending_of_not_calling hcalling,
        List.append_nil]
  obtain ⟨v, huv, hsent⟩ := exists_accepted_sent hfair u
  refine ⟨v, htu.trans huv, (written_mono _ htu).trans ?_⟩
  rw [hwritten]
  exact hsent

/-- The run with the text is fair. -/
theorem fair_burst : Fair burst start where
  program := by
    intro t
    refine ⟨2 * t, Nat.le_mul_of_pos_left t Nat.two_pos, _, if_neg fun h => ?_⟩
    exact absurd h.1 (by omega)
  interrupt := by
    intro t hon
    refine ⟨2 * t + 1, by omega, _, if_pos ⟨by omega, ?_⟩, rfl⟩
    rw [← uartAt_burst]
    exact hon (2 * t + 1) (by omega)

/-- The whole text is sent. -/
theorem exists_sent_burst : ∃ u, 190 ≤ u ∧ text <+: sent start burst u := by
  obtain ⟨u, hu, hsent⟩ :=
    exists_sent (fun _ => 0) (fun _ => 0) burst burst_blocking fair_burst 190
  have hwritten : written start burst 1 <+: written start burst 190 :=
    written_mono start (by decide)
  have htext : written start burst 1 = text := rfl
  rw [htext] at hwritten
  exact ⟨u, hu, hwritten.trans hsent⟩

end Run

end FastUart
end Software
end Cyclone10

import Cyclone10TPG.Software.Transmit

/-!
# The receive buffer of the interrupt-driven driver

The handler stores and the program takes, the other way round than in the transmit buffer. But the
handler does not look whether there is room. It turns the receive interrupt off when the buffer is
full, and that does not keep a character out: the handler also runs for the transmit interrupt, and
`read` turns the receive interrupt on again when it returns, even if the buffer is full.

A character that comes when 63 are in the buffer fills the slot that must stay free. The buffer
looks empty then, and the 64 characters in it are lost, unless the program has seen a character
before and is about to take it: then it makes room in time, and only the next character is one too
many. That is what `Uart.Overrun` says, and characters are lost in no other way (`received_eq_iff`).
-/

namespace Cyclone10
namespace Software
namespace FastUart

open Sync

section Step

variable {β : Type} {s : Uart β} {l d : List β} {n : ℕ}

/-! ### What the handler does to the receive buffer -/

theorem txirq_rx (s : Uart β) (i : Irq β) : (txirq s i).rx = s.rx := by
  unfold txirq transmit
  split_ifs <;> rfl

theorem rxirq_rx (s : Uart β) (i : Irq β) :
    (rxirq s i).rx = if i.pe || i.fe then s.rx else s.rx.push BUF_LEN i.rxdata := by
  unfold rxirq
  split_ifs <;> rfl

/-- The handler puts the character in that comes from the device. -/
theorem irq_rx (s : Uart β) (i : Irq β) : (irq s i).rx =
    match s.receives (.irq i) with
    | some x => s.rx.push BUF_LEN x
    | none => s.rx := by
  have hrx : (irq s i).rx = (if i.rrdy then rxirq s i else s).rx := by
    unfold irq
    split_ifs
    · exact txirq_rx _ i
    · exact txirq_rx _ i
    · rfl
    · rfl
  rw [hrx]
  obtain ⟨rrdy, trdy, dcts, cts, pe, fe, rxdata, ctsAgain⟩ := i
  cases rrdy with
  | false => rfl
  | true =>
    refine (rxirq_rx s _).trans ?_
    show (if pe || fe then s.rx else s.rx.push BUF_LEN rxdata) = _
    cases pe <;> cases fe <;> rfl

/-! ### The invariant -/

/-- `1` when the program has seen a character and has not taken it yet. -/
def Uart.popping (s : Uart β) : ℕ :=
  match s.pc with
  | .readCopy _ _ _ | .readAdvance _ _ _ => 1
  | _ => 0

/-- `1` when the program has copied the character but not taken it yet. -/
def Uart.copied (s : Uart β) : ℕ :=
  match s.pc with
  | .readAdvance _ _ _ => 1
  | _ => 0

/-- **The receive buffer**: of the characters `l` that have come, `n` have been taken, and `d` have
been copied. -/
structure RxInv (s : Uart β) (l d : List β) (n : ℕ) : Prop where
  holds : s.rx.Holds BUF_LEN l n
  popping : n + s.popping ≤ l.length
  copied : d.length = n + s.copied

/-- There has been room for the characters, one slot more while one is being taken. -/
def Fits (s : Uart β) (l : List β) (n : ℕ) : Prop := l.length < n + BUF_LEN + s.popping

/-- A character comes when the buffer looks full; or, while the program is about to take one, when
all 64 slots are in use and the buffer looks empty. -/
def Uart.Overrun (s : Uart β) (m : Move β) : Prop :=
  s.receives m ≠ none ∧
    match s.pc with
    | .readCopy _ _ _ | .readAdvance _ _ _ => s.rx.isEmpty = true
    | _ => s.rx.isFull BUF_LEN = true

/-- There is an overrun when the slot that must stay free is filled. -/
theorem overrun_iff (hinv : RxInv s l d n) (hfits : Fits s l n) (m : Move β) :
    s.Overrun m ↔ s.receives m ≠ none ∧ l.length + 1 = n + BUF_LEN + s.popping := by
  refine and_congr_right fun _ => ?_
  obtain ⟨ctrl, rx, tx, fc, pc⟩ := s
  obtain ⟨holds, hpopping, -⟩ := hinv
  have hfull : l.length < n + BUF_LEN →
      (rx.isFull BUF_LEN = true ↔ l.length + 1 = n + BUF_LEN) := holds.isFull_iff_of_lt
  have hempty : n + 1 ≤ l.length → l.length < n + BUF_LEN + 1 →
      (rx.isEmpty = true ↔ l.length + 1 = n + BUF_LEN + 1) := by
    intro hsome hlt
    have hiff : rx.isEmpty = true ↔ BUF_LEN ∣ l.length - n := holds.isEmpty_iff
    rw [hiff]
    constructor
    · intro hdvd
      have hle := Nat.le_of_dvd (by omega) hdvd
      omega
    · intro heq
      exact ⟨1, by omega⟩
  cases pc with
  | readCopy | readAdvance => exact hempty hpopping hfits
  | _ => exact hfull hfits

theorem copied_le_popping (s : Uart β) : s.copied ≤ s.popping := by
  unfold Uart.copied Uart.popping
  cases s.pc with
  | readCopy => exact Nat.zero_le 1
  | _ => exact le_rfl

/-! ### Steps -/

/-- The handler adds what comes, and there is room after it unless there was an overrun. -/
theorem step_irq_rx (hinv : RxInv s l d n) (i : Irq β) :
    RxInv (irq s i) (l ++ (s.receives (.irq i)).toList) d n ∧
      (Fits (irq s i) (l ++ (s.receives (.irq i)).toList) n ↔
        Fits s l n ∧ ¬ s.Overrun (.irq i)) := by
  obtain ⟨-, hpc, -⟩ := irq_tx s i
  have hpopping : (irq s i).popping = s.popping := by rw [Uart.popping, hpc, Uart.popping]
  have hcopied : (irq s i).copied = s.copied := by rw [Uart.copied, hpc, Uart.copied]
  have hrx := irq_rx s i
  obtain ⟨holds, hsome, hd⟩ := hinv
  cases hx : s.receives (.irq i) with
  | none =>
    rw [hx] at hrx
    rw [Option.toList_none, List.append_nil]
    refine ⟨⟨?_, hpopping ▸ hsome, hcopied ▸ hd⟩, ?_⟩
    · rw [hrx]
      exact holds
    · rw [Fits, hpopping, ← Fits]
      exact ⟨fun h => ⟨h, fun hover => hover.1 hx⟩, And.left⟩
  | some x =>
    rw [hx] at hrx
    have hlen : (l ++ [x]).length = l.length + 1 := by
      rw [List.length_append, List.length_singleton]
    rw [Option.toList_some]
    refine ⟨⟨?_, ?_, hcopied ▸ hd⟩, ?_⟩
    · rw [hrx]
      exact holds.push x
    · rw [hpopping, hlen]
      exact Nat.le_succ_of_le hsome
    · rw [Fits, hpopping, hlen]
      -- the character that fills the last slot is the overrun
      constructor
      · intro hlt
        have hfits : Fits s l n := Nat.lt_of_succ_lt hlt
        refine ⟨hfits, fun hover => ?_⟩
        have heq := ((overrun_iff ⟨holds, hsome, hd⟩ hfits _).mp hover).2
        exact absurd heq hlt.ne
      · rintro ⟨hfits, hover⟩
        refine lt_of_le_of_ne hfits fun heq => hover ?_
        refine (overrun_iff ⟨holds, hsome, hd⟩ hfits _).mpr ⟨?_, heq⟩
        rw [hx]
        exact Option.some_ne_none x

/-- A step that neither takes nor looks for a character. -/
theorem rxInv_congr {s' : Uart β} (hrx : s'.rx = s.rx) (hpopping : s'.popping = s.popping)
    (hcopied : s'.copied = s.copied) (hinv : RxInv s l d n) :
    RxInv s' l d n ∧ (Fits s' l n ↔ Fits s l n) := by
  obtain ⟨holds, hsome, hd⟩ := hinv
  refine ⟨⟨hrx ▸ holds, hpopping ▸ hsome, hcopied ▸ hd⟩, ?_⟩
  rw [Fits, hpopping, ← Fits]

/-- What is copied is the next character, if there has been room. -/
theorem append_head (hinv : RxInv s l d n) (hfits : l.length ≤ n + BUF_LEN) (hlt : n < l.length)
    (hd : d.length = n) (horder : d <+: l) : d ++ [s.rx.head] <+: l := by
  have hhead : s.rx.head = l[n] := hinv.holds.head hlt hfits
  have htake : d = l.take n := by
    rw [← hd]
    exact List.prefix_iff_eq_take.mp horder
  rw [hhead, htake, ← List.take_succ_eq_append_getElem hlt]
  exact List.take_prefix _ _

/-- The program copies and takes, and that makes no difference to the room. -/
theorem step_fore_rx (hinv : RxInv s l d n) (call : Option (Call β)) :
    ∃ n', RxInv (fore s call) l (d ++ (s.delivers (.fore call)).toList) n' ∧
      (Fits (fore s call) l n' ↔ Fits s l n) ∧
      (Fits s l n → d <+: l → d ++ (s.delivers (.fore call)).toList <+: l) := by
  obtain ⟨ctrl, rx, tx, fc, pc⟩ := s
  have hkeep : ∀ s' : Uart β, s'.rx = rx → s'.popping = Uart.popping ⟨ctrl, rx, tx, fc, pc⟩ →
      s'.copied = Uart.copied ⟨ctrl, rx, tx, fc, pc⟩ →
      ∃ n', RxInv s' l (d ++ []) n' ∧
        (Fits s' l n' ↔ Fits ⟨ctrl, rx, tx, fc, pc⟩ l n) ∧
        (Fits ⟨ctrl, rx, tx, fc, pc⟩ l n → d <+: l → d ++ [] <+: l) := by
    intro s' hrx hpopping hcopied
    rw [List.append_nil]
    obtain ⟨hinv', hfits⟩ := rxInv_congr hrx hpopping hcopied hinv
    exact ⟨n, hinv', hfits, fun _ horder => horder⟩
  cases pc with
  | readCopy noBlock len count =>
    obtain ⟨holds, hsome, hd⟩ := hinv
    -- copied, but its slot is not free yet
    refine ⟨n, ⟨holds, hsome, ?_⟩, Iff.rfl, fun hfits horder => ?_⟩
    · show (d ++ [rx.head]).length = n + 1
      rw [List.length_append, List.length_singleton, hd]
      rfl
    · exact append_head ⟨holds, hsome, hd⟩ (Nat.le_of_lt_succ hfits) hsome hd horder
  | readAdvance noBlock len count =>
    obtain ⟨holds, hsome, hd⟩ := hinv
    -- one more has been taken, and there is no spare slot any more
    refine ⟨n + 1, ⟨holds.pop hsome, hsome, ?_⟩, ?_, fun _ horder => ?_⟩
    · show (d ++ []).length = n + 1
      rw [List.append_nil, hd]
      rfl
    · show l.length < n + 1 + BUF_LEN ↔ l.length < n + BUF_LEN + 1
      rw [Nat.add_right_comm]
    · show d ++ [] <+: l
      rw [List.append_nil]
      exact horder
  | readLoop noBlock len count =>
    unfold fore
    simp only
    split_ifs with hread
    · -- there is a character, and so there are not 64 too many
      obtain ⟨holds, hsome, hd⟩ := hinv
      have hne : ¬ BUF_LEN ∣ l.length - n := by
        rw [← holds.isEmpty_iff, hread.2]
        exact Bool.false_ne_true
      have hlt : n < l.length := holds.lt_of_isEmpty_eq_false hread.2
      refine ⟨n, ⟨holds, hlt, ?_⟩, ?_, fun _ horder => ?_⟩
      · show (d ++ []).length = n
        rw [List.append_nil, hd]
        rfl
      · show l.length < n + BUF_LEN + 1 ↔ l.length < n + BUF_LEN
        refine ⟨fun h => lt_of_le_of_ne (Nat.le_of_lt_succ h) fun heq => hne ⟨1, by omega⟩,
          Nat.lt_succ_of_lt⟩
      · show d ++ [] <+: l
        rw [List.append_nil]
        exact horder
    · exact hkeep _ rfl rfl rfl
  | idle value => rcases call with _ | (_ | _ | _) <;> exact hkeep _ rfl rfl rfl
  | writeLoop noBlock len ptr =>
    cases ptr with
    | nil => exact hkeep _ rfl rfl rfl
    | cons x ptr =>
      unfold fore
      simp only
      split_ifs <;> exact hkeep _ rfl rfl rfl
  | writeWait | readTest | readArm | closeLoop =>
    unfold fore
    simp only
    split_ifs <;> exact hkeep _ rfl rfl rfl
  | _ => exact hkeep _ rfl rfl rfl

end Step

/-! ### Whole runs -/

section Run

variable {β : Type} (rxBuf txBuf : ℕ → β) (fc : Bool) (inp : ℕ → Move β)

/-- There has been room as long as there was no overrun, and then the program gets the characters in
order. -/
theorem rxInv_uartAt (t : ℕ) : ∃ n, RxInv (uartAt (init rxBuf txBuf fc) inp t)
      (received (init rxBuf txBuf fc) inp t) (delivered (init rxBuf txBuf fc) inp t) n ∧
    (Fits (uartAt (init rxBuf txBuf fc) inp t) (received (init rxBuf txBuf fc) inp t) n ↔
      ∀ u < t, ¬ (uartAt (init rxBuf txBuf fc) inp u).Overrun (inp u)) ∧
    ((∀ u < t, ¬ (uartAt (init rxBuf txBuf fc) inp u).Overrun (inp u)) →
      delivered (init rxBuf txBuf fc) inp t <+: received (init rxBuf txBuf fc) inp t) := by
  induction t with
  | zero =>
    refine ⟨0, ⟨.nil, le_rfl, rfl⟩, ?_, fun _ => List.prefix_rfl⟩
    exact ⟨fun _ u hu => absurd hu (Nat.not_lt_zero u), fun _ => Nat.succ_pos 63⟩
  | succ t ih =>
    obtain ⟨n, hinv, hfits, horder⟩ := ih
    rw [Nat.forall_lt_succ_right, ← hfits, uartAt_succ, received, delivered, log_succ, log_succ,
      ← received, ← delivered]
    cases hmove : inp t with
    | irq i =>
      have hno : (uartAt (init rxBuf txBuf fc) inp t).delivers (.irq i) = none := rfl
      obtain ⟨hinv', hfits'⟩ := step_irq_rx hinv i
      rw [hno, Option.toList_none, List.append_nil]
      refine ⟨n, hinv', hfits', fun h => ?_⟩
      exact (horder (hfits.mp h.1)).trans (List.prefix_append _ _)
    | fore call =>
      have hno : (uartAt (init rxBuf txBuf fc) inp t).receives (.fore call) = none := rfl
      have hover : ¬ (uartAt (init rxBuf txBuf fc) inp t).Overrun (.fore call) :=
        fun h => h.1 hno
      obtain ⟨n', hinv', hfits', horder'⟩ := step_fore_rx hinv call
      rw [hno, Option.toList_none, List.append_nil]
      refine ⟨n', hinv', hfits'.trans ⟨fun h => ⟨h, hover⟩, And.left⟩, fun h => ?_⟩
      exact horder' h.1 (horder (hfits.mp h.1))

/-- **When characters are lost**: while the program is not about to take a character, it has got the
received ones in order, but for those in the buffer, if and only if there was no overrun. What is
lost is a multiple of 64 characters. -/
theorem received_eq_iff {t : ℕ} (hpc : (uartAt (init rxBuf txBuf fc) inp t).popping = 0) :
    (delivered (init rxBuf txBuf fc) inp t ++
        (uartAt (init rxBuf txBuf fc) inp t).rx.toList BUF_LEN =
          received (init rxBuf txBuf fc) inp t ↔
      ∀ u < t, ¬ (uartAt (init rxBuf txBuf fc) inp u).Overrun (inp u)) ∧
    ∃ k, (received (init rxBuf txBuf fc) inp t).length =
      (delivered (init rxBuf txBuf fc) inp t ++
        (uartAt (init rxBuf txBuf fc) inp t).rx.toList BUF_LEN).length + BUF_LEN * k := by
  obtain ⟨n, ⟨holds, hsome, hd⟩, hfits, horder⟩ := rxInv_uartAt rxBuf txBuf fc inp t
  have hcopied : (uartAt (init rxBuf txBuf fc) inp t).copied = 0 :=
    Nat.eq_zero_of_le_zero ((copied_le_popping _).trans hpc.le)
  rw [hcopied, Nat.add_zero] at hd
  rw [Fits, hpc, Nat.add_zero] at hfits
  have hlen : (delivered (init rxBuf txBuf fc) inp t ++
      (uartAt (init rxBuf txBuf fc) inp t).rx.toList BUF_LEN).length =
        n + ((received (init rxBuf txBuf fc) inp t).length - n) % BUF_LEN := by
    rw [List.length_append, hd, Circular.toList, List.length_map, List.length_range,
      holds.size (Nat.succ_pos 63)]
  have hle := holds.le
  -- the indices count modulo 64
  have hdiv := Nat.mod_add_div ((received (init rxBuf txBuf fc) inp t).length - n) BUF_LEN
  refine ⟨⟨fun heq => ?_, fun hover => ?_⟩,
    ⟨((received (init rxBuf txBuf fc) inp t).length - n) / BUF_LEN, by rw [hlen]; omega⟩⟩
  · -- nothing is lost, so less than 64 are in the buffer
    rw [← hfits]
    rw [heq] at hlen
    have hlt : ((received (init rxBuf txBuf fc) inp t).length - n) % BUF_LEN < BUF_LEN :=
      Nat.mod_lt _ (Nat.succ_pos 63)
    omega
  · have htake := List.prefix_iff_eq_take.mp (horder hover)
    rw [hd] at htake
    rw [holds.toList (hfits.mpr hover), htake, List.take_append_drop]

end Run

/-! ### More characters than there is room for -/

section Flood

/-- A character comes in every cycle, with the transmit interrupt if the receive interrupt is off,
and the program reads none of them. -/
def flood (t : ℕ) : Move (BitVec 8) :=
  .irq
    { rrdy := true
      trdy := true
      dcts := false
      cts := false
      pe := false
      fe := false
      rxdata := BitVec.ofNat 8 t
      ctsAgain := false }

theorem uartAt_flood {t : ℕ} (ht : t ≤ 63) : (uartAt start flood t).pc = .idle none ∧
    (uartAt start flood t).rx.first = 0 ∧ (uartAt start flood t).rx.stop = t := by
  induction t with
  | zero => exact ⟨rfl, rfl, rfl⟩
  | succ t ih =>
    obtain ⟨hpc, hfirst, hstop⟩ := ih (Nat.le_of_succ_le ht)
    rw [uartAt_succ, flood, step, irq_rx, (irq_tx _ _).2.1]
    refine ⟨hpc, hfirst, ?_⟩
    show ((uartAt start flood t).rx.stop + 1) % BUF_LEN = t + 1
    rw [hstop, BUF_LEN, Nat.mod_eq_of_lt (by omega)]

/-- With the 64th character there is an overrun, and characters are lost. -/
theorem received_eq_iff_flood : (uartAt start flood 64).popping = 0 ∧
    delivered start flood 64 ++ (uartAt start flood 64).rx.toList BUF_LEN ≠
      received start flood 64 := by
  obtain ⟨hpc, hfirst, hstop⟩ := uartAt_flood (t := 63) le_rfl
  have hpopping : (uartAt start flood 64).popping = 0 := by
    rw [uartAt_succ, flood, step, Uart.popping, (irq_tx _ _).2.1, hpc]
  have hfull : (uartAt start flood 63).rx.isFull BUF_LEN = true := by
    rw [Circular.isFull, hfirst, hstop]
    rfl
  have hover : (uartAt start flood 63).Overrun (flood 63) := by
    unfold Uart.Overrun
    rw [hpc]
    exact ⟨Option.some_ne_none _, hfull⟩
  have hiff : delivered start flood 64 ++ (uartAt start flood 64).rx.toList BUF_LEN =
      received start flood 64 ↔ ∀ u < 64, ¬ (uartAt start flood u).Overrun (flood u) :=
    (received_eq_iff (fun _ => 0) (fun _ => 0) false flood hpopping).1
  exact ⟨hpopping, fun heq => hiff.mp heq 63 (Nat.lt_succ_self 63) hover⟩

end Flood

end FastUart
end Software
end Cyclone10

import Cyclone10TPG.Sync.Pace
import Cyclone10TPG.Sdram.Latency

/-!
# The throughput of a burst

A master that asks in every cycle for words of one row, all reads or all writes, gets nearly one of
them in every cycle. Once the requests from before the burst are out of the way, the controller is
`Steady`: the FIFO never runs empty and holds words of the burst only, so a column state always
has a pending word, and only a refresh makes it leave.

A refresh costs 18 cycles at most, the `delay` until the next column command. `burstCost` books
them in advance, when the refresh counter runs out, and `burstCost_step` says that a cycle without
a column command is paid for. The counter runs out once in 600 cycles.
-/

namespace Cyclone10
namespace Sdram

open Sync

/-! ### Bursts -/

/-- A cycle of a burst: a request in the direction `rnw` for the row `r` of the bank `b`. -/
structure Input.Bursts (i : Input) (rnw : Bool) (b : Bank) (r : Row) : Prop where
  rd : i.azRdN = !rnw
  wr : i.azWrN = rnw
  bank : bankOf i.azAddr = b
  row : rowOf i.azAddr = r

/-- A word of a burst. -/
structure Entry.InBurst (e : Entry) (rnw : Bool) (b : Bank) (r : Row) : Prop where
  direction : e.rnw = rnw
  bank : bankOf e.addr = b
  row : rowOf e.addr = r

/-- The main FSM during a burst, next to the refresh request `rr`: it serves the burst, or it is
on the way to a refresh or back from it. -/
def MainRegs.ServesBurst (m : MainRegs) (rr : Bool) (rnw : Bool) (b : Bank) (r : Row) : Prop :=
  match m.mState with
  | .idle | .autoRefresh => True
  | .bankActivate | .read | .write => m.active.InBurst rnw b r
  | .waitUntilSafe =>
    match m.mNext with
    | .idle => m.ackRefreshRequest = true ∨ rr = true
    | .autoRefresh => True
    | .read | .write => m.active.InBurst rnw b r
    | _ => False
  | .bankCloseAll => m.mNext = .autoRefresh
  | _ => False

/-- The controller in the middle of a burst. -/
structure Regs.Steady (s : Regs) (rnw : Bool) (b : Bank) (r : Row) : Prop where
  done : s.initDone = true
  nonempty : s.queue ≠ []
  queue : ∀ e ∈ s.queue, e.InBurst rnw b r
  main : s.main.ServesBurst s.refreshRequest rnw b r

namespace Regs

/-- The row of the active word is open, or about to be opened for it. -/
def onRow (s : Regs) : Bool :=
  match s.main.mState with
  | .bankActivate | .read | .write => true
  | .waitUntilSafe => s.main.mNext == .read || s.main.mNext == .write
  | _ => false

/-- The cycles without a column command that lie ahead, those of a refresh that is requested
included. -/
def burstCost (s : Regs) : ℕ := s.mainDelay + if s.onRow && s.refreshRequest then 18 else 0

end Regs

section Step

variable {s : Regs} {i : Input} {rnw : Bool} {b : Bank} {r : Row}

/-! ### The FIFO -/

/-- A burst keeps the FIFO from running empty. -/
theorem queue_step_ne_nil (h : Inv s) (hi : i.Bursts rnw b r) : (step s i).queue ≠ [] := by
  rw [h.queue_step i]
  have hwr : s.fifoWr i = !s.fifo.full := by
    cases rnw <;> simp [Regs.fifoWr, Regs.zaWaitrequest, hi.rd, hi.wr]
  cases hfull : s.fifo.full with
  | false => simp [hwr, hfull]
  | true =>
    -- two words are in the FIFO, and one leaves at most
    have hlen : s.queue.length = 2 := by
      simp only [Efifo.full, beq_iff_eq] at hfull
      exact h.fifo.length_contents.trans hfull
    intro hnil
    have hzero := congrArg List.length hnil
    rw [hwr, hfull, List.length_append] at hzero
    split at hzero <;> simp [hlen] at hzero

/-- Words of the burst are joined by words of the burst. -/
theorem queue_step_inBurst (h : Inv s) (hi : i.Bursts rnw b r)
    (hq : ∀ e ∈ s.queue, e.InBurst rnw b r) : ∀ e ∈ (step s i).queue, e.InBurst rnw b r := by
  intro e he
  rw [h.queue_step i, List.mem_append] at he
  rcases he with he | he
  · split at he
    · exact hq e (List.mem_of_mem_tail he)
    · exact hq e he
  · split at he
    · obtain rfl := List.mem_singleton.mp he
      exact ⟨hi.wr, hi.bank, hi.row⟩
    · exact absurd he List.not_mem_nil

theorem Regs.Steady.fEntry (hst : s.Steady rnw b r) (h : Inv s) :
    s.fEmpty = false ∧ s.fEntry.InBurst rnw b r := by
  have he : s.fEmpty = false := by
    by_contra hne
    exact hst.nonempty (h.fifo.empty_iff.mp (Bool.eq_true_of_not_eq_false hne))
  exact ⟨he, hst.queue _ (h.fEntry_mem he)⟩

/-- In a column state the next word of the burst is pending. -/
theorem Regs.Steady.pending (hst : s.Steady rnw b r) (h : Inv s) {d : Bool}
    (hs : s.main.mState = columnState d) : s.pending = true := by
  obtain ⟨he, hentry⟩ := hst.fEntry h
  have hserv := ((mainInv_column hs).mp h.main).1
  have hactive : s.main.active.InBurst rnw b r := by
    have hmain := hst.main
    cases d <;> simpa [MainRegs.ServesBurst, hs, columnState] using hmain
  refine s.pending_iff.mpr ⟨hserv.csN, ?_, ?_, ?_, he⟩
  · rw [hactive.direction, hentry.direction]
  · rw [hactive.bank, hentry.bank]
  · rw [hactive.row, hentry.row]

/-! ### The main FSM -/

/-- The main FSM goes on serving the burst. -/
theorem MainStep.servesBurst {m : MainRegs} (hstep : MainStep s m) (h : Inv s)
    (hst : s.Steady rnw b r) (i : Input) :
    m.ServesBurst (step s i).refreshRequest rnw b r := by
  have hmain := h.main
  have hserves := hst.main
  have keeps : s.refreshRequest = true → s.main.ackRefreshRequest = false →
      (step s i).refreshRequest = true := fun hr hack =>
    refreshRequest_step_of_request i hr hack hst.done
  cases hstep with
  | idleInit hs hd => exact trivial
  | idleStay hs => simp only [MainRegs.ServesBurst, hs]
  | idleRefresh hs hd hr => rfl
  | idleAccept hs hd hr he =>
    -- what it takes over is the head of the FIFO
    exact (hst.fEntry h).2
  | activate hs =>
    simp only [MainRegs.ServesBurst, hs] at hserves ⊢
    cases hrnw : s.main.active.rnw <;> simpa [columnState] using hserves
  | waitMore csN hs hc =>
    simp only [MainRegs.ServesBurst, hs] at hserves ⊢
    cases hn : s.main.mNext <;> simp only [hn] at hserves ⊢
    case idle =>
      -- the request stays up until it is acknowledged
      cases hack : s.main.ackRefreshRequest with
      | true => exact Or.inl rfl
      | false => exact Or.inr (keeps (hserves.resolve_left (by simp [hack])) hack)
    all_goals exact hserves
  | waitDone csN hs hc =>
    simp only [MainRegs.ServesBurst, hs] at hserves
    cases hn : s.main.mNext <;> simp only [hn, MainRegs.ServesBurst] at hserves ⊢
    all_goals exact hserves
  | columnBail d hs hp hr =>
    -- the refresh it stops for has not been acknowledged yet
    have hserv := ((mainInv_column hs).mp hmain).1
    exact Or.inr (keeps hr hserv.ack)
  | columnStream d hs hp hr =>
    have hentry := (hst.fEntry h).2
    cases d <;> simpa [MainRegs.ServesBurst, Regs.column, hs, columnState] using hentry
  | columnEnd d hs hp =>
    -- the burst never lets the FIFO run empty, nor leave the row
    exact absurd ((hst.pending h hs).symm.trans hp) (by decide)
  | close hs =>
    -- the row is left for the refresh only
    simp only [MainRegs.ServesBurst, hs] at hserves
    simp [MainRegs.ServesBurst, hserves]
  | refresh hs => exact Or.inl rfl
  | prepareMore hs | prepareDone hs | spinBail hs | spinResume hs | spinClose hs | spinStay hs
  | undefined hs =>
    simp only [MainRegs.ServesBurst, hs] at hserves

theorem Regs.Steady.step (hst : s.Steady rnw b r) (h : Inv s) (hi : i.Bursts rnw b r) :
    (Sdram.step s i).Steady rnw b r where
  done := initDone_step s i hst.done
  nonempty := queue_step_ne_nil h hi
  queue := queue_step_inBurst h hi hst.queue
  main := MainStep.servesBurst (mainStep s) h hst i

/-! ### The cost -/

/-- A request that is up on an open row was up before, on an open row, or the counter has run
out. -/
theorem onRow_step (h : Inv s) (i : Input)
    (hrow : (step s i).onRow = true) (hr : (step s i).refreshRequest = true) :
    (s.onRow && s.refreshRequest) = true ∨ s.refreshCounter = 0 := by
  obtain ⟨-, hc | hr⟩ := refreshRequest_step_cases hr
  · exact Or.inr hc
  refine Or.inl ?_
  obtain ⟨m, hm, hstep⟩ := exists_mainStep s i
  have hmain := h.main
  simp only [Regs.onRow, hm] at hrow
  cases hstep with
  | idleAccept hs hd hr' => exact absurd (hr.symm.trans hr') (by decide)
  | activate hs => simp [Regs.onRow, hs, hr]
  | waitMore csN hs hc => simpa [Regs.onRow, hs, hr] using hrow
  | waitDone csN hs hc =>
    simp only [MainInv, hs] at hmain
    cases hn : s.main.mNext <;> simp only [hn] at hmain hrow <;> simp [Regs.onRow, hs, hn, hr] at *
  | columnBail d hs hp hr' => simp at hrow
  | columnStream d hs hp hr' => exact absurd (hr.symm.trans hr') (by decide)
  | close hs =>
    simp only [MainInv, hs] at hmain
    rcases hmain.2.2.2 with ⟨hn, -⟩ | ⟨hn, -⟩ <;> simp [hn] at hrow
  | spinResume hs hr' => exact absurd (hr.symm.trans hr') (by decide)
  | idleInit hs | idleStay hs | prepareMore hs | undefined hs | spinStay hs => simp [hs] at hrow
  | _ => simp at hrow

/-- A cycle without a column command lowers the cost. -/
theorem burstCost_of_issue_eq_none (h : Inv s) (hst : s.Steady rnw b r) (i : Input)
    (hissue : s.issue = none) :
    1 + (step s i).burstCost ≤ s.burstCost + if s.refreshCounter = 0 then 18 else 0 := by
  have hu : s.unissued ≠ [] := by
    unfold Regs.unissued
    split
    · exact List.cons_ne_nil _ _
    · exact hst.nonempty
  have hdelay := mainDelay_step h i hst.done hu hissue
  unfold Regs.burstCost
  -- what a new request costs is paid by the counter
  by_cases hrow : ((step s i).onRow && (step s i).refreshRequest) = true
  · simp only [Bool.and_eq_true] at hrow
    rcases onRow_step h i hrow.1 hrow.2 with hold | hc
    · rw [if_pos hold]
      split <;> split <;> omega
    · rw [if_pos hc]
      split <;> split <;> omega
  · rw [if_neg hrow]
    omega

/-- Only a column state issues a word. -/
theorem exists_columnState (hissue : s.issue ≠ none) :
    ∃ d, s.main.mState = columnState d := by
  unfold Regs.issue at hissue
  split at hissue
  case h_1 hs => exact ⟨true, hs⟩
  case h_2 hs => exact ⟨false, hs⟩
  case h_3 => exact absurd rfl hissue

/-- Out of a column command the cost is that of a refresh, or nothing. -/
theorem burstCost_issue (h : Inv s) (hst : s.Steady rnw b r) (hi : i.Bursts rnw b r)
    (hissue : s.issue ≠ none) :
    (step s i).burstCost ≤ s.burstCost + if s.refreshCounter = 0 then 18 else 0 := by
  have hst' := hst.step h hi
  obtain ⟨d, hs⟩ := exists_columnState hissue
  have hrow : s.onRow = true := by cases d <;> simp [Regs.onRow, hs, columnState]
  have hack := ((mainInv_column hs).mp h.main).1.ack
  obtain ⟨m, hm, hstep⟩ := exists_mainStep s i
  cases hstep with
  | columnBail d' hs' hp hr =>
    -- the cost of the refresh has been booked before
    have hcost : s.burstCost = s.mainDelay + 18 := by simp [Regs.burstCost, hrow, hr]
    have hcost' : (step s i).burstCost ≤ 18 := by
      cases d' <;> simp [Regs.burstCost, Regs.mainDelay, Regs.onRow, hm, Regs.column, hack]
    omega
  | columnStream d' hs' hp hr =>
    -- the burst goes on, and a new request is paid by the counter
    have hs'' : (step s i).main.mState = columnState d' := by rw [hm]; exact hs'
    have hx := Regs.exhausted_of_pending (hst'.pending (h.step i) hs'')
    have hdelay : (step s i).mainDelay = 0 := by
      rw [mainDelay_column d' hs'', hx, if_neg Bool.false_ne_true]
    unfold Regs.burstCost
    rw [hdelay]
    by_cases hr' : (step s i).refreshRequest = true
    · obtain ⟨-, hc | hr'⟩ := refreshRequest_step_cases hr'
      · rw [if_pos hc]
        split <;> omega
      · exact absurd (hr'.symm.trans hr) (by decide)
    · rw [if_neg (by simp [hr'])]
      omega
  | columnEnd d' hs' hp => exact absurd ((hst.pending h hs).symm.trans hp) (by decide)
  | idleInit hs' | idleRefresh hs' | idleAccept hs' | idleStay hs' | activate hs'
  | waitMore csN hs' | waitDone csN hs' | prepareMore hs' | prepareDone hs' | close hs'
  | refresh hs' | spinBail hs' | spinResume hs' | spinClose hs' | spinStay hs' | undefined hs' =>
    cases d <;> simp [hs, columnState] at hs'

/-- **A cycle without a column command is paid for.** -/
theorem burstCost_step (h : Inv s) (hst : s.Steady rnw b r) (hi : i.Bursts rnw b r) :
    (if s.issue.isSome = true then 0 else 1) + (step s i).burstCost ≤
      s.burstCost + if s.refreshCounter = 0 then 18 else 0 := by
  cases hissue : s.issue with
  | none => exact burstCost_of_issue_eq_none h hst i hissue
  | some e =>
    rw [Option.isSome_some, if_pos rfl, Nat.zero_add]
    exact burstCost_issue h hst hi (by rw [hissue]; exact Option.some_ne_none e)

end Step

/-! ### Whole runs -/

section Run

variable {s₀ : Regs} {inp : ℕ → Input} {rnw : Bool} {b : Bank} {r : Row} {T : ℕ}

/-- What is unissued when the requests from before the burst are out of the way is of the
burst. -/
theorem unissued_inBurst (hburst : ∀ t, T ≤ t → (inp t).Bursts rnw b r) {t : ℕ}
    (hold : acceptedWords s₀ inp T <+: issuedWords s₀ inp t) (ht : T ≤ t) :
    ∀ e ∈ (regsAt s₀ inp t).unissued, e.InBurst rnw b r := by
  intro e he
  obtain ⟨k, rfl⟩ := Nat.exists_eq_add_of_le ht
  obtain ⟨l, hl⟩ := hold
  have heq := acceptedWords_eq s₀ inp (T + k)
  rw [acceptedWords, log_add, ← acceptedWords, ← hl, List.append_assoc,
    List.append_cancel_left_eq] at heq
  -- so it has been accepted since the burst began
  have hmem : e ∈ l ++ (regsAt s₀ inp (T + k)).unissued := List.mem_append_right l he
  rw [← heq] at hmem
  obtain ⟨n, -, hn⟩ := exists_of_mem_log hmem
  split at hn
  · have hb := hburst (T + n) (Nat.le_add_right T n)
    rw [← Option.some.inj hn]
    exact ⟨hb.wr, hb.bank, hb.row⟩
  · cases hn

/-- A column command for a word of the burst, with nothing else unissued, begins the steady
state. -/
theorem steady_of_issue {s : Regs} (h : Inv s) (hd : s.initDone = true) (hne : s.queue ≠ [])
    (hu : ∀ e ∈ s.unissued, e.InBurst rnw b r) (hissue : s.issue ≠ none) :
    s.Steady rnw b r := by
  obtain ⟨d, hs⟩ := exists_columnState hissue
  have hqueue : ∀ e ∈ s.queue, e.InBurst rnw b r := by
    intro e he
    refine hu e ?_
    unfold Regs.unissued
    split
    · exact List.mem_cons_of_mem _ he
    · exact he
  -- the word issued is of the burst, and the active word agrees with it
  have hserved : s.served.InBurst rnw b r := by
    refine hu _ ?_
    rw [unissued_column h hs, issue_column hs] at *
    split at hissue
    · exact absurd rfl hissue
    · rename_i hx
      simp [hx]
  obtain ⟨hdir, hbank, hrow⟩ := served_eq h hs
  have hactive : s.main.active.InBurst rnw b r :=
    ⟨((mainInv_column hs).mp h.main).2.trans (hdir.symm.trans hserved.direction),
      hbank.symm.trans hserved.bank, hrow.symm.trans hserved.row⟩
  refine ⟨hd, hne, hqueue, ?_⟩
  cases d <;> simpa [MainRegs.ServesBurst, hs, columnState] using hactive

/-- **A burst gets steady** within 87 cycles. -/
theorem steady_regsAt (hT : 20074 ≤ T) (hburst : ∀ t, T ≤ t → (inp t).Bursts rnw b r) {t : ℕ}
    (ht : T + 87 ≤ t) : (regsAt s₀ inp t).Steady rnw b r := by
  have hne : ∀ k, (regsAt s₀ inp (T + k + 1)).queue ≠ [] := fun k =>
    queue_step_ne_nil (inv_regsAt s₀ inp (T + k)) (hburst (T + k) (Nat.le_add_right T k))
  have hdone : ∀ k, (regsAt s₀ inp (T + k + 1)).initDone = true := fun k =>
    initDone_regsAt s₀ inp (by omega)
  have hold : acceptedWords s₀ inp T <+: issuedWords s₀ inp (T + 66) := by
    have hprefix := acceptedWords_prefix_issuedWords s₀ inp T
    rwa [Nat.max_eq_left hT] at hprefix
  -- the first column command from now on
  have hu : (regsAt s₀ inp (T + 66)).unissued ≠ [] := by
    unfold Regs.unissued
    split
    · exact List.cons_ne_nil _ _
    · exact hne 65
  obtain ⟨e, rest, hcons⟩ := List.exists_cons_of_ne_nil hu
  obtain ⟨n, hn, hissue, -⟩ := exists_issue (t := T + 66) (e := e) (by rw [hcons]; rfl)
  have hdelay := delay_le (inv_regsAt s₀ inp (T + 66)) (countOk_regsAt s₀ inp (T + 66)) (hdone 65)
  have hstart : (regsAt s₀ inp (T + 66 + n)).Steady rnw b r := by
    refine steady_of_issue (inv_regsAt s₀ inp _) ?_ ?_ ?_
      (by rw [hissue]; exact Option.some_ne_none e)
    · have hd := hdone (65 + n)
      rwa [show T + (65 + n) + 1 = T + 66 + n by omega] at hd
    · have hq := hne (65 + n)
      rwa [show T + (65 + n) + 1 = T + 66 + n by omega] at hq
    · refine unissued_inBurst hburst ?_ (by omega)
      exact hold.trans (log_mono _ (Nat.le_add_right (T + 66) n))
  have hle : T + 66 + n ≤ t := by omega
  clear ht
  induction t, hle using Nat.le_induction with
  | base => exact hstart
  | succ t hle ih => exact ih.step (inv_regsAt s₀ inp t) (hburst t (by omega))

/-- The refresh counter runs out once in 600 cycles. -/
theorem paced_refreshCounter (s₀ : Regs) (inp : ℕ → Input) :
    Paced (fun t => (regsAt s₀ inp t).refreshCounter = 0) 19999 600 1 where
  pos := by decide
  jitter := by decide
  once := by
    intro m
    have hzero := refreshCounter_multiple s₀ inp m
    refine ⟨20000 + 600 * m, by omega, by omega, hzero, fun u hu hu' hc => ?_⟩
    by_contra hne
    refine (refreshCounter_period hzero).1 (u - (20000 + 600 * m)) (by omega) (by omega) ?_
    rwa [Nat.add_sub_cancel' (by omega)]

variable (s₀) in
/-- The words issued in `L` cycles of a steady burst. -/
theorem le_count_issue (hT : 20074 ≤ T) (hburst : ∀ t, T ≤ t → (inp t).Bursts rnw b r) {t : ℕ}
    (ht : T + 87 ≤ t) (L : ℕ) :
    L ≤ Nat.count (fun n => (regsAt s₀ inp (t + n)).issue.isSome = true) L +
      18 * (L / 600) + 75 := by
  have hpaid := le_count_of_potential
    (p := fun t => (regsAt s₀ inp t).issue.isSome = true)
    (q := fun t => (regsAt s₀ inp t).refreshCounter = 0)
    (Φ := fun t => (regsAt s₀ inp t).burstCost) (c := 18) (t := t)
    (fun u hu => burstCost_step (inv_regsAt s₀ inp u)
      (steady_regsAt hT hburst (ht.trans hu)) (hburst u (by omega))) L
  have hcount := (paced_refreshCounter s₀ inp).count_le (t := t) (by omega) L
  -- no refresh costs more than the longest way
  have hcost : (regsAt s₀ inp t).burstCost ≤ 39 := by
    have hsteady : (regsAt s₀ inp t).Steady rnw b r := steady_regsAt hT hburst ht
    have hd := hsteady.done
    have hdelay := delay_le (inv_regsAt s₀ inp t) (countOk_regsAt s₀ inp t) hd
    rw [Regs.delay, if_pos hd] at hdelay
    unfold Regs.burstCost
    split <;> omega
  omega

/-- **The throughput of a burst.** When the master asks in every cycle from `T` on for words of
one row, all reads or all writes, then from 88 cycles later on there are at most 18 cycles in every
600 without a column command on the pins, and without a request accepted. -/
theorem throughput (hT : 20074 ≤ T) (hburst : ∀ t, T ≤ t → (inp t).Bursts rnw b r) {t : ℕ}
    (ht : T + 88 ≤ t) (L : ℕ) :
    L ≤ Nat.count (fun n => (pinsAt s₀ inp (t + n)).Issues .rd ∨
        (pinsAt s₀ inp (t + n)).Issues .wr) L + 18 * (L / 600) + 75 ∧
      L ≤ Nat.count (fun n => (regsAt s₀ inp (t + n)).accepts (inp (t + n)) = true) L +
        18 * (L / 600) + 78 := by
  constructor
  · obtain ⟨t, rfl⟩ : ∃ k, t = k + 1 := ⟨t - 1, by omega⟩
    have hissue := le_count_issue s₀ hT hburst (t := t) (by omega) L
    have hmono : Nat.count (fun n => (regsAt s₀ inp (t + n)).issue.isSome = true) L ≤
        Nat.count (fun n => (pinsAt s₀ inp (t + 1 + n)).Issues .rd ∨
          (pinsAt s₀ inp (t + 1 + n)).Issues .wr) L := by
      refine Nat.count_mono_left fun n _ hn => ?_
      by_contra hno
      rw [not_or, Nat.add_right_comm] at hno
      have hnone := issue_eq_none (i := inp (t + n)) (inv_regsAt s₀ inp (t + n)) hno.1 hno.2
      rw [hnone] at hn
      cases hn
    omega
  · have hissue := le_count_issue s₀ hT hburst (t := t) (by omega) L
    -- what is issued has been accepted, and at most three requests are under way
    have hissued : (issuedWords s₀ inp (t + L)).length = (issuedWords s₀ inp t).length +
        Nat.count (fun n => (regsAt s₀ inp (t + n)).issue.isSome = true) L := by
      rw [issuedWords, length_log, Nat.count_add, ← length_log, ← issuedWords]
    have haccepted : (acceptedWords s₀ inp (t + L)).length = (acceptedWords s₀ inp t).length +
        Nat.count (fun n => (regsAt s₀ inp (t + n)).accepts (inp (t + n)) = true) L := by
      rw [acceptedWords, log_add, List.length_append, ← acceptedWords, length_log]
      congr 2
      funext n
      have hb := hburst (t + n) (by omega)
      cases hwr : (regsAt s₀ inp (t + n)).fifoWr (inp (t + n)) <;>
        cases rnw <;> simp_all [Regs.fifoWr, Regs.accepts, hb.rd, hb.wr]
    have hstart := congrArg List.length (acceptedWords_eq s₀ inp t)
    have hend := congrArg List.length (acceptedWords_eq s₀ inp (t + L))
    have hlen := length_unissued_le s₀ inp t
    rw [List.length_append] at hstart hend
    omega

end Run

theorem readRow_bursts (t : ℕ) : (readRow t).Bursts true 0 0 := by
  refine ⟨rfl, rfl, ?_, ?_⟩
  · simp [readRow, bankOf]
  · -- the row is above the nine bits of the column
    refine BitVec.eq_of_getElem_eq fun k hk => ?_
    have hcol : (BitVec.ofNat 9 t).getLsbD (10 + k) = false := BitVec.getLsbD_of_ge _ _ (by omega)
    simp [readRow, rowOf, hcol]

theorem throughput_readRow :
    600000 ≤ Nat.count (fun n => (pinsAt default readRow (30000 + n)).Issues .rd ∨
        (pinsAt default readRow (30000 + n)).Issues .wr) 600000 + 18 * (600000 / 600) + 75 ∧
      600000 ≤ Nat.count (fun n =>
        (regsAt default readRow (30000 + n)).accepts (readRow (30000 + n)) = true) 600000 +
        18 * (600000 / 600) + 78 :=
  throughput (Nat.le_refl 20074) (fun t _ => readRow_bursts t) (by omega) 600000

end Sdram
end Cyclone10

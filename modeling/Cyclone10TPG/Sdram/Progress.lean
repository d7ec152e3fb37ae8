import Cyclone10TPG.Sdram.Issue
import Cyclone10TPG.Sdram.Startup

/-!
# Every request is issued in the end

`Regs.delay` bounds the number of cycles until a column command is issued, as long as a request
is unissued. It is read off the state of the FSM that owns the pins. The way to a column command
can lead through a refresh, and there it counts one refresh and no more: the acknowledge, which
is up in the wait after ARF and in `MAIN_IDLE` behind it, keeps a second request down until the
next row is activated. In `MAIN_SPIN_OFF_READ_WRITE_CYCLE` the longest way is counted, to close
the row, to refresh and to activate another row.

`delay_step` is the decrease. That the measure goes down while inputs arrive rests on the FIFO
keeping its oldest word at the head: a word for which the burst is resumed is still there when
the column state looks at it.
-/

namespace Cyclone10
namespace Sdram

open Sync

/-! ### The measure -/

namespace Regs

/-- The cycles until a column command, after initialisation. -/
def mainDelay (s : Regs) : ℕ :=
  match s.main.mState with
  | .idle => if s.refreshRequest then 15 else 4
  | .bankActivate => 3
  | .waitUntilSafe =>
    match s.main.mNext with
    | .read | .write => max 1 s.main.mCount
    | .autoRefresh => max 1 s.main.mCount + 12
    -- no request is up in `MAIN_IDLE` after an acknowledge
    | _ => max 1 s.main.mCount + if s.main.ackRefreshRequest then 4 else 15
  | .read | .write => if s.exhausted then 21 else 0
  | .prepareBankCloseAll => max 1 s.main.mCount + 17
  | .bankCloseAll => if s.main.mNext = .autoRefresh then 14 else 17
  | .autoRefresh => 12
  | .spinOffReadWriteCycle => 20
  | .undefined => 0

/-- **The measure**: the cycles until a column command, at most. -/
def delay (s : Regs) : ℕ := if s.initDone then s.mainDelay else s.startup + 16

end Regs

section Step

variable {s : Regs}

theorem mainDelay_column (rnw : Bool) (hs : s.main.mState = columnState rnw) :
    s.mainDelay = if s.exhausted then 21 else 0 := by
  cases rnw <;> simp [Regs.mainDelay, hs, columnState]

theorem mainDelay_idle (hs : s.main.mState = .idle) :
    s.mainDelay = if s.refreshRequest then 15 else 4 := by
  simp only [Regs.mainDelay, hs]

theorem mainDelay_idle_le (hs : s.main.mState = .idle) : s.mainDelay ≤ 15 := by
  rw [mainDelay_idle hs]
  split <;> omega

/-- A column state that issues nothing is exhausted. -/
theorem exhausted_of_issue {rnw : Bool} (hs : s.main.mState = columnState rnw)
    (hissue : s.issue = none) : s.exhausted = true := by
  rw [issue_column hs] at hissue
  by_contra hx
  rw [if_neg hx] at hissue
  cases hissue

/-- With an empty FIFO and no active word, nothing is unissued. -/
theorem unissued_eq_nil (h : Inv s) (ha : s.activeUnissued = false) (he : s.fEmpty = true) :
    s.unissued = [] := by
  rw [Regs.unissued, ha, if_neg Bool.false_ne_true]
  exact h.fifo.empty_iff.mp he

/-- The word for which a burst is resumed is still pending one cycle later. -/
theorem exhausted_spinResume (h : Inv s) (i : Input) (hpop : s.main.fPop = false)
    (hp : s.pending = true) (hcs : (step s i).main.activeCsN = false)
    (hact : (step s i).main.active = s.fEntry) : (step s i).exhausted = false := by
  have he := Regs.fEmpty_of_pending hp
  -- the FIFO is not read, so the word stays at its head
  have hhead := h.head?_queue_step i (Regs.fSelect_of_fPop hpop) (h.head?_queue he)
  have h' := h.step i
  have hentry : (step s i).fEntry = s.fEntry := h'.fEntry_of_head? hhead
  have hp' : (step s i).pending = true := by
    rw [Regs.pending_iff, hact, hentry]
    exact ⟨hcs, rfl, rfl, rfl, h'.fEmpty_of_head? hhead⟩
  exact Regs.exhausted_of_pending hp'

/-- The end of a wait for a column state, which starts with its own word. -/
theorem mainDelay_waitColumn (rnw : Bool) {i : Input} (hs : s.main.mState = .waitUntilSafe)
    (hn : s.main.mNext = columnState rnw) (hs' : (step s i).main.mState = columnState rnw)
    (hx : (step s i).exhausted = false) : (step s i).mainDelay < s.mainDelay := by
  have hdelay : s.mainDelay = max 1 s.main.mCount := by
    cases rnw <;> simp [Regs.mainDelay, hs, hn, columnState]
  rw [mainDelay_column rnw hs', hx, if_neg Bool.false_ne_true, hdelay]
  exact Nat.lt_of_lt_of_le Nat.zero_lt_one (Nat.le_max_left 1 _)

/-- The end of a wait for `MAIN_IDLE`. Behind an acknowledge the request is withdrawn, so the
next row is activated from there. -/
theorem mainDelay_waitIdle {i : Input} (hs : s.main.mState = .waitUntilSafe)
    (hn : s.main.mNext = .idle) (hs' : (step s i).main.mState = .idle) :
    (step s i).mainDelay < s.mainDelay := by
  have hdelay : s.mainDelay =
      max 1 s.main.mCount + if s.main.ackRefreshRequest then 4 else 15 := by
    simp only [Regs.mainDelay, hs, hn]
  have hpos : 0 < max 1 s.main.mCount :=
    Nat.lt_of_lt_of_le Nat.zero_lt_one (Nat.le_max_left 1 _)
  rw [hdelay]
  cases hack : s.main.ackRefreshRequest with
  | false =>
    rw [if_neg Bool.false_ne_true]
    have hle := mainDelay_idle_le hs'
    omega
  | true =>
    rw [mainDelay_idle hs', refreshRequest_step_of_ack i hack, if_neg Bool.false_ne_true,
      if_pos rfl]
    omega

/-- The decrease after initialisation. -/
theorem mainDelay_step (h : Inv s) (i : Input) (hd : s.initDone = true) (hu : s.unissued ≠ [])
    (hissue : s.issue = none) : (step s i).mainDelay < s.mainDelay := by
  obtain ⟨m, hm, hstep⟩ := exists_mainStep s i
  have hmain := h.main
  cases hstep with
  | idleInit hs hd' => exact absurd (hd.symm.trans hd') (by decide)
  | idleRefresh hs hd hr =>
    -- the refresh comes first, and `mainDelay` of the idle state has counted it
    rw [mainDelay_idle hs, hr, if_pos rfl]
    simp [Regs.mainDelay, hm]
  | idleAccept hs hd hr he =>
    -- on to the activation of the row
    rw [mainDelay_idle hs, hr, if_neg Bool.false_ne_true]
    simp [Regs.mainDelay, hm]
  | idleStay hs hd hr he =>
    -- nothing is unissued here
    exact absurd (unissued_eq_nil h (by simp [Regs.activeUnissued, hs]) he) hu
  | activate hs =>
    -- the wait of t_RCD, and then the column state of the request
    simp only [Regs.mainDelay, hs, hm]
    cases s.main.active.rnw <;> simp [columnState]
  | waitMore csN hs hc =>
    -- the wait counter goes down
    simp only [Regs.mainDelay, hs, hm]
    cases s.main.mNext <;> simp only <;> omega
  | waitDone csN hs hc =>
    -- the state after the wait has the smaller measure, whichever of the four it is
    simp only [MainInv, hs] at hmain
    obtain ⟨-, hmain⟩ := hmain
    have hx : (step s i).exhausted = false := by simp [Regs.exhausted, hm]
    cases hn : s.main.mNext <;> simp only [hn] at hmain
    case idle => exact mainDelay_waitIdle hs hn (by rw [hm]; exact hn)
    case autoRefresh => simp only [Regs.mainDelay, hs, hm, hn]; omega
    case read => exact mainDelay_waitColumn true hs hn (by rw [hm]; exact hn) hx
    case write => exact mainDelay_waitColumn false hs hn (by rw [hm]; exact hn) hx
  | columnBail rnw hs hp hr | columnStream rnw hs hp hr =>
    -- a pending word is issued
    have hx := exhausted_of_issue hs hissue
    rw [Regs.exhausted_of_pending hp] at hx
    exact absurd hx Bool.false_ne_true
  | columnEnd rnw hs hp =>
    -- no word is pending, so the row is left
    rw [mainDelay_column rnw hs, exhausted_of_issue hs hissue, if_pos rfl]
    simp [Regs.mainDelay, hm]
  | prepareMore hs hc => simp only [Regs.mainDelay, hs, hm]; omega
  | prepareDone hs hc =>
    -- all banks are closed next
    simp only [MainInv, hs] at hmain
    simp only [Regs.mainDelay, hs, hm, hmain.2.2, reduceCtorEq, if_false]
    omega
  | close hs =>
    simp only [MainInv, hs] at hmain
    obtain ⟨-, hack, hc, ⟨hn, -⟩ | ⟨hn, -⟩⟩ := hmain
    · -- on to the idle state
      simp [Regs.mainDelay, hs, hm, hn, hc]
    · -- on to the refresh
      simp [Regs.mainDelay, hs, hm, hn, hc, hack]
  | refresh hs => simp [Regs.mainDelay, hs, hm]
  | spinBail hs hr =>
    simp only [MainInv, hs] at hmain
    simp [Regs.mainDelay, hs, hm, hmain.2.ack]
  | spinResume hs hr hp =>
    -- a request for the open row has come, and its word is pending in the column state
    simp only [MainInv, hs] at hmain
    have hx := exhausted_spinResume h i hmain.1 hp (by rw [hm]) (by rw [hm])
    rw [mainDelay_column s.fEntry.rnw (by rw [hm]), hx]
    simp [Regs.mainDelay, hs]
  | spinClose hs hr he hp => simp [Regs.mainDelay, hs, hm]
  | spinStay hs hr he =>
    -- nothing is unissued here either
    exact absurd (unissued_eq_nil h (by simp [Regs.activeUnissued, hs]) he) hu
  | undefined hs => simp only [MainInv, hs] at hmain

/-- **The measure decreases** while a request is unissued and nothing is issued. -/
theorem delay_step (h : Inv s) (i : Input) (hu : s.unissued ≠ []) (hissue : s.issue = none) :
    (step s i).delay < s.delay := by
  unfold Regs.delay
  cases hd : s.initDone with
  | true =>
    rw [if_pos (initDone_step s i hd), if_pos rfl]
    exact mainDelay_step h i hd hu hissue
  | false =>
    rw [if_neg Bool.false_ne_true]
    have hidle := (h.undone hd).1
    have hs' : (step s i).main.mState = .idle := by simp [step, mainFsm, hidle, hd]
    cases hd' : (step s i).initDone with
    | true =>
      have hle := mainDelay_idle_le hs'
      rw [if_pos rfl]
      omega
    | false =>
      rw [if_neg Bool.false_ne_true]
      -- the initialisation sequence is not over, so it gets shorter
      have hpos : s.startup ≠ 0 := by
        intro hz
        have hterm := h.terminated_of_startup hz
        simp [step, hterm] at hd'
      have hle := startup_step h i
      omega

end Step

/-! ### Whole runs -/

section Run

variable {s₀ : Regs} {inp : ℕ → Input}

/-- A request that is the oldest one unissued is issued, or stays the oldest one. -/
theorem unissued_head_step {t : ℕ} {e : Entry} {rest : List Entry}
    (hu : (regsAt s₀ inp t).unissued = e :: rest) :
    (regsAt s₀ inp t).issue = some e ∨
      (regsAt s₀ inp t).issue = none ∧ ∃ rest', (regsAt s₀ inp (t + 1)).unissued = e :: rest' := by
  have hstep := unissued_step (inv_regsAt s₀ inp t) (inp t)
  rw [← regsAt_succ, hu, List.cons_append] at hstep
  cases hissue : (regsAt s₀ inp t).issue with
  | none =>
    rw [hissue] at hstep
    exact Or.inr ⟨rfl, _, hstep.symm⟩
  | some e' =>
    rw [hissue] at hstep
    exact Or.inl (congrArg some (List.cons.inj hstep).1.symm)

/-- The oldest unissued request is issued, after as many cycles as the measure says. -/
theorem exists_issue {t : ℕ} {e : Entry} (hu : (regsAt s₀ inp t).unissued.head? = some e) :
    ∃ n ≤ (regsAt s₀ inp t).delay, (regsAt s₀ inp (t + n)).issue = some e ∧
      ∀ k < n, (regsAt s₀ inp (t + k + 1)).delay < (regsAt s₀ inp (t + k)).delay := by
  have hstep : ∀ t, (∃ rest, (regsAt s₀ inp t).unissued = e :: rest) →
      ¬ (regsAt s₀ inp t).issue = some e → (∃ rest, (regsAt s₀ inp (t + 1)).unissued = e :: rest) ∧
        (regsAt s₀ inp (t + 1)).delay < (regsAt s₀ inp t).delay := by
    rintro t ⟨rest, hrest⟩ hno
    rcases unissued_head_step hrest with hissue | ⟨hnone, hnext⟩
    · exact absurd hissue hno
    · have hne : (regsAt s₀ inp t).unissued ≠ [] := by
        rw [hrest]
        exact List.cons_ne_nil _ _
      exact ⟨hnext, delay_step (inv_regsAt s₀ inp t) (inp t) hne hnone⟩
  obtain ⟨n, hn, -, hissue, hall⟩ := exists_of_measure
    (P := fun t => ∃ rest, (regsAt s₀ inp t).unissued = e :: rest)
    (Q := fun t => (regsAt s₀ inp t).issue = some e) (m := fun t => (regsAt s₀ inp t).delay)
    hstep ⟨_, (List.cons_head?_tail hu).symm⟩
  exact ⟨n, hn, hissue, fun k hk => (hall k hk).2⟩

/-- **No lock-up.** Let `e` be the oldest request that has been accepted before cycle `t` and
whose column command has not been on the pins by then. Whatever the inputs, the column command
of `e` comes, after `n` further cycles, and in all of them the measure goes down. -/
theorem exists_columnAccess (s₀ : Regs) (inp : ℕ → Input) (t : ℕ) (e : Entry)
    (he : (acceptedWords s₀ inp t)[(issued (pinsAt s₀ inp) (t + 1)).length]? = some e) :
    ∃ n ≤ (regsAt s₀ inp t).delay,
      (pinsAt s₀ inp (t + n + 1)).columnAccess (lastActRow (pinsAt s₀ inp) (t + n + 1)) =
        some e.access ∧
      ∀ k < n, (regsAt s₀ inp (t + k + 1)).delay < (regsAt s₀ inp (t + k)).delay := by
  have hu : (regsAt s₀ inp t).unissued.head? = some e := by
    rw [acceptedWords_eq, issued_eq, List.length_map,
      List.getElem?_append_right (Nat.le_refl _), Nat.sub_self, ← List.head?_eq_getElem?] at he
    exact he
  obtain ⟨n, hn, hissue, hall⟩ := exists_issue hu
  refine ⟨n, hn, ?_, hall⟩
  rw [columnAccess_regsAt, hissue]
  rfl

end Run

/-- The write of `oneWrite`, accepted in the first cycle after reset. -/
theorem exists_columnAccess_oneWrite :
    ∃ n ≤ (regsAt default oneWrite 1).delay,
      (pinsAt default oneWrite (1 + n + 1)).columnAccess
          (lastActRow (pinsAt default oneWrite) (1 + n + 1)) =
        some (Entry.mk false 0x800201#24 0b10#2 0xBEEF#16).access ∧
      ∀ k < n, (regsAt default oneWrite (1 + k + 1)).delay <
        (regsAt default oneWrite (1 + k)).delay :=
  exists_columnAccess default oneWrite 1 ⟨false, 0x800201#24, 0b10#2, 0xBEEF#16⟩ (by decide)

end Sdram
end Cyclone10

import Cyclone10TPG.Sdram.Invariant

/-!
# The command on the pins

What a clock edge puts on the SDRAM pins, command by command: `PinsStep` has one rule for
each source of a command, with the state that it comes from. Read the other way round,
`Inv.origin` says for a command on the pins which state has set it.
-/

namespace Cyclone10
namespace Sdram

/-- The command, when the SDRAM is selected and it is not NOP. -/
def Cmd.event (c : Cmd) : Option CmdCode := if c.csN || c.code == .nop then none else some c.code

theorem Pins.Issues.event {p : Pins} {c : CmdCode} (h : p.Issues c) (hc : c ≠ .nop) :
    p.cmd.event = some c := by
  rw [Pins.Issues] at h
  rw [h]
  simp [Cmd.event, hc]

theorem Pins.issues_of_event {p : Pins} {c : CmdCode} (h : p.cmd.event = some c) : p.Issues c := by
  obtain ⟨⟨csN, code⟩, addr, ba, dqm, dq⟩ := p
  simp only [Cmd.event, Option.ite_none_left_eq_some, Bool.or_eq_true, not_or, Option.some.injEq]
    at h
  simp [Pins.Issues, h.2, Bool.eq_false_of_not_eq_true h.1.1]

/-- The word whose column command is set on the pins at the end of the cycle. -/
def Regs.issue (s : Regs) : Option Entry :=
  match s.main.mState with
  | .read | .write => if s.exhausted then none else some s.served
  | _ => none

/-- The pins that a column state sets. -/
def Regs.columnPins (s : Regs) (rnw : Bool) : Pins where
  cmd := (s.column rnw).mCmd
  addr := (s.column rnw).mAddr
  ba := (s.column rnw).mBank
  dqm := (s.column rnw).mDqm
  dq := if (s.column rnw).oe then some (s.column rnw).mData else none

/-- What the edge at the end of a cycle can put on the pins. -/
inductive PinsStep (s : Regs) (p : Pins) : Prop
  | nop (hissue : s.issue = none) (hcode : p.cmd.code = .nop)
  /-- A command of the initialisation FSM. -/
  | ini (hs : s.main.mState = .idle) (hd : s.initDone = false) (hcmd : p.cmd = s.ini.iCmd)
      (haddr : p.addr = s.ini.iAddr)
  | act (hs : s.main.mState = .bankActivate) (hcmd : p.cmd = ⟨s.csnDecode, .act⟩)
      (hba : p.ba = s.activeBank) (haddr : p.addr = rowOf s.main.active.addr)
  | column (rnw : Bool) (hs : s.main.mState = columnState rnw) (hx : s.exhausted = false)
      (hp : p = s.columnPins rnw)
  | pre (hs : s.main.mState = .bankCloseAll)
      (hcmd : p.cmd = ⟨!s.refreshRequest && s.csnDecode, .pre⟩) (haddr : p.addr = 0x1FFF#13)
  | arf (hs : s.main.mState = .autoRefresh) (hcmd : p.cmd = ⟨false, .arf⟩)

section

variable {s : Regs}

theorem issue_column {rnw : Bool} (hs : s.main.mState = columnState rnw) :
    s.issue = if s.exhausted then none else some s.served := by
  cases rnw <;> simp [Regs.issue, hs, columnState]

/-- A column state sets its command, or NOP when it has nothing to issue. -/
theorem pinsStep_column {p : Pins} {rnw : Bool} (hs : s.main.mState = columnState rnw)
    (hp : p = s.columnPins rnw) : PinsStep s p := by
  cases hx : s.exhausted with
  | true =>
    refine .nop ?_ ?_
    · rw [issue_column hs, hx]; rfl
    · rw [hp]; simp [Regs.columnPins, Regs.column, hx]
  | false => exact .column rnw hs hx hp

/-- The edge puts one of these on the pins. -/
theorem pinsStep (s : Regs) (i : Input) : PinsStep s (step s i).pins := by
  obtain ⟨m, hm, hstep⟩ := exists_mainStep s i
  cases hstep with
  | idleInit hs hd => exact .ini hs hd (by rw [Regs.pins, hm]) (by rw [Regs.pins, hm])
  | activate hs =>
    exact .act hs (by rw [Regs.pins, hm]) (by rw [Regs.pins, hm]) (by rw [Regs.pins, hm])
  | columnBail rnw hs => exact pinsStep_column hs (by rw [Regs.pins, hm]; rfl)
  | columnStream rnw hs => exact pinsStep_column hs (by rw [Regs.pins, hm]; rfl)
  | columnEnd rnw hs => exact pinsStep_column hs (by rw [Regs.pins, hm]; rfl)
  | close hs => exact .pre hs (by rw [Regs.pins, hm]) (by rw [Regs.pins, hm])
  | refresh hs => exact .arf hs (by rw [Regs.pins, hm])
  | idleRefresh hs => exact .nop (by simp [Regs.issue, hs]) (by rw [Regs.pins, hm])
  | idleAccept hs => exact .nop (by simp [Regs.issue, hs]) (by rw [Regs.pins, hm])
  | idleStay hs => exact .nop (by simp [Regs.issue, hs]) (by rw [Regs.pins, hm])
  | waitMore csN hs => exact .nop (by simp [Regs.issue, hs]) (by rw [Regs.pins, hm])
  | waitDone csN hs => exact .nop (by simp [Regs.issue, hs]) (by rw [Regs.pins, hm])
  | prepareMore hs => exact .nop (by simp [Regs.issue, hs]) (by rw [Regs.pins, hm])
  | prepareDone hs => exact .nop (by simp [Regs.issue, hs]) (by rw [Regs.pins, hm])
  | spinBail hs => exact .nop (by simp [Regs.issue, hs]) (by rw [Regs.pins, hm])
  | spinResume hs => exact .nop (by simp [Regs.issue, hs]) (by rw [Regs.pins, hm])
  | spinClose hs => exact .nop (by simp [Regs.issue, hs]) (by rw [Regs.pins, hm])
  | spinStay hs => exact .nop (by simp [Regs.issue, hs]) (by rw [Regs.pins, hm])
  | undefined hs => exact .nop (by simp [Regs.issue, hs]) (by rw [Regs.pins, hm])

/-! ### The origin of a command -/

/-- The command `c` on the pins `p` has been given by the initialisation FSM. -/
structure Regs.Initial (s : Regs) (p : Pins) (c : CmdCode) : Prop where
  idle : s.main.mState = .idle
  undone : s.initDone = false
  cmd : s.ini.iCmd = ⟨false, c⟩
  addr : p.addr = s.ini.iAddr

/-- Where the command on the pins `p` comes from. -/
def Origin (s : Regs) (p : Pins) : CmdCode → Prop
  | .act => s.main.mState = .bankActivate
  | .rd => s.main.mState = .read ∧ s.exhausted = false ∧ p = s.columnPins true
  | .wr => s.main.mState = .write ∧ s.exhausted = false ∧ p = s.columnPins false
  | .pre => (s.main.mState = .bankCloseAll ∧ p.addr = 0x1FFF#13) ∨ s.Initial p .pre
  | .arf => s.main.mState = .autoRefresh ∨ s.Initial p .arf
  | .lmr => s.Initial p .lmr
  | .bst => False
  | .nop => True

/-- **The origin of a command** that the edge has put on the pins. -/
theorem Inv.origin (h : Inv s) {i : Input} {c : CmdCode} (hc : (Sdram.step s i).pins.Issues c) :
    Origin s (Sdram.step s i).pins c := by
  rw [Pins.Issues] at hc
  cases pinsStep s i with
  | nop hissue hcode =>
    obtain rfl : c = .nop := by rw [← hcode, hc]
    trivial
  | ini hs hd hcmd haddr =>
    -- the initialisation FSM sends NOP, PRE, ARF and LMR only
    rw [hc] at hcmd
    have hini : s.Initial (Sdram.step s i).pins c := ⟨hs, hd, hcmd.symm, haddr⟩
    have hcode := h.ini.code
    rw [← hcmd] at hcode
    rcases hcode with hcode | hcode | hcode | hcode
    · obtain rfl : c = .nop := hcode
      trivial
    · cases hcode
      exact Or.inr hini
    · cases hcode
      exact Or.inr hini
    · cases hcode
      exact hini
  | act hs hcmd =>
    obtain rfl : c = .act := by rw [hc, Cmd.mk.injEq] at hcmd; exact hcmd.2
    exact hs
  | column rnw hs hx hp =>
    -- the direction is that of the state
    have hcode : c = columnCode rnw := by
      have hcmd : (s.columnPins rnw).cmd.code = columnCode rnw := by
        simp [Regs.columnPins, Regs.column, hx]
      rw [← hcmd, ← hp, hc]
    cases rnw <;> cases hcode <;> exact ⟨hs, hx, hp⟩
  | pre hs hcmd haddr =>
    obtain rfl : c = .pre := by rw [hc, Cmd.mk.injEq] at hcmd; exact hcmd.2
    exact Or.inl ⟨hs, haddr⟩
  | arf hs hcmd =>
    obtain rfl : c = .arf := by rw [hc, Cmd.mk.injEq] at hcmd; exact hcmd.2
    exact Or.inl hs

end

end Sdram
end Cyclone10

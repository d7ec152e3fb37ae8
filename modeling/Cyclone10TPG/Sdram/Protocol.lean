import Cyclone10TPG.Sdram.Issue

/-!
# Protocol legality

What the SDRAM may rely on, as properties of the sequence of pin values alone (`Legal`):
rows are opened on closed banks, column commands go to the open row, refreshes and mode
register writes find all banks closed, and the initialisation sequence comes first.

The last item is about the list `commands` of all commands so far. Each transition of the
initialisation FSM extends `InitRegs.script`, the commands it has given up to now, by the
one it gives (`script_step`), and as long as it owns the pins these are the commands on the
pins.
-/

namespace Cyclone10
namespace Sdram

open Sync

/-! ### Statement -/

/-- The commands on the pins before cycle `n`. -/
def commands (pins : ℕ → Pins) (n : ℕ) : List CmdCode := log (fun t => (pins t).cmd.event) n

/-- The initialisation sequence. -/
def initSeq : List CmdCode := .pre :: List.replicate 8 .arf ++ [.lmr]

/-- **A legal sequence of pin values.** `word t` is the request that the column command of
cycle `t` serves. -/
structure Legal (pins : ℕ → Pins) (word : ℕ → Option Entry) : Prop where
  /-- ACT finds all banks precharged. -/
  act : ∀ t, (pins t).Issues .act → Precharged pins t
  /-- RD and WR go to the bank and row of the request, which the last ACT has opened, and
  do not ask for auto-precharge. -/
  column : ∀ t, (pins t).Issues .rd ∨ (pins t).Issues .wr → ∃ e, word t = some e ∧
    (pins t).ba = bankOf e.addr ∧ RowOpened pins (bankOf e.addr) (rowOf e.addr) t ∧
    (pins t).addr.getLsbD 10 = false
  /-- PRE is for all banks. -/
  pre : ∀ t, (pins t).Issues .pre → (pins t).addr.getLsbD 10 = true
  /-- ARF and LMR find all banks precharged. -/
  refresh : ∀ t, (pins t).Issues .arf ∨ (pins t).Issues .lmr → Precharged pins t
  /-- The initialisation sequence comes first, and the mode register is not written
  again. -/
  start : ∀ n, commands pins n <+: initSeq ∨
    ∃ rest, commands pins n = initSeq ++ rest ∧ .lmr ∉ rest

/-! ### The initialisation sequence -/

/-- The commands of the initialisation FSM up to the one in `i_cmd`. -/
def InitRegs.script (r : InitRegs) : List CmdCode :=
  match r.iState with
  | .powerup | .precharge | .undefined => []
  | .autorefresh | .modeRegisterSet => .pre :: List.replicate r.iRefs .arf
  | .waitUntilSafe =>
    if r.iNext = .terminated then initSeq else .pre :: List.replicate r.iRefs .arf
  | .terminated => initSeq

/-- A transition of the initialisation FSM extends the script by its command. -/
theorem InitInv.script_step {s : Regs} {r : InitRegs} (hstep : InitStep s r)
    (h : InitInv s.ini) : r.script = s.ini.script ++ r.iCmd.event.toList := by
  cases hstep with
  | powerupStay hs hc => simp [InitRegs.script, hs, Cmd.event]
  | powerupDone hs hc => simp [InitRegs.script, hs, Cmd.event]
  | precharge hs =>
    simp only [InitInv, hs] at h
    simp [InitRegs.script, hs, Cmd.event, h.2]
  | autorefresh hs =>
    simp only [InitInv, hs] at h
    -- this ARF is one more on the script
    have hlt : (s.ini.iRefs + 1) % 16 = s.ini.iRefs + 1 := Nat.mod_eq_of_lt (by omega)
    have hnext : (if s.ini.iRefs = 7 then InitState.modeRegisterSet else .autorefresh) ≠
        .terminated := by
      split <;> simp
    simp only [InitRegs.script, hs, if_neg hnext, hlt, List.replicate_succ']
    rfl
  | waitMore hs hc => simp [InitRegs.script, hs, Cmd.event]
  | waitDone hs hc =>
    simp only [InitInv, hs] at h
    cases hn : s.ini.iNext <;> simp only [hn] at h
    all_goals simp [InitRegs.script, hs, hn, Cmd.event]
  | terminated hs =>
    simp only [InitInv, hs] at h
    simp [InitRegs.script, hs, Cmd.event, h.1]
  | modeRegisterSet hs =>
    simp only [InitInv, hs] at h
    simp only [InitRegs.script, hs, h.2]
    rfl
  | undefined hs => simp only [InitInv, hs] at h

/-- The script is an initial part of the initialisation sequence. -/
theorem InitInv.script_prefix {r : InitRegs} (h : InitInv r) : r.script <+: initSeq := by
  have hrefs : r.iRefs ≤ 8 → .pre :: List.replicate r.iRefs .arf <+: initSeq := by
    intro hn
    refine List.cons_prefix_cons.mpr ⟨rfl, ?_⟩
    refine (List.prefix_replicate_iff.mpr ⟨?_, ?_⟩).trans (List.prefix_append _ _)
    · rwa [List.length_replicate]
    · rw [List.length_replicate]
  unfold InitInv at h
  unfold InitRegs.script
  cases hs : r.iState <;> simp only [hs] at h ⊢
  case autorefresh => exact hrefs (by omega)
  case modeRegisterSet => exact hrefs (by omega)
  case terminated => exact List.prefix_rfl
  case waitUntilSafe =>
    cases hn : r.iNext <;> simp only [hn] at h ⊢
    case autorefresh => exact hrefs (by omega)
    case modeRegisterSet => exact hrefs (by omega)
    case terminated => exact List.prefix_rfl
  all_goals exact List.nil_prefix

/-- After initialisation no LMR is set on the pins. -/
theorem event_ne_lmr {s : Regs} (i : Input) (hd : s.initDone = true) :
    ∀ c, (step s i).pins.cmd.event = some c → c ≠ .lmr := by
  have hcode : (step s i).pins.cmd.code ≠ .lmr := by
    cases pinsStep s i with
    | nop hissue hcode => simp [hcode]
    | ini hs hd' => exact absurd (hd.symm.trans hd') (by decide)
    | act hs hcmd => simp [hcmd]
    | column rnw hs hx hp =>
      rw [hp]
      cases rnw <;> simp [Regs.columnPins, Regs.column, hx, columnCode]
    | pre hs hcmd => simp [hcmd]
    | arf hs hcmd => simp [hcmd]
  intro c hc
  simp only [Cmd.event] at hc
  split at hc
  · cases hc
  · exact Option.some.inj hc ▸ hcode

section Run

variable (s₀ : Regs) (inp : ℕ → Input)

/-- Where the commands up to cycle `t` stand: the script of the initialisation FSM, but for
the command in `i_cmd`, or the whole initialisation sequence and what has followed it. -/
def StartInv (t : ℕ) : Prop :=
  if (regsAt s₀ inp t).initDone then
    ∃ rest, commands (pinsAt s₀ inp) (t + 1) = initSeq ++ rest ∧ .lmr ∉ rest
  else
    commands (pinsAt s₀ inp) (t + 1) ++ (regsAt s₀ inp t).ini.iCmd.event.toList =
      (regsAt s₀ inp t).ini.script

variable {s₀ inp} in
/-- Until initialisation is done, the commands on the pins are those of the initialisation FSM,
one cycle late. -/
theorem StartInv.commands_eq {t : ℕ} (h : StartInv s₀ inp t)
    (hd : (regsAt s₀ inp t).initDone = false) :
    commands (pinsAt s₀ inp) (t + 2) = (regsAt s₀ inp t).ini.script := by
  have hlog : commands (pinsAt s₀ inp) (t + 2) = commands (pinsAt s₀ inp) (t + 1) ++
      (pinsAt s₀ inp (t + 1)).cmd.event.toList := log_succ _ _
  have hcmd : (pinsAt s₀ inp (t + 1)).cmd = (regsAt s₀ inp t).ini.iCmd := by
    rw [pinsAt, regsAt_succ, (inv_regsAt s₀ inp t).pins_of_undone hd]
  unfold StartInv at h
  rw [hd, if_neg Bool.false_ne_true] at h
  rw [hlog, hcmd, h]

theorem startInv_regsAt (t : ℕ) : StartInv s₀ inp t := by
  induction t with
  | zero => rfl
  | succ t ih =>
    have h := inv_regsAt s₀ inp t
    have hlog : commands (pinsAt s₀ inp) (t + 2) = commands (pinsAt s₀ inp) (t + 1) ++
        (pinsAt s₀ inp (t + 1)).cmd.event.toList := log_succ _ _
    unfold StartInv
    cases hd : (regsAt s₀ inp t).initDone with
    | true =>
      unfold StartInv at ih
      rw [hd, if_pos rfl] at ih
      rw [regsAt_succ, initDone_step _ _ hd, if_pos rfl, hlog]
      -- what follows the initialisation sequence grows, without an LMR
      obtain ⟨rest, hrest, hlmr⟩ := ih
      refine ⟨rest ++ (pinsAt s₀ inp (t + 1)).cmd.event.toList, ?_, ?_⟩
      · rw [hrest, List.append_assoc]
      · rw [List.mem_append, Option.mem_toList]
        rintro (hmem | hmem)
        · exact hlmr hmem
        · exact event_ne_lmr (inp t) hd _ hmem rfl
    | false =>
      rw [ih.commands_eq hd]
      cases hd' : (regsAt s₀ inp (t + 1)).initDone with
      | true =>
        -- the hand-over: the whole sequence is on the pins, and nothing else yet
        have hterm : (regsAt s₀ inp t).ini.iState = .terminated := by
          simpa [regsAt_succ, step, hd] using hd'
        refine ⟨[], ?_, List.not_mem_nil⟩
        simp [InitRegs.script, hterm]
      | false =>
        rw [if_neg Bool.false_ne_true]
        exact (InitInv.script_step (initStep _) h.ini).symm

/-! ### Legality -/

/-- The request whose column command is on the pins in cycle `t`. -/
def wordAt : ℕ → Option Entry
  | 0 => none
  | t + 1 => (regsAt s₀ inp t).issue

/-- **Protocol legality**, for every input stream and over every run from reset. -/
theorem legal_pinsAt : Legal (pinsAt s₀ inp) (wordAt s₀ inp) := by
  -- the initialisation FSM has precharged the banks before any command but PRE
  have ini : ∀ t c, (regsAt s₀ inp t).Initial (pinsAt s₀ inp (t + 1)) c → c ≠ .pre → c ≠ .nop →
      Precharged (pinsAt s₀ inp) (t + 1) := by
    rintro t c ⟨hs, hd, hcmd, -⟩ hpre hnop
    have hini := (inv_regsAt s₀ inp t).ini
    have hb := bankInv_regsAt s₀ inp t
    simp only [BankInv, hs, hd, Bool.false_eq_true, if_false] at hb
    rcases hb with hb | hb | hb | hb
    · -- before the precharge the command is NOP
      simp only [InitInv, hb, hcmd, Cmd.mk.injEq] at hini
      exact absurd hini.2 hnop
    · simp only [InitInv, hb, hcmd, Cmd.mk.injEq] at hini
      exact absurd hini.1.2 hnop
    · rw [hcmd, Cmd.mk.injEq] at hb
      exact absurd hb.2 hpre
    · exact hb
  -- a column command carries the address of the request it serves
  have column : ∀ t rnw, (pinsAt s₀ inp (t + 1)).Issues (columnCode rnw) →
      ∃ e, wordAt s₀ inp (t + 1) = some e ∧ (pinsAt s₀ inp (t + 1)).ba = bankOf e.addr ∧
        RowOpened (pinsAt s₀ inp) (bankOf e.addr) (rowOf e.addr) (t + 1) ∧
        (pinsAt s₀ inp (t + 1)).addr.getLsbD 10 = false := by
    intro t rnw hc
    obtain ⟨e, hissue, -, hcol⟩ := columnCommand rnw hc
    refine ⟨e, hissue, hcol.bank, hcol.row, ?_⟩
    rw [hcol.addr, BitVec.getLsbD_append, if_neg (by decide)]
    decide
  have zero : ∀ {c}, ¬ (pinsAt s₀ inp 0).Issues c := not_issues_zero s₀ inp _
  have origin : ∀ {t c}, (pinsAt s₀ inp (t + 1)).Issues c →
      Origin (regsAt s₀ inp t) (pinsAt s₀ inp (t + 1)) c :=
    (inv_regsAt s₀ inp _).origin
  constructor
  case act =>
    rintro (_ | t) hc
    · exact absurd hc zero
    · -- ACT comes from `MAIN_BANK_ACTIVATE`, where the banks are closed
      have hs : (regsAt s₀ inp t).main.mState = .bankActivate := origin hc
      have hb := bankInv_regsAt s₀ inp t
      simpa only [BankInv, hs] using hb
  case column =>
    -- from `MAIN_READ` or `MAIN_WRITE`, with the row of the request open
    rintro (_ | t) hc
    · exact absurd hc (not_or.mpr ⟨zero, zero⟩)
    · rcases hc with hc | hc
      · exact column t true hc
      · exact column t false hc
  case pre =>
    rintro (_ | t) hc
    · exact absurd hc zero
    · -- from `MAIN_BANK_CLOSE_ALL`, or from the initialisation FSM
      rcases origin hc with ⟨-, haddr⟩ | ⟨-, -, hcmd, haddr⟩
      · rw [haddr]
        decide
      · rw [haddr, (inv_regsAt s₀ inp t).iniAddr, hcmd]
        decide
  case refresh =>
    rintro (_ | t) hc
    · exact absurd hc (not_or.mpr ⟨zero, zero⟩)
    · rcases hc with hc | hc
      · -- from `MAIN_AUTO_REFRESH`, or from the initialisation FSM
        rcases origin hc with hs | hini
        · have hb := bankInv_regsAt s₀ inp t
          simpa only [BankInv, hs] using hb
        · exact ini t _ hini (by decide) (by decide)
      · exact ini t _ (origin hc) (by decide) (by decide)
  case start =>
    rintro (_ | t)
    · exact Or.inl List.nil_prefix
    · have hstart := startInv_regsAt s₀ inp t
      unfold StartInv at hstart
      split at hstart
      · exact Or.inr hstart
      · have hpre := (inv_regsAt s₀ inp t).ini.script_prefix
        rw [← hstart] at hpre
        exact Or.inl ((List.prefix_append _ _).trans hpre)

end Run

end Sdram
end Cyclone10

import Cyclone10TPG.Tmds.Encoder

/-!
# The receiver's side

A DVI receiver has no state of its own: it tells control words from data words by their
value, and undoes the inversion and the differential code by the two flags in the word.
`decode_step` says that it recovers the sample from the word, whatever the accumulator of
the encoder holds.

That a data word is never a control code is nowhere tested in the encoder. It follows from
the choice between XOR and XNOR: the flag in a data word is the one that the number of ones
in the decoded pixel asks for, and in the four control codes it is the other one
(`tmdsCode_flag`).
-/

namespace Cyclone10
namespace Tmds

open Sync

/-! ### The receiver -/

/-- What is sent in one cycle: control data in blanking, and otherwise a pixel. -/
inductive Symbol
  | control (cd : BitVec 2)
  | pixel (vd : BitVec 8)
  deriving Repr, DecidableEq

/-- What the sample asks to send. -/
def Sample.symbol (x : Sample) : Symbol := if x.vde then .pixel x.vd else .control x.cd

/-- `TMDS[9] ? ~TMDS[7:0] : TMDS[7:0]`. -/
def received (w : BitVec 10) : BitVec 8 :=
  if w.getLsbD 9 then ~~~w.extractLsb' 0 8 else w.extractLsb' 0 8

/-- The pixel in a data word: bit 0 as it is, and every further bit the difference of two
neighbours, by XOR if `TMDS[8]` and by XNOR otherwise. -/
def decodePixel (w : BitVec 10) : BitVec 8 :=
  let d := received w
  BitVec.ofFnLE fun i : Fin 8 =>
    if i.val = 0 then d.getLsbD 0
    else if w.getLsbD 8 then d.getLsbD i.val ^^ d.getLsbD (i.val - 1)
    else !(d.getLsbD i.val ^^ d.getLsbD (i.val - 1))

/-- The receiver: the four control codes of DVI by value, and pixels. -/
def decode (w : BitVec 10) : Symbol :=
  if w = 0b1101010100#10 then .control 0b00#2
  else if w = 0b0010101011#10 then .control 0b01#2
  else if w = 0b0101010100#10 then .control 0b10#2
  else if w = 0b1010101011#10 then .control 0b11#2
  else .pixel (decodePixel w)

/-! ### Pixels -/

section

variable (vd : BitVec 8) (acc : BitVec 4)

/-- The two flags in a data word. -/
theorem tmdsData_flags :
    (tmdsData vd acc).getLsbD 8 = !xnor vd ∧ (tmdsData vd acc).getLsbD 9 = invertQM vd acc := by
  rw [tmdsData_eq]
  refine ⟨?_, ?_⟩
  · rw [BitVec.getLsbD_append, if_neg (by decide), BitVec.getLsbD_append, if_pos (by decide)]
    exact BitVec.getLsbD_ofBool _ _
  · rw [BitVec.getLsbD_append, if_neg (by decide), BitVec.getLsbD_append, if_neg (by decide)]
    exact BitVec.getLsbD_ofBool _ _

/-- Below the flags are the code bits, or their inverse. -/
theorem extractLsb'_tmdsData :
    (tmdsData vd acc).extractLsb' 0 8 =
      if invertQM vd acc then ~~~chain (xnor vd) vd else chain (xnor vd) vd := by
  refine BitVec.eq_of_getLsbD_eq fun i hi => ?_
  rw [BitVec.getLsbD_extractLsb', tmdsData_eq, Nat.zero_add, BitVec.getLsbD_append, if_pos hi]
  simp [hi]

theorem received_tmdsData : received (tmdsData vd acc) = chain (xnor vd) vd := by
  rw [received, (tmdsData_flags vd acc).2, extractLsb'_tmdsData]
  cases invertQM vd acc with
  | true => rw [if_pos rfl, if_pos rfl, BitVec.not_not]
  | false => rw [if_neg Bool.false_ne_true, if_neg Bool.false_ne_true]

/-- The receiver takes the differences. -/
theorem decodePixel_eq (w : BitVec 10) :
    decodePixel w = unchain (!w.getLsbD 8) (received w) := by
  refine BitVec.eq_of_getLsbD_eq fun i hi => ?_
  rw [decodePixel, unchain, BitVec.getLsbD_ofFnLE, BitVec.getLsbD_ofFnLE, dif_pos hi, dif_pos hi]
  cases i with
  | zero => rfl
  | succ i =>
    show (if i + 1 = 0 then _ else _) = _
    rw [if_neg (Nat.succ_ne_zero i)]
    cases w.getLsbD 8 <;> simp [unchainBit]

theorem decodePixel_tmdsData : decodePixel (tmdsData vd acc) = vd := by
  rw [decodePixel_eq, received_tmdsData, (tmdsData_flags vd acc).1, Bool.not_not, unchain_chain]

/-! ### Control codes -/

/-- In a control code the flag `TMDS[8]` is not the one of the pixel it would decode to. -/
theorem tmdsCode_flag : ∀ cd : BitVec 2,
    (tmdsCode cd).getLsbD 8 = xnor (decodePixel (tmdsCode cd)) := by
  decide

/-- **A data word is never a control code.** -/
theorem tmdsData_ne_tmdsCode (cd : BitVec 2) : tmdsData vd acc ≠ tmdsCode cd := by
  intro h
  have hflag := (tmdsData_flags vd acc).1
  have hcode := tmdsCode_flag cd
  rw [← h, decodePixel_tmdsData, hflag] at hcode
  cases hx : xnor vd <;> rw [hx] at hcode <;> exact absurd hcode (by decide)

theorem tmdsCode_injective : Function.Injective tmdsCode := by
  intro cd cd'
  revert cd cd'
  decide

theorem decode_tmdsCode (cd : BitVec 2) : decode (tmdsCode cd) = .control cd := by
  revert cd
  decide

theorem decode_tmdsData : decode (tmdsData vd acc) = .pixel vd := by
  have h₀ : tmdsData vd acc ≠ 0b1101010100#10 := tmdsData_ne_tmdsCode vd acc 0
  have h₁ : tmdsData vd acc ≠ 0b0010101011#10 := tmdsData_ne_tmdsCode vd acc 1
  have h₂ : tmdsData vd acc ≠ 0b0101010100#10 := tmdsData_ne_tmdsCode vd acc 2
  have h₃ : tmdsData vd acc ≠ 0b1010101011#10 := tmdsData_ne_tmdsCode vd acc 3
  rw [decode, if_neg h₀, if_neg h₁, if_neg h₂, if_neg h₃, decodePixel_tmdsData]

end

/-! ### Streams -/

/-- **The receiver recovers the sample from the word**, whatever the registers held. -/
theorem decode_step (r : Regs) (x : Sample) : decode (step r x).tmds = x.symbol := by
  rw [step, Sample.symbol]
  cases x.vde with
  | true => exact decode_tmdsData x.vd r.balanceAcc
  | false => exact decode_tmdsCode x.cd

/-- The words put in `TMDS` by the first `n` clocks. -/
def encode (r₀ : Regs) (inp : ℕ → Sample) (n : ℕ) : List (BitVec 10) :=
  log (fun t => some (run step r₀ inp (t + 1)).tmds) n

/-- The samples of the first `n` cycles. -/
def sent (inp : ℕ → Sample) (n : ℕ) : List Symbol := log (fun t => some (inp t).symbol) n

/-- **Stream round trip.** From any contents of the registers, decoding the words of a stream
gives the stream back. A control word is the code of its control data, which determines
them; a data word is none of the codes and decodes to its pixel. -/
theorem map_decode_encode (r₀ : Regs) (inp : ℕ → Sample) :
    (∀ n, (encode r₀ inp n).map decode = sent inp n) ∧
      Function.Injective tmdsCode ∧
      ∀ t, if (inp t).vde then
          (∀ cd, (run step r₀ inp (t + 1)).tmds ≠ tmdsCode cd) ∧
            decodePixel (run step r₀ inp (t + 1)).tmds = (inp t).vd
        else (run step r₀ inp (t + 1)).tmds = tmdsCode (inp t).cd := by
  refine ⟨?_, tmdsCode_injective, ?_⟩
  · intro n
    rw [encode, sent, ← log_map]
    refine log_congr fun t _ => ?_
    show some (decode (step (run step r₀ inp t) (inp t)).tmds) = some (inp t).symbol
    rw [decode_step]
  · intro t
    rw [run_succ, step]
    cases (inp t).vde with
    | true => exact ⟨tmdsData_ne_tmdsCode _ _, decodePixel_tmdsData _ _⟩
    | false => rfl

end Tmds
end Cyclone10

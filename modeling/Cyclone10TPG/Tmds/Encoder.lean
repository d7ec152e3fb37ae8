import Cyclone10TPG.Sync.Run
import Cyclone10TPG.Sync.LineCode

/-!
# The TMDS encoder

`TMDS_encoder`: one colour channel of a DVI link. A pixel byte is first coded
differentially, with XOR or XNOR, whichever gives fewer transitions (`qM`), and then
inverted or not, so that ones and zeros balance in the long run. `balanceAcc` remembers half
the imbalance so far. In blanking, one of four control codes is sent and the accumulator is
cleared.

All the sums of the source are taken in 4 bits, and so they are here. Where the source mixes
widths, the bits that a wider operand would add are masked off again, and the model keeps
the one bit that is left (`correction`).
-/

namespace Cyclone10
namespace Tmds

open Sync

/-! ### The data path -/

/-- Bit `i` of a vector as a 4-bit number. -/
def bit {w : ℕ} (v : BitVec w) (i : ℕ) : BitVec 4 := (BitVec.ofBool (v.getLsbD i)).setWidth 4

/-- `v[0] + v[1] + … + v[7]`, in 4 bits. -/
def bitSum {w : ℕ} (v : BitVec w) : BitVec 4 :=
  bit v 0 + bit v 1 + bit v 2 + bit v 3 + bit v 4 + bit v 5 + bit v 6 + bit v 7

/-- `Nb1s`. -/
def nb1s (vd : BitVec 8) : BitVec 4 := bitSum vd

/-- `XNOR`. -/
def xnor (vd : BitVec 8) : Bool :=
  decide (4#4 < nb1s vd) || (nb1s vd == 4#4 && vd.getLsbD 0 == false)

/-- `q_m`: bit 0 is `VD[0]`, bit `i + 1` is `q_m[i] ^ VD[i + 1] ^ XNOR`, and bit 8 is
`~XNOR`. -/
def qM (vd : BitVec 8) : BitVec 9 := BitVec.ofBool (!xnor vd) ++ chain (xnor vd) vd

/-- `q_m[8]`. -/
def qM8 (vd : BitVec 8) : Bool := (qM vd).getLsbD 8

/-- `balance`. -/
def balance (vd : BitVec 8) : BitVec 4 := bitSum (qM vd) - 4#4

/-- `balance == 0 || balance_acc == 0`. -/
def balanced (vd : BitVec 8) (acc : BitVec 4) : Bool := balance vd == 0#4 || acc == 0#4

/-- `balance_sign_eq`. -/
def balanceSignEq (vd : BitVec 8) (acc : BitVec 4) : Bool :=
  (balance vd).getLsbD 3 == acc.getLsbD 3

/-- `invert_q_m`. -/
def invertQM (vd : BitVec 8) (acc : BitVec 4) : Bool :=
  if balanced vd acc then !qM8 vd else balanceSignEq vd acc

/-- `{q_m[8] ^ ~balance_sign_eq} & ~(balance == 0 || balance_acc == 0)`, which is one bit
wide after the mask. -/
def correction (vd : BitVec 8) (acc : BitVec 4) : Bool :=
  (qM8 vd ^^ !balanceSignEq vd acc) && !balanced vd acc

/-- `balance_acc_inc`. -/
def balanceAccInc (vd : BitVec 8) (acc : BitVec 4) : BitVec 4 :=
  balance vd - (BitVec.ofBool (correction vd acc)).setWidth 4

/-- `balance_acc_new`. -/
def balanceAccNew (vd : BitVec 8) (acc : BitVec 4) : BitVec 4 :=
  if invertQM vd acc then acc - balanceAccInc vd acc else acc + balanceAccInc vd acc

/-- `TMDS_data`. -/
def tmdsData (vd : BitVec 8) (acc : BitVec 4) : BitVec 10 :=
  let invert := invertQM vd acc
  BitVec.ofBool invert ++ BitVec.ofBool (qM8 vd) ++
    ((qM vd).extractLsb' 0 8 ^^^ if invert then 0xFF#8 else 0x00#8)

/-- `TMDS_code`. -/
def tmdsCode (cd : BitVec 2) : BitVec 10 :=
  if cd.getLsbD 1 then
    if cd.getLsbD 0 then 0b1010101011#10 else 0b0101010100#10
  else
    if cd.getLsbD 0 then 0b0010101011#10 else 0b1101010100#10

/-! ### One clock edge -/

/-- The inputs of one cycle. -/
structure Sample where
  vd : BitVec 8
  cd : BitVec 2
  vde : Bool
  deriving Repr, DecidableEq

/-- The registers. -/
structure Regs where
  tmds : BitVec 10
  balanceAcc : BitVec 4
  deriving Repr, DecidableEq

/-- The registers at power-up. -/
def powerUp : Regs := ⟨0, 0⟩

/-- The registers after the edge. -/
def step (r : Regs) (x : Sample) : Regs where
  tmds := if x.vde then tmdsData x.vd r.balanceAcc else tmdsCode x.cd
  balanceAcc := if x.vde then balanceAccNew x.vd r.balanceAcc else 0

/-! ### The parts of a word -/

section

variable (vd : BitVec 8) (acc : BitVec 4)

@[simp] theorem qM8_eq : qM8 vd = !xnor vd := by
  rw [qM8, qM, BitVec.getLsbD_append, if_neg (by decide)]
  exact BitVec.getLsbD_ofBool _ _

/-- The eight lower bits of `q_m` are the differential code of the pixel. -/
@[simp] theorem extractLsb'_qM : (qM vd).extractLsb' 0 8 = chain (xnor vd) vd := by
  refine BitVec.eq_of_getLsbD_eq fun i hi => ?_
  rw [BitVec.getLsbD_extractLsb', qM, Nat.zero_add, BitVec.getLsbD_append, if_pos hi]
  simp [hi]

/-- The wire carries the differential code, or its inverse. -/
theorem tmdsData_eq :
    tmdsData vd acc =
      BitVec.ofBool (invertQM vd acc) ++ BitVec.ofBool (!xnor vd) ++
        if invertQM vd acc then ~~~chain (xnor vd) vd else chain (xnor vd) vd := by
  rw [tmdsData, extractLsb'_qM, qM8_eq]
  cases invertQM vd acc with
  | false => simp
  | true => rw [if_pos rfl, if_pos rfl, show (0xFF#8) = BitVec.allOnes 8 from rfl,
      BitVec.xor_allOnes]

end

end Tmds
end Cyclone10

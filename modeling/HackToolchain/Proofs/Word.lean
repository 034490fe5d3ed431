/-
**The binary digits of a word.**

An assembled instruction is kept as sixteen binary digits, and the machine runs the word that these
digits stand for.  Reading the digits of a word gives the word back, so no instruction is changed
on its way from the assembler to the machine.  At the end stand a few facts about words that are
used as addresses.

Main results:

* `Numeral.readBinaryFrom_bits` — reading digits one after the other;
* `Word.readBinary_digits`, `Word.digits_inj` — **the digits of a word stand for it**.
-/
import Mathlib.Algebra.Group.Nat.Defs
import HackToolchain.Word

set_option relaxedAutoImplicit false
set_option autoImplicit false

namespace HackToolchain

/-- The binary digit of a bit. -/
def Numeral.bitDigit (b : Bool) : UInt8 := if b then 49 else 48

/-- Reading the low `k` bits of `n` after the value `m` shifts `m` up and adds them.  The
induction is on the number of digits left, and the bound says that `m` leaves room for them. -/
theorem Numeral.readBinaryFrom_bits (n : Nat) {k m : Nat} (hk : k ≤ 16) (hm : m < 2 ^ (16 - k)) :
    readBinaryFrom m ((List.range k).map fun i => bitDigit (n.testBit (k - 1 - i)))
      = 2 ^ k * m + n % 2 ^ k := by
  induction k generalizing m with
  | zero => simp [readBinaryFrom, Nat.mod_one]
  | succ k ih =>
      have hroom : 2 * m + (n.testBit k).toNat < 2 ^ (16 - k) := by
        have hpow : 2 ^ (16 - k) = 2 * 2 ^ (16 - (k + 1)) := by
          rw [← Nat.pow_succ']
          congr 1
          omega
        have hbit := (n.testBit k).toNat_le
        omega
      have hle : 2 ^ (16 - k) ≤ 2 ^ 16 := Nat.pow_le_pow_right (by omega) (by omega)
      have hdigit : (bitDigit (n.testBit k) = 48 ∨ bitDigit (n.testBit k) = 49) ∧
          2 * m + ((bitDigit (n.testBit k)).toNat - 48) = 2 * m + (n.testBit k).toNat := by
        cases n.testBit k <;> simp [bitDigit]
      have htail : ((List.range k).map Nat.succ).map (fun i => bitDigit (n.testBit (k + 1 - 1 - i)))
          = (List.range k).map fun i => bitDigit (n.testBit (k - 1 - i)) := by
        rw [List.map_map]
        refine List.map_congr_left fun i _ => ?_
        simp only [Function.comp_apply]
        congr 2
        omega
      rw [List.range_succ_eq_map, List.map_cons, htail]
      simp only [Nat.add_sub_cancel, Nat.sub_zero, readBinaryFrom, hdigit.1, if_true, hdigit.2]
      rw [if_pos (by omega), ih (by omega) hroom, Nat.mod_pow_succ, ← Nat.toNat_testBit]
      calc 2 ^ k * (2 * m + (n.testBit k).toNat) + n % 2 ^ k
          = 2 ^ k * (2 * m) + 2 ^ k * (n.testBit k).toNat + n % 2 ^ k := by rw [Nat.mul_add]
        _ = 2 ^ (k + 1) * m + 2 ^ k * (n.testBit k).toNat + n % 2 ^ k := by
          rw [Nat.pow_succ, Nat.mul_assoc]
        _ = 2 ^ (k + 1) * m + (n % 2 ^ k + 2 ^ k * (n.testBit k).toNat) := by omega

theorem Numeral.readBinary_binary (n : Nat) : readBinary (binary n) = BitVec.ofNat 16 n := by
  have hread := readBinaryFrom_bits n (Nat.le_refl 16) (m := 0) (by decide)
  have hbinary : binary n = (List.range 16).map fun i => bitDigit (n.testBit (16 - 1 - i)) := rfl
  rw [readBinary, hbinary, hread]
  apply BitVec.eq_of_toNat_eq
  simp

/-- **The digits of a word stand for it.** -/
@[simp] theorem Word.readBinary_digits (w : Word) : Numeral.readBinary w.digits = w := by
  rw [Word.digits, Numeral.readBinary_binary, BitVec.ofNat_toNat, BitVec.setWidth_eq]

theorem Word.digits_inj {v w : Word} : v.digits = w.digits ↔ v = w := by
  refine ⟨fun h => ?_, fun h => h ▸ rfl⟩
  rw [← Word.readBinary_digits v, h, Word.readBinary_digits]

/-! ### Words as addresses -/

theorem Word.toNat_ofNat_of_lt {n : Nat} (h : n < 65536) : (BitVec.ofNat 16 n).toNat = n := by
  rw [BitVec.toNat_ofNat]
  exact Nat.mod_eq_of_lt h

theorem Word.ofNat_toNat_of_nonneg {n : Int} (h : 0 ≤ n) :
    BitVec.ofNat 16 n.toNat = BitVec.ofInt 16 n := by
  rw [← BitVec.ofInt_natCast, Int.toNat_of_nonneg h]

theorem Word.add_one_add_ofNat (w : Word) (k : Nat) :
    w + 1 + BitVec.ofNat 16 k = w + BitVec.ofNat 16 (k + 1) := by
  rw [BitVec.add_assoc, BitVec.ofNat_add, BitVec.add_comm (BitVec.ofNat 16 k)]
  rfl

end HackToolchain

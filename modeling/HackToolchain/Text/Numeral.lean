/-
**Decimal and binary numerals.**

Main definitions:

* `Numeral.ofNat`, `Numeral.ofInt` — decimal digits of a number;
* `Numeral.value` — the number that a sequence of decimal digits stands for;
* `Numeral.readNat?`, `Numeral.readInt?` — reading a numeral that must not pass a bound;
* `Numeral.binary`, `Numeral.readBinary` — sixteen binary digits, and reading binary digits;
* `Numeral.wrap` — a sum or negation as 64-bit arithmetic gives it.

A numeral may have a million digits, so reading stops counting at the bound: once the value has
passed it, more digits do not bring it back.
-/
import HackToolchain.Text.Basic

set_option relaxedAutoImplicit false
set_option autoImplicit false

namespace HackToolchain.Numeral

/-! ### Decimal digits -/

/-- The decimal digit of a number below ten. -/
def digit (n : Nat) : UInt8 := 48 + n.toUInt8

/-- A decimal digit. -/
def isDigit (b : UInt8) : Bool := 48 ≤ b && b ≤ 57

/-- The value of a decimal digit. -/
def digitValue (b : UInt8) : Nat := b.toNat - 48

/-- The decimal digits of `n`, of which there are at most `fuel`, in front of `rest`. -/
def digitsBefore : (fuel n : Nat) → (rest : Text) → Text
  | 0, _, rest => rest
  | fuel + 1, n, rest =>
    if n < 10 then digit n :: rest else digitsBefore fuel (n / 10) (digit (n % 10) :: rest)

/-- The decimal digits of a number, without leading zeros. -/
def ofNat (n : Nat) : Text := digitsBefore (n + 1) n []

theorem digitsBefore_eq_append {fuel n : Nat} (h : n < fuel) (rest : Text) :
    digitsBefore fuel n rest = ofNat n ++ rest := by
  suffices ∀ fuel n, n < fuel → ∀ fuel', n < fuel' → ∀ rest rest' : Text,
      digitsBefore fuel n (rest ++ rest') = digitsBefore fuel' n rest ++ rest' by
    simpa [ofNat] using this fuel n h (n + 1) (Nat.lt_succ_self n) [] rest
  intro fuel
  induction fuel with
  | zero => intro n h; omega
  | succ fuel ih =>
      intro n h fuel' h' rest rest'
      obtain ⟨fuel', rfl⟩ : ∃ k, fuel' = k + 1 := ⟨fuel' - 1, by omega⟩
      by_cases hn : n < 10
      · simp [digitsBefore, hn]
      · simp only [digitsBefore, hn, if_false]
        exact ih (n / 10) (by omega) fuel' (by omega) (digit (n % 10) :: rest) rest'

theorem ofNat_of_lt {n : Nat} (h : n < 10) : ofNat n = [digit n] := by
  simp [ofNat, digitsBefore, h]

theorem ofNat_of_ge {n : Nat} (h : 10 ≤ n) : ofNat n = ofNat (n / 10) ++ [digit (n % 10)] := by
  have : ¬n < 10 := by omega
  rw [ofNat, digitsBefore, if_neg this, digitsBefore_eq_append (by omega)]

/-- The decimal digits of an integer, after a minus sign if it is negative. -/
def ofInt : Int → Text
  | .ofNat n => ofNat n
  | .negSucc n => 45 :: ofNat (n + 1)

/-- The number that a sequence of decimal digits stands for. -/
def value (t : Text) : Nat := t.foldl (fun n b => 10 * n + digitValue b) 0

/-- The number that a sequence of decimal digits stands for, or `cap` if it is larger. -/
def cappedValue (cap : Nat) (t : Text) : Nat :=
  t.foldl (fun n b => min cap (10 * n + digitValue b)) 0

/-- The number written by `t`, if `t` is a non-empty sequence of decimal digits and the number is
at most `bound`. -/
def readNat? (bound : Nat) (t : Text) : Option Nat :=
  if t.isEmpty || !t.all isDigit then none
  else
    let n := cappedValue (bound + 1) t
    if n ≤ bound then some n else none

/-- The integer written by `t`: decimal digits after at most one sign, with a value in
`-bound - 1, …, bound`. -/
def readInt? (bound : Nat) : Text → Option Int
  | 43 :: t => (readNat? bound t).map fun n => (n : Int)
  | 45 :: t => (readNat? (bound + 1) t).map fun n => -(n : Int)
  | t => (readNat? bound t).map fun n => (n : Int)

/-! ### Binary digits -/

/-- The sixteen binary digits of the low sixteen bits of `n`, highest first. -/
def binary (n : Nat) : Text :=
  (List.range 16).map fun i => if n.testBit (15 - i) then 49 else 48

/-- The value of binary digits read from left to right after the value `n`: a byte that is no
binary digit makes it zero, and a value that passes `65535` stays there. -/
def readBinaryFrom (n : Nat) : Text → Nat
  | [] => n
  | b :: t =>
    if b = 48 ∨ b = 49 then
      let m := 2 * n + (b.toNat - 48)
      if m ≤ 65535 then readBinaryFrom m t else 65535
    else 0

/-- The 16-bit value of a text of binary digits. -/
def readBinary (t : Text) : BitVec 16 := BitVec.ofNat 16 (readBinaryFrom 0 t)

/-! ### Machine integers -/

/-- The integer in the range of 64-bit two's complement that is congruent to `n`. -/
def wrap (n : Int) : Int := n.bmod 18446744073709551616

end HackToolchain.Numeral

/-
**Words execute as the instructions they encode.**

The machine takes an instruction apart bit by bit.  Here its effect is said once in the terms in
which instructions are written: a number of fifteen bits is loaded into the address register, and a
compute instruction evaluates its expression on the registers, stores the value in its
destinations, and jumps if the value satisfies its condition.  Later proofs never look at bits.

Main definitions:

* `Cpu.register` — the contents of the registers;
* `Compute.apply` — the effect of a compute instruction.

Main results:

* `alu_control` — the arithmetic unit computes the expression whose control bits it gets;
* `Cpu.exec_ofAddress` — the word of a number of fifteen bits loads the number;
* `Cpu.exec_word` — **the word of a compute instruction executes as the instruction is written**.
-/
import HackToolchain.Assembly.Compute
import HackToolchain.Cpu.Machine

set_option relaxedAutoImplicit false
set_option autoImplicit false

namespace HackToolchain

/-! ### The arithmetic unit -/

theorem Word.and_full (x : Word) : x &&& 65535#16 = x := BitVec.and_allOnes

theorem Word.full_and (x : Word) : 65535#16 &&& x = x := BitVec.allOnes_and

theorem Word.not_and_not (x y : Word) : ~~~(~~~x &&& ~~~y) = x ||| y := by
  rw [BitVec.not_and, BitVec.not_not, BitVec.not_not]

/-- **The arithmetic unit computes the expression whose control bits it gets.** -/
theorem alu_control (r : Register → Word) (c : Comp) :
    alu (r .D) (if c.readsMemory then r .M else r .A) c.control = c.eval r := by
  cases c with
  | zero | one | minusOne => simp [alu, Comp.control, Comp.eval]
  | same x | not x =>
      cases x <;>
        simp [alu, Comp.control, Comp.eval, Comp.readsMemory, Word.and_full, Word.full_and]
  | neg x | succ x | onePlus x | pred x =>
      cases x <;> simp [alu, Comp.control, Comp.eval, Comp.readsMemory] <;> bv_omega
  | dPlus y | plusD y | dAnd y | andD y =>
      cases y <;> simp [alu, Comp.control, Comp.eval, Comp.readsMemory, Operand.register]
  | dMinus y | minusD y =>
      cases y <;> simp [alu, Comp.control, Comp.eval, Comp.readsMemory, Operand.register] <;> bv_omega
  | dOr y | orD y =>
      cases y <;>
        simp [alu, Comp.control, Comp.eval, Comp.readsMemory, Operand.register, Word.not_and_not]

/-! ### The parts of a word -/

namespace Compute

/-- The bits of a jump, none of them set if there is none. -/
def jumpBits (i : Compute) : BitVec 3 :=
  match i.jump with
  | none => 0#3
  | some j => j.bits

theorem word_eq (i : Compute) :
    i.word = 0b111#3 ++ BitVec.ofBool i.comp.readsMemory ++ i.comp.control ++ Dest.bits i.dest
      ++ i.jumpBits := rfl

theorem getLsbD_word_fifteen (i : Compute) : i.word.getLsbD 15 = true := by
  rw [word_eq]
  simp only [BitVec.getLsbD_append]
  rfl

theorem getLsbD_word_twelve (i : Compute) : i.word.getLsbD 12 = i.comp.readsMemory := by
  rw [word_eq]
  simp only [BitVec.getLsbD_append]
  simp

theorem extract_word (i : Compute) : i.word.extractLsb' 6 6 = i.comp.control := by
  apply BitVec.eq_of_getLsbD_eq
  intro k hk
  have h3 : ¬6 + k < 3 := by omega
  have h6 : ¬6 + k - 3 < 3 := by omega
  have hk' : 6 + k - 3 - 3 = k := by omega
  rw [word_eq, BitVec.getLsbD_extractLsb']
  simp only [BitVec.getLsbD_append, hk, h3, h6, hk', if_true, if_false, decide_true,
    Bool.true_and]

theorem getLsbD_word_dest (i : Compute) :
    i.word.getLsbD 5 = decide (.A ∈ i.dest) ∧ i.word.getLsbD 4 = decide (.D ∈ i.dest) ∧
      i.word.getLsbD 3 = decide (.M ∈ i.dest) := by
  rw [word_eq, Dest.bits]
  simp only [BitVec.getLsbD_append]
  simp

theorem getLsbD_word_jump (i : Compute) {k : Nat} (hk : k < 3) :
    i.word.getLsbD k = i.jumpBits.getLsbD k := by
  rw [word_eq, BitVec.getLsbD_append, if_pos hk]

end Compute

/-! ### Executing -/

/-- The contents of the registers. -/
def Cpu.register (c : Cpu) : Register → Word
  | .A => c.a
  | .D => c.d
  | .M => c.ram.get c.a.toNat

@[simp] theorem Cpu.register_A (c : Cpu) : c.register .A = c.a := rfl

@[simp] theorem Cpu.register_D (c : Cpu) : c.register .D = c.d := rfl

@[simp] theorem Cpu.register_M (c : Cpu) : c.register .M = c.ram.get c.a.toNat := rfl

namespace Comp

variable (r : Register → Word)

@[simp] theorem eval_zero : zero.eval r = 0 := rfl

@[simp] theorem eval_minusOne : minusOne.eval r = -1 := rfl

@[simp] theorem eval_same (x : Register) : (same x).eval r = r x := rfl

@[simp] theorem eval_neg (x : Register) : (neg x).eval r = -r x := rfl

@[simp] theorem eval_succ (x : Register) : (succ x).eval r = r x + 1 := rfl

@[simp] theorem eval_pred (x : Register) : (pred x).eval r = r x - 1 := rfl

@[simp] theorem eval_dPlus_M : (dPlus .M).eval r = r .D + r .M := rfl

@[simp] theorem eval_dMinus_A : (dMinus .A).eval r = r .D - r .A := rfl

@[simp] theorem eval_minusD_M : (minusD .M).eval r = r .M - r .D := rfl

end Comp

namespace Compute

/-- Whether an instruction reads or writes memory. -/
def accessesMemory (i : Compute) : Bool := i.comp.readsMemory || decide (.M ∈ i.dest)

/-- Whether an instruction jumps on a value. -/
def jumpsOn (i : Compute) (v : Word) : Bool :=
  match i.jump with
  | none => false
  | some j => j.holds v

/-- The effect of an instruction: the value of its expression goes to its destinations, memory
being the cell at the old address, and the machine continues at the old address or one further. -/
def apply (i : Compute) (c : Cpu) : Cpu :=
  let v := i.comp.eval c.register
  { a := if .A ∈ i.dest then v else c.a
    d := if .D ∈ i.dest then v else c.d
    pc := if i.jumpsOn v then (c.a.toNat : Int) else c.pc + 1
    ram := if .M ∈ i.dest then c.ram.set c.a.toNat v else c.ram }

theorem jumps_word (i : Compute) (v : Word) : Cpu.jumps i.word v = i.jumpsOn v := by
  rw [Cpu.jumps, getLsbD_word_jump i (by omega), getLsbD_word_jump i (by omega),
    getLsbD_word_jump i (by omega), jumpBits, jumpsOn]
  cases i.jump with
  | none => simp
  | some j =>
      rcases Int.lt_trichotomy v.toInt 0 with h | h | h
      · have hne : v.toInt ≠ 0 := Int.ne_of_lt h
        have hnonpos : v.toInt ≤ 0 := Int.le_of_lt h
        have hneg : ¬0 ≤ v.toInt := Int.not_le.2 h
        cases j <;> simp [Jump.bits, Jump.holds, h, hne, hnonpos, hneg]
      · cases j <;> simp [Jump.bits, Jump.holds, h]
      · have hne : v.toInt ≠ 0 := Int.ne_of_gt h
        have hnonneg : 0 ≤ v.toInt := Int.le_of_lt h
        have hpos : ¬v.toInt ≤ 0 := Int.not_le.2 h
        cases j <;> simp [Jump.bits, Jump.holds, h, hne, hnonneg, hpos]

end Compute

namespace Cpu

/-- **The word of a compute instruction executes as the instruction is written**, unless it
accesses memory past the last cell. -/
theorem exec_word (i : Compute) (c : Cpu)
    (h : i.accessesMemory = true → c.a.toNat < Memory.size) : c.exec i.word = .ok (i.apply c) := by
  obtain ⟨hA, hD, hM⟩ := i.getLsbD_word_dest
  have halu : alu c.d (if i.comp.readsMemory = true then c.ram.get c.a.toNat else c.a)
      i.comp.control = i.comp.eval c.register := alu_control c.register i.comp
  have hread : ¬(i.comp.readsMemory && decide (Memory.size ≤ c.a.toNat)) = true := by
    intro hr
    rw [Bool.and_eq_true, decide_eq_true_eq] at hr
    have := h (by simp [Compute.accessesMemory, hr.1])
    omega
  have hwrite : ¬(decide (Register.M ∈ i.dest) && decide (Memory.size ≤ c.a.toNat)) = true := by
    intro hw
    rw [Bool.and_eq_true, decide_eq_true_eq, decide_eq_true_eq] at hw
    have := h (by simp [Compute.accessesMemory, hw.1])
    omega
  rw [exec, if_neg (by simp [i.getLsbD_word_fifteen])]
  simp only [i.getLsbD_word_twelve, hA, hD, hM, i.extract_word, if_neg hread, if_neg hwrite, halu,
    i.jumps_word, decide_eq_true_eq]
  rfl

/-- **The word of a number of fifteen bits loads the number.** -/
theorem exec_ofAddress {n : Nat} (h : n < 32768) (c : Cpu) :
    c.exec (Word.ofAddress n) = .ok { c with a := BitVec.ofNat 16 n, pc := c.pc + 1 } := by
  have hbit : (Word.ofAddress n).getLsbD 15 = false := by
    rw [Word.ofAddress, BitVec.getLsbD_ofNat, Nat.testBit_lt_two_pow (by omega)]
    simp
  rw [exec, if_pos hbit]
  rfl

end Cpu

end HackToolchain

/-
**Codes and words.**

A program is saved as codes and run as words.  A code is sixteen binary digits, and its word is found by
reading the digits from left to right.  The reader gives up at a byte that is no binary digit and at a
value that is too large; neither happens for sixteen binary digits, so the word is the value of the code
in the binary system.  All codes of an assembled program are such codes, also those that a session could
not write before all labels were known.  So nothing is lost on the way from words to codes and back.

Main definitions:

* `Numeral.binaryValue` — the value of binary digits, as in the positional system;
* `Numeral.ReadsTo` — binary digits are read to the end;
* `Numeral.IsCode` — sixteen binary digits;
* `Program.Coded` — all instructions of a program have codes, and words that the codes stand for;
* `Numeral.bits` — the binary digits of a row of bits.

Main results:

* `Numeral.readsTo_of_binary`, `Numeral.IsCode.readsTo` — **a code is read to the end**, and gives its
  value;
* `Assembler.coded_finish` — **all instructions of a program have codes**;
* `Compute.digits_word` — the code of a compute instruction is made of the codes of its parts;
* `codes_and_words_agree` — **codes and words determine each other**.
-/
import HackToolchain.Proofs.Assembly.Sessions
import Mathlib.Data.Nat.Digits.Defs

set_option relaxedAutoImplicit false
set_option autoImplicit false

namespace HackToolchain

namespace Numeral

/-! ### Reading binary digits -/

/-- The value of binary digits, the last of which counts one. -/
def binaryValue (t : Text) : Nat := Nat.ofDigits 2 (t.reverse.map digitValue)

/-- Binary digits are read to the end after the value `n`, and give the value `m`: no byte is refused,
and no value on the way is too large. -/
inductive ReadsTo : Nat → Text → Nat → Prop
  | nil (n : Nat) : ReadsTo n [] n
  | cons {n m : Nat} {b : UInt8} {t : Text} (hb : b = 48 ∨ b = 49)
      (hle : 2 * n + digitValue b ≤ 65535) (h : ReadsTo (2 * n + digitValue b) t m) :
      ReadsTo n (b :: t) m

/-- What is read to the end is what the reader gives. -/
theorem ReadsTo.readBinaryFrom_eq {n m : Nat} {t : Text} (h : ReadsTo n t m) :
    readBinaryFrom n t = m := by
  induction h with
  | nil n => rfl
  | cons hb hle h ih =>
      rw [readBinaryFrom, if_pos hb]
      exact (if_pos hle).trans ih

theorem binaryValue_cons (b : UInt8) (t : Text) :
    binaryValue (b :: t) = binaryValue t + 2 ^ t.length * digitValue b := by
  rw [binaryValue, List.reverse_cons, List.map_append, List.map_singleton, Nat.ofDigits_append,
    Nat.ofDigits_singleton, List.length_map, List.length_reverse, ← binaryValue]

theorem binaryValue_lt {t : Text} (h : ∀ b ∈ t, b = 48 ∨ b = 49) : binaryValue t < 2 ^ t.length := by
  have hdigits : ∀ d ∈ t.reverse.map digitValue, d < 2 := by
    intro d hd
    obtain ⟨b, hb, rfl⟩ := List.mem_map.1 hd
    rcases h b (List.mem_reverse.1 hb) with rfl | rfl <;> decide
  have hlt := Nat.ofDigits_lt_base_pow_length (Nat.lt_succ_self 1) hdigits
  rwa [List.length_map, List.length_reverse] at hlt

/-- **Binary digits are read to the end** as long as their value has sixteen bits.  The induction is on
the digits; each of them doubles the value before it. -/
theorem readsTo_of_binary {t : Text} (h : ∀ b ∈ t, b = 48 ∨ b = 49) {n : Nat}
    (hroom : 2 ^ t.length * n + binaryValue t ≤ 65535) :
    ReadsTo n t (2 ^ t.length * n + binaryValue t) := by
  induction t generalizing n with
  | nil => simpa [binaryValue] using ReadsTo.nil n
  | cons b t ih =>
      rw [List.forall_mem_cons] at h
      have hvalue : 2 ^ (b :: t).length * n + binaryValue (b :: t)
          = 2 ^ t.length * (2 * n + digitValue b) + binaryValue t := by
        rw [binaryValue_cons, List.length_cons, Nat.pow_succ, Nat.mul_add, Nat.mul_assoc]
        omega
      rw [hvalue] at hroom ⊢
      have hle : 2 * n + digitValue b ≤ 2 ^ t.length * (2 * n + digitValue b) :=
        Nat.le_mul_of_pos_left _ (Nat.two_pow_pos _)
      exact .cons h.1 (by omega) (ih h.2 hroom)

/-- Sixteen binary digits. -/
structure IsCode (t : Text) : Prop where
  length : t.length = 16
  binary : ∀ b ∈ t, b = 48 ∨ b = 49

namespace IsCode

variable {t : Text}

theorem binaryValue_le (h : IsCode t) : binaryValue t ≤ 65535 := by
  have hlt := binaryValue_lt h.binary
  rw [h.length] at hlt
  omega

/-- **A code is read to the end**, and gives its value. -/
theorem readsTo (h : IsCode t) : ReadsTo 0 t (binaryValue t) := by
  have hreads := readsTo_of_binary h.binary (n := 0)
  rw [Nat.mul_zero, Nat.zero_add] at hreads
  exact hreads h.binaryValue_le

theorem toNat_readBinary (h : IsCode t) : (readBinary t).toNat = binaryValue t := by
  rw [readBinary, h.readsTo.readBinaryFrom_eq]
  exact Word.toNat_ofNat_of_lt (Nat.lt_succ_of_le h.binaryValue_le)

end IsCode

end Numeral

open Numeral

theorem Word.isCode_digits (w : Word) : IsCode w.digits where
  length := by rw [Word.digits, binary, List.length_map, List.length_range]
  binary b hb := by
    obtain ⟨i, -, rfl⟩ := List.mem_map.1 hb
    split
    · exact Or.inr rfl
    · exact Or.inl rfl

/-! ### Programs -/

/-- All instructions of a program have codes, which are read to the end and give the words. -/
structure Program.Coded (p : Program) : Prop where
  isCode : ∀ i ∈ p.instructions, IsCode i.code
  reads : ∀ i ∈ p.instructions, ReadsTo 0 i.code i.word.toNat
  words : p.words.map BitVec.toNat = p.codes.map binaryValue
  codes : p.codes = p.words.map Word.digits

theorem Program.coded_of_digits {p : Program}
    (h : ∀ i ∈ p.instructions, ∃ w : Word, i.code = w.digits) : p.Coded := by
  have hcode : ∀ i ∈ p.instructions, IsCode i.code := by
    intro i hi
    obtain ⟨w, hw⟩ := h i hi
    exact hw ▸ w.isCode_digits
  refine ⟨hcode, fun i hi => ?_, ?_, ?_⟩
  · rw [Instruction.word, (hcode i hi).toNat_readBinary]
    exact (hcode i hi).readsTo
  · rw [Program.words, Program.codes, List.map_map, List.map_map]
    exact List.map_congr_left fun i hi => (hcode i hi).toNat_readBinary
  · rw [Program.words, Program.codes, List.map_map]
    refine List.map_congr_left fun i hi => ?_
    obtain ⟨w, hw⟩ := h i hi
    rw [Function.comp_apply, Instruction.word, hw, Word.readBinary_digits]

/-- **All instructions of a program have codes**, whatever has been read. -/
theorem Assembler.coded_finish (a : Assembler) : a.finish.Coded := by
  refine Program.coded_of_digits fun i hi => ?_
  obtain ⟨r, -, rfl⟩ := List.mem_map.1 hi
  exact ⟨_, rfl⟩

/-- The same codes are those of the same words. -/
theorem Program.Coded.codes_eq_iff {p q : Program} (hp : p.Coded) (hq : q.Coded) :
    p.codes = q.codes ↔ p.words = q.words := by
  rw [hp.codes, hq.codes]
  exact (List.map_injective_iff.2 fun v w => Word.digits_inj.1).eq_iff

/-- A session fills in all codes before it gives a program. -/
theorem AssemblySession.coded_finish_run (xs : List AssemblyStep) :
    (({} : AssemblySession).run xs).1.finish.2.Coded := by
  obtain ⟨b, -, hrun⟩ := Mirrors.start.run xs
  rw [hrun.finish.1]
  exact b.coded_finish

/-! ### The parts of a code -/

/-- The binary digits of a row of bits, the highest first. -/
def Numeral.bits {k : Nat} (w : BitVec k) : Text :=
  (List.range k).map fun i => bitDigit (w.getMsbD i)

theorem Numeral.bits_append {j k : Nat} (v : BitVec j) (w : BitVec k) :
    bits (v ++ w) = bits v ++ bits w := by
  rw [bits, List.range_add, List.map_append, List.map_map]
  congr 1
  · refine List.map_congr_left fun i hi => ?_
    rw [BitVec.getMsbD_append, if_neg (Nat.not_le_of_lt (List.mem_range.1 hi))]
  · refine List.map_congr_left fun i _ => ?_
    rw [Function.comp_apply, BitVec.getMsbD_append, if_pos (Nat.le_add_right j i), Nat.add_sub_cancel_left]

theorem Word.digits_eq_bits (w : Word) : w.digits = bits w := by
  refine List.map_congr_left fun i hi => ?_
  rw [BitVec.getMsbD, decide_eq_true (List.mem_range.1 hi), Bool.true_and]
  rfl

/-- The binary digits of a jump, zeros for none. -/
def Jump.code (j : Option Jump) : Text := j.elim (ascii "000") fun j => Numeral.bits j.bits

/-- **The code of a compute instruction is made of the codes of its parts**: three ones, seven digits for
the expression, three for the destination and three for the jump. -/
theorem Compute.digits_word (c : Compute) :
    c.word.digits = ascii "111" ++ (bits (BitVec.ofBool c.comp.readsMemory) ++ bits c.comp.control)
      ++ bits c.dest.bits ++ Jump.code c.jump := by
  obtain ⟨dest, comp, jump⟩ := c
  have hparts (condition : BitVec 3) :
      bits (0b111#3 ++ BitVec.ofBool comp.readsMemory ++ comp.control ++ dest.bits ++ condition)
        = ascii "111" ++ (bits (BitVec.ofBool comp.readsMemory) ++ bits comp.control)
          ++ bits dest.bits ++ bits condition := by
    have hones : ascii "111" = bits 0b111#3 := by decide
    simp only [hones, bits_append, List.append_assoc]
  rw [Word.digits_eq_bits]
  cases jump with
  | none => exact hparts 0#3
  | some j => exact hparts j.bits

/-- **Codes and words determine each other.**  The digits of a number are a code, and its word is the
number without its higher bits; the digits of a compute instruction are a code put together from its
parts.  Every instruction of an assembled program has a code, which is read to
the end; its word is the value of the code, so two programs have the same codes exactly if they have the
same words.  The same holds of all programs that a session gives. -/
theorem codes_and_words_agree :
    (∀ n : Nat, IsCode (Word.ofAddress n).digits ∧
      ∀ i : Instruction, i.code = (Word.ofAddress n).digits → i.word.toNat = n % 2 ^ 16) ∧
    (∀ c : Compute, IsCode c.word.digits ∧
      c.word.digits = ascii "111" ++ (bits (BitVec.ofBool c.comp.readsMemory) ++ bits c.comp.control)
        ++ bits c.dest.bits ++ Jump.code c.jump) ∧
    (∀ (lines : List Text) (p : Program), assemble lines = .ok p → p.Coded) ∧
    (∀ xs : List AssemblyStep, (({} : AssemblySession).run xs).1.finish.2.Coded) ∧
    ∀ (lines lines' : List Text) (p p' : Program), assemble lines = .ok p → assemble lines' = .ok p' →
      (p.codes = p'.codes ↔ p.words = p'.words) := by
  have hcoded : ∀ {lines : List Text} {p : Program}, assemble lines = .ok p → p.Coded := by
    intro lines p h
    obtain ⟨a, -, rfl⟩ := assemble_eq_ok h
    exact a.coded_finish
  refine ⟨fun n => ⟨Word.isCode_digits _, fun i hi => ?_⟩,
    fun c => ⟨Word.isCode_digits _, c.digits_word⟩, fun lines p => hcoded,
    AssemblySession.coded_finish_run, fun lines lines' p p' h h' => (hcoded h).codes_eq_iff (hcoded h')⟩
  rw [Instruction.word, hi, Word.readBinary_digits, Word.ofAddress, BitVec.toNat_ofNat]

/-- A jump to a label that is declared behind it. -/
def toLabel : List Text := [ascii "@END", ascii "0;JMP", ascii "AM=D+M;JLE", ascii "(END)"]

/-- The same jump to the address of the label. -/
def toAddress : List Text := [ascii "@3", ascii "0;JMP", ascii "MA=M+D;JLE"]

/-- The two programs have the same codes because they have the same words, and the first of the words is
the value of its code.  Of a number with seventeen bits sixteen are left. -/
theorem toLabel_codes_and_words :
    (∃ p p', assemble toLabel = .ok p ∧ assemble toAddress = .ok p' ∧ p.Coded ∧ p.codes = p'.codes ∧
      p.words.head? = some 3 ∧ p.codes.head? = some (ascii "0000000000000011")) ∧
    Instruction.word ⟨.label, (Word.ofAddress 65541).digits, 1, ascii "@x"⟩ = 5 := by
  obtain ⟨hnumber, -, hcoded, -, hagree⟩ := codes_and_words_agree
  have hsame : (assemble toLabel).toOption.map Program.words = some [3, 0xEA87, 0xF0AE] ∧
      (assemble toAddress).toOption.map Program.words = some [3, 0xEA87, 0xF0AE] := by decide +kernel
  refine ⟨?_, BitVec.eq_of_toNat_eq ((hnumber 65541).2 _ rfl)⟩
  cases hp : assemble toLabel with
  | error e => rw [hp] at hsame; cases hsame.1
  | ok p =>
      cases hp' : assemble toAddress with
      | error e => rw [hp'] at hsame; cases hsame.2
      | ok p' =>
          rw [hp, hp'] at hsame
          have hwords := Option.some.inj hsame.1
          have hcodes := (hagree _ _ p p' hp hp').2 (hwords.trans (Option.some.inj hsame.2).symm)
          refine ⟨p, p', rfl, rfl, hcoded _ p hp, hcodes, by rw [hwords]; rfl, ?_⟩
          rw [(hcoded _ p hp).codes, hwords]
          decide

end HackToolchain

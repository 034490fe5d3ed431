/-
**Compute instructions from their text to their effect.**

The assembler knows the written forms of destinations, expressions and jumps from three tables, and
the machine takes words apart bit by bit.  Here the two meet.  A line that is neither an address
instruction nor a label is accepted exactly if it is written `dest=comp;jump`, where destination and
jump may be missing, and the word that it becomes does what the line says: in every state of the
machine, for every value of the registers and of the memory.

Main definitions:

* `Compute.Performs` — the effect of an instruction, register by register and cell by cell.

Main results:

* `Dest.writable_iff_nodup` — the destinations that can be written are the registers without
  repetition, in any order;
* `Assembler.addLine_compute_iff` — which lines are accepted as compute instructions;
* `Machine.step_word_iff`, `Machine.step_word` — when a compute instruction fails, and what it does
  otherwise;
* `compute_line_executes` — **a compute instruction is executed as it is written**.
-/
import Mathlib.Data.List.Perm.Subperm
import HackToolchain.Proofs.Assembly.Malformed
import HackToolchain.Proofs.Cpu.Executing
import HackToolchain.Proofs.StackMachine.Agreement
import HackToolchain.Proofs.Text.Stripping

set_option relaxedAutoImplicit false
set_option autoImplicit false

namespace HackToolchain

/-! ### Lines that are compute instructions -/

/-- **The destinations that can be written** are the registers without repetition, in any order. -/
theorem Dest.writable_iff_nodup {d : Dest} : d.Writable ↔ d.Nodup := by
  constructor
  · rintro (rfl | h)
    · exact List.nodup_nil
    · revert d
      decide
  · intro h
    have hsub : d ⊆ [Register.A, .D, .M] := by
      intro x _
      cases x <;> simp
    have hlen : d.length ≤ 3 := (List.subperm_of_subset h hsub).length_le
    rcases d with _ | ⟨x, _ | ⟨y, _ | ⟨z, _ | ⟨w, rest⟩⟩⟩⟩
    · exact Or.inl rfl
    · cases x <;> decide
    · cases x <;> cases y <;> revert h <;> decide
    · cases x <;> cases y <;> cases z <;> revert h <;> decide
    · simp only [List.length_cons] at hlen
      omega

namespace Assembler

/-- A line that holds nothing but a statement, and that starts neither as an address instruction
nor as a label. -/
structure IsBareLine (line : Text) : Prop where
  comment : ¬[Text.slash, Text.slash] <:+: line
  trimmed : Text.trim line = line
  nonempty : line ≠ []
  address : line.head? ≠ some 64
  label : line.head? ≠ some 40

namespace IsBareLine

variable {line : Text}

theorem trim_code (h : IsBareLine line) : Text.trim (Text.code line) = line := by
  rw [Text.code_eq_self h.comment, h.trimmed]

theorem parse (h : IsBareLine line) :
    Statement.parse line = (Statement.parseCompute line).map fun c => .operation (.compute c) := by
  cases line with
  | nil => exact absurd rfl h.nonempty
  | cons b t =>
      refine Statement.parse_of_ne ?_ ?_ t
      · rintro rfl
        exact h.address rfl
      · rintro rfl
        exact h.label rfl

/-- The written form of a compute instruction is a bare line. -/
theorem of_text {i : Compute} (h : i.dest.Nodup) : IsBareLine i.text := by
  have hplain : i.text.IsPlain := Compute.isPlain_text (Dest.writable_iff_nodup.2 h)
  obtain ⟨b, t, htext, hat, hopen⟩ := Compute.head_text (Dest.writable_iff_nodup.2 h)
  have hslash : Text.slash ∉ i.text := by
    intro hmem
    exact absurd (hplain _ hmem) (by decide)
  refine ⟨fun hin => hslash (hin.subset (List.mem_cons_self ..)), Text.trim_of_isPlain hplain,
    ?_, ?_, ?_⟩
  · rw [htext]
    exact List.cons_ne_nil b t
  · rw [htext]
    exact fun hb => hat (Option.some.inj hb)
  · rw [htext]
    exact fun hb => hopen (Option.some.inj hb)

end IsBareLine

/-- A compute instruction on a bare line is appended to the code. -/
theorem addLine_compute {i : Compute} (h : IsBareLine i.text) (hd : i.dest.Nodup) (a : Assembler) :
    a.addLine i.text = ({ a.count with code := a.code.push (a.instructionOn i.text (.compute i)) },
      .ok ()) := by
  have hne : ¬i.text.isEmpty = true := fun hempty => h.nonempty (List.isEmpty_iff.1 hempty)
  have hparse : Statement.parse i.text = .ok (.operation (.compute i)) := by
    rw [h.parse, Statement.parseCompute_text (Dest.writable_iff_nodup.2 hd)]
    rfl
  simp only [addLine, instructionOn, h.trim_code, if_neg hne, hparse]
  rfl

/-- **Which bare lines are accepted**: those that are written as a compute instruction. -/
theorem addLine_compute_iff {line : Text} (h : IsBareLine line) (a : Assembler) :
    (a.addLine line).2 = .ok () ↔ ∃ i : Compute, i.dest.Nodup ∧ line = i.text := by
  constructor
  · intro hok
    have hne : ¬line.isEmpty = true := fun hempty => h.nonempty (List.isEmpty_iff.1 hempty)
    simp only [addLine, h.trim_code, if_neg hne, h.parse] at hok
    cases hp : Statement.parseCompute line with
    | error f =>
        rw [hp] at hok
        cases hok
    | ok i =>
        obtain ⟨hd, htext⟩ := Statement.parseCompute_eq_ok hp
        exact ⟨i, Dest.writable_iff_nodup.1 hd, htext⟩
  · rintro ⟨i, hd, rfl⟩
    rw [addLine_compute h hd]

/-- A compute instruction at the end of the code refers to nothing, so it changes no instruction
before it. -/
theorem finish_push_compute (a : Assembler) {r : ReadInstruction} {i : Compute}
    (h : r.operation = .compute i) :
    (finish { a with code := a.code.push r }).instructions
      = a.finish.instructions
        ++ [{ kind := .compute, code := i.word.digits, line := r.line, source := r.source }] := by
  have hreference : reference? r = none := by rw [reference?, h]
  have hcells : cells { a with code := a.code.push r } = a.cells := by
    simp [cells, hreference]
  simp only [finish, hcells, Array.toList_push, List.map_append, List.map_cons, List.map_nil, h]
  rfl

end Assembler

/-! ### What a compute instruction does -/

/-- An expression reads memory exactly if its written form names it. -/
theorem Comp.readsMemory_iff (c : Comp) : c.readsMemory = true ↔ Register.M.byte ∈ c.text := by
  have hall : ∀ c ∈ Comp.all, c.readsMemory = true ↔ Register.M.byte ∈ c.text := by decide +kernel
  exact hall c c.mem_all

namespace Compute

/-- What an instruction makes of registers and memory `c`: the value of its expression in `c` goes
to the registers that it names and to no others, memory being the one cell at the old address, and
the machine goes on at the old address if the value satisfies the condition. -/
structure Performs (i : Compute) (c c' : Cpu) : Prop where
  a : c'.a = if .A ∈ i.dest then i.comp.eval c.register else c.a
  d : c'.d = if .D ∈ i.dest then i.comp.eval c.register else c.d
  cell : ∀ n < Memory.size, c'.ram.get n
    = if .M ∈ i.dest ∧ n = c.a.toNat then i.comp.eval c.register else c.ram.get n
  pc : c'.pc = if i.jumpsOn (i.comp.eval c.register) then (c.a.toNat : Int) else c.pc + 1

theorem accessesMemory_iff (i : Compute) :
    i.accessesMemory = true ↔ Register.M.byte ∈ i.comp.text ∨ .M ∈ i.dest := by
  rw [accessesMemory, Bool.or_eq_true, decide_eq_true_eq, Comp.readsMemory_iff]

theorem performs_apply {i : Compute} {c : Cpu}
    (h : i.accessesMemory = true → c.a.toNat < Memory.size) : i.Performs c (i.apply c) := by
  refine ⟨rfl, rfl, ?_, rfl⟩
  intro n hn
  by_cases hM : .M ∈ i.dest
  · have ha : c.a.toNat < Memory.size := h (i.accessesMemory_iff.2 (Or.inr hM))
    simp only [apply, hM, if_true, true_and, Memory.get_set c.ram _ ha hn, eq_comm]
  · simp only [apply, hM, false_and, if_false]

end Compute

/-- An instruction that accesses memory past the last cell has no effect. -/
theorem Cpu.exec_word_outside {i : Compute} {c : Cpu} (h : i.accessesMemory = true)
    (ha : Memory.size ≤ c.a.toNat) : ∃ f, c.exec i.word = .error f := by
  have houtside : decide (Memory.size ≤ c.a.toNat) = true := decide_eq_true ha
  rw [exec, if_neg (by simp [i.getLsbD_word_fifteen])]
  simp only [i.getLsbD_word_twelve, i.getLsbD_word_dest.2.2, houtside, Bool.and_true]
  rw [Compute.accessesMemory, Bool.or_eq_true] at h
  rcases h with hread | hwrite
  · exact ⟨_, if_pos hread⟩
  · by_cases hread : i.comp.readsMemory = true
    · exact ⟨_, if_pos hread⟩
    · exact ⟨_, by rw [if_neg hread, if_pos hwrite]⟩

namespace Machine

variable {m : Machine} {i : Compute}

/-- **When a compute instruction fails**: exactly if it accesses memory and the address lies past
the last cell. -/
theorem step_word_iff (h : m.fetch? = some i.word) :
    (∃ f, m.step.2 = .error f) ↔ i.accessesMemory = true ∧ Memory.size ≤ m.cpu.a.toNat := by
  constructor
  · rintro ⟨f, hf⟩
    by_contra hin
    have hexec := Cpu.exec_word i m.cpu fun hacc =>
      Nat.lt_of_not_le fun hout => hin ⟨hacc, hout⟩
    simp only [step, h, hexec] at hf
    cases hf
  · rintro ⟨hacc, hout⟩
    obtain ⟨f, hf⟩ := Cpu.exec_word_outside hacc hout
    exact ⟨f, by simp only [step, h, hf]⟩

/-- A step that fails changes nothing but the count of steps. -/
theorem cpu_of_step_error {f : MemoryFault} (hf : m.step.2 = .error f) : m.step.1.cpu = m.cpu := by
  unfold step at hf ⊢
  split
  · rfl
  · next ins hfetch =>
      rw [hfetch] at hf
      dsimp only at hf ⊢
      split
      · rfl
      · next cpu hexec =>
          rw [hexec] at hf
          cases hf

/-- **What a compute instruction does** if it does not fail. -/
theorem step_word (h : m.fetch? = some i.word) (hok : m.step.2 = .ok ()) :
    i.Performs m.cpu m.step.1.cpu := by
  have hin : i.accessesMemory = true → m.cpu.a.toNat < Memory.size := by
    intro hacc
    by_contra hout
    obtain ⟨f, hf⟩ := (step_word_iff h).2 ⟨hacc, Nat.le_of_not_lt hout⟩
    rw [hok] at hf
    cases hf
  have hstep : m.step.1.cpu = i.apply m.cpu := by
    simp only [step, h, Cpu.exec_word i m.cpu hin]
  rw [hstep]
  exact Compute.performs_apply hin

end Machine

/-! ### From the text to the effect -/

/-- **A compute instruction is executed as it is written.**  A bare line is accepted exactly if it
is written `dest=comp;jump`, with registers without repetition as destination and with destination
and jump possibly missing.  It becomes one instruction behind those before it.  A machine that is
at the word of this instruction fails exactly if the line reads or writes memory and the address lies
past the last cell, and then keeps its registers and its memory.  Otherwise the value of the
expression goes where the line says, and the machine goes on where the line says. -/
theorem compute_line_executes {line : Text} (h : Assembler.IsBareLine line) (a : Assembler) :
    ((a.addLine line).2 = .ok () ↔ ∃ i : Compute, i.dest.Nodup ∧ line = i.text) ∧
    ∀ i : Compute, i.dest.Nodup → line = i.text →
      ∃ ins : Instruction,
        (a.addLine line).1.finish.instructions = a.finish.instructions ++ [ins] ∧
        ins.source = line ∧
        ∀ m : Machine, m.fetch? = some ins.word →
          ((∃ f, m.step.2 = .error f) ↔
            (Register.M.byte ∈ i.comp.text ∨ .M ∈ i.dest) ∧ Memory.size ≤ m.cpu.a.toNat) ∧
          (∀ f, m.step.2 = .error f → m.step.1.cpu = m.cpu) ∧
          (m.step.2 = .ok () → i.Performs m.cpu m.step.1.cpu) := by
  refine ⟨Assembler.addLine_compute_iff h a, ?_⟩
  rintro i hd rfl
  have hinstructions : (a.addLine i.text).1.finish.instructions = a.finish.instructions
      ++ [{ kind := .compute, code := i.word.digits, line := a.line + 1, source := i.text }] := by
    rw [Assembler.addLine_compute h hd]
    refine (Assembler.finish_push_compute a.count rfl).trans ?_
    rw [Assembler.instructionOn, h.trim_code]
    rfl
  refine ⟨_, hinstructions, rfl, fun m hm => ?_⟩
  rw [Instruction.word, Word.readBinary_digits] at hm
  refine ⟨?_, fun f hf => Machine.cpu_of_step_error hf, Machine.step_word hm⟩
  rw [Machine.step_word_iff hm, Compute.accessesMemory_iff]

/-- An instruction that subtracts from the cell at the address, keeps the difference as the next
address too, and jumps if it is negative. -/
def subtracting : Compute where
  dest := [.A, .M]
  comp := .minusD .M
  jump := some .lt

/-- With the address 16, the data 1 and nothing in the cell, the address and the cell become minus
one and the machine jumps to 16.  With the address 32768 it fails. -/
theorem subtracting_executes :
    (({} : Assembler).addLine (ascii "AM=M-D;JLT")).2 = .ok () ∧
    ∃ ins : Instruction,
      (({} : Assembler).addLine (ascii "AM=M-D;JLT")).1.finish.instructions = [ins] ∧
      (∀ m : Machine, m.fetch? = some ins.word → m.cpu.a = 16 → m.cpu.d = 1 →
        m.cpu.ram.get 16 = 0 → m.step.1.cpu.a = -1 ∧ m.step.1.cpu.d = 1 ∧
          m.step.1.cpu.ram.get 16 = -1 ∧ m.step.1.cpu.pc = 16) ∧
      ∀ m : Machine, m.fetch? = some ins.word → m.cpu.a = 32768 →
        (∃ f, m.step.2 = .error f) ∧ m.step.1.cpu = m.cpu := by
  have htext : ascii "AM=M-D;JLT" = subtracting.text := by decide
  have hbare : Assembler.IsBareLine (ascii "AM=M-D;JLT") := by
    rw [htext]
    exact .of_text (by decide)
  obtain ⟨hiff, hall⟩ := compute_line_executes hbare {}
  obtain ⟨ins, hins, -, hstep⟩ := hall subtracting (by decide) htext
  refine ⟨hiff.2 ⟨subtracting, by decide, htext⟩, ins, hins, ?_, ?_⟩
  · intro m hm ha hd hcell
    obtain ⟨hfail, -, hdone⟩ := hstep m hm
    have hok : m.step.2 = .ok () := by
      cases hresult : m.step.2 with
      | ok u => rfl
      | error f =>
          have hout := (hfail.1 ⟨f, hresult⟩).2
          rw [ha] at hout
          exact absurd hout (by decide)
    obtain ⟨hA, hD, hM, hpc⟩ := hdone hok
    have haddress : m.cpu.a.toNat = 16 := by rw [ha]; decide
    have hvalue : subtracting.comp.eval m.cpu.register = -1 := by
      simp only [subtracting, Comp.eval_minusD_M, Cpu.register_M, Cpu.register_D, haddress, hcell, hd]
      decide
    rw [hvalue] at hA hD hM hpc
    rw [haddress] at hM hpc
    exact ⟨hA, hD.trans hd, hM 16 (by decide), hpc⟩
  · intro m hm ha
    obtain ⟨hfail, hkept, -⟩ := hstep m hm
    have hout : ∃ f, m.step.2 = .error f := hfail.2 ⟨by decide, by rw [ha]; decide⟩
    obtain ⟨f, hf⟩ := hout
    exact ⟨⟨f, hf⟩, hkept f hf⟩

end HackToolchain

/-
**Instructions that load an address.**

A line that starts with the sign `@` is meant to load a number into the address register.  Its word
is the number itself, cut off at sixteen bits, and the machine takes a word for an address only if
the highest bit is clear.  Decimal numbers are checked when they are read, but the address of a label
grows with the program, and so does the cell of a variable.  This module says exactly which lines are
executed as they are meant.

Main definitions:

* `Program.denotation?` — the number that is written behind the sign `@`;
* `Word.Loads` — executing a word loads a number and does nothing else.

Main results:

* `Word.loads_ofAddress_iff` — **a word loads its number exactly if that has fifteen bits**;
* `assembled_address_loads_iff` — **a line loads its number exactly if that has fifteen bits**, and
  only labels and variables can have more.
-/
import HackToolchain.Proofs.Assembly.Linking
import HackToolchain.Proofs.Cpu.Executing

set_option relaxedAutoImplicit false
set_option autoImplicit false

namespace HackToolchain

/-! ### What is written -/

/-- The number that is written behind the sign `@`: a decimal number, or the address of a name, which
is predefined, a label or a variable, looked for in this order. -/
def Program.denotation? (p : Program) (x : Text) : Option Nat :=
  if x.all Numeral.isDigit then some (Numeral.value x)
  else (predefinedCells.lookup x).or ((p.labels.find? x).or (p.cells.find? x))

/-- What has been read behind the sign `@` is resolved to what is written there, and only labels and
variables have more than fifteen bits. -/
theorem Program.denotation?_of_parseAddress (p : Program) {x : Text} {a : Address}
    (h : Statement.parseAddress x = .ok a) :
    p.addressValue? a = p.denotation? x ∧ ∀ n, p.addressValue? a = some n → 32768 ≤ n →
      p.labels.find? x = some n ∨ p.cells.find? x = some n := by
  cases x with
  | nil => cases h
  | cons b t =>
      rw [Statement.parseAddress] at h
      split at h
      · split at h
        · next n hn =>
            injection h with h
            obtain ⟨-, hall, hvalue, hle⟩ := Numeral.readNat?_eq_some_iff.1 hn
            subst h
            refine ⟨?_, fun m hm hlarge => ?_⟩
            · rw [denotation?, if_pos hall, hvalue]
              rfl
            · injection hm with hm
              omega
        · cases h
      · next hdigit =>
          have hall : ¬(b :: t).all Numeral.isDigit = true := by
            intro hall
            rw [List.all_cons, Bool.and_eq_true] at hall
            exact hdigit hall.1
          rw [denotation?, if_neg hall]
          split at h
          · next n hn =>
              injection h with h
              subst h
              refine ⟨by rw [hn]; rfl, fun m hm hlarge => ?_⟩
              injection hm with hm
              have hsmall : ∀ q ∈ predefinedCells, q.2 < 32768 := by decide
              have := hsmall _ (SymbolTable.mem_of_find? hn)
              omega
          · next hn =>
              split at h
              · injection h with h
                subst h
                refine ⟨by rw [hn]; rfl, fun m hm _ => ?_⟩
                exact Option.or_eq_some_iff.1 hm |>.imp id And.right
              · cases h

/-! ### What is executed -/

/-- Executing the word loads the number `n` into the address register and does nothing else, from
any state. -/
def Word.Loads (w : Word) (n : Nat) : Prop :=
  ∀ m : Machine, m.fetch? = some w → ∃ m', m.step = (m', .ok ()) ∧ m'.cpu.a.toNat = n ∧
    m'.cpu.pc = m.cpu.pc + 1 ∧ m'.cpu.d = m.cpu.d ∧ m'.cpu.ram = m.cpu.ram

/-- On two zeros the arithmetic unit has four results. -/
theorem alu_zero (control : BitVec 6) :
    alu 0 0 control = 0 ∨ alu 0 0 control = 1 ∨ alu 0 0 control = -1 ∨ alu 0 0 control = -2 := by
  revert control
  decide

/-- A computing word leaves in the address register of a fresh machine either zero or what the
arithmetic unit makes of two zeros. -/
theorem Cpu.a_of_exec_fresh {w : Word} (hw : w.getLsbD 15 = true) {d : Cpu}
    (h : ({} : Cpu).exec w = .ok d) : d.a = 0 ∨ d.a = alu 0 0 (w.extractLsb' 6 6) := by
  have hzero : Memory.zero.get (0 : Word).toNat = 0 := CellTree.get_fill 0 15 0
  have hinside : decide (Memory.size ≤ (0 : Word).toNat) = false := by decide
  rw [exec, if_neg (by rw [hw]; decide)] at h
  simp only [hinside, Bool.and_false, Bool.false_eq_true, if_false, hzero, ite_self] at h
  injection h with h
  rw [← h]
  by_cases hdest : w.getLsbD 5 = true
  · exact Or.inr (if_pos hdest)
  · exact Or.inl (if_neg hdest)

/-- No computing word puts itself into the address register of a fresh machine. -/
theorem Cpu.a_ne_of_exec_fresh {w : Word} (hw : w.getLsbD 15 = true) {d : Cpu}
    (h : ({} : Cpu).exec w = .ok d) : d.a ≠ w := by
  intro ha
  rcases Cpu.a_of_exec_fresh hw h with hd | hd
  · rw [← ha, hd] at hw
    revert hw
    decide
  · rw [ha] at hd
    have hcases := alu_zero (w.extractLsb' 6 6)
    rw [← hd] at hcases
    rcases hcases with hv | hv | hv | hv
    all_goals
      rw [hv] at hd hw
      revert hd hw
      decide

theorem Machine.exec_of_step {m m' : Machine} {w : Word} (hfetch : m.fetch? = some w)
    (h : m.step = (m', .ok ())) : m.cpu.exec w = .ok m'.cpu := by
  simp only [step, hfetch] at h
  cases hexec : m.cpu.exec w with
  | error f => rw [hexec] at h; injection h with _ h; cases h
  | ok d => rw [hexec] at h; injection h with h _; rw [← h]

/-- **A word loads its number exactly if that has fifteen bits.** -/
theorem Word.loads_ofAddress_iff {n : Nat} : (Word.ofAddress n).Loads n ↔ n < 32768 := by
  constructor
  · intro h
    -- a fresh machine with this word alone: if the highest bit were set, the word would compute, and
    -- could not end up in the address register
    obtain ⟨m, hstep, ha, -⟩ := h { rom := #[Word.ofAddress n] } rfl
    have hexec := Machine.exec_of_step rfl hstep
    have hlt : n < 65536 := ha ▸ m.cpu.a.isLt
    have hword : m.cpu.a = Word.ofAddress n :=
      BitVec.eq_of_toNat_eq (ha.trans (Word.toNat_ofNat_of_lt hlt).symm)
    cases hbit : (Word.ofAddress n).getLsbD 15 with
    | false =>
        rw [Word.ofAddress, BitVec.getLsbD_ofNat, Nat.testBit_eq_decide_div_mod_eq] at hbit
        simp at hbit
        omega
    | true => exact absurd hword (Cpu.a_ne_of_exec_fresh hbit hexec)
  · intro h m hfetch
    refine ⟨{ m with
      cpu := { m.cpu with a := BitVec.ofNat 16 n, pc := m.cpu.pc + 1 }
      steps := m.steps + 1 }, ?_, Word.toNat_ofNat_of_lt (by omega), rfl, rfl, rfl⟩
    simp only [Machine.step, hfetch, Cpu.exec_ofAddress h]

/-! ### What is assembled -/

/-- **A line loads its number exactly if that has fifteen bits.**  In every program that is accepted,
a line with the sign `@` becomes an instruction, the number behind the sign is resolved, and executing
the instruction loads this number and does nothing else if and only if the number is below 32768.
Only labels and variables can have larger ones. -/
theorem assembled_address_loads_iff {before after : List Text} {line x : Text} {p : Program}
    (h : assemble (before ++ line :: after) = .ok p) (hx : Text.trim (Text.code line) = 64 :: x) :
    ∃ i n, p.instructions[instructionCount before]? = some i ∧ i.source = 64 :: x ∧
      p.denotation? x = some n ∧ (i.word.Loads n ↔ n < 32768) ∧
      (32768 ≤ n → p.labels.find? x = some n ∨ p.cells.find? x = some n) := by
  obtain ⟨a, ha, hs⟩ := statement?_of_address h hx
  obtain ⟨i, hi, hsource, hword⟩ := instruction_of_line h hs
  have hmem : Operation.load a ∈ operations (before ++ line :: after) := by
    rw [operations_append, operations_cons_operation hs]
    simp
  obtain ⟨n, hn⟩ := addressValue?_isSome h hmem
  obtain ⟨hdenotes, hlarge⟩ := p.denotation?_of_parseAddress ha
  refine ⟨i, n, hi, hsource.trans hx, hdenotes ▸ hn, ?_, hlarge n hn⟩
  rw [hword, resolve_load hn]
  exact Word.loads_ofAddress_iff

/-- Lines that do nothing are read, whatever stands before them. -/
theorem Assembler.addLines_replicate (a : Assembler) (n : Nat) :
    ∃ b, a.addLines (List.replicate n (ascii "0")) = (b, .ok ()) ∧ b.labels = a.labels := by
  induction n generalizing a with
  | zero => exact ⟨a, rfl, rfl⟩
  | succ n ih =>
      -- the first line adds one instruction to the code and leaves the labels alone
      obtain ⟨b, hb, hlabels⟩ := ih { a.count with
        code := a.code.push (a.instructionOn (ascii "0") (.compute { comp := .zero })) }
      exact ⟨b, hb, hlabels⟩

theorem instructionCount_replicate (n : Nat) :
    instructionCount (List.replicate n (ascii "0")) = n := by
  have hline : operationOn? (ascii "0") = some (.compute { comp := .zero }) := by decide
  rw [instructionCount, operations, List.filterMap_replicate_of_some hline, List.length_replicate]

/-- A program with a label behind `n` instructions that loads it. -/
theorem assemble_replicate (n : Nat) :
    ∃ p, assemble (List.replicate n (ascii "0") ++ [ascii "(L)", ascii "@L"]) = .ok p ∧
      p.labels.find? (ascii "L") = some n := by
  obtain ⟨a, ha, hlabels⟩ := Assembler.addLines_replicate {} n
  have hfresh : a.labels.find? (ascii "L") = none := by rw [hlabels]; rfl
  obtain ⟨b, hb⟩ : ∃ b, a.addLines [ascii "(L)", ascii "@L"] = (b, .ok ()) := by
    have hlabel : a.addLine (ascii "(L)")
        = ({ a.count with labels := (ascii "L", a.code.size) :: a.labels }, .ok ()) := by
      have hparse : a.addLine (ascii "(L)") = a.count.addStatement (ascii "(L)") (.label (ascii "L")) :=
        rfl
      rw [hparse, Assembler.addStatement]
      simp only [Assembler.count, hfresh]
    exact ⟨_, by rw [Assembler.addLines, hlabel]; rfl⟩
  have hp : assemble (List.replicate n (ascii "0") ++ [ascii "(L)", ascii "@L"]) = .ok b.finish := by
    rw [assemble, Assembler.addLines_append.2 ⟨a, ha, hb⟩]
  refine ⟨_, hp, (labels_find?_iff hp).2 ⟨_, _, _, rfl, rfl, ?_⟩⟩
  exact (instructionCount_replicate n).symm

/-- The label behind 32767 instructions is loaded, and the one behind 32768 is not. -/
theorem assembled_label_loads_up_to_32767 :
    (∃ p i, assemble (List.replicate 32767 (ascii "0") ++ [ascii "(L)", ascii "@L"]) = .ok p ∧
      p.instructions[32767]? = some i ∧ i.word.Loads 32767) ∧
    ∃ p i, assemble (List.replicate 32768 (ascii "0") ++ [ascii "(L)", ascii "@L"]) = .ok p ∧
      p.instructions[32768]? = some i ∧ p.denotation? (ascii "L") = some 32768 ∧
      ¬i.word.Loads 32768 := by
  have hload : ∀ k, ∃ p i,
      assemble (List.replicate k (ascii "0") ++ [ascii "(L)", ascii "@L"]) = .ok p ∧
        p.instructions[k]? = some i ∧ p.denotation? (ascii "L") = some k ∧
        (i.word.Loads k ↔ k < 32768) := by
    intro k
    obtain ⟨p, hp, hlabel⟩ := assemble_replicate k
    have hlines : List.replicate k (ascii "0") ++ [ascii "(L)", ascii "@L"]
        = (List.replicate k (ascii "0") ++ [ascii "(L)"]) ++ ascii "@L" :: [] := by simp
    have hcount : instructionCount (List.replicate k (ascii "0") ++ [ascii "(L)"]) = k := by
      rw [instructionCount_append, instructionCount_replicate]
      rfl
    have hdenotes : p.denotation? (ascii "L") = some k := by
      have hname : predefinedCells.lookup (ascii "L") = none := by decide
      rw [Program.denotation?, if_neg (by decide), hname, hlabel]
      rfl
    obtain ⟨i, n, hi, -, hn, hloads, -⟩ :=
      assembled_address_loads_iff (hlines ▸ hp) (x := ascii "L") rfl
    obtain rfl : n = k := Option.some.inj (hn.symm.trans hdenotes)
    rw [hcount] at hi
    exact ⟨p, i, hp, hi, hdenotes, hloads⟩
  obtain ⟨p, i, hp, hi, -, hloads⟩ := hload 32767
  obtain ⟨p', i', hp', hi', hdenotes', hloads'⟩ := hload 32768
  exact ⟨⟨p, i, hp, hi, hloads.2 (by decide)⟩,
    p', i', hp', hi', hdenotes', fun h => absurd (hloads'.1 h) (by decide)⟩

end HackToolchain

/-
**Running installed code.**

Code without jumps changes registers and memory in a way that does not depend on where it stands.
So it is followed on its own, apart from the program counter, and what was found holds wherever
the code is installed: the machine runs through it and stops behind it.  Jumps are left to the
places where they are made.

Main definitions:

* `Machine.Reaches` — the machine gets from one state to another;
* `Program.Runs` — the same about registers and memory alone;
* `Program.follow?` — the effect of code without jumps;
* `Program.Leads` — getting from an address and a memory to another address and memory;
* `Program.Brings` — the same about machines, with a property of the memory at the end.

Main results:

* `Program.Runs.reaches` — a machine that has loaded the program runs as the program does;
* `Program.runs_of_follow?` — **installed code without jumps has the effect that following it
  shows**;
* `Program.runs_of_follow?_jump` — the same with a jump at the end;
* `Program.Leads.trans`, `Program.Brings.trans` — ways through a program are put together.
-/
import HackToolchain.Proofs.Assembly.Installed
import HackToolchain.Proofs.Cpu.Executing

set_option relaxedAutoImplicit false
set_option autoImplicit false

namespace HackToolchain

/-! ### Runs -/

/-- The machine gets from one state to another, by steps that do not fail.  A machine that has
halted makes no step. -/
inductive Machine.Reaches : Machine → Machine → Prop
  | refl (m : Machine) : Reaches m m
  | step {m m' n : Machine} (running : m.halted = false) (ok : m.step = (m', .ok ()))
      (rest : Reaches m' n) : Reaches m n

theorem Machine.Reaches.trans {m m' n : Machine} (h : m.Reaches m') (h' : m'.Reaches n) :
    m.Reaches n := by
  induction h with
  | refl => exact h'
  | step running ok _ ih => exact .step running ok (ih h')

namespace Program

/-- The program takes registers and memory from one state to another. -/
inductive Runs (p : Program) : Cpu → Cpu → Prop
  | refl (c : Cpu) : Runs p c c
  | step {c d e : Cpu} {k : Nat} {w : Word} (pc : c.pc = k) (fetched : p.words[k]? = some w)
      (executed : c.exec w = .ok d) (rest : Runs p d e) : Runs p c e

namespace Runs

variable {p : Program} {c d e : Cpu}

theorem trans (h : p.Runs c d) (h' : p.Runs d e) : p.Runs c e := by
  induction h with
  | refl => exact h'
  | step pc fetched executed _ ih => exact .step pc fetched executed (ih h')

theorem single {k : Nat} {w : Word} (pc : c.pc = k) (fetched : p.words[k]? = some w)
    (executed : c.exec w = .ok d) : p.Runs c d :=
  .step pc fetched executed (.refl d)

/-- **A machine that has loaded the program runs as the program does.** -/
theorem reaches (h : p.Runs c d) {m : Machine} (hrom : m.rom = p.words.toArray) (hcpu : m.cpu = c) :
    ∃ m', m.Reaches m' ∧ m'.rom = m.rom ∧ m'.cpu = d := by
  induction h generalizing m with
  | refl c => exact ⟨m, .refl m, rfl, hcpu⟩
  | @step c d e k w pc fetched executed _ ih =>
      have hfetch : m.fetch? = some w := by
        rw [Machine.fetch?, hcpu, pc, if_neg (by omega), hrom, Int.toNat_natCast,
          List.getElem?_toArray]
        exact fetched
      have hrunning : m.halted = false := by rw [Machine.halted, hfetch]; rfl
      have hstep : m.step = ({ m with cpu := d, steps := m.steps + 1 }, .ok ()) := by
        simp only [Machine.step, hfetch, hcpu, executed]
      obtain ⟨m', hreach, hrom', hcpu'⟩ := ih (m := { m with cpu := d, steps := m.steps + 1 }) hrom rfl
      exact ⟨m', .step hrunning hstep hreach, hrom', hcpu'⟩

end Runs

/-! ### Following code without jumps -/

/-- The effect of an item on registers and memory, apart from the program counter.  There is none
for a number of more than fifteen bits, for a jump, and for an access past the last cell. -/
def followItem? (p : Program) (c : Cpu) : Item → Option Cpu
  | .load t =>
    match p.value? t with
    | some n => if n < 32768 then some { c with a := BitVec.ofNat 16 n } else none
    | none => none
  | .compute i =>
    if i.jump = none ∧ (i.accessesMemory = true → c.a.toNat < 32768) then
      some { i.apply c with pc := c.pc }
    else none
  | .label _ | .blank | .comment _ => some c

/-- The effect of code without jumps on registers and memory, apart from the program counter. -/
def follow? (p : Program) : List Item → Cpu → Option Cpu
  | [], c => some c
  | i :: is, c => (p.followItem? c i).bind (p.follow? is)

@[simp] theorem follow?_nil (p : Program) (c : Cpu) : p.follow? [] c = some c := rfl

@[simp] theorem follow?_cons (p : Program) (i : Item) (is : List Item) (c : Cpu) :
    p.follow? (i :: is) c = (p.followItem? c i).bind (p.follow? is) := rfl

@[simp] theorem follow?_append (p : Program) (is js : List Item) (c : Cpu) :
    p.follow? (is ++ js) c = (p.follow? is c).bind (p.follow? js) := by
  induction is generalizing c with
  | nil => rfl
  | cons i is ih =>
      rw [List.cons_append, follow?_cons, follow?_cons, Option.bind_assoc]
      exact Option.bind_congr fun d _ => ih d

/-- The effect of an item does not depend on the program counter. -/
theorem followItem?_pc {p : Program} {c d : Cpu} {i : Item} (h : p.followItem? c i = some d)
    (k : Int) : p.followItem? { c with pc := k } i = some { d with pc := k } := by
  cases i with
  | load t =>
      simp only [followItem?] at h ⊢
      cases hv : p.value? t with
      | none => rw [hv] at h; cases h
      | some n =>
          simp only [hv] at h ⊢
          split at h
          · next hn => rw [if_pos hn]; injection h with h; rw [← h]
          · cases h
  | compute i =>
      simp only [followItem?] at h ⊢
      split at h
      · next hi => rw [if_pos hi]; injection h with h; rw [← h]; rfl
      · cases h
  | label name | blank | comment t => injection h with h; rw [← h]; rfl

/-- The effect of code does not depend on the program counter. -/
theorem follow?_pc {p : Program} {c d : Cpu} {is : List Item} (h : p.follow? is c = some d)
    (k : Int) : p.follow? is { c with pc := k } = some { d with pc := k } := by
  induction is generalizing c with
  | nil => injection h with h; rw [← h]; rfl
  | cons i is ih =>
      obtain ⟨c', hc', h⟩ := Option.bind_eq_some_iff.1 h
      rw [follow?_cons, followItem?_pc hc' k]
      exact ih h

/-- An installed item that is not a jump has its effect, and the machine goes on behind it. -/
theorem runs_of_followItem? {p : Program} {c d : Cpu} {i : Item} {is : List Item} {k : Nat}
    (hi : p.Installed k (i :: is)) (hpc : c.pc = k) (h : p.followItem? c i = some d) :
    p.Runs c { d with pc := (k + codeSize [i] : Nat) } := by
  cases i with
  | load t =>
      obtain ⟨⟨n, hn, hword⟩, -⟩ := hi
      simp only [followItem?, hn] at h
      split at h
      · next hlt =>
          injection h with h
          refine .single hpc hword ?_
          rw [Cpu.exec_ofAddress hlt, hpc, ← h]
          rfl
      · cases h
  | compute i =>
      simp only [followItem?] at h
      split at h
      · next hjump =>
          injection h with h
          have happly : i.apply c = { d with pc := (k + codeSize [.compute i] : Nat) } := by
            rw [← h, Compute.apply, Compute.jumpsOn, hjump.1, hpc]
            rfl
          exact .single hpc hi.1 (happly ▸ Cpu.exec_word i c hjump.2)
      · cases h
  | label name | blank | comment t =>
      injection h with h
      have hstay : c = { d with pc := (k : Int) } := by rw [← h, ← hpc]
      exact hstay ▸ .refl c

/-- **Installed code without jumps has the effect that following it shows**, and the machine goes
on behind it. -/
theorem runs_of_follow? {p : Program} {c d : Cpu} {is : List Item} {k : Nat}
    (hi : p.Installed k is) (hpc : c.pc = k) (h : p.follow? is c = some d) :
    p.Runs c { d with pc := (k + codeSize is : Nat) } := by
  induction is generalizing c d k with
  | nil =>
      injection h with h
      rw [← h, codeSize_nil, Nat.add_zero, ← hpc]
      exact .refl c
  | cons i is ih =>
      obtain ⟨c', hc', h⟩ := Option.bind_eq_some_iff.1 h
      have happend : p.Installed k ([i] ++ is) := hi
      have hrest := installed_append.1 happend
      have hfirst := runs_of_followItem? hi hpc hc'
      have hnext := ih hrest.2 rfl (follow?_pc h (k + codeSize [i] : Nat))
      have hsize : k + codeSize [i] + codeSize is = k + codeSize (i :: is) := by
        rw [Nat.add_assoc, ← codeSize_append, List.singleton_append]
      rw [hsize] at hnext
      exact hfirst.trans hnext

/-- **Installed code with one jump at its end** continues at the address in the address register if
the condition of the jump holds of its value, and otherwise behind the jump. -/
theorem runs_of_follow?_jump {p : Program} {c d : Cpu} {is js : List Item} {comp : Comp} {j : Jump}
    {k k' : Nat} (hi : p.Installed k (is ++ .jump comp j :: js)) (hpc : c.pc = k)
    (h : p.follow? is c = some d) (hm : comp.readsMemory = false)
    (hk' : (if j.holds (comp.eval d.register) then d.a.toNat else k + codeSize is + 1) = k') :
    p.Runs c { d with pc := k' } := by
  obtain ⟨his, hjump⟩ := installed_append.1 hi
  have hexec := Cpu.exec_word { comp, jump := some j } { d with pc := (k + codeSize is : Nat) }
    (by simp [Compute.accessesMemory, hm])
  refine (runs_of_follow? his hpc h).trans (.single rfl hjump.1 (hexec.trans ?_))
  have hregister : { d with pc := (k + codeSize is : Nat) }.register = d.register := rfl
  simp only [Compute.apply, Compute.jumpsOn, List.not_mem_nil, if_false, hregister, ← hk']
  split <;> rfl

/-! ### From address to address -/

/-- From the address `k` with the memory `r` the program gets to the address `k'` with the memory
`r'`, whatever the registers hold. -/
def Leads (p : Program) (k : Nat) (r : Memory) (k' : Nat) (r' : Memory) : Prop :=
  ∀ c : Cpu, c.pc = k → c.ram = r → ∃ c', p.Runs c c' ∧ c'.pc = k' ∧ c'.ram = r'

namespace Leads

variable {p : Program} {k₁ k₂ k₃ : Nat} {r₁ r₂ r₃ : Memory}

theorem trans (h : p.Leads k₁ r₁ k₂ r₂) (h' : p.Leads k₂ r₂ k₃ r₃) : p.Leads k₁ r₁ k₃ r₃ := by
  intro c hpc hram
  obtain ⟨c₂, hrun, hpc₂, hram₂⟩ := h c hpc hram
  obtain ⟨c₃, hrun', hpc₃, hram₃⟩ := h' c₂ hpc₂ hram₂
  exact ⟨c₃, hrun.trans hrun', hpc₃, hram₃⟩

/-- Installed code without jumps leads from its beginning to its end. -/
theorem of_follow? {is : List Item} {k : Nat} {r r' : Memory} (hi : p.Installed k is)
    (h : ∀ c : Cpu, c.ram = r → ∃ d, p.follow? is c = some d ∧ d.ram = r') :
    p.Leads k r (k + codeSize is) r' := by
  intro c hpc hram
  obtain ⟨d, hd, hram'⟩ := h c hram
  exact ⟨_, runs_of_follow? hi hpc hd, rfl, hram'⟩

end Leads

/-- A machine that has loaded the program gets from the address `k` with the memory `r` to the
address `k'`, without an error, and there its memory is as `q` says. -/
def Brings (p : Program) (k : Nat) (r : Memory) (k' : Nat) (q : Memory → Prop) : Prop :=
  ∀ m : Machine, m.rom = p.words.toArray → m.cpu.pc = k → m.cpu.ram = r →
    ∃ m', m.Reaches m' ∧ m'.rom = m.rom ∧ m'.cpu.pc = k' ∧ q m'.cpu.ram

/-- A machine goes where the program leads. -/
theorem Leads.brings {p : Program} {k k' : Nat} {r r' : Memory} {q : Memory → Prop}
    (h : p.Leads k r k' r') (hq : q r') : p.Brings k r k' q := by
  intro m hrom hpc hram
  obtain ⟨d, hrun, hpc', hram'⟩ := h m.cpu hpc hram
  obtain ⟨m', hreaches, hrom', hcpu⟩ := hrun.reaches hrom rfl
  refine ⟨m', hreaches, hrom', hcpu ▸ hpc', ?_⟩
  rw [hcpu, hram']
  exact hq

theorem Brings.imp {p : Program} {k k' : Nat} {r : Memory} {q q' : Memory → Prop}
    (h : p.Brings k r k' q) (hq : ∀ r', q r' → q' r') : p.Brings k r k' q' := by
  intro m hrom hpc hram
  obtain ⟨m', hreaches, hrom', hpc', hq'⟩ := h m hrom hpc hram
  exact ⟨m', hreaches, hrom', hpc', hq _ hq'⟩

theorem Brings.trans {p : Program} {k₁ k₂ k₃ : Nat} {r : Memory} {q q' : Memory → Prop}
    (h : p.Brings k₁ r k₂ q) (h' : ∀ r', q r' → p.Brings k₂ r' k₃ q') : p.Brings k₁ r k₃ q' := by
  intro m hrom hpc hram
  obtain ⟨m₂, hreaches, hrom₂, hpc₂, hq⟩ := h m hrom hpc hram
  obtain ⟨m₃, hreaches', hrom₃, hpc₃, hq'⟩ := h' _ hq m₂ (hrom₂.trans hrom) hpc₂ rfl
  exact ⟨m₃, hreaches.trans hreaches', hrom₃.trans hrom₂, hpc₃, hq'⟩

end Program

end HackToolchain

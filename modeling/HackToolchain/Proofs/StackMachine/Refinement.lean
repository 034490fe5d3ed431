/-
**The machine refines the stack machine.**

`Proofs/StackMachine/Simulation.lean` follows registers and memory through the code of commands.
Here the result is said of machines: one that has loaded the program of a unit and represents a
state of the stack machine reaches, for every run of the stack machine from there, a machine that
represents the state at its end.

Main definitions:

* `Machine.Represents` — a machine stands at a command, and its memory agrees with a state.

Main results:

* `CompilationUnit.machine_refines_stackMachine` — **compiled and assembled units run as their
  commands say**.
-/
import HackToolchain.Proofs.StackMachine.Simulation

set_option relaxedAutoImplicit false
set_option autoImplicit false

namespace HackToolchain

open StackMachine

/-- The machine has loaded the program, stands at the address of the next command, and has the
memory of the state, but for the scratch cells. -/
structure Machine.Represents (m : Machine) (l : Listing) (p : Program) (s : State) : Prop where
  rom : m.rom = p.words.toArray
  pc : m.cpu.pc = l.address s.next
  ram : m.cpu.ram.Agree s.ram

/-- A machine behind the last instruction has halted. -/
theorem Machine.halted_of_length_le {m : Machine} {p : Program} (hrom : m.rom = p.words.toArray)
    {k : Nat} (hpc : m.cpu.pc = k) (hk : p.instructions.length ≤ k) : m.halted = true := by
  have hwords : p.words.length = p.instructions.length := List.length_map _
  have hfetch : m.fetch? = none := by
    rw [fetch?, hpc, if_neg (by omega), hrom, Int.toNat_natCast, List.getElem?_toArray]
    exact List.getElem?_eq_none (by omega)
  rw [halted, hfetch]
  rfl

namespace CompilationUnit.Executable

variable {u : CompilationUnit} {o : CompileOptions} {l : Listing} {p : Program}

/-- Every run of the stack machine is followed by the machine, which halts behind the last
command. -/
theorem reaches_of_run (h : u.Executable o l p) {s t : State} (hrun : (l.image p).Run s t)
    {m : Machine} (hm : m.Represents l p s) :
    ∃ m', m.Reaches m' ∧ m'.Represents l p t ∧
      (t.next = l.commands.length → m'.halted = true) := by
  obtain ⟨c, hruns, hpc, hram⟩ := h.simulate_run hrun hm.pc hm.ram
  obtain ⟨m', hreaches, hrom, hcpu⟩ := hruns.reaches hm.rom rfl
  rw [← hcpu] at hpc hram
  have hrom' := hrom.trans hm.rom
  refine ⟨m', hreaches, ⟨hrom', hpc, hram⟩, fun hlast => ?_⟩
  refine Machine.halted_of_length_le hrom' hpc (Nat.le_of_eq ?_)
  rw [hlast, h.address_length]

/-- A machine with any memory starts a unit with a bootstrap by itself. -/
theorem reaches_boot (h : u.Executable o l p) (hboot : o.bootstrap = true) {m : Machine}
    (hrom : m.rom = p.words.toArray) (hpc : m.cpu.pc = 0) :
    ∃ s m', u.boot? o (l.image p) m.cpu.ram = some s ∧ m.Reaches m' ∧ m'.Represents l p s := by
  obtain ⟨s, hs, hleads⟩ := h.leads_boot hboot m.cpu.ram
  obtain ⟨c, hruns, hpc', hram⟩ := hleads m.cpu hpc rfl
  obtain ⟨m', hreaches, hrom', hcpu⟩ := hruns.reaches hrom rfl
  rw [← hcpu] at hpc' hram
  exact ⟨s, m', hs, hreaches, hrom'.trans hrom, hpc', hram ▸ Memory.Agree.refl _⟩

end CompilationUnit.Executable

/-- **Compiled and assembled units run as their commands say.**  If a unit fits its program, the
machine follows every run of the stack machine, of any length, whose steps are safe.  With a
bootstrap it gets from the beginning of the program to the state in which the unit starts. -/
theorem CompilationUnit.machine_refines_stackMachine {u : CompilationUnit} {o : CompileOptions}
    {lines : List Text} {p : Program} (hcompile : u.compile o = .ok lines)
    (hassemble : assemble lines = .ok p) :
    ∃ l, u.listing o = .ok l ∧ lines = render l.items ∧ u.commands o.entry = .ok l.commands ∧
      (u.Fits o l p →
        (∀ (s t : State) (m : Machine), (l.image p).Run s t → m.Represents l p s →
          ∃ m', m.Reaches m' ∧ m'.Represents l p t ∧
            (t.next = l.commands.length → m'.halted = true)) ∧
        (o.bootstrap = true → ∀ m : Machine, m.rom = p.words.toArray → m.cpu.pc = 0 →
          ∃ s m', u.boot? o (l.image p) m.cpu.ram = some s ∧ m.Reaches m' ∧
            m'.Represents l p s)) := by
  obtain ⟨l, hlinked, hlines⟩ := exists_linked hcompile hassemble
  refine ⟨l, hlinked.listing, hlines, commands_of_listing hlinked.listing, fun hfits => ?_⟩
  have h : u.Executable o l p := { toLinked := hlinked, toFits := hfits }
  exact ⟨fun s t m hrun hm => h.reaches_of_run hrun hm, fun hboot m => h.reaches_boot hboot⟩

/-- A unit that keeps a number in a static cell and jumps over a command to its end. -/
def keeping : CompilationUnit where
  modules := [{
    name := ascii "Main"
    lines := [⟨1, ascii "push constant 3"⟩, ⟨2, ascii "pop static 0"⟩, ⟨3, ascii "goto END"⟩,
      ⟨4, ascii "push constant 9"⟩, ⟨5, ascii "label END"⟩] }]

/-- The commands of the unit. -/
def keepingCommands : List PlacedCommand :=
  [⟨ascii "Main", ⟨1, ascii "push constant 3"⟩, .push .constant 3⟩,
    ⟨ascii "Main", ⟨2, ascii "pop static 0"⟩, .pop .statics 0⟩,
    ⟨ascii "Main", ⟨3, ascii "goto END"⟩, .jump (ascii "END")⟩,
    ⟨ascii "Main", ⟨4, ascii "push constant 9"⟩, .push .constant 9⟩,
    ⟨ascii "Main", ⟨5, ascii "label END"⟩, .label (ascii "END")⟩]

theorem run_keepingCommands {P : Image} (hcommands : P.commands = keepingCommands)
    (hstatic : P.staticCell (ascii "Main") 0 = 16) {r : Memory} (hr : r.sp = 256) :
    P.Run ⟨0, r⟩ ⟨5, ((r.push 3).drop).set 16 (r.push 3).top⟩ := by
  have hsafe : ∀ {k r c}, keepingCommands[k]? = some c → Image.SafeCommand r c.command →
      P.Safe ⟨k, r⟩ := by
    intro k r c hk hc c' hc'
    rw [Option.mem_def, hcommands, hk] at hc'
    injection hc' with hc'
    exact hc' ▸ hc
  have hpush : Image.SafeCommand r (.push .constant 3) := by
    constructor <;> simp [Image.stackCells, Image.effective?, Image.indexedCell?, hr]
  have hpop : Image.SafeCommand (r.push 3) (.pop .statics 0) := by
    constructor <;> simp [Image.stackCells, Image.effective?, Image.indexedCell?, hr]
  have hjump : ∀ s name, Image.SafeCommand s (.jump name) ∧ Image.SafeCommand s (.label name) := by
    intro s name
    constructor <;> constructor <;> simp [Image.stackCells, Image.effective?]
  generalize hkept : CellTree.set (r.push 3).drop 16 (r.push 3).top = kept
  have hstore : P.step? ⟨1, r.push 3⟩ = some ⟨2, kept⟩ := by
    rw [Image.step?, hcommands, ← hkept]
    simp only [keepingCommands, List.getElem?_cons_succ, List.getElem?_cons_zero, Image.store,
      Image.cell?, Image.directCell?, hstatic, Option.some_or]
    rfl
  have hgoto : P.step? ⟨2, kept⟩ = some ⟨4, kept⟩ := by
    have hend : P.declaration? (ascii "END") = some 4 := by
      rw [Image.declaration?, hcommands]
      decide
    rw [Image.step?, hcommands]
    exact Image.continueAt?_eq_some.2 ⟨hend, rfl⟩
  refine .step (t := ⟨1, r.push 3⟩) (hsafe rfl hpush) (by rw [Image.step?, hcommands]; rfl) ?_
  refine .step (hsafe rfl hpop) hstore (.step (hsafe rfl (hjump _ _).1) hgoto ?_)
  exact .step (hsafe rfl (hjump _ _).2) (by rw [Image.step?, hcommands]; rfl) (.refl _)

/-- Started with an empty memory, the machine halts with the number in the first static cell. -/
theorem keeping_halts :
    ∃ lines p m, keeping.compile {} = .ok lines ∧ assemble lines = .ok p ∧
      (Machine.load p.words).Reaches m ∧ m.halted = true ∧ m.cpu.ram.get 16 = 3 := by
  obtain ⟨l, p, ⟨hlisting, hassemble⟩, hcompile, hfits, hcommands, hstatic⟩ :=
    CompilationUnit.exists_linked_of_test (u := keeping) (o := {}) (fun l p => keeping.Fits {} l p ∧
      l.commands = keepingCommands ∧ (l.image p).staticCell (ascii "Main") 0 = 16) (by decide +kernel)
  obtain ⟨l', hl', -, -, hrefines⟩ :=
    CompilationUnit.machine_refines_stackMachine hcompile hassemble
  obtain rfl : l = l' := by rw [hlisting] at hl'; injection hl'
  obtain ⟨hruns, hboots⟩ := hrefines hfits
  obtain ⟨s, m, hs, hreaches, hm⟩ := hboots rfl (Machine.load p.words) rfl rfl
  have hany : keeping.modules.any (·.declares ({} : CompileOptions).entry) = false := by decide +kernel
  simp only [CompilationUnit.boot?, hany, Bool.false_eq_true, if_false, Option.some.injEq] at hs
  subst hs
  obtain ⟨m', hreaches', hm', hhalts⟩ :=
    hruns _ _ m (run_keepingCommands hcommands hstatic (Memory.get_set_self _ _ _)) hm
  refine ⟨_, p, m', hcompile, hassemble, hreaches.trans hreaches', hhalts ?_, ?_⟩
  · rw [hcommands]; rfl
  · rw [hm'.ram 16 (by omega) (by omega) (by omega)]
    simp [Memory.top, Memory.push, Memory.sp, Memory.get_set]

end HackToolchain

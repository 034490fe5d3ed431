/-
**Assembled units run as their commands say.**

A unit is *executable* if it has been compiled and assembled into a program that fits into the
instruction memory, and if the names in it can be told apart by the assembler.  The machine then
does what the stack machine does: from the address of a command it gets to the address of the next
command of the stack machine, and in between nothing is different but the scratch cells.

Main definitions:

* `Listing.image` — the program of the stack machine that a unit means;
* `CompilationUnit.Fits`, `CompilationUnit.Executable` — what is asked of a unit;
* `Place.Denotes` — a place in the code stands for a cell of a segment;
* `CompilationUnit.boot?` — the state in which a unit with a bootstrap starts.

Main results:

* `CompilationUnit.Executable.denotes_of_placed` — the generator finds the cells of segments;
* `Program.arrives_operate`, `CompilationUnit.Executable.arrives_push` and so on — the code of each
  kind of command;
* `CompilationUnit.Executable.simulate_command` — **the code of a command does what the command
  says**;
* `CompilationUnit.Executable.simulate_run` — **the machine follows the stack machine**, however
  long it runs;
* `CompilationUnit.Executable.leads_boot` — the bootstrap leads to the starting state.
-/
import HackToolchain.Proofs.StackMachine.Operators

set_option relaxedAutoImplicit false
set_option autoImplicit false

namespace HackToolchain

open StackMachine

/-! ### Executable units -/

/-- The program of the stack machine that a unit means.  A static cell of a named module is the
variable that the assembler has allotted to its symbol, and one of an unnamed module has an address
of its own. -/
def Listing.image (l : Listing) (p : Program) : Image where
  commands := l.commands
  address := l.address
  staticCell module i :=
    if module.isEmpty then (16 + i).toNat
    else (p.cells.find? (Generator.staticSymbol module i)).getD 0

namespace CompilationUnit

/-- A unit whose static cells are named after their indices, and in which names are used as the
assembler understands them, with a program of at most 32767 instructions. -/
structure Fits (u : CompilationUnit) (o : CompileOptions) (l : Listing) (p : Program) : Prop where
  modules : ∀ m ∈ u.modules, m.name = [] ∨ Text.isSymbol m.name = true
  index : o.statics = .index
  size : p.instructions.length ≤ 32767
  targets : ∀ c ∈ l.commands, ∀ name ∈ c.command.target?,
    ∃ c' ∈ l.commands, c'.command.declared? = some name
  notPredefined : ∀ c ∈ l.commands, ∀ name ∈ c.command.declared?, isPredefined name = false
  notStatic : ∀ c ∈ l.commands, ∀ name ∈ c.command.declared?, ∀ c' ∈ l.commands,
    c'.module ≠ [] → ∀ i ∈ c'.command.staticIndex?, name ≠ Generator.staticSymbol c'.module i

instance (u : CompilationUnit) (o : CompileOptions) (l : Listing) (p : Program) :
    Decidable (u.Fits o l p) :=
  decidable_of_iff ((∀ m ∈ u.modules, m.name = [] ∨ Text.isSymbol m.name = true) ∧
      o.statics = .index ∧ p.instructions.length ≤ 32767 ∧
      (∀ c ∈ l.commands, ∀ name ∈ c.command.target?,
        ∃ c' ∈ l.commands, c'.command.declared? = some name) ∧
      (∀ c ∈ l.commands, ∀ name ∈ c.command.declared?, isPredefined name = false) ∧
      (∀ c ∈ l.commands, ∀ name ∈ c.command.declared?, ∀ c' ∈ l.commands,
        c'.module ≠ [] → ∀ i ∈ c'.command.staticIndex?, name ≠ Generator.staticSymbol c'.module i))
    ⟨fun h => ⟨h.1, h.2.1, h.2.2.1, h.2.2.2.1, h.2.2.2.2.1, h.2.2.2.2.2⟩,
      fun h => ⟨h.modules, h.index, h.size, h.targets, h.notPredefined, h.notStatic⟩⟩

/-- A unit that has been compiled and assembled into a program that fits it. -/
structure Executable (u : CompilationUnit) (o : CompileOptions) (l : Listing) (p : Program) : Prop
    extends Linked u o l p, Fits u o l p

end CompilationUnit

/-! ### Cells of segments -/

/-- A place in the code stands for a cell of a segment. -/
inductive Place.Denotes (P : Image) (p : Program) (module : Text) (s : Segment) (i : Int) :
    Place → Prop
  | value (hdirect : P.directCell? module i s = none) (hindexed : ∀ r, Image.indexedCell? r i s = none)
      (hlo : -32768 ≤ i) (hhi : i ≤ 32767) : Denotes P p module s i (.value i)
  | indexed {base : String} {b : Nat} (hbase : predefinedCells.lookup (ascii base) = some b)
      (hb : b < 32768) (hlo : 0 ≤ i) (hhi : i ≤ 32767) (hdirect : P.directCell? module i s = none)
      (hindexed : ∀ r : Memory, Image.indexedCell? r i s = some (r.get b + BitVec.ofInt 16 i)) :
      Denotes P p module s i (.indexed base i)
  | direct {t : Target} {n : Nat} (ht : p.value? t = some n) (hn : n < 32768) (h13 : n ≠ 13)
      (h14 : n ≠ 14) (hdirect : P.directCell? module i s = some (BitVec.ofNat 16 n)) :
      Denotes P p module s i (.direct t)

namespace CompilationUnit.Executable

variable {u : CompilationUnit} {o : CompileOptions} {l : Listing} {p : Program}

/-- The symbol of a static cell that is used is a variable, and its cell is the static cell. -/
theorem value?_staticSymbol (h : u.Executable o l p) {c : PlacedCommand} (hc : c ∈ l.commands)
    (hmodule : c.module ≠ []) {i : Int} (hi : c.command.staticIndex? = some i) {n : Nat}
    (hn : p.value? (.symbol (Generator.staticSymbol c.module i)) = some n) :
    n = (l.image p).staticCell c.module i ∧ 16 ≤ n ∧ n < 256 := by
  obtain ⟨m, hm, hname, -⟩ := module_of_mem_listing h.listing hc
  have hsymbol : Text.isSymbol c.module = true :=
    hname ▸ (h.modules m hm).resolve_left (hname ▸ hmodule)
  have hcell := h.cell_of_static h.modules hsymbol
    (fun c' hc' hd => h.notStatic c' hc' _ hd c hc hmodule i hi rfl) hn
  refine ⟨?_, h.cell_bounds h.modules h.targets hcell⟩
  have hempty : ¬c.module.isEmpty = true := by simpa using hmodule
  simp only [Listing.image, if_neg hempty, hcell, Option.getD_some]

/-- **The generator finds the cells of segments.** -/
theorem denotes_of_placed (h : u.Executable o l p) {c : PlacedCommand} (hc : c ∈ l.commands)
    {g g' : Generator} (hmode : g.mode = o.statics) (hmodule : g.module = c.module) {s : Segment}
    {i : Int} (hcommand : c.command = .push s i ∨ c.command = .pop s i) {pl : Place}
    (hpl : g.Placed s i g' pl) {k : Nat} {code : List Item} (hinstalled : p.Installed k code)
    (hload : ∀ t, pl = .direct t → .load t ∈ code) : pl.Denotes (l.image p) p c.module s i := by
  have hvalid : (Command.push s i).Valid := by
    have hvalid := valid_of_mem_listing h.listing hc
    rcases hcommand with hpush | hpop
    · rwa [hpush] at hvalid
    · rw [hpop] at hvalid; exact hvalid
  obtain ⟨hlo, hhi, hi⟩ := hvalid
  cases hpl with
  | constant => exact .value rfl (fun _ => rfl) hlo hhi
  | locals =>
      exact .indexed (b := 1) rfl (by omega) (hi (by decide)) hhi rfl fun _ => rfl
  | arguments =>
      exact .indexed (b := 2) rfl (by omega) (hi (by decide)) hhi rfl fun _ => rfl
  | this =>
      exact .indexed (b := 3) rfl (by omega) (hi (by decide)) hhi rfl fun _ => rfl
  | that =>
      exact .indexed (b := 4) rfl (by omega) (hi (by decide)) hhi rfl fun _ => rfl
  | pointerThis =>
      exact .direct (n := 3) (p.value?_predefined rfl) (by omega) (by omega) (by omega) rfl
  | pointerThat =>
      exact .direct (n := 4) (p.value?_predefined rfl) (by omega) (by omega) (by omega) rfl
  | temp h8 =>
      have h0 := hi (by decide)
      refine .direct (n := (5 + i).toNat) rfl (by omega) (by omega) (by omega) ?_
      rw [Word.ofNat_toNat_of_nonneg (by omega)]
      rfl
  | statics ht =>
      have h0 := hi (by decide)
      have hstatic : c.command.staticIndex? = some i := by
        rcases hcommand with hpush | hpop
        · rw [hpush]; rfl
        · rw [hpop]; rfl
      obtain ⟨n, hn⟩ := hinstalled.load (hload _ rfl)
      have hfound := Generator.found_of_staticTarget ht h0 hhi
      have h239 := hfound.index_le
      have htarget := hfound.target_index (hmode.trans h.index)
      rw [hmodule] at htarget
      -- only the cells of named modules go through a symbol, and so through the assembler
      by_cases hempty : c.module.isEmpty = true
      · rw [if_pos hempty] at htarget
        subst htarget
        refine .direct (n := (16 + i).toNat) rfl (by omega) (by omega) (by omega) ?_
        simp only [Image.directCell?, Listing.image, if_pos hempty]
      · rw [if_neg hempty] at htarget
        subst htarget
        obtain ⟨hcell, h16, h256⟩ := h.value?_staticSymbol hc (by simpa using hempty) hstatic hn
        refine .direct hn (by omega) (by omega) (by omega) ?_
        rw [hcell]
        rfl

/-- The code of a command of an executable unit stands at its address. -/
theorem code_of_command (h : u.Executable o l p) {k : Nat} {c : PlacedCommand}
    (hk : l.commands[k]? = some c) :
    ∃ (g g' : Generator) (code : List Item), g.mode = o.statics ∧ g.module = c.module ∧
      g.Wrote c.command g' code ∧ p.Installed (l.address k) code ∧
      l.address (k + 1) = l.address k + codeSize code := by
  obtain ⟨m, hm, hname, -⟩ := module_of_mem_listing h.listing (List.mem_of_getElem? hk)
  exact h.toLinked.code_of_command hk fun _ => hname ▸ h.modules m hm

theorem address_lt (h : u.Executable o l p) (k : Nat) : l.address k < 32768 := by
  have hle := h.address_le k
  have hsize := h.size
  omega

/-- A name that is declared stands for the address of its declaration. -/
theorem value?_of_declaration? (h : u.Executable o l p) {name : Text} {k : Nat}
    (hk : (l.image p).declaration? name = some k) :
    p.value? (.symbol name) = some (l.address k) := by
  obtain ⟨hlt, hdeclared, -⟩ := List.findIdx?_eq_some_iff_getElem.1 hk
  have hget := List.getElem?_eq_getElem hlt
  have hd := beq_iff_eq.1 hdeclared
  have hnot := h.notPredefined _ (List.mem_of_getElem? hget) name hd
  exact Program.value?_of_label (by simpa [isPredefined] using hnot) (h.label_of_declared hget hd)

/-- What a command continues at is declared. -/
theorem declaration?_of_target (h : u.Executable o l p) {c : PlacedCommand} (hc : c ∈ l.commands)
    {name : Text} (ht : c.command.target? = some name) :
    ∃ k, (l.image p).declaration? name = some k := by
  obtain ⟨c', hc', hd⟩ := h.targets c hc name ht
  exact (l.image p).exists_declaration? hc' hd

/-- The static cells of an executable unit are no scratch cells. -/
theorem regular (h : u.Executable o l p) : (l.image p).Regular := by
  intro c hc s i hcommand a ha
  obtain ⟨k, hk⟩ := List.getElem?_of_mem hc
  obtain ⟨g, g', code, hmode, hmodule, hwrote, hinstalled, -⟩ := h.code_of_command hk
  have hdenotes : ∃ pl : Place, pl.Denotes (l.image p) p c.module s i := by
    have hcases := hcommand
    rcases hcases with hc' | hc'
    · rw [hc'] at hwrote
      cases hwrote with
      | push hpl =>
          exact ⟨_, h.denotes_of_placed hc hmode hmodule hcommand hpl hinstalled
            (by rintro t rfl; simp [Code.push])⟩
    · rw [hc'] at hwrote
      cases hwrote with
      | pop hpl =>
          exact ⟨_, h.denotes_of_placed hc hmode hmodule hcommand hpl hinstalled
            (by rintro t rfl; simp [Code.pop])⟩
  obtain ⟨pl, hdenotes⟩ := hdenotes
  cases hdenotes with
  | value hdirect | indexed _ _ _ _ hdirect => rw [hdirect] at ha; cases ha
  | direct _ hn h13 h14 hdirect =>
      rw [hdirect] at ha
      injection ha with ha
      rw [← ha, Word.toNat_ofNat_of_lt (Nat.lt_trans hn (by decide))]
      exact ⟨hn, h13, h14⟩

end CompilationUnit.Executable

/-! ### The code of pushes and pops -/

namespace Place.Denotes

variable {p : Program} {P : Image} {module : Text} {s : Segment} {i : Int} {pl : Place}

theorem follow?_push (hd : pl.Denotes P p module s i) {c : Cpu} (h0 : 0 < c.ram.sp.toNat)
    (h : c.ram.sp.toNat < 32768)
    (hcell : ∀ a ∈ Image.indexedCell? c.ram i s, a.toNat ≤ 32767) :
    ∃ d, p.follow? (Code.push pl) c = some d ∧ d.ram = c.ram.push (P.fetch module c.ram s i) := by
  cases hd with
  | value hdirect hindexed hlo hhi =>
      obtain ⟨a, ha⟩ := Program.follow?_push_value (p := p) hlo hhi h0 h
      refine ⟨_, ha, ?_⟩
      simp only [Image.fetch, Image.cell?, hdirect, hindexed, Option.none_or]
  | indexed hbase hb hlo hhi hdirect hindexed =>
      have hlt := hcell _ (hindexed c.ram)
      refine ⟨_, Program.follow?_push_indexed hbase hb hlo hhi (by omega) h0 h, ?_⟩
      simp only [Image.fetch, Image.cell?, hdirect, hindexed, Option.none_or]
  | direct ht hn h13 h14 hdirect =>
      refine ⟨_, Program.follow?_push_direct ht hn h0 h, ?_⟩
      simp only [Image.fetch, Image.cell?, hdirect, Option.some_or,
        Word.toNat_ofNat_of_lt (Nat.lt_trans hn (by decide))]

/-- Popping into a cell of an indexed segment uses a scratch cell. -/
theorem follow?_pop (hd : pl.Denotes P p module s i) {c : Cpu}
    (hsp : s ≠ .constant → 256 ≤ (c.ram.sp - 1).toNat ∧ (c.ram.sp - 1).toNat ≤ 32767)
    (hcell : ∀ a ∈ Image.indexedCell? c.ram i s, a.toNat ≤ 32767) :
    ∃ d, p.follow? (Code.pop pl) c = some d ∧ d.ram.Agree (P.store module c.ram s i) := by
  cases hd with
  | value hdirect hindexed hlo hhi =>
      refine ⟨_, Program.follow?_pop_value i, ?_⟩
      simp only [Image.store, Image.cell?, hdirect, hindexed, Option.none_or]
      exact Memory.Agree.refl _
  | indexed hbase hb hlo hhi hdirect hindexed =>
      have hlt := hcell _ (hindexed c.ram)
      have hsp := hsp (by rintro rfl; cases hindexed c.ram)
      refine ⟨_, Program.follow?_pop_indexed hbase hb hlo hhi (by omega) (by omega) (by omega)
        (by omega), ?_⟩
      simp only [Image.store, Image.cell?, hdirect, hindexed, Option.none_or]
      exact (((Memory.Agree.refl _).set_scratch (Or.inl rfl) _).drop).set (by omega) rfl
  | direct ht hn h13 h14 hdirect =>
      have hsp := hsp (by rintro rfl; cases hdirect)
      refine ⟨_, Program.follow?_pop_direct ht hn (by omega) (by omega), ?_⟩
      simp only [Image.store, Image.cell?, hdirect, Option.some_or,
        Word.toNat_ofNat_of_lt (Nat.lt_trans hn (by decide))]
      exact Memory.Agree.refl _

end Place.Denotes

/-! ### One command -/

namespace Program

/-- The program gets to an address, with a memory that agrees with `r`. -/
def Arrives (p : Program) (c : Cpu) (k : Nat) (r : Memory) : Prop :=
  ∃ d, p.Runs c d ∧ d.pc = k ∧ d.ram.Agree r

theorem Leads.arrives {p : Program} {k k' : Nat} {r r' : Memory} (h : p.Leads k r k' r') {c : Cpu}
    (hpc : c.pc = k) (hram : c.ram = r) : p.Arrives c k' r' := by
  obtain ⟨d, hrun, hpc', hram'⟩ := h c hpc hram
  exact ⟨d, hrun, hpc', hram' ▸ Memory.Agree.refl _⟩

/-- Code without jumps arrives behind itself. -/
theorem arrives_of_follow? {p : Program} {k : Nat} {is : List Item} {r : Memory} {c : Cpu}
    (hi : p.Installed k is) (hpc : c.pc = k)
    (h : ∃ d, p.follow? is c = some d ∧ d.ram.Agree r) : p.Arrives c (k + codeSize is) r := by
  obtain ⟨d, hd, hagree⟩ := h
  exact ⟨_, runs_of_follow? hi hpc hd, rfl, hagree⟩

theorem arrives_operate {p : Program} {g : Generator} {op : Operator} {k : Nat}
    (hi : p.Installed k (g.operate op).2) (hend : k + codeSize (g.operate op).2 < 32768) {c : Cpu}
    (hpc : c.pc = k) (hs : Image.SafeCommand c.ram (.operate op)) :
    p.Arrives c (k + codeSize (g.operate op).2) (op.apply c.ram) := by
  have htop := hs.stack (c.ram.sp - 1) (by cases op <;> exact List.mem_cons_self ..)
  have hbelow : op.isUnary = false → (c.ram.sp - 2).toNat < 32768 := by
    intro hop
    have hcell := hs.stack (c.ram.sp - 2) (by simp [Image.stackCells, hop])
    omega
  exact (leads_operate hi hend (by omega) (by omega) hbelow).arrives hpc rfl

theorem arrives_function {p : Program} {name : Text} {n : Int} {k : Nat}
    (hi : p.Installed k (Code.function name n)) {c : Cpu} (hpc : c.pc = k)
    (hs : Image.SafeCommand c.ram (.function name n)) :
    p.Arrives c (k + codeSize (Code.function name n)) (c.ram.pushZeros n.toNat) := by
  refine (leads_function hi fun j hj => ?_).arrives hpc rfl
  have hcell := hs.stack _ (List.mem_map.2 ⟨j, List.mem_range.2 hj, rfl⟩)
  omega

end Program

namespace CompilationUnit.Executable

variable {u : CompilationUnit} {o : CompileOptions} {l : Listing} {p : Program}

theorem arrives_push (h : u.Executable o l p) {pc : PlacedCommand} (hmem : pc ∈ l.commands)
    {g g' : Generator} (hmode : g.mode = o.statics) (hmodule : g.module = pc.module) {seg : Segment}
    {i : Int} (hc : pc.command = .push seg i) {pl : Place} (hpl : g.Placed seg i g' pl) {k : Nat}
    (hi : p.Installed k (Code.push pl)) {c : Cpu} (hpc : c.pc = k)
    (hs : Image.SafeCommand c.ram (.push seg i)) :
    p.Arrives c (k + codeSize (Code.push pl))
      (c.ram.push ((l.image p).fetch pc.module c.ram seg i)) := by
  have hd := h.denotes_of_placed hmem hmode hmodule (Or.inl hc) hpl hi
    (by rintro t rfl; simp [Code.push])
  have hsp := hs.stack c.ram.sp (List.mem_singleton.2 rfl)
  obtain ⟨d, hfollow, hram⟩ := hd.follow?_push (by omega) (by omega) hs.cell
  exact Program.arrives_of_follow? hi hpc ⟨d, hfollow, hram ▸ Memory.Agree.refl _⟩

theorem arrives_pop (h : u.Executable o l p) {pc : PlacedCommand} (hmem : pc ∈ l.commands)
    {g g' : Generator} (hmode : g.mode = o.statics) (hmodule : g.module = pc.module) {seg : Segment}
    {i : Int} (hc : pc.command = .pop seg i) {pl : Place} (hpl : g.Placed seg i g' pl) {k : Nat}
    (hi : p.Installed k (Code.pop pl)) {c : Cpu} (hpc : c.pc = k)
    (hs : Image.SafeCommand c.ram (.pop seg i)) :
    p.Arrives c (k + codeSize (Code.pop pl)) ((l.image p).store pc.module c.ram seg i) := by
  have hd := h.denotes_of_placed hmem hmode hmodule (Or.inr hc) hpl hi
    (by rintro t rfl; simp [Code.pop])
  -- a constant is dropped without a look at the stack
  have hsp : seg ≠ .constant → 256 ≤ (c.ram.sp - 1).toNat ∧ (c.ram.sp - 1).toNat ≤ 32767 := by
    intro hseg
    refine hs.stack _ ?_
    cases seg with
    | constant => exact absurd rfl hseg
    | _ => exact List.mem_singleton.2 rfl
  exact Program.arrives_of_follow? hi hpc (hd.follow?_pop hsp hs.cell)

theorem arrives_jump (h : u.Executable o l p) {name : Text} {k : Nat}
    (hi : p.Installed k (Code.goto name)) {c : Cpu} (hpc : c.pc = k) {t : State}
    (ht : (l.image p).continueAt? name c.ram = some t) : p.Arrives c (l.address t.next) t.ram := by
  obtain ⟨hnext, hram⟩ := Image.continueAt?_eq_some.1 ht
  rw [hram]
  exact (Program.leads_goto hi (h.value?_of_declaration? hnext) (h.address_lt _)).arrives hpc rfl

/-- The name of a conditional jump is resolved whether or not the jump is taken. -/
theorem arrives_jumpIf (h : u.Executable o l p) {pc : PlacedCommand} (hmem : pc ∈ l.commands)
    {name : Text} (hc : pc.command = .jumpIf name) {k after : Nat}
    (hi : p.Installed k (Code.gotoIf name)) (hafter : l.address after = k + codeSize (Code.gotoIf name))
    {c : Cpu} (hpc : c.pc = k) (hs : Image.SafeCommand c.ram (.jumpIf name)) {t : State}
    (ht : (if c.ram.top = 0 then some ⟨after, c.ram.drop⟩
      else (l.image p).continueAt? name c.ram.drop) = some t) :
    p.Arrives c (l.address t.next) t.ram := by
  obtain ⟨k', hk'⟩ := h.declaration?_of_target hmem (by rw [hc]; rfl)
  have hsp := hs.stack (c.ram.sp - 1) (List.mem_singleton.2 rfl)
  have harrives := (Program.leads_gotoIf hi (h.value?_of_declaration? hk') (h.address_lt k')
    (by omega) (by omega)).arrives hpc rfl
  split at ht
  · next hzero =>
      obtain rfl := Option.some.inj ht
      rw [if_pos hzero, ← hafter] at harrives
      exact harrives
  · next hzero =>
      obtain ⟨hnext, hram⟩ := Image.continueAt?_eq_some.1 ht
      rw [hk', Option.some.injEq] at hnext
      rw [if_neg hzero, hnext, ← hram] at harrives
      exact harrives

theorem arrives_call (h : u.Executable o l p) {pc : PlacedCommand} (hmem : pc ∈ l.commands)
    {name back : Text} {n : Int} (hc : pc.command = .call name n) (hn : n ≤ 32762)
    (hback : predefinedCells.lookup back = none) {k : Nat}
    (hi : p.Installed k (Code.call name n back)) (hend : k + codeSize (Code.call name n back) < 32768)
    {c : Cpu} (hpc : c.pc = k) (hs : Image.SafeCommand c.ram (.call name n)) {t : State}
    (ht : (l.image p).continueAt? name
      (c.ram.enter (Word.ofAddress (k + codeSize (Code.call name n back))) n) = some t) :
    p.Arrives c (l.address t.next) t.ram := by
  have hvalid := valid_of_mem_listing h.listing hmem
  rw [hc] at hvalid
  have hcell : ∀ j < 5, 256 ≤ (c.ram.sp + BitVec.ofNat 16 j).toNat ∧
      (c.ram.sp + BitVec.ofNat 16 j).toNat ≤ 32767 := fun j hj =>
    hs.stack _ (List.mem_map.2 ⟨j, List.mem_range.2 hj, rfl⟩)
  -- the first and the last cell of the frame bound the others
  have h0 := hcell 0 (by omega)
  have h4 := hcell 4 (by omega)
  obtain ⟨hnext, hram⟩ := Image.continueAt?_eq_some.1 ht
  rw [hram]
  exact (Program.leads_call hi hend hback (h.value?_of_declaration? hnext) (h.address_lt _) hvalid.2.1
    hn (by bv_omega) (by bv_omega)).arrives hpc rfl

theorem arrives_ret {k : Nat} (hi : p.Installed k Code.ret) {c : Cpu} (hpc : c.pc = k)
    (hs : Image.SafeCommand c.ram .ret) {t : State}
    (ht : ((l.image p).commandAt? c.ram.returnAddress.toNat).map (⟨·, c.ram.leave⟩) = some t) :
    p.Arrives c (l.address t.next) t.ram := by
  obtain ⟨k', hk', rfl⟩ := Option.map_eq_some_iff.1 ht
  have haddress : l.address k' = c.ram.returnAddress.toNat := Image.address_of_commandAt? hk'
  rw [haddress]
  exact Program.runs_ret hi hpc hs.stack

/-- **The code of a command does what the command says.** -/
theorem simulate_command (h : u.Executable o l p) {s t : State} (hsafe : (l.image p).Safe s)
    (hstep : (l.image p).step? s = some t) {c : Cpu} (hpc : c.pc = l.address s.next)
    (hram : c.ram = s.ram) : p.Arrives c (l.address t.next) t.ram := by
  obtain ⟨k, r⟩ := s
  subst hram
  cases hget : (l.image p).commands[k]? with
  | none => simp [Image.step?, hget] at hstep
  | some pc =>
      have hmem : pc ∈ l.commands := List.mem_of_getElem? hget
      have hs : Image.SafeCommand c.ram pc.command := hsafe pc hget
      obtain ⟨g, g', code, hmode, hmodule, hwrote, hi, hnext⟩ := h.code_of_command hget
      have hend := h.address_lt (k + 1)
      rw [hnext] at hend
      simp only [Image.step?, hget] at hstep
      generalize hc : pc.command = command at hs hwrote hstep
      -- what the generator wrote decides which code runs, and `hstep` what the stack machine does
      cases hwrote with
      | push hpl =>
          obtain rfl := Option.some.inj hstep
          exact hnext ▸ h.arrives_push hmem hmode hmodule hc hpl hi hpc hs
      | pop hpl =>
          obtain rfl := Option.some.inj hstep
          exact hnext ▸ h.arrives_pop hmem hmode hmodule hc hpl hi hpc hs
      | operate op =>
          obtain rfl := Option.some.inj hstep
          exact hnext ▸ Program.arrives_operate hi hend hpc hs
      | label name =>
          obtain rfl := Option.some.inj hstep
          exact hnext ▸ ⟨c, .refl c, hpc, Memory.Agree.refl _⟩
      | jump name => exact h.arrives_jump hi hpc hstep
      | jumpIf name => exact h.arrives_jumpIf hmem hc hi hnext hpc hs hstep
      | function name n =>
          obtain rfl := Option.some.inj hstep
          exact hnext ▸ Program.arrives_function hi hpc hs
      | call name hn =>
          refine h.arrives_call hmem hc hn (lookup_freshLabel _ _) hi hend hpc hs ?_
          rw [← hnext]
          exact hstep
      | ret => exact arrives_ret hi hpc hs hstep

/-! ### Runs -/

/-- **The machine follows the stack machine**, however long that runs. -/
theorem simulate_run (h : u.Executable o l p) {s t : State} (hrun : (l.image p).Run s t) {c : Cpu}
    (hpc : c.pc = l.address s.next) (hram : c.ram.Agree s.ram) :
    p.Arrives c (l.address t.next) t.ram := by
  induction hrun generalizing c with
  | refl s => exact ⟨c, .refl c, hpc, hram⟩
  | step safe next _ ih =>
      -- the memory of the machine makes a step of its own, which agrees with the given one
      obtain ⟨r, hstep, hagree⟩ := Image.step?_agree h.regular hram safe next
      obtain ⟨d, hrun, hpc', hram'⟩ := h.simulate_command (safe.agree hram) hstep hpc rfl
      obtain ⟨e, hrun', hpc'', hram''⟩ := ih hpc' (hram'.trans hagree)
      exact ⟨e, hrun.trans hrun', hpc'', hram''⟩

end CompilationUnit.Executable

/-! ### Starting -/

/-- The state of the stack machine in which a unit with a bootstrap starts: the stack is empty, and
the entry function has been called, if the unit declares it. -/
def CompilationUnit.boot? (u : CompilationUnit) (o : CompileOptions) (P : Image) (ram : Memory) :
    Option State :=
  let reset : Memory := ram.set 0 256
  if u.modules.any (·.declares o.entry) then
    P.continueAt? o.entry (reset.enter (Word.ofAddress (P.address 0)) 0)
  else some ⟨0, reset⟩

theorem Program.leads_resetStack {p : Program} {k : Nat} {r : Memory}
    (hi : p.Installed k Code.resetStack) :
    p.Leads k r (k + codeSize Code.resetStack) (r.set 0 256) := by
  refine Leads.of_follow? hi fun c hram => ⟨{ c with a := 0, d := 256, ram := r.set 0 256 }, ?_, rfl⟩
  subst hram
  simp [Code.resetStack, followItem?_constant p c (n := 256) (by decide) (by decide),
    Comp.readsMemory]

namespace CompilationUnit.Executable

variable {u : CompilationUnit} {o : CompileOptions} {l : Listing} {p : Program}

/-- **A unit with a bootstrap starts by itself**, whatever the memory holds. -/
theorem leads_boot (h : u.Executable o l p) (hboot : o.bootstrap = true) (r : Memory) :
    ∃ s, u.boot? o (l.image p) r = some s ∧ p.Leads 0 r (l.address s.next) s.ram := by
  rcases preamble_cases h.listing with ⟨hno, -⟩ | ⟨-, code, hpre, hcode⟩
  · rw [hboot] at hno; cases hno
  · obtain ⟨hi, haddress⟩ := h.installed_preamble hpre
    have hend := h.address_lt 0
    rw [haddress] at hend
    rcases hcode with ⟨hany, rfl⟩ | ⟨hany, rfl, -, c, hc, hd⟩
    · have hleads := Program.leads_resetStack (r := r) hi
      rw [Nat.zero_add, ← haddress] at hleads
      exact ⟨⟨0, r.set 0 256⟩, by simp [boot?, hany], hleads⟩
    · obtain ⟨k, hk⟩ := (l.image p).exists_declaration? hc hd
      obtain ⟨hreset, hcall⟩ := Program.installed_append.1 hi
      have hleads := Program.leads_call (r := r.set 0 256) hcall
        (by rw [codeSize_append] at hend; omega) (lookup_freshLabel _ _)
        (h.value?_of_declaration? hk) (h.address_lt k) (by omega) (by omega)
        (by simp [Memory.sp]) (by simp [Memory.sp])
      have hafter : 0 + codeSize Code.resetStack
          + codeSize (Code.call o.entry 0 (Generator.freshLabel "RETURN" 0)) = l.address 0 := by
        rw [haddress, codeSize_append, Nat.zero_add]
      rw [hafter] at hleads
      refine ⟨⟨k, Memory.enter (r.set 0 256) (Word.ofAddress (l.address 0)) 0⟩, ?_,
        (Program.leads_resetStack hreset).trans hleads⟩
      simp only [boot?, hany, if_true, Image.continueAt?_eq_some]
      exact ⟨hk, rfl⟩

end CompilationUnit.Executable

end HackToolchain

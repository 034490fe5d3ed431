/-
**What pushing and popping do.**

A cell of a segment is reached in one of three ways: by the sum of a base register and the index, at
an address that is known to the generator, or at the address that the assembler has given to a
symbol.  Constants have no cell.  Once the address of the cell is known, a push copies the cell to
the top of the stack and a pop moves the top into the cell, and nothing else is touched but a
scratch cell, by pops through a base register.  The cell may be any, also the stack pointer or the
base register itself.

Main definitions:

* `Segment.base?` — the register that holds the base of a segment;
* `Generator.cell?` — the address of a cell of a segment;
* `Memory.Pushed`, `Memory.Popped`, `Memory.Dropped` — the memory after a push and after a pop;
* `Generator.CodeAt` — the code of a command stands in a program between two addresses.

Main results:

* `Generator.Placed.located` — the place that the generator finds is the cell;
* `Generator.CodeAt.exists_cell?_iff` — a static cell has an address exactly if its symbol is a
  name;
* `Generator.brings_pop_push` — a word that is popped and pushed again is back on the stack;
* `Generator.push_pop_move_words` — **pushes and pops move words between the stack and the cells**.
-/
import HackToolchain.Proofs.Assembly.Resolution
import HackToolchain.Proofs.Codegen.Effects
import HackToolchain.Proofs.Codegen.Sessions
import HackToolchain.Proofs.Unit.Listing

set_option relaxedAutoImplicit false
set_option autoImplicit false

namespace HackToolchain

/-! ### Cells of segments -/

/-- The register that holds the base of a segment. -/
def Segment.base? : Segment → Option Nat
  | .locals => some 1
  | .arguments => some 2
  | .this => some 3
  | .that => some 4
  | .constant | .pointer | .temp | .statics => none

theorem Segment.base?_le {s : Segment} {b : Nat} (h : s.base? = some b) : 0 < b ∧ b ≤ 4 := by
  cases s with
  | locals | arguments | this | that => injection h with h; omega
  | _ => cases h

namespace Generator

/-- The address of a static cell: that of its symbol in the program, or a known one if it has no
symbol. -/
def staticCell? (g : Generator) (p : Program) (i : Int) : Option Nat :=
  match g.staticName? i with
  | none => some (16 + i).toNat
  | some name => p.value? (.symbol name)

/-- The address of a cell of a segment.  A constant has no cell. -/
def cell? (g : Generator) (p : Program) (ram : Memory) (s : Segment) (i : Int) : Option Nat :=
  match s with
  | .constant => none
  | .pointer => some (3 + i).toNat
  | .temp => some (5 + i).toNat
  | .statics => g.staticCell? p i
  | .locals | .arguments | .this | .that =>
    s.base?.map fun b => (ram.get b + BitVec.ofInt 16 i).toNat

theorem cell?_of_base? (g : Generator) (p : Program) (ram : Memory) {s : Segment} {b : Nat}
    (h : s.base? = some b) (i : Int) :
    g.cell? p ram s i = some (ram.get b + BitVec.ofInt 16 i).toNat := by
  cases s with
  | locals | arguments | this | that => injection h with h; subst h; rfl
  | _ => cases h

/-- What a place stands for. -/
inductive Located (g : Generator) (p : Program) (i : Int) : Segment → Place → Prop
  | value : Located g p i .constant (.value i)
  | indexed {s : Segment} {base : String} {b : Nat} (hs : s.base? = some b)
      (hbase : predefinedCells.lookup (ascii base) = some b) : Located g p i s (.indexed base i)
  | direct {s : Segment} {t : Target} (hs : s.base? = none) (hne : s ≠ .constant)
      (ht : ∀ ram, g.cell? p ram s i = p.value? t) : Located g p i s (.direct t)

/-- **The place that the generator finds is the cell.** -/
theorem Placed.located {g g' : Generator} {s : Segment} {i : Int} {pl : Place}
    (h : g.Placed s i g' pl) (p : Program) (hlo : s ≠ .constant → 0 ≤ i) (hhi : i ≤ 32767) :
    g.Located p i s pl := by
  cases h with
  | constant => exact .value
  | locals | arguments | this | that => exact .indexed rfl rfl
  | pointerThis | pointerThat => exact .direct rfl nofun fun _ => (p.value?_predefined rfl).symm
  | temp => exact .direct rfl nofun fun _ => rfl
  | statics ht =>
      refine .direct rfl nofun fun ram => ?_
      cases found_of_staticTarget ht (hlo nofun) hhi with
      | number _ hs => simp only [cell?, staticCell?, hs]; rfl
      | known _ hs | taken _ hs => simp only [cell?, staticCell?, hs]

end Generator

/-! ### The memory after a push and after a pop -/

namespace Memory

/-- The memory `after` a word `v` has been pushed with the stack pointer at `b`. -/
structure Pushed (before after : Memory) (b : Nat) (v : Word) : Prop where
  top : after.get b = v
  sp : after.sp.toNat = b + 1
  others : ∀ a, 0 < a → a < 32768 → a ≠ b → after.get a = before.get a

/-- The memory `after` the top of the stack has been popped into the cell `n` of a segment with the
stack pointer at `b`.  Through a base register the address goes by a scratch cell. -/
structure Popped (before after : Memory) (s : Segment) (b n : Nat) : Prop where
  cell : after.get n = before.get (b - 1)
  sp : n ≠ 0 → after.sp.toNat = b - 1
  others : ∀ a, 0 < a → a < 32768 → a ≠ n → (a = 13 → s.base? = none) → after.get a = before.get a

/-- The memory `after` the top of the stack has been dropped. -/
structure Dropped (before after : Memory) : Prop where
  sp : after.sp = before.sp - 1
  others : ∀ a, 0 < a → a < 32768 → after.get a = before.get a

theorem pushed_push (ram : Memory) (v : Word) {b : Nat} (hb : ram.sp.toNat = b) (h0 : 0 < b)
    (hhi : b < 32768) : Pushed ram (ram.push v) b v := by
  constructor
  · rw [push, get_set_of_ne _ _ (by omega) hhi (by omega), hb, get_set_self]
  · rw [toNat_sp_push ram v (by omega), hb]
  · intro a ha0 ha hne
    rw [push, get_set_of_ne _ _ (by omega) ha (by omega),
      get_set_of_ne _ _ (by omega) ha (by omega)]

theorem dropped_drop (ram : Memory) : Dropped ram ram.drop := by
  constructor
  · exact sp_drop ram
  · intro a h0 ha
    rw [drop, get_set_of_ne _ _ (by omega) ha (by omega)]

/-- Storing the top in a cell after it has been dropped, from a memory in which at most the scratch
cell is different. -/
theorem popped_set {ram q : Memory} {s : Segment} {b n : Nat} (hb : ram.sp.toNat = b)
    (hlo : 0 < b) (hhi : b < 32768) (hn : n < 32768)
    (hq : ∀ a < 32768, (a = 13 → s.base? = none) → q.get a = ram.get a) :
    Popped ram (CellTree.set q.drop n ram.top) s b n := by
  have hlast : (ram.sp - 1).toNat = b - 1 := by bv_omega
  constructor
  · rw [get_set_self, top, hlast]
  · intro hne
    rw [sp, get_set_of_ne _ _ hn (by omega) hne]
    have hsp : q.sp = ram.sp := hq 0 (by omega) (by omega)
    have hdrop : q.drop.sp.toNat = b - 1 := by rw [sp_drop, hsp, hlast]
    exact hdrop
  · intro a h0 ha hne h13
    rw [get_set_of_ne _ _ hn ha (by omega), drop, get_set_of_ne _ _ (by omega) ha (by omega)]
    exact hq a ha h13

end Memory

/-! ### The code of pushes and pops -/

namespace Generator.Located

variable {g : Generator} {p : Program} {s : Segment} {i : Int} {pl : Place} {k b : Nat} {r : Memory}

/-- The code of a constant pushes the constant. -/
theorem brings_push_constant (h : g.Located p i .constant pl) (hi : p.Installed k (Code.push pl))
    (hlo : -32768 ≤ i) (hhi : i ≤ 32767) (hb : r.sp.toNat = b) (h0 : 0 < b) (h32 : b < 32768) :
    p.Brings k r (k + codeSize (Code.push pl)) fun r' => r.Pushed r' b (BitVec.ofInt 16 i) := by
  have hleads : p.Leads k r (k + codeSize (Code.push pl)) (r.push (BitVec.ofInt 16 i)) := by
    refine Program.Leads.of_follow? hi fun c hram => ?_
    subst hram
    cases h with
    | value =>
        obtain ⟨a, ha⟩ := Program.follow?_push_value (p := p) (c := c) hlo hhi (by omega) (by omega)
        exact ⟨_, ha, rfl⟩
    | indexed hs => cases hs
    | direct hs hne => exact absurd rfl hne
  exact hleads.brings (Memory.pushed_push r _ hb h0 h32)

/-- The code of a push copies the cell. -/
theorem brings_push (h : g.Located p i s pl) (hi : p.Installed k (Code.push pl)) (hlo : 0 ≤ i)
    (hhi : i ≤ 32767) {n : Nat} (hcell : g.cell? p r s i = some n) (hn : n < 32768)
    (hb : r.sp.toNat = b) (h0 : 0 < b) (h32 : b < 32768) :
    p.Brings k r (k + codeSize (Code.push pl)) fun r' => r.Pushed r' b (r.get n) := by
  have hleads : p.Leads k r (k + codeSize (Code.push pl)) (r.push (r.get n)) := by
    refine Program.Leads.of_follow? hi fun c hram => ?_
    subst hram
    cases h with
    | value => cases hcell
    | indexed hs hbase =>
        rw [cell?_of_base? g p c.ram hs, Option.some.injEq] at hcell
        subst hcell
        have hregister := Segment.base?_le hs
        exact ⟨_, Program.follow?_push_indexed hbase (by omega) hlo hhi hn (by omega) (by omega),
          rfl⟩
    | direct _ _ ht =>
        exact ⟨_, Program.follow?_push_direct (ht c.ram ▸ hcell) hn (by omega) (by omega), rfl⟩
  exact hleads.brings (Memory.pushed_push r _ hb h0 h32)

/-- The code of a pop into a constant drops the top. -/
theorem brings_pop_constant (h : g.Located p i .constant pl) (hi : p.Installed k (Code.pop pl)) :
    p.Brings k r (k + codeSize (Code.pop pl)) fun r' => r.Dropped r' := by
  have hleads : p.Leads k r (k + codeSize (Code.pop pl)) r.drop := by
    refine Program.Leads.of_follow? hi fun c hram => ?_
    subst hram
    cases h with
    | value => exact ⟨_, Program.follow?_pop_value i, rfl⟩
    | indexed hs => cases hs
    | direct hs hne => exact absurd rfl hne
  exact hleads.brings (Memory.dropped_drop r)

/-- The code of a pop moves the top into the cell. -/
theorem brings_pop (h : g.Located p i s pl) (hi : p.Installed k (Code.pop pl)) (hlo : 0 ≤ i)
    (hhi : i ≤ 32767) {n : Nat} (hcell : g.cell? p r s i = some n) (hn : n < 32768)
    (hb : r.sp.toNat = b) (h14 : 14 < b) (h32 : b < 32768) :
    p.Brings k r (k + codeSize (Code.pop pl)) fun r' => r.Popped r' s b n := by
  have hlast : (r.sp - 1).toNat = b - 1 := by bv_omega
  -- what is stored in the cell comes from a memory in which the scratch cell may be different
  have hleads : ∃ q : Memory, (∀ a < 32768, (a = 13 → s.base? = none) → q.get a = r.get a) ∧
      p.Leads k r (k + codeSize (Code.pop pl)) (CellTree.set q.drop n r.top) := by
    cases h with
    | value => cases hcell
    | @indexed _ _ base hs hbase =>
        rw [cell?_of_base? g p r hs, Option.some.injEq] at hcell
        subst hcell
        have hregister := Segment.base?_le hs
        refine ⟨CellTree.set r 13 (r.get base + BitVec.ofInt 16 i), ?_, ?_⟩
        · intro a ha h13
          refine Memory.get_set_of_ne _ _ (by omega) ha ?_
          rintro rfl
          rw [hs] at h13
          cases h13 rfl
        · refine Program.Leads.of_follow? hi fun c hram => ?_
          subst hram
          exact ⟨_, Program.follow?_pop_indexed hbase (by omega) hlo hhi hn (by omega) (by omega)
            (by omega), rfl⟩
    | direct _ _ ht =>
        refine ⟨r, fun _ _ _ => rfl, Program.Leads.of_follow? hi fun c hram => ?_⟩
        subst hram
        exact ⟨_, Program.follow?_pop_direct (ht c.ram ▸ hcell) hn (by omega) (by omega), rfl⟩
  obtain ⟨q, hq, hleads⟩ := hleads
  exact hleads.brings (Memory.popped_set hb (by omega) h32 hn hq)

end Generator.Located

/-! ### Commands in a program -/

namespace Generator

/-- A command that is read from a line and the code that is written for it: the code stands in an
assembled program from the address `k` up to the address `k'`. -/
def CodeAt (g : Generator) (c : Command) (g' : Generator) (p : Program) (k k' : Nat) : Prop :=
  ∃ (line : Text) (code : List Item) (before after : List Text), Command.parse line = .ok c ∧
    g.write c = (g', .ok code) ∧ assemble (before ++ render code ++ after) = .ok p ∧
    k = instructionCount before ∧ k' = instructionCount (before ++ render code)

namespace CodeAt

variable {g g' : Generator} {c : Command} {p : Program} {k k' : Nat} {s : Segment} {i : Int}

theorem valid (h : g.CodeAt c g' p k k') : c.Valid := by
  obtain ⟨line, code, before, after, hparse, -⟩ := h
  exact Command.valid_of_parse hparse

/-- Code whose static symbol is a name is installed. -/
theorem installed (h : g.CodeAt c g' p k k')
    (hname : ∀ n ∈ c.staticIndex?, ∀ x ∈ g.staticName? n, isName x = true) :
    ∃ code, g.Wrote c g' code ∧ p.Installed k code ∧ k' = k + codeSize code := by
  obtain ⟨line, code, before, after, hparse, hwrite, hassemble, rfl, rfl⟩ := h
  have hvalid := Command.valid_of_parse hparse
  have hwrote := wrote_of_write hvalid hwrite
  have hw : ∀ item ∈ code, item.WellFormed := by
    intro item hitem
    rcases wellFormed_or_static hvalid hwrote item hitem with hw | ⟨n, x, hn, hx, rfl⟩
    · exact hw
    · exact hname n hn x hx
  refine ⟨code, hwrote, installed_of_assemble hassemble hw, ?_⟩
  rw [instructionCount_append, instructionCount_render hw]

/-- A static symbol that has an address is a name. -/
theorem isName_of_value? (h : g.CodeAt c g' p k k') {x : Text} (hx : g.staticName? i = some x)
    {n : Nat} (hn : p.value? (.symbol x) = some n) : isName x = true := by
  obtain ⟨line, code, before, after, -, -, hassemble, -⟩ := h
  have hlookup := lookup_predefined_of_dot (dot_mem_staticName? hx)
  rw [Program.value?, Target.address, hlookup] at hn
  exact isName_of_addressValue? hassemble hn

/-- Code whose cell has an address is installed. -/
theorem installed_of_cell? (h : g.CodeAt c g' p k k') (hc : c.cell? = some (s, i)) {r : Memory}
    {n : Nat} (hcell : g.cell? p r s i = some n) :
    ∃ code, g.Wrote c g' code ∧ p.Installed k code ∧ k' = k + codeSize code := by
  refine h.installed fun j hj x hx => ?_
  obtain ⟨rfl, rfl⟩ : s = .statics ∧ i = j := by
    rw [Option.mem_def, Command.staticIndex?_eq_some_iff, hc] at hj
    injection hj with hj
    injection hj with hs hi
    exact ⟨hs, hi⟩
  have hname : g.staticName? i = some x := hx
  simp only [cell?, staticCell?, hname] at hcell
  exact h.isName_of_value? hname hcell

/-- A static symbol that is a name has an address. -/
theorem exists_value?_of_isName (h : g.CodeAt c g' p k k') (hc : c.cell? = some (.statics, i))
    {x : Text} (hx : g.staticName? i = some x) (hname : isName x = true) :
    ∃ n, p.value? (.symbol x) = some n := by
  have hindex := Command.staticIndex?_eq_some_iff.2 hc
  obtain ⟨code, hwrote, hi, -⟩ := h.installed fun j hj y hy => by
    rw [hindex] at hj
    injection hj with hj
    rw [← hj, hx] at hy
    injection hy with hy
    exact hy ▸ hname
  obtain ⟨t, hfound, hcode⟩ := found_of_wrote hwrote h.valid hindex
  have hload : Item.load t ∈ code := by
    rcases hcode with ⟨-, rfl⟩ | ⟨-, rfl⟩
    · simp [Code.push]
    · simp [Code.pop]
  obtain ⟨n, hn⟩ := hi.load hload
  cases hfound with
  | number _ hnone => rw [hx] at hnone; cases hnone
  | known _ hsome | taken _ hsome =>
      rw [hx] at hsome
      injection hsome with hsome
      exact ⟨n, hsome ▸ hn⟩

/-- **A cell has an address exactly if its symbol, if it has one, is a name.** -/
theorem exists_cell?_iff (h : g.CodeAt c g' p k k') (hc : c.cell? = some (s, i))
    (hs : s ≠ .constant) (r : Memory) :
    (∃ n, g.cell? p r s i = some n) ↔
      (s = .statics → ∀ x ∈ g.staticName? i, isName x = true) := by
  cases s with
  | constant => exact absurd rfl hs
  | locals | arguments | this | that | pointer | temp => exact iff_of_true ⟨_, rfl⟩ nofun
  | statics =>
      cases hname : g.staticName? i with
      | none =>
          refine iff_of_true ⟨(16 + i).toNat, by simp only [cell?, staticCell?, hname]⟩ ?_
          intro _ x hx
          cases hx
      | some x =>
          simp only [cell?, staticCell?, hname, Option.mem_def, Option.some.injEq, forall_eq',
            forall_const]
          constructor
          · rintro ⟨n, hn⟩
            exact h.isName_of_value? hname hn
          · intro hx
            exact h.exists_value?_of_isName hc hname hx

/-- Code that pushes a constant. -/
theorem brings_push_constant (h : g.CodeAt (.push .constant i) g' p k k') {r : Memory} {b : Nat}
    (hb : r.sp.toNat = b) (h0 : 0 < b) (h32 : b < 32768) :
    p.Brings k r k' fun r' => ∃ v : Word, v.toInt = i ∧ r.Pushed r' b v := by
  obtain ⟨hlo, hhi, -⟩ := h.valid
  obtain ⟨code, hwrote, hi, rfl⟩ := h.installed nofun
  cases hwrote with
  | push hpl =>
      have hlocated := hpl.located p (fun hne => absurd rfl hne) hhi
      have hint : (BitVec.ofInt 16 i).toInt = i := by
        rw [BitVec.toInt_ofInt]
        exact Int.bmod_eq_of_le (by omega) (by omega)
      exact (hlocated.brings_push_constant hi hlo hhi hb h0 h32).imp fun r' hpushed =>
        ⟨_, hint, hpushed⟩

/-- Code that pushes from a cell. -/
theorem brings_push (h : g.CodeAt (.push s i) g' p k k') {r : Memory} {b n : Nat}
    (hb : r.sp.toNat = b) (h0 : 0 < b) (h32 : b < 32768) (hcell : g.cell? p r s i = some n)
    (hn : n < 32768) : p.Brings k r k' fun r' => r.Pushed r' b (r.get n) := by
  obtain ⟨-, hhi, hnonneg⟩ := h.valid
  have hlo : 0 ≤ i := hnonneg (by rintro rfl; cases hcell)
  obtain ⟨code, hwrote, hi, rfl⟩ := h.installed_of_cell? rfl hcell
  cases hwrote with
  | push hpl => exact (hpl.located p hnonneg hhi).brings_push hi hlo hhi hcell hn hb h0 h32

/-- Code that drops the top. -/
theorem brings_pop_constant (h : g.CodeAt (.pop .constant i) g' p k k') (r : Memory) :
    p.Brings k r k' fun r' => r.Dropped r' := by
  obtain ⟨-, hhi, hnonneg⟩ := h.valid
  obtain ⟨code, hwrote, hi, rfl⟩ := h.installed nofun
  cases hwrote with
  | pop hpl => exact (hpl.located p hnonneg hhi).brings_pop_constant hi

/-- Code that pops into a cell. -/
theorem brings_pop (h : g.CodeAt (.pop s i) g' p k k') {r : Memory} {b n : Nat}
    (hb : r.sp.toNat = b) (h14 : 14 < b) (h32 : b < 32768) (hcell : g.cell? p r s i = some n)
    (hn : n < 32768) : p.Brings k r k' fun r' => r.Popped r' s b n := by
  obtain ⟨-, hhi, hnonneg⟩ := h.valid
  have hlo : 0 ≤ i := hnonneg (by rintro rfl; cases hcell)
  obtain ⟨code, hwrote, hi, rfl⟩ := h.installed_of_cell? rfl hcell
  cases hwrote with
  | pop hpl => exact (hpl.located p hnonneg hhi).brings_pop hi hlo hhi hcell hn hb h14 h32

end CodeAt

/-! ### Popping and pushing again -/

/-- Static cells that are named after their indices keep their symbols. -/
theorem Placed.staticName?_eq {g g' : Generator} {s : Segment} {i : Int} {pl : Place}
    (h : g.Placed s i g' pl) (hlo : s ≠ .constant → 0 ≤ i) (hhi : i ≤ 32767)
    (hmode : g.mode = .index) (j : Int) : g'.staticName? j = g.staticName? j := by
  cases h with
  | statics ht =>
      cases found_of_staticTarget ht (hlo nofun) hhi with
      | number => rfl
      | known | taken =>
          exact (staticName?_index (by exact hmode) j).trans (staticName?_index hmode j).symm
  | _ => rfl

/-- After a pop the cell is still where it was, unless its base register was popped into. -/
theorem cell?_of_popped {g g' : Generator} {p : Program} {r r' : Memory} {s : Segment} {i : Int}
    {b n : Nat} (hpopped : r.Popped r' s b n) (hbase : s.base? ≠ some n)
    (hname : g'.staticName? i = g.staticName? i) : g'.cell? p r' s i = g.cell? p r s i := by
  cases hs : s.base? with
  | some c =>
      have hc := Segment.base?_le hs
      have hne : c ≠ n := by
        rintro rfl
        exact hbase hs
      rw [cell?_of_base? g' p r' hs, cell?_of_base? g p r hs,
        hpopped.others c (by omega) (by omega) hne (by omega)]
  | none =>
      cases s with
      | statics => simp only [cell?, staticCell?, hname]
      | constant | pointer | temp => rfl
      | locals | arguments | this | that => cases hs

/-- **A word that is popped and pushed again is back on the stack.** -/
theorem brings_pop_push {g g' g'' : Generator} {p : Program} {k k' k'' : Nat} {s : Segment}
    {i : Int} (hmode : g.mode = .index) (hpop : g.CodeAt (.pop s i) g' p k k')
    (hpush : g'.CodeAt (.push s i) g'' p k' k'') {r : Memory} {b n : Nat} (hb : r.sp.toNat = b)
    (h14 : 14 < b) (h32 : b < 32768) (hcell : g.cell? p r s i = some n) (hn : n < 32768)
    (h0 : n ≠ 0) (hbase : s.base? ≠ some n) :
    p.Brings k r k'' fun r' => r'.sp.toNat = b ∧ r'.get (b - 1) = r.get (b - 1) := by
  have hname : g'.staticName? i = g.staticName? i := by
    obtain ⟨-, hhi, hnonneg⟩ := hpop.valid
    obtain ⟨code, hwrote, -, -⟩ := hpop.installed_of_cell? rfl hcell
    cases hwrote with
    | pop hpl => exact hpl.staticName?_eq hnonneg hhi hmode i
  refine (hpop.brings_pop hb h14 h32 hcell hn).trans fun r' hpopped => ?_
  have hcell' := (cell?_of_popped hpopped hbase hname).trans hcell
  refine (hpush.brings_push (hpopped.sp h0) (by omega) (by omega) hcell' hn).imp
    fun r'' hpushed => ⟨?_, ?_⟩
  · rw [hpushed.sp]
    omega
  · rw [hpushed.top, hpopped.cell]

/-- **Pushes and pops move words between the stack and the cells.**  A push leaves the word of the
cell, or the constant, on top of the stack; a pop leaves the top of the stack in the cell, whichever
cell that is; popping into a constant moves the stack pointer only.  All other cells are as they
were, but for the scratch cell of a pop through a base register.  So a word that is popped and
pushed again is back on the stack, if the cell is neither the stack pointer nor the base register of
its own segment.  A cell has an address unless it is a static one whose symbol is no name. -/
theorem push_pop_move_words (g g' : Generator) (p : Program) (k k' : Nat) (s : Segment) (i : Int) :
    (g.CodeAt (.push s i) g' p k k' → ∀ (r : Memory) (b : Nat), r.sp.toNat = b → 256 ≤ b →
      b ≤ 32766 →
      (s = .constant → p.Brings k r k' fun r' => ∃ v : Word, v.toInt = i ∧ r.Pushed r' b v) ∧
      ∀ n, g.cell? p r s i = some n → n ≤ 32767 →
        p.Brings k r k' fun r' => r.Pushed r' b (r.get n)) ∧
    (g.CodeAt (.pop s i) g' p k k' → ∀ r : Memory,
      (s = .constant → p.Brings k r k' fun r' => r.Dropped r') ∧
      ∀ b n, r.sp.toNat = b → 257 ≤ b → b ≤ 32767 → g.cell? p r s i = some n → n ≤ 32767 →
        p.Brings k r k' fun r' => r.Popped r' s b n) ∧
    (∀ (g'' : Generator) (k'' : Nat), g.mode = .index → g.CodeAt (.pop s i) g' p k k' →
      g'.CodeAt (.push s i) g'' p k' k'' → ∀ (r : Memory) (b n : Nat), r.sp.toNat = b → 257 ≤ b →
      b ≤ 32767 → g.cell? p r s i = some n → n ≤ 32767 → n ≠ 0 → s.base? ≠ some n →
      p.Brings k r k'' fun r' => r'.sp.toNat = b ∧ r'.get (b - 1) = r.get (b - 1)) ∧
    (g.CodeAt (.push s i) g' p k k' ∨ g.CodeAt (.pop s i) g' p k k' → s ≠ .constant →
      ∀ r : Memory, (∃ n, g.cell? p r s i = some n) ↔
        (s = .statics → ∀ x ∈ g.staticName? i, isName x = true)) := by
  refine ⟨fun hpush r b hb hlo hhi => ⟨?_, ?_⟩, fun hpop r => ⟨?_, ?_⟩, ?_, ?_⟩
  · rintro rfl
    exact hpush.brings_push_constant hb (by omega) (by omega)
  · intro n hcell hn
    exact hpush.brings_push hb (by omega) (by omega) hcell (by omega)
  · rintro rfl
    exact hpop.brings_pop_constant r
  · intro b n hb hlo hhi hcell hn
    exact hpop.brings_pop hb (by omega) (by omega) hcell (by omega)
  · intro g'' k'' hmode hpop hpush r b n hb hlo hhi hcell hn h0 hbase
    exact brings_pop_push hmode hpop hpush hb (by omega) (by omega) hcell (by omega) h0 hbase
  · rintro (hpush | hpop) hs r
    · exact hpush.exists_cell?_iff rfl hs r
    · exact hpop.exists_cell?_iff rfl hs r

/-- The second local cell is popped into and pushed again with the base of the segment at 12, so
that the cell is the scratch cell of the pop itself. -/
theorem scratch_cell_round_trip :
    ∃ (p : Program) (k k' : Nat) (r : Memory), ({} : Generator).CodeAt (.pop .locals 1) {} p 0 k ∧
      ({} : Generator).CodeAt (.push .locals 1) {} p k k' ∧ r.sp.toNat = 257 ∧ r.lcl = 12 ∧
      r.get 256 = 7 ∧ p.Brings 0 r k (fun r' => r'.sp.toNat = 256 ∧ r'.get 13 = 7) ∧
      p.Brings 0 r k' (fun r' => r'.sp.toNat = 257 ∧ r'.get 256 = 7) := by
  let pop : List Text := render (Code.pop (.indexed "LCL" 1))
  let push : List Text := render (Code.push (.indexed "LCL" 1))
  have hok : (assemble (pop ++ push)).toOption.isSome = true := by decide +kernel
  cases hassemble : assemble (pop ++ push) with
  | error e => rw [hassemble] at hok; cases hok
  | ok p =>
      have hpop : ({} : Generator).CodeAt (.pop .locals 1) {} p 0 (instructionCount pop) :=
        ⟨ascii "pop local 1", _, [], push, by decide, rfl, hassemble, rfl, rfl⟩
      have hpush : ({} : Generator).CodeAt (.push .locals 1) {} p (instructionCount pop)
          (instructionCount (pop ++ push)) :=
        ⟨ascii "push local 1", _, pop, [], by decide, rfl, by rw [List.append_nil]; exact hassemble,
          rfl, rfl⟩
      let r : Memory := CellTree.set (CellTree.set (CellTree.set Memory.zero 0 257) 1 12) 256 7
      have hr : r.get 0 = 257 ∧ r.get 1 = 12 ∧ r.get 256 = 7 := by decide +kernel
      have hsp : r.sp.toNat = 257 := congrArg BitVec.toNat hr.1
      have hcell : ({} : Generator).cell? p r .locals 1 = some 13 := by
        rw [cell?_of_base? _ p r rfl, hr.2.1]
        rfl
      obtain ⟨-, hpops, htrip, -⟩ :=
        push_pop_move_words {} {} p 0 (instructionCount pop) .locals 1
      have hpopped := (hpops hpop r).2 257 13 hsp (by omega) (by omega) hcell (by omega)
      have hback := htrip {} (instructionCount (pop ++ push)) rfl hpop hpush r 257 13 hsp (by omega)
        (by omega) hcell (by omega) (by omega) nofun
      refine ⟨p, _, _, r, hpop, hpush, hsp, hr.2.1, hr.2.2, hpopped.imp ?_, hback.imp ?_⟩
      · intro r' h
        exact ⟨h.sp (by omega), h.cell.trans hr.2.2⟩
      · rintro r' ⟨hsp', htop⟩
        exact ⟨hsp', htop.trans hr.2.2⟩

end Generator

end HackToolchain

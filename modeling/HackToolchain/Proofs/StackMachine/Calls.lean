/-
**Calls and returns.**

The code of a call and the code of a return are written apart and meet in memory only: a call leaves
a frame of five cells above the arguments, and a return finds its way back by that frame.  What
happens in between does not matter, as long as the frame, the bases of the callee and something to
return are there.

Main definitions:

* `Memory.Frame`, `Memory.Holds` — what a call saves, and where;
* `Memory.Entered`, `Memory.Left` — the memory behind a call and behind a return.

Main results:

* `Memory.entered_enter`, `Memory.left_leave` — what entering and leaving do to every cell;
* `CompilationUnit.return_restores_caller` — **a return undoes a call**, whatever the callee has
  done to the rest of the memory.
-/
import HackToolchain.Proofs.Codegen.Effects
import HackToolchain.Proofs.Unit.Linked

set_option relaxedAutoImplicit false
set_option autoImplicit false

namespace HackToolchain

namespace Memory

/-! ### Frames -/

/-- What a call saves: the return address and the bases of the caller. -/
structure Frame where
  back : Word
  lcl : Word
  arg : Word
  this : Word
  that : Word

/-- The cells of a frame, from the bottom of the stack upwards. -/
def Frame.cells (f : Frame) : List Word := [f.back, f.lcl, f.arg, f.this, f.that]

/-- The frame of a caller, with the address to return to. -/
def frame (ram : Memory) (back : Word) : Frame := ⟨back, ram.lcl, ram.arg, ram.this, ram.that⟩

/-- The five cells from `b` on hold a frame. -/
def Holds (ram : Memory) (b : Nat) (f : Frame) : Prop :=
  (List.range 5).map (fun i => ram.get (b + i)) = f.cells

/-- The memory `after` a call with `n` arguments that was made with the stack pointer at `b` and the
memory `before`. -/
structure Entered (before after : Memory) (b n : Nat) (back : Word) : Prop where
  frame : after.Holds b (before.frame back)
  arg : after.arg.toNat = b - n
  lcl : after.lcl.toNat = b + 5
  sp : after.sp.toNat = b + 5
  others : ∀ a, 2 < a → a < 32768 → ¬(b ≤ a ∧ a < b + 5) → after.get a = before.get a

/-- The memory in which a return is made to a frame at `b` above `n` arguments. -/
structure Returnable (ram : Memory) (b n : Nat) (f : Frame) : Prop where
  frame : ram.Holds b f
  arg : ram.arg.toNat = b - n
  lcl : ram.lcl.toNat = b + 5
  sp : b + 5 < ram.sp.toNat ∧ ram.sp.toNat ≤ 32767

/-- The memory `after` a return to a frame above `n` arguments that was made with the memory
`before`.  The scratch cells may hold anything. -/
structure Left (before after : Memory) (b n : Nat) (f : Frame) : Prop where
  result : after.get (b - n) = before.get (before.sp.toNat - 1)
  sp : after.sp.toNat = b - n + 1
  lcl : after.lcl = f.lcl
  arg : after.arg = f.arg
  this : after.this = f.this
  that : after.that = f.that
  others : ∀ a, 4 < a → a < 32768 → a ≠ b - n → a ≠ 13 → a ≠ 14 → after.get a = before.get a

/-! ### Entering -/

theorem get_push (ram : Memory) (v : Word) {a : Nat} (h0 : 0 < a) (ha : a < 32768)
    (hsp : ram.sp.toNat < 32768) :
    (ram.push v).get a = if a = ram.sp.toNat then v else ram.get a := by
  unfold push
  rw [get_set_of_ne _ _ (by omega) ha (by omega), get_set _ _ hsp ha]
  simp only [eq_comm]

/-- Pushed words stand above what was there, in their order. -/
theorem get_foldl_push (vs : List Word) {ram : Memory} (hsp : ram.sp.toNat + vs.length ≤ 32768)
    {a : Nat} (h0 : 0 < a) (ha : a < 32768) :
    CellTree.get (vs.foldl push ram) a
      = if a < ram.sp.toNat then ram.get a else vs.getD (a - ram.sp.toNat) (ram.get a) := by
  induction vs generalizing ram with
  | nil => simp
  | cons v vs ih =>
      rw [List.length_cons] at hsp
      have hnext := toNat_sp_push ram v (by omega)
      rw [List.foldl_cons, ih (by omega), hnext, get_push ram v h0 ha (by omega)]
      -- below the stack, where the first word goes, or where the other words go
      rcases Nat.lt_trichotomy a ram.sp.toNat with hlt | heq | hgt
      · rw [if_pos (by omega), if_neg (by omega), if_pos hlt]
      · rw [if_pos (by omega), if_pos heq, if_neg (by omega), heq, Nat.sub_self]
        rfl
      · obtain ⟨d, rfl⟩ := Nat.exists_eq_add_of_lt hgt
        have hd : ram.sp.toNat + d + 1 - ram.sp.toNat = d + 1 := by omega
        have hd' : ram.sp.toNat + d + 1 - (ram.sp.toNat + 1) = d := by omega
        rw [if_neg (by omega), if_neg (by omega), if_neg (by omega), hd, hd', List.getD_cons_succ]

theorem toNat_sp_foldl_push (vs : List Word) {ram : Memory}
    (hsp : ram.sp.toNat + vs.length ≤ 32768) :
    (sp (vs.foldl push ram)).toNat = ram.sp.toNat + vs.length := by
  induction vs generalizing ram with
  | nil => rfl
  | cons v vs ih =>
      rw [List.length_cons] at hsp ⊢
      have hnext := toNat_sp_push ram v (by omega)
      rw [List.foldl_cons, ih (by omega), hnext]
      omega

theorem enter_eq (ram : Memory) (back : Word) (n : Int) :
    ram.enter back n = CellTree.set (CellTree.set ((ram.frame back).cells.foldl push ram) 2
      (sp ((ram.frame back).cells.foldl push ram) - BitVec.ofInt 16 (n + 5))) 1
      (sp ((ram.frame back).cells.foldl push ram)) := rfl

/-- **What entering a function does to every cell.** -/
theorem entered_enter (ram : Memory) (back : Word) {n : Int} {b : Nat} (hb : ram.sp.toNat = b)
    (hn : 0 ≤ n) (hlo : 256 + n.toNat ≤ b) (hhi : b + 5 ≤ 32767) :
    Entered ram (ram.enter back n) b n.toNat back := by
  have hlength : (ram.frame back).cells.length = 5 := rfl
  have hsp : (sp ((ram.frame back).cells.foldl push ram)).toNat
      = ram.sp.toNat + (ram.frame back).cells.length := toNat_sp_foldl_push _ (by omega)
  have hget : ∀ a, 2 < a → a < 32768 → (ram.enter back n).get a
      = if a < b then ram.get a else (ram.frame back).cells.getD (a - b) (ram.get a) := by
    intro a h2 ha
    rw [enter_eq, get_set_of_ne _ _ (by omega) ha (by omega),
      get_set_of_ne _ _ (by omega) ha (by omega), ← hb]
    exact get_foldl_push _ (by omega) (by omega) ha
  rw [hb, hlength] at hsp
  constructor
  · refine List.ext_getElem (by simp [hlength]) fun i hi hi' => ?_
    have hi5 : i < 5 := by simpa using hi
    rw [List.getElem_map, List.getElem_range, hget _ (by omega) (by omega), if_neg (by omega),
      Nat.add_sub_cancel_left, List.getD_eq_getElem?_getD, List.getElem?_eq_getElem hi']
    rfl
  · rw [enter_eq, arg, get_set_of_ne _ _ (by omega) (by omega) (by omega), get_set_self,
      ← Word.ofNat_toNat_of_nonneg (by omega), BitVec.toNat_sub, hsp,
      Word.toNat_ofNat_of_lt (by omega)]
    omega
  · rw [enter_eq, lcl, get_set_self, hsp]
  · rw [enter_eq, sp, get_set_of_ne _ _ (by omega) (by omega) (by omega),
      get_set_of_ne _ _ (by omega) (by omega) (by omega)]
    exact hsp
  · intro a h2 ha hout
    rw [hget a h2 ha]
    split
    · rfl
    · rw [List.getD_eq_getElem?_getD, List.getElem?_eq_none (by omega)]
      rfl

/-! ### Leaving -/

theorem get_yieldResult {ram : Memory} (harg : ram.arg.toNat < 32768) {a : Nat} (h0 : 0 < a)
    (ha : a < 32768) :
    ram.yieldResult.get a = if a = ram.arg.toNat then ram.top else ram.get a := by
  unfold yieldResult drop
  rw [get_set_of_ne _ _ (by omega) ha (by omega), get_set _ _ harg ha,
    get_set_of_ne _ _ (by omega) ha (by omega)]
  simp only [eq_comm]

theorem sp_yieldResult {ram : Memory} (harg : 4 < ram.arg.toNat) (harg' : ram.arg.toNat < 32768) :
    ram.yieldResult.sp = ram.arg + 1 := by
  unfold yieldResult drop
  rw [sp, get_set_self, arg, get_set_of_ne _ _ harg' (by omega) (by omega),
    get_set_of_ne _ _ (by omega) (by omega) (by omega)]
  rfl

/-- Restoring a register reads the frame and leaves all other cells alone. -/
theorem get_restore (ram : Memory) (base distance : Word) {register a : Nat}
    (hregister : register < 32768) (ha : a < 32768) :
    CellTree.get (restore base register distance ram) a
      = if register = a then ram.get (base - distance).toNat else ram.get a :=
  get_set _ _ hregister ha

/-- The register `i` is restored from the cell `i` of the frame. -/
theorem get_leave_register {ram : Memory} {b : Nat} (hlcl : ram.lcl.toNat = b + 5) (hlo : 4 < b)
    (hhi : b + 5 ≤ 32767) {i : Nat} (h0 : 0 < i) (h4 : i ≤ 4) :
    ram.leave.get i = ram.yieldResult.get (b + i) := by
  have hdistance : (ram.lcl - 1).toNat = b + 4 ∧ (ram.lcl - 2).toNat = b + 3 ∧
      (ram.lcl - 3).toNat = b + 2 ∧ (ram.lcl - 4).toNat = b + 1 := by
    refine ⟨?_, ?_, ?_, ?_⟩ <;> bv_omega
  -- a restored register is not written again, and restoring it reads above all registers
  obtain rfl | rfl | rfl | rfl : i = 1 ∨ i = 2 ∨ i = 3 ∨ i = 4 := by omega
  all_goals
    unfold leave
    simp (disch := omega) only [get_restore, hdistance, if_neg, if_true]

theorem get_leave_of_ne {ram : Memory} {a : Nat} (ha : a = 0 ∨ 4 < a) (ha' : a < 32768) :
    ram.leave.get a = ram.yieldResult.get a := by
  unfold leave
  simp (disch := omega) only [get_restore, if_neg]

/-- **What leaving a function does to every cell.**  The result may stand where the return address
was. -/
theorem left_leave {ram : Memory} {b n : Nat} {f : Frame} (h : ram.Returnable b n f)
    (hlo : 256 + n ≤ b) : Left ram ram.leave b n f := by
  obtain ⟨hframe, harg, hlcl, hsp, hsp'⟩ := h
  have hyield : ∀ a, 0 < a → a < 32768 →
      ram.yieldResult.get a = if a = b - n then ram.top else ram.get a := by
    intro a h0 ha
    rw [get_yieldResult (by omega) h0 ha, harg]
  -- the result lies below the saved bases: without arguments, on the return address
  have hregister : ∀ i, 0 < i → i ≤ 4 → ram.leave.get i = f.cells.getD i 0 := by
    intro i h0 h4
    rw [get_leave_register hlcl (by omega) (by omega) h0 h4, hyield _ (by omega) (by omega),
      if_neg (by omega), ← hframe]
    simp [List.getD_eq_getElem?_getD, Nat.lt_succ_of_le h4]
  constructor
  · have hlast : (ram.sp - 1).toNat = ram.sp.toNat - 1 := by bv_omega
    rw [get_leave_of_ne (Or.inr (by omega)) (by omega), hyield _ (by omega) (by omega), if_pos rfl,
      top, hlast]
  · have hnext : ram.leave.sp = ram.arg + 1 :=
      (get_leave_of_ne (Or.inl rfl) (by omega)).trans (sp_yieldResult (by omega) (by omega))
    rw [hnext]
    bv_omega
  · exact hregister 1 (by omega) (by omega)
  · exact hregister 2 (by omega) (by omega)
  · exact hregister 3 (by omega) (by omega)
  · exact hregister 4 (by omega) (by omega)
  · intro a h4 ha hne _ _
    rw [get_leave_of_ne (Or.inr h4) ha, hyield a (by omega) ha, if_neg hne]

/-- The scratch cells do not matter. -/
theorem Left.of_agree {ram after after' : Memory} {b n : Nat} {f : Frame} (h : Left ram after b n f)
    (hagree : after'.Agree after) (hlo : 256 + n ≤ b) (hhi : b < 32768) : Left ram after' b n f where
  result := (hagree _ (by omega) (by omega) (by omega)).trans h.result
  sp := hagree.sp ▸ h.sp
  lcl := hagree.lcl.trans h.lcl
  arg := hagree.arg.trans h.arg
  this := hagree.this.trans h.this
  that := hagree.that.trans h.that
  others a h4 ha hne h13 h14 := (hagree a ha h13 h14).trans (h.others a h4 ha hne h13 h14)

end Memory

/-! ### The code of calls and returns -/

namespace CompilationUnit.Linked

variable {u : CompilationUnit} {o : CompileOptions} {l : Listing} {p : Program}

/-- A call that has code has an admissible number of arguments. -/
theorem bounds_of_call (h : u.Linked o l p) {k : Nat} {c : PlacedCommand}
    (hk : l.commands[k]? = some c) {f : Text} {n : Int} (hc : c.command = .call f n) :
    0 ≤ n ∧ n ≤ 32762 := by
  obtain ⟨g, g', code, -, -, hwrote, -, -⟩ :=
    h.code_of_command hk fun hs => absurd (by rw [hc]; rfl) hs
  have hvalid := valid_of_mem_listing h.listing (List.mem_of_getElem? hk)
  rw [hc] at hwrote hvalid
  cases hwrote with
  | call _ hn => exact ⟨hvalid.2.1, hn⟩

/-- The code of a call leads to the function it names. -/
theorem leads_call (h : u.Linked o l p) (hsize : p.instructions.length ≤ 32767) {k : Nat}
    {c : PlacedCommand} (hk : l.commands[k]? = some c) {f : Text} {n : Int}
    (hc : c.command = .call f n) {j : Nat} (hj : p.labels.find? f = some (l.address j))
    (hf : isPredefined f = false) {r : Memory} (hlo : 4 < r.sp.toNat)
    (hhi : r.sp.toNat + 4 < 32768) :
    p.Leads (l.address k) r (l.address j) (r.enter (Word.ofAddress (l.address (k + 1))) n) := by
  obtain ⟨g, g', code, -, -, hwrote, hi, hnext⟩ :=
    h.code_of_command hk fun hs => absurd (by rw [hc]; rfl) hs
  obtain ⟨hn, hn'⟩ := h.bounds_of_call hk hc
  have hend := h.address_le (k + 1)
  have hstart := h.address_le j
  have hlookup : predefinedCells.lookup f = none := by simpa [isPredefined] using hf
  rw [hc] at hwrote
  rw [hnext] at hend ⊢
  cases hwrote
  exact Program.leads_call hi (by omega) (lookup_freshLabel _ _)
    (Program.value?_of_label hlookup hj) (by omega) hn hn' hlo hhi

/-- The code of a return leads to the return address in the frame. -/
theorem runs_ret (h : u.Linked o l p) {k : Nat} {c : PlacedCommand}
    (hk : l.commands[k]? = some c) (hc : c.command = .ret) {b n : Nat} {f : Memory.Frame} {d : Cpu}
    (hpc : d.pc = l.address k) (hd : d.ram.Returnable b n f) (hlo : 256 + n ≤ b) :
    ∃ e, p.Runs d e ∧ e.pc = (f.back.toNat : Int) ∧ Memory.Left d.ram e.ram b n f := by
  obtain ⟨g, g', code, -, -, hwrote, hi, -⟩ :=
    h.code_of_command hk fun hs => absurd (by rw [hc]; rfl) hs
  rw [hc] at hwrote
  cases hwrote
  have harg := hd.arg
  have hlcl := hd.lcl
  have hsp := hd.sp
  have hback : d.ram.returnAddress = f.back := by
    have hcell : (d.ram.lcl - 5).toNat = b := by bv_omega
    rw [Memory.returnAddress, hcell]
    injection hd.frame
  have hcells : ∀ a ∈ StackMachine.Image.stackCells d.ram .ret, 256 ≤ a.toNat ∧ a.toNat ≤ 32767 := by
    simp only [StackMachine.Image.stackCells, List.forall_mem_cons]
    refine ⟨?_, ?_, ?_, ?_, ?_, ?_, ?_, List.forall_mem_nil _⟩
    all_goals bv_omega
  obtain ⟨e, hrun, hpc', hagree⟩ := Program.runs_ret hi hpc hcells
  exact ⟨e, hrun, hback ▸ hpc', (Memory.left_leave hd hlo).of_agree hagree hlo (by omega)⟩

end CompilationUnit.Linked

/-- **A return undoes a call.**  In a compiled and assembled unit of at most 32767 instructions, a
call of a declared function that is made with the stack pointer at `b` enters the function with a
frame at `b`.  From any return command, and from any memory that has this frame, the bases of the
callee and a word above the frame, the machine gets to the instruction behind the call, with that
word in place of the arguments and with the bases of the caller. -/
theorem CompilationUnit.return_restores_caller {u : CompilationUnit} {o : CompileOptions}
    {lines : List Text} {p : Program} (hcompile : u.compile o = .ok lines)
    (hassemble : assemble lines = .ok p) (hsize : p.instructions.length ≤ 32767) :
    ∃ l, u.listing o = .ok l ∧ lines = render l.items ∧
      ∀ (k : Nat) (c : PlacedCommand) (f : Text) (n : Int) (b : Nat), l.commands[k]? = some c →
        c.command = .call f n → (∃ c' ∈ l.commands, c'.command.declared? = some f) →
        isPredefined f = false → 256 + n.toNat ≤ b → b + 5 ≤ 32767 →
        (0 ≤ n ∧ n ≤ 32762) ∧
        (∃ j, p.labels.find? f = some j ∧
          ∀ m : Machine, m.rom = p.words.toArray → m.cpu.pc = l.address k →
            m.cpu.ram.sp.toNat = b →
            ∃ m', m.Reaches m' ∧ m'.rom = m.rom ∧ m'.cpu.pc = j ∧
              Memory.Entered m.cpu.ram m'.cpu.ram b n.toNat (Word.ofAddress (l.address (k + 1)))) ∧
        ∀ (k' : Nat) (c' : PlacedCommand), l.commands[k']? = some c' → c'.command = .ret →
          ∀ (m : Machine) (s : Memory.Frame), m.rom = p.words.toArray →
            m.cpu.pc = l.address k' → s.back = Word.ofAddress (l.address (k + 1)) →
            m.cpu.ram.Returnable b n.toNat s →
            ∃ m', m.Reaches m' ∧ m'.rom = m.rom ∧ m'.cpu.pc = l.address (k + 1) ∧
              Memory.Left m.cpu.ram m'.cpu.ram b n.toNat s := by
  obtain ⟨l, h, hlines⟩ := exists_linked hcompile hassemble
  refine ⟨l, h.listing, hlines, fun k c f n b hk hc hd hf hlo hhi => ?_⟩
  obtain ⟨hn, hn'⟩ := h.bounds_of_call hk hc
  refine ⟨⟨hn, hn'⟩, ?_, ?_⟩
  · obtain ⟨c', hc', hd⟩ := hd
    obtain ⟨j, hj⟩ := List.getElem?_of_mem hc'
    have hlabel := h.label_of_declared hj hd
    refine ⟨l.address j, hlabel, fun m hrom hpc hsp => ?_⟩
    obtain ⟨d, hrun, hpc', hram⟩ :=
      h.leads_call hsize hk hc hlabel hf (by omega) (by omega) m.cpu hpc rfl
    obtain ⟨m', hreaches, hrom', hcpu⟩ := hrun.reaches hrom rfl
    refine ⟨m', hreaches, hrom', by rw [hcpu, hpc'], ?_⟩
    rw [hcpu, hram]
    exact Memory.entered_enter _ _ hsp hn hlo hhi
  · intro k' c' hk' hc' m s hrom hpc hback hreturn
    obtain ⟨d, hrun, hpc', hleft⟩ := h.runs_ret hk' hc' hpc hreturn hlo
    obtain ⟨m', hreaches, hrom', hcpu⟩ := hrun.reaches hrom rfl
    have haddress := h.address_le (k + 1)
    have hback' : (Word.ofAddress (l.address (k + 1))).toNat = l.address (k + 1) :=
      Word.toNat_ofNat_of_lt (by omega)
    refine ⟨m', hreaches, hrom', ?_, hcpu ▸ hleft⟩
    rw [hcpu, hpc', hback, hback']

/-- A unit with a function that returns its argument, and a call of it. -/
def returning : CompilationUnit :=
  .ofLines [ascii "function f 0", ascii "push argument 0", ascii "return", ascii "call f 1"]

/-- A call with one argument that is made with the stack pointer at 300, and a return to it with one
word above the frame: the machine is behind the call, with the stack pointer and the bases back. -/
theorem returning_round_trip :
    ∃ lines p l, returning.compile { bootstrap := false } = .ok lines ∧ assemble lines = .ok p ∧
      returning.listing { bootstrap := false } = .ok l ∧
      ∃ m₁ m₂ m₃ m₄ : Machine, m₁.cpu.pc = l.address 3 ∧ m₁.cpu.ram.sp.toNat = 300 ∧
        m₁.Reaches m₂ ∧ m₃.cpu.pc = l.address 2 ∧ m₃.cpu.ram = m₂.cpu.ram.set 0 306 ∧
        m₃.Reaches m₄ ∧ m₄.cpu.pc = l.address 4 ∧ m₄.cpu.ram.sp.toNat = 300 ∧
        m₄.cpu.ram.lcl = m₁.cpu.ram.lcl := by
  obtain ⟨l, p, ⟨hlisting, hassemble⟩, hcompile, hsize, hcommands⟩ :=
    CompilationUnit.exists_linked_of_test (u := returning) (o := { bootstrap := false })
      (fun l p => p.instructions.length ≤ 32767 ∧
        l.commands.map PlacedCommand.command = [.function (ascii "f") 0, .push .arguments 0, .ret,
          .call (ascii "f") 1]) (by decide +kernel)
  obtain ⟨c₀, hc₀, hfunction⟩ := Listing.exists_command (k := 0) (by rw [hcommands]; rfl)
  obtain ⟨c₂, hc₂, hret⟩ := Listing.exists_command (k := 2) (by rw [hcommands]; rfl)
  obtain ⟨c₃, hc₃, hcall⟩ := Listing.exists_command (k := 3) (by rw [hcommands]; rfl)
  obtain ⟨l', hl', -, htrip⟩ := CompilationUnit.return_restores_caller hcompile hassemble hsize
  obtain rfl : l = l' := by rw [hlisting] at hl'; injection hl'
  obtain ⟨-, ⟨j, -, henter⟩, hleave⟩ := htrip 3 c₃ (ascii "f") 1 300 hc₃ hcall
    ⟨c₀, List.mem_of_getElem? hc₀, by rw [hfunction]; rfl⟩ (by decide) (by decide) (by decide)
  let m₁ : Machine :=
    { rom := p.words.toArray, cpu := { pc := l.address 3, ram := CellTree.set Memory.zero 0 300 } }
  have hsp : m₁.cpu.ram.sp = 300 := Memory.get_set_self _ _ _
  obtain ⟨m₂, hreaches, hrom, -, hentered⟩ := henter m₁ rfl rfl (by rw [hsp]; rfl)
  let m₃ : Machine :=
    { rom := p.words.toArray, cpu := { pc := l.address 2, ram := m₂.cpu.ram.set 0 306 } }
  have hget : ∀ a, 0 < a → a < 32768 → m₃.cpu.ram.get a = m₂.cpu.ram.get a := fun a h0 ha =>
    Memory.get_set_of_ne _ _ (by omega) ha (by omega)
  have hreturn : m₃.cpu.ram.Returnable 300 1
      (m₁.cpu.ram.frame (Word.ofAddress (l.address 4))) := by
    constructor
    · refine Eq.trans (List.map_congr_left fun i hi => ?_) hentered.frame
      exact hget _ (by omega) (by have := List.mem_range.1 hi; omega)
    · exact (congrArg BitVec.toNat (hget 2 (by omega) (by omega))).trans hentered.arg
    · exact (congrArg BitVec.toNat (hget 1 (by omega) (by omega))).trans hentered.lcl
    · have hsp₃ : m₃.cpu.ram.sp = 306 := Memory.get_set_self _ _ _
      rw [hsp₃]
      decide
  obtain ⟨m₄, hreaches', -, hpc, hleft⟩ := hleave 2 c₂ hc₂ hret m₃ _ rfl rfl rfl hreturn
  exact ⟨_, p, l, hcompile, hassemble, hlisting, m₁, m₂, m₃, m₄, rfl, by rw [hsp]; rfl, hreaches,
    rfl, rfl, hreaches', hpc, hleft.sp, hleft.lcl⟩

end HackToolchain

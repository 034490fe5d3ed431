/-
**What generated code does.**

Each piece of code that the generator writes has an exact effect on memory, wherever it is
installed, as long as the cells of the stack that it touches exist and are not the stack pointer
itself.  Code without jumps is followed instruction by instruction; comparisons, calls and returns
are put together from pieces of it and from jumps.

Main results:

* `Program.follow?_pushD`, `Program.follow?_popD` — pushing and popping the data register;
* `Program.follow?_push_indexed`, `Program.follow?_pop_indexed`, … — pushing from and popping into
  segments;
* `Program.leads_binary`, `Program.leads_unary`, `Program.leads_compare` — operators;
* `Program.leads_goto`, `Program.leads_gotoIf` — jumps;
* `Program.leads_function`, `Program.leads_call`, `Program.runs_ret` — **entering and leaving
  functions**.
-/
import HackToolchain.Proofs.Codegen.Cases
import HackToolchain.Proofs.Cpu.Running
import HackToolchain.Proofs.StackMachine.Agreement

set_option relaxedAutoImplicit false
set_option autoImplicit false

namespace HackToolchain

/-! ### Pieces of calls and returns -/

namespace Code

/-- The part of a call that sets the bases of the callee, the arguments starting at the given
distance below the stack pointer. -/
def bases (distance : Int) : List Item :=
  [.address "SP", .set [.D] (.same .M), .constant distance, .set [.D] (.dMinus .A), .address "ARG",
    .set [.M] (.same .D), .address "SP", .set [.D] (.same .M), .address "LCL", .set [.M] (.same .D)]

/-- The part of a return that puts the base of the frame and the return address aside. -/
def aside : List Item :=
  [.address "LCL", .set [.D] (.same .M), .address "R13", .set [.M] (.same .D), .constant 5,
    .set [.A] (.dMinus .A), .set [.D] (.same .M), .address "R14", .set [.M] (.same .D)]

/-- The part of a return that puts the result in place. -/
def yieldResult : List Item :=
  popD ++ [.address "ARG", .set [.A] (.same .M), .set [.M] (.same .D), .address "ARG",
    .set [.D] (.succ .M), .address "SP", .set [.M] (.same .D)]

theorem call_eq (name : Text) (n : Int) (back : Text) :
    call name n back = ([.load (.symbol back), .set [.D] (.same .A)] ++ pushD
      ++ ["LCL", "ARG", "THIS", "THAT"].flatMap pushRegister ++ bases (Numeral.wrap (n + 5)))
      ++ goto name ++ [.label back] := rfl

theorem ret_eq : ret = (aside ++ yieldResult ++ restore "THAT" ++ restore "THIS" ++ restore "ARG"
    ++ restore "LCL" ++ [.address "R14", .set [.A] (.same .M)]) ++ [.jump .zero .always] := rfl

end Code

namespace Program

variable (p : Program) (c : Cpu)

/-! ### Single instructions -/

theorem value?_predefined {name : String} {n : Nat}
    (h : predefinedCells.lookup (ascii name) = some n) :
    p.value? (.symbol (ascii name)) = some n := by
  simp only [value?, Target.address, h, addressValue?]

theorem followItem?_address {name : String} {n : Nat}
    (h : predefinedCells.lookup (ascii name) = some n) (hn : n < 32768) :
    p.followItem? c (.address name) = some { c with a := BitVec.ofNat 16 n } := by
  simp only [followItem?, Item.address, value?_predefined p h]
  rw [if_pos hn]

@[simp] theorem followItem?_SP : p.followItem? c (.address "SP") = some { c with a := 0 } :=
  followItem?_address p c (n := 0) rfl (by decide)

@[simp] theorem followItem?_LCL : p.followItem? c (.address "LCL") = some { c with a := 1 } :=
  followItem?_address p c (n := 1) rfl (by decide)

@[simp] theorem followItem?_ARG : p.followItem? c (.address "ARG") = some { c with a := 2 } :=
  followItem?_address p c (n := 2) rfl (by decide)

@[simp] theorem followItem?_R13 : p.followItem? c (.address "R13") = some { c with a := 13 } :=
  followItem?_address p c (n := 13) rfl (by decide)

@[simp] theorem followItem?_R14 : p.followItem? c (.address "R14") = some { c with a := 14 } :=
  followItem?_address p c (n := 14) rfl (by decide)

theorem followItem?_load {t : Target} {n : Nat} (ht : p.value? t = some n) (hn : n < 32768) :
    p.followItem? c (.load t) = some { c with a := BitVec.ofNat 16 n } := by
  simp only [followItem?, ht]
  rw [if_pos hn]

theorem followItem?_constant {n : Int} (h0 : 0 ≤ n) (h : n ≤ 32767) :
    p.followItem? c (.constant n) = some { c with a := BitVec.ofInt 16 n } := by
  have hvalue : p.value? (.number n) = some n.toNat := rfl
  rw [← Word.ofNat_toNat_of_nonneg h0]
  exact followItem?_load p c hvalue (by omega)

@[simp] theorem followItem?_set (dest : Dest) (comp : Comp) :
    p.followItem? c (.set dest comp) =
      if comp.readsMemory = true ∨ .M ∈ dest → c.a.toNat < 32768 then
        some { a := if .A ∈ dest then comp.eval c.register else c.a
               d := if .D ∈ dest then comp.eval c.register else c.d
               pc := c.pc
               ram := if .M ∈ dest then c.ram.set c.a.toNat (comp.eval c.register) else c.ram }
      else none := by
  simp [followItem?, Item.set, Compute.accessesMemory, Compute.apply]

/-! ### The data register and the stack -/

variable {p c}

theorem follow?_pushD (h0 : 0 < c.ram.sp.toNat) (h : c.ram.sp.toNat < 32768) :
    p.follow? Code.pushD c = some { c with a := 0, ram := c.ram.push c.d } := by
  unfold Memory.push
  unfold Memory.sp at *
  have hne : ¬(CellTree.get c.ram 0).toNat = 0 := by omega
  simp [Code.pushD, Comp.readsMemory, h, Memory.get_set, hne]

theorem follow?_popD (h0 : 0 < (c.ram.sp - 1).toNat) (h : (c.ram.sp - 1).toNat < 32768) :
    p.follow? Code.popD c
      = some { c with a := c.ram.sp - 1, d := c.ram.top, ram := c.ram.drop } := by
  unfold Memory.drop Memory.top
  unfold Memory.sp at *
  simp only [BitVec.ofNat_eq_ofNat] at *
  have hne : ¬0 = (CellTree.get c.ram 0 - 1#16).toNat := by omega
  simp [Code.popD, Comp.readsMemory, Memory.get_set, h, hne, -BitVec.toNat_sub]

/-- A number is loaded into the data register.  The number left in the address register is its
magnitude. -/
theorem follow?_loadConstant {v : Int} (hlo : -32768 ≤ v) (hhi : v ≤ 32767) :
    ∃ a, p.follow? (Code.loadConstant v) c = some { c with a, d := BitVec.ofInt 16 v } := by
  unfold Code.loadConstant
  split
  · next h0 =>
      refine ⟨BitVec.ofInt 16 v, ?_⟩
      simp [followItem?_constant p c h0 hhi, Comp.readsMemory]
  · split
    · next hmin =>
        -- said of any word, so that no literal is ever computed with
        have hrest : ∀ w : Word,
            p.follow? [.set [.D] (.neg .A), .set [.D] (.pred .D)] { c with a := w }
              = some { c with a := w, d := -w - 1 } := by
          intro w
          simp [Comp.readsMemory]
        have hword : -BitVec.ofInt 16 32767 - 1 = BitVec.ofInt 16 (-32768) := by decide
        refine ⟨BitVec.ofInt 16 32767, ?_⟩
        rw [hmin, follow?_cons, followItem?_constant p c (by omega) (by omega), Option.bind_some,
          hrest, hword]
    · have hword : -BitVec.ofInt 16 (-v) = BitVec.ofInt 16 v := by
        rw [BitVec.ofInt_neg, BitVec.neg_neg]
      refine ⟨BitVec.ofInt 16 (-v), ?_⟩
      rw [Numeral.wrap_of_lt (by omega) (by omega), follow?_cons,
        followItem?_constant p c (by omega) (by omega), ← hword]
      simp [Comp.readsMemory]

/-! ### Segments -/

theorem follow?_push_value {n : Int} (hlo : -32768 ≤ n) (hhi : n ≤ 32767)
    (h0 : 0 < c.ram.sp.toNat) (h : c.ram.sp.toNat < 32768) :
    ∃ a, p.follow? (Code.push (.value n)) c
      = some { c with a, d := BitVec.ofInt 16 n, ram := c.ram.push (BitVec.ofInt 16 n) } := by
  obtain ⟨a, ha⟩ := follow?_loadConstant (p := p) (c := c) hlo hhi
  refine ⟨0, ?_⟩
  rw [Code.push, follow?_append, ha, Option.bind_some]
  exact follow?_pushD h0 h

theorem follow?_push_direct {t : Target} {n : Nat} (ht : p.value? t = some n) (hn : n < 32768)
    (h0 : 0 < c.ram.sp.toNat) (h : c.ram.sp.toNat < 32768) :
    p.follow? (Code.push (.direct t)) c
      = some { c with a := 0, d := c.ram.get n, ram := c.ram.push (c.ram.get n) } := by
  have hload : p.follow? [.load t, .set [.D] (.same .M)] c
      = some { c with a := BitVec.ofNat 16 n, d := c.ram.get n } := by
    have hmod : n % 65536 = n := by omega
    simp [followItem?_load p c ht hn, Comp.readsMemory, hmod, hn]
  rw [Code.push, follow?_append, hload, Option.bind_some]
  exact follow?_pushD h0 h

/-- The address of a cell at a distance from a base is computed in the data register. -/
theorem follow?_push_indexed {base : String} {b : Nat} {i : Int}
    (hbase : predefinedCells.lookup (ascii base) = some b) (hb : b < 32768) (hi0 : 0 ≤ i)
    (hi : i ≤ 32767) (hcell : (c.ram.get b + BitVec.ofInt 16 i).toNat < 32768)
    (h0 : 0 < c.ram.sp.toNat) (h : c.ram.sp.toNat < 32768) :
    p.follow? (Code.push (.indexed base i)) c
      = some { c with
          a := 0
          d := c.ram.get (c.ram.get b + BitVec.ofInt 16 i).toNat
          ram := c.ram.push (c.ram.get (c.ram.get b + BitVec.ofInt 16 i).toNat) } := by
  have hload : p.follow? [.constant i, .set [.D] (.same .A), .address base, .set [.A] (.dPlus .M),
      .set [.D] (.same .M)] c
      = some { c with
          a := c.ram.get b + BitVec.ofInt 16 i
          d := c.ram.get (c.ram.get b + BitVec.ofInt 16 i).toNat } := by
    have hmod : b % 65536 = b := by omega
    rw [BitVec.add_comm] at hcell ⊢
    simp [followItem?_constant p c hi0 hi, followItem?_address p _ hbase hb, Comp.readsMemory, hmod,
      hb, hcell, -BitVec.toNat_add]
  rw [Code.push, follow?_append, hload, Option.bind_some]
  exact follow?_pushD h0 h

/-- A value has no cell: the top is dropped without being looked at. -/
theorem follow?_pop_value (n : Int) :
    p.follow? (Code.pop (.value n)) c = some { c with a := 0, ram := c.ram.drop } := by
  simp [Code.pop, Comp.readsMemory, Memory.drop, Memory.sp]

theorem follow?_pop_direct {t : Target} {n : Nat} (ht : p.value? t = some n) (hn : n < 32768)
    (h0 : 0 < (c.ram.sp - 1).toNat) (h : (c.ram.sp - 1).toNat < 32768) :
    p.follow? (Code.pop (.direct t)) c
      = some { c with
          a := BitVec.ofNat 16 n
          d := c.ram.top
          ram := c.ram.drop.set n c.ram.top } := by
  have hmod : n % 65536 = n := by omega
  rw [Code.pop, follow?_append, follow?_popD h0 h]
  simp [followItem?_load p _ ht hn, Comp.readsMemory, hmod, hn]

/-- The address of the cell is put aside in the first scratch cell while the top is popped. -/
theorem follow?_pop_indexed {base : String} {b : Nat} {i : Int}
    (hbase : predefinedCells.lookup (ascii base) = some b) (hb : b < 32768) (hi0 : 0 ≤ i)
    (hi : i ≤ 32767) (hcell : (c.ram.get b + BitVec.ofInt 16 i).toNat < 32768)
    (h0 : 0 < (c.ram.sp - 1).toNat) (h13 : (c.ram.sp - 1).toNat ≠ 13)
    (h : (c.ram.sp - 1).toNat < 32768) :
    p.follow? (Code.pop (.indexed base i)) c
      = some { c with
          a := c.ram.get b + BitVec.ofInt 16 i
          d := c.ram.top
          ram := (Memory.drop (c.ram.set 13 (c.ram.get b + BitVec.ofInt 16 i))).set
            (c.ram.get b + BitVec.ofInt 16 i).toNat c.ram.top } := by
  generalize hcellw : c.ram.get b + BitVec.ofInt 16 i = cell at *
  -- the stack lies above the scratch cell, so popping is not disturbed by it
  let aside : Cpu := { c with a := 13, d := cell, ram := c.ram.set 13 cell }
  have haside : p.follow? [.constant i, .set [.D] (.same .A), .address base, .set [.D] (.dPlus .M),
      .address "R13", .set [.M] (.same .D)] c = some aside := by
    have hmod : b % 65536 = b := by omega
    simp [aside, followItem?_constant p c hi0 hi, followItem?_address p _ hbase hb,
      Comp.readsMemory, hmod, hb, ← hcellw, BitVec.add_comm]
  have hsp : aside.ram.sp = c.ram.sp := Memory.get_set_of_ne _ _ (by omega) (by omega) (by omega)
  have htop : aside.ram.top = c.ram.top := by
    rw [Memory.top, hsp]
    exact Memory.get_set_of_ne _ _ (by omega) h (by omega)
  have hpop : p.follow? Code.popD aside
      = some { aside with a := c.ram.sp - 1, d := c.ram.top, ram := aside.ram.drop } := by
    rw [follow?_popD (by rw [hsp]; exact h0) (by rw [hsp]; exact h), hsp, htop]
  have hback : aside.ram.drop.get 13 = cell := by
    rw [Memory.drop, Memory.get_set_of_ne _ _ (by omega) (by omega) (by omega)]
    exact Memory.get_set_self _ _ _
  have hstore : p.follow? [.address "R13", .set [.A] (.same .M), .set [.M] (.same .D)]
      { aside with a := c.ram.sp - 1, d := c.ram.top, ram := aside.ram.drop }
      = some { aside with
          a := cell, d := c.ram.top, ram := aside.ram.drop.set cell.toNat c.ram.top } := by
    simp [Comp.readsMemory, hback, hcell]
  rw [Code.pop, follow?_append, follow?_append, haside, Option.bind_some, hpop, Option.bind_some,
    hstore]

/-! ### Operators -/

/-- The second operand is popped, and the first one is at the address. -/
theorem follow?_operands (h0 : 0 < (c.ram.sp - 1).toNat) (h : (c.ram.sp - 1).toNat < 32768) :
    p.follow? (Code.popD ++ [.set [.A] (.pred .A)]) c
      = some { c with a := c.ram.sp - 2, d := c.ram.top, ram := c.ram.drop } := by
  rw [follow?_append, follow?_popD h0 h, ← Memory.sp_drop_sub_one, Memory.sp_drop]
  simp [Comp.readsMemory]

theorem follow?_binary (comp : Comp) (h0 : 0 < (c.ram.sp - 1).toNat)
    (h : (c.ram.sp - 1).toNat < 32768) (h2 : (c.ram.sp - 2).toNat < 32768) :
    p.follow? (Code.binary comp) c
      = some { c with
          a := c.ram.sp - 2
          d := c.ram.top
          ram := c.ram.drop.replaceTop (comp.eval
            { c with a := c.ram.sp - 2, d := c.ram.top, ram := c.ram.drop }.register) } := by
  have hcode : Code.binary comp
      = (Code.popD ++ [.set [.A] (.pred .A)]) ++ [.set [.M] comp] := rfl
  rw [hcode, follow?_append, follow?_operands h0 h, Memory.replaceTop, Memory.sp_drop_sub_one]
  generalize c.ram.sp - 2 = a at h2 ⊢
  simp [h2]

theorem follow?_unary (comp : Comp) (h : (c.ram.sp - 1).toNat < 32768) :
    p.follow? (Code.unary comp) c
      = some { c with
          a := c.ram.sp - 1
          ram := c.ram.replaceTop (comp.eval { c with a := c.ram.sp - 1 }.register) } := by
  unfold Memory.replaceTop
  unfold Memory.sp at *
  simp only [BitVec.ofNat_eq_ofNat] at *
  simp [Code.unary, Comp.readsMemory, h, -BitVec.toNat_sub]

/-- **A binary operator replaces its operands by its value**: it finds the second operand in the data
register and the first one in memory. -/
theorem leads_binary {comp : Comp} {k : Nat} {r : Memory} {v : Word}
    (hi : p.Installed k (Code.binary comp)) (h0 : 0 < (r.sp - 1).toNat)
    (h : (r.sp - 1).toNat < 32768) (h2 : (r.sp - 2).toNat < 32768)
    (hv : ∀ f : Register → Word, f .D = r.top → f .M = r.drop.top → comp.eval f = v) :
    p.Leads k r (k + codeSize (Code.binary comp)) (r.drop.replaceTop v) := by
  refine Leads.of_follow? hi fun c hram => ?_
  subst hram
  refine ⟨_, follow?_binary comp h0 h h2, ?_⟩
  rw [hv _ rfl c.ram.top_drop.symm]

/-- **A unary operator replaces its operand by its value**: it finds the operand in memory. -/
theorem leads_unary {comp : Comp} {k : Nat} {r : Memory} {v : Word}
    (hi : p.Installed k (Code.unary comp)) (h : (r.sp - 1).toNat < 32768)
    (hv : ∀ f : Register → Word, f .M = r.top → comp.eval f = v) :
    p.Leads k r (k + codeSize (Code.unary comp)) (r.replaceTop v) := by
  refine Leads.of_follow? hi fun c hram => ?_
  subst hram
  refine ⟨_, follow?_unary comp h, ?_⟩
  rw [hv _ rfl]

/-! ### Jumps -/

theorem follow?_load {t : Target} {n : Nat} (ht : p.value? t = some n) (hn : n < 32768) :
    p.follow? [.load t] c = some { c with a := BitVec.ofNat 16 n } := by
  rw [follow?_cons, followItem?_load p c ht hn]
  rfl

/-- **A jump leads to its label** and leaves the memory alone. -/
theorem leads_goto {name : Text} {k n : Nat} {r : Memory} (hi : p.Installed k (Code.goto name))
    (hname : p.value? (.symbol name) = some n) (hn : n < 32768) : p.Leads k r n r := by
  intro c hpc hram
  have hcode : Code.goto name = [.load (.symbol name)] ++ [.jump .zero .always] := rfl
  have hrun := runs_of_follow?_jump (hcode ▸ hi) hpc (follow?_load hname hn) rfl
    ((if_pos rfl).trans (Word.toNat_ofNat_of_lt (by omega)))
  exact ⟨_, hrun, rfl, hram⟩

/-- The top decides between the label and what follows the jump. -/
theorem leads_gotoIf {name : Text} {k n : Nat} {r : Memory} (hi : p.Installed k (Code.gotoIf name))
    (hname : p.value? (.symbol name) = some n) (hn : n < 32768) (h0 : 0 < (r.sp - 1).toNat)
    (h : (r.sp - 1).toNat < 32768) :
    p.Leads k r (if r.top = 0 then k + codeSize (Code.gotoIf name) else n) r.drop := by
  intro c hpc hram
  subst hram
  have hcode : Code.gotoIf name
      = (Code.popD ++ [.load (.symbol name)]) ++ [.jump (.same .D) .ne] := rfl
  have hfollow : p.follow? (Code.popD ++ [.load (.symbol name)]) c
      = some { c with a := BitVec.ofNat 16 n, d := c.ram.top, ram := c.ram.drop } := by
    rw [follow?_append, follow?_popD h0 h, Option.bind_some, follow?_load hname hn]
  refine ⟨_, runs_of_follow?_jump (hcode ▸ hi) hpc hfollow rfl ?_, rfl, rfl⟩
  by_cases hzero : c.ram.top = 0
  · rw [if_pos hzero, if_neg (by simp [Jump.holds, hzero])]
    rfl
  · have hne : ¬c.ram.top.toInt = 0 := by
      intro hint
      exact hzero (BitVec.eq_of_toInt_eq (by simpa using hint))
    rw [if_neg hzero, if_pos (by simp [Jump.holds, hne]), Word.toNat_ofNat_of_lt (by omega)]

/-! ### Comparisons -/

/-- The difference of the operands is left in the data register. -/
theorem follow?_difference (h0 : 0 < (c.ram.sp - 1).toNat) (h : (c.ram.sp - 1).toNat < 32768)
    (h2 : (c.ram.sp - 2).toNat < 32768) :
    p.follow? ((Code.popD ++ [.set [.A] (.pred .A)]) ++ [.set [.D] (.minusD .M)]) c
      = some { c with
          a := c.ram.sp - 2, d := c.ram.drop.top - c.ram.top, ram := c.ram.drop } := by
  rw [follow?_append, follow?_operands h0 h, Memory.top_drop]
  generalize c.ram.sp - 2 = a at h2 ⊢
  simp [Comp.readsMemory, h2]

/-- **A comparison replaces its operands by minus one unless its failing condition holds of their
difference**, and then by zero. -/
theorem leads_compare {failing : Jump} {no yes : Text} {k : Nat} {r : Memory}
    (hi : p.Installed k (Code.compare failing no yes))
    (hk : k + codeSize (Code.compare failing no yes) < 32768)
    (hno : predefinedCells.lookup no = none) (hyes : predefinedCells.lookup yes = none)
    (h0 : 0 < (r.sp - 1).toNat) (h : (r.sp - 1).toNat < 32768) (h2 : (r.sp - 2).toNat < 32768) :
    p.Leads k r (k + codeSize (Code.compare failing no yes))
      (r.drop.replaceTop (truth (!failing.holds (r.drop.top - r.top)))) := by
  replace hk : k + 15 < 32768 := hk
  -- the code falls into the test, the branch that succeeds, and the branch that fails
  let test : List Item := ((Code.popD ++ [.set [.A] (.pred .A)]) ++ [.set [.D] (.minusD .M)])
    ++ [.load (.symbol no)]
  have hcode : Code.compare failing no yes = (test ++ [.jump (.same .D) failing])
      ++ (Code.unary .minusOne ++ Code.goto yes) ++ (.label no :: Code.unary .zero)
      ++ [.label yes] := rfl
  rw [hcode] at hi
  obtain ⟨hi, hlabel, -⟩ := installed_append.1 hi
  obtain ⟨hi, hnolabel, hfail⟩ := installed_append.1 hi
  obtain ⟨htest, hsucceed⟩ := installed_append.1 hi
  obtain ⟨hsucceed, hgoto⟩ := installed_append.1 hsucceed
  have hsp : (r.drop.sp - 1).toNat < 32768 := r.sp_drop_sub_one ▸ h2
  have hsucceeds : p.Leads (k + 7) r.drop (k + 15) (r.drop.replaceTop (-1)) :=
    (leads_unary hsucceed hsp fun _ _ => rfl).trans
      (leads_goto hgoto (value?_of_label hyes hlabel) (by omega))
  have hfails : p.Leads (k + 12) r.drop (k + 15) (r.drop.replaceTop 0) :=
    leads_unary hfail hsp fun _ _ => rfl
  have hnovalue : p.value? (.symbol no) = some (k + 12) := value?_of_label hno hnolabel
  have htests : p.Leads k r (if failing.holds (r.drop.top - r.top) then k + 12 else k + 7) r.drop := by
    intro c hpc hram
    subst hram
    have hfollow : p.follow? test c = some { c with
        a := BitVec.ofNat 16 (k + 12), d := c.ram.drop.top - c.ram.top, ram := c.ram.drop } := by
      rw [follow?_append, follow?_difference h0 h h2, Option.bind_some,
        follow?_load hnovalue (by omega)]
    refine ⟨_, runs_of_follow?_jump htest hpc hfollow rfl ?_, rfl, rfl⟩
    rw [Word.toNat_ofNat_of_lt (by omega)]
    rfl
  cases hfailing : failing.holds (r.drop.top - r.top) with
  | true =>
      rw [hfailing, if_pos rfl] at htests
      exact htests.trans hfails
  | false =>
      rw [hfailing, if_neg (by decide)] at htests
      exact htests.trans hsucceeds

/-! ### Functions -/

/-- Local cells are pushed one after the other. -/
theorem follow?_zeros (n : Nat)
    (h : ∀ j < n, 0 < (c.ram.sp + BitVec.ofNat 16 j).toNat ∧
      (c.ram.sp + BitVec.ofNat 16 j).toNat < 32768) :
    ∃ d, p.follow? (List.replicate n (Code.loadConstant 0 ++ Code.pushD)).flatten c = some d ∧
      d.ram = c.ram.pushZeros n := by
  induction n generalizing c with
  | zero => exact ⟨c, rfl, rfl⟩
  | succ n ih =>
      obtain ⟨hsp0, hsp⟩ : 0 < c.ram.sp.toNat ∧ c.ram.sp.toNat < 32768 := by
        simpa using h 0 (by omega)
      obtain ⟨a, ha⟩ := follow?_push_value (p := p) (c := c) (n := 0) (by decide) (by decide) hsp0 hsp
      obtain ⟨d, hd, hram⟩ := ih (c := { c with a, d := 0, ram := c.ram.push 0 }) (by
        intro j hj
        rw [Memory.sp_push, Word.add_one_add_ofNat]
        exact h (j + 1) (by omega))
      refine ⟨d, ?_, hram⟩
      rw [List.replicate_succ, List.flatten_cons, follow?_append]
      exact (congrArg (Option.bind · _) ha).trans hd

/-- **Starting a function pushes its local cells**, all zero. -/
theorem leads_function {name : Text} {n : Int} {k : Nat} {r : Memory}
    (hi : p.Installed k (Code.function name n))
    (h : ∀ j < n.toNat, 0 < (r.sp + BitVec.ofNat 16 j).toNat ∧
      (r.sp + BitVec.ofNat 16 j).toNat < 32768) :
    p.Leads k r (k + codeSize (Code.function name n)) (r.pushZeros n.toNat) := by
  refine Leads.of_follow? hi fun c hram => ?_
  subst hram
  exact follow?_zeros n.toNat h

theorem follow?_pushRegister {name : String} {n : Nat} {v : Word}
    (hname : predefinedCells.lookup (ascii name) = some n) (hn : n < 32768) (hv : c.ram.get n = v)
    (h0 : 0 < c.ram.sp.toNat) (h : c.ram.sp.toNat < 32768) :
    p.follow? (Code.pushRegister name) c = some { c with a := 0, d := v, ram := c.ram.push v } :=
  hv ▸ follow?_push_direct (value?_predefined p hname) hn h0 h

/-- The bases of the caller are pushed.  They lie below the stack, which grows while they are
read. -/
theorem follow?_pushRegisters {registers : List (String × Nat)} {s : Memory}
    (hregisters : ∀ q ∈ registers, predefinedCells.lookup (ascii q.1) = some q.2 ∧ 0 < q.2 ∧ q.2 ≤ 4)
    (hget : ∀ n, 0 < n → n ≤ 4 → c.ram.get n = s.get n) (hlo : 4 < c.ram.sp.toNat)
    (hhi : c.ram.sp.toNat + registers.length ≤ 32768) :
    ∃ d, p.follow? (registers.flatMap fun q => Code.pushRegister q.1) c = some d ∧
      d.ram = registers.foldl (fun r q => Memory.push r (s.get q.2)) c.ram := by
  induction registers generalizing c with
  | nil => exact ⟨c, rfl, rfl⟩
  | cons q registers ih =>
      obtain ⟨hname, h0, h4⟩ := hregisters q (List.mem_cons_self ..)
      rw [List.length_cons] at hhi
      have hpush := follow?_pushRegister (p := p) (c := c) hname (by omega) (hget q.2 h0 h4) (by omega)
        (by omega)
      have hsp := Memory.toNat_sp_push c.ram (s.get q.2) (by omega)
      obtain ⟨d, hd, hram⟩ := ih (c := { c with
          a := 0, d := s.get q.2, ram := c.ram.push (s.get q.2) })
        (fun q' hq' => hregisters q' (List.mem_cons_of_mem _ hq'))
        (fun n hn0 hn4 => (Memory.get_push_of_lt _ _ hn0 (by omega) (by omega)).trans
          (hget n hn0 hn4))
        (by simp only [hsp]; omega) (by simp only [hsp]; omega)
      refine ⟨d, ?_, hram⟩
      rw [List.flatMap_cons, follow?_append, hpush]
      exact hd

theorem follow?_pushBases {s : Memory} (hget : ∀ n, 0 < n → n ≤ 4 → c.ram.get n = s.get n)
    (hlo : 4 < c.ram.sp.toNat) (hhi : c.ram.sp.toNat + 4 ≤ 32768) :
    ∃ d, p.follow? (["LCL", "ARG", "THIS", "THAT"].flatMap Code.pushRegister) c = some d ∧
      d.ram = (((c.ram.push s.lcl).push s.arg).push s.this).push s.that := by
  have hregisters : ∀ q ∈ [("LCL", 1), ("ARG", 2), ("THIS", 3), ("THAT", 4)],
      predefinedCells.lookup (ascii q.1) = some q.2 ∧ 0 < q.2 ∧ q.2 ≤ 4 := by decide
  exact follow?_pushRegisters hregisters hget hlo hhi

/-- The bases of the callee are set from the stack pointer. -/
theorem follow?_bases {n : Int} (hn0 : 0 ≤ n) (hn : n ≤ 32767) :
    p.follow? (Code.bases n) c = some { c with
      a := 1
      d := c.ram.sp
      ram := (c.ram.set 2 (c.ram.sp - BitVec.ofInt 16 n)).set 1 c.ram.sp } := by
  simp [Code.bases, followItem?_constant p _ hn0 hn, Comp.readsMemory, Memory.get_set, Memory.sp]

/-- **A call leads to the function it names**, with a frame on the stack that holds the address
behind the call. -/
theorem leads_call {name back : Text} {n : Int} {k target : Nat} {r : Memory}
    (hi : p.Installed k (Code.call name n back)) (hk : k + codeSize (Code.call name n back) < 32768)
    (hback : predefinedCells.lookup back = none) (hname : p.value? (.symbol name) = some target)
    (htarget : target < 32768) (hn0 : 0 ≤ n) (hn : n ≤ 32762) (hlo : 4 < r.sp.toNat)
    (hhi : r.sp.toNat + 4 < 32768) :
    p.Leads k r target (r.enter (Word.ofAddress (k + codeSize (Code.call name n back))) n) := by
  have hwrap : Numeral.wrap (n + 5) = n + 5 := Numeral.wrap_of_lt (by omega) (by omega)
  generalize hend : k + codeSize (Code.call name n back) = after at hk ⊢
  rw [Code.call_eq, hwrap] at hi hend
  obtain ⟨hi, hlabel, -⟩ := installed_append.1 hi
  obtain ⟨hstraight, hgoto⟩ := installed_append.1 hi
  have hafter : p.value? (.symbol back) = some after := by
    rw [value?_of_label hback hlabel, ← hend, codeSize_append _ [.label back]]
    rfl
  -- up to the jump the code is followed in four parts: the address behind the call, the push of it,
  -- the bases of the caller, and the bases of the callee
  refine (Leads.of_follow? hstraight fun c hram => ?_).trans (leads_goto hgoto hname htarget)
  subst hram
  clear hi hstraight hgoto hlabel hend
  let c₁ : Cpu := { c with a := BitVec.ofNat 16 after, d := BitVec.ofNat 16 after }
  let c₂ : Cpu := { c₁ with a := 0, ram := c.ram.push (BitVec.ofNat 16 after) }
  have hload : p.follow? [.load (.symbol back), .set [.D] (.same .A)] c = some c₁ := by
    rw [follow?_cons, followItem?_load p c hafter hk]
    simp [Comp.readsMemory, c₁]
  have hsp0 : 0 < c.ram.sp.toNat := by omega
  have hpush : p.follow? Code.pushD c₁ = some c₂ :=
    follow?_pushD (c := c₁) hsp0 (Nat.lt_of_le_of_lt (Nat.le_add_right _ 4) hhi)
  have hsp : c₂.ram.sp.toNat = c.ram.sp.toNat + 1 := Memory.toNat_sp_push _ _ (by omega)
  have hget : ∀ m, 0 < m → m ≤ 4 → c₂.ram.get m = c.ram.get m := fun m h0 h4 =>
    Memory.get_push_of_lt _ _ h0 (by omega) (by omega)
  obtain ⟨c₃, hbases, hram₃⟩ := follow?_pushBases (p := p) hget (by omega) (by omega)
  rw [follow?_append, follow?_append, follow?_append, hload, Option.bind_some, hpush,
    Option.bind_some, hbases, Option.bind_some, follow?_bases (by omega) (by omega), hram₃]
  exact ⟨_, rfl, rfl⟩

/-! ### Returning -/

/-- The base of the frame and the return address are put aside. -/
theorem follow?_aside (h5 : (c.ram.lcl - 5).toNat < 32768) (h13 : (c.ram.lcl - 5).toNat ≠ 13) :
    p.follow? Code.aside c = some { c with
      a := 14
      d := c.ram.returnAddress
      ram := (c.ram.set 13 c.ram.lcl).set 14 c.ram.returnAddress } := by
  unfold Memory.returnAddress
  unfold Memory.lcl at *
  simp only [BitVec.ofNat_eq_ofNat] at *
  have hne : ¬13 = (CellTree.get c.ram 1 - 5#16).toNat := by omega
  simp [Code.aside, followItem?_constant p _ (n := 5) (by decide) (by decide), Comp.readsMemory,
    Memory.get_set, h5, hne, -BitVec.toNat_sub]

/-- What is put aside goes to the scratch cells. -/
theorem agree_aside (r : Memory) :
    Memory.Agree ((r.set 13 r.lcl).set 14 r.returnAddress) r :=
  ((Memory.Agree.refl r).set_scratch (Or.inl rfl) _).set_scratch (Or.inr rfl) _

/-- The result is put where the arguments started, and the stack pointer after it. -/
theorem follow?_yieldResult (h0 : 0 < (c.ram.sp - 1).toNat) (h : (c.ram.sp - 1).toNat < 32768)
    (harg : c.ram.arg.toNat < 32768) :
    ∃ d, p.follow? Code.yieldResult c = some d ∧ d.ram = c.ram.yieldResult := by
  have hdrop : c.ram.drop.arg = c.ram.arg :=
    Memory.get_set_of_ne _ _ (by omega) (by omega) (by omega)
  refine ⟨{ c with
    a := 0
    d := Memory.arg (c.ram.drop.set c.ram.arg.toNat c.ram.top) + 1
    ram := c.ram.yieldResult }, ?_, rfl⟩
  rw [Code.yieldResult, follow?_append, follow?_popD h0 h]
  unfold Memory.yieldResult
  unfold Memory.arg at *
  simp [Comp.readsMemory, hdrop, harg]

/-- While the registers are restored, the first scratch cell walks down the frame and the second
one holds the return address. -/
structure Returning (frame back distance : Word) (r s : Memory) : Prop where
  agree : r.Agree s
  walk : r.get 13 = frame - distance
  back : r.get 14 = back

theorem follow?_restore (name : String) {register : Nat} {frame back distance : Word} {s : Memory}
    (hname : predefinedCells.lookup (ascii name) = some register) (hregister : register < 13)
    (h : Returning frame back distance c.ram s)
    (hcell : 256 ≤ (frame - (distance + 1)).toNat ∧ (frame - (distance + 1)).toNat ≤ 32767) :
    ∃ d, p.follow? (Code.restore name) c = some d ∧
      Returning frame back (distance + 1) d.ram (Memory.restore frame register (distance + 1) s) := by
  have hwalk : c.ram.get 13 - 1 = frame - (distance + 1) := by rw [h.walk, BitVec.sub_sub]
  generalize hcellw : frame - (distance + 1) = cell at *
  have hread : CellTree.get (c.ram.set 13 cell) cell.toNat = c.ram.get cell.toNat :=
    Memory.get_set_of_ne _ _ (by omega) (by omega) (by omega)
  have hmod : register % 65536 = register := by omega
  refine ⟨{ c with
    a := BitVec.ofNat 16 register
    d := c.ram.get cell.toNat
    ram := (c.ram.set 13 cell).set register (c.ram.get cell.toNat) }, ?_, ?_⟩
  · simp only [BitVec.ofNat_eq_ofNat] at hwalk
    have hlt : cell.toNat < 32768 := by omega
    have hreg : register < 32768 := by omega
    simp [Code.restore, followItem?_address p _ hname hreg, Comp.readsMemory, hwalk, hlt, hreg,
      hmod, hread]
  · constructor
    · unfold Memory.restore
      rw [hcellw]
      exact (h.agree.set_scratch (Or.inl rfl) cell).set (by omega) (h.agree.get_stack hcell)
    · rw [hcellw]
      exact (Memory.get_set_of_ne _ _ (by omega) (by omega) (by omega)).trans
        (Memory.get_set_self _ _ _)
    · rw [← h.back]
      exact (Memory.get_set_of_ne _ _ (by omega) (by omega) (by omega)).trans
        (Memory.get_set_of_ne _ _ (by omega) (by omega) (by omega))

/-- Once the result is in place, the scratch cells hold the frame and the return address. -/
theorem returning_yieldResult {r : Memory}
    (hsp : 256 ≤ (r.sp - 1).toNat ∧ (r.sp - 1).toNat ≤ 32767)
    (harg : 256 ≤ r.arg.toNat ∧ r.arg.toNat ≤ 32767) :
    Returning r.lcl r.returnAddress 0
      (Memory.yieldResult ((r.set 13 r.lcl).set 14 r.returnAddress)) r.yieldResult := by
  generalize haside : (r.set 13 r.lcl).set 14 r.returnAddress = aside
  have hagree : Memory.Agree aside r := haside ▸ agree_aside r
  have hget : ∀ a, 0 < a → a < 256 → (Memory.yieldResult aside).get a = aside.get a := by
    intro a h0 h256
    have hargs : Memory.arg aside = r.arg := hagree.arg
    unfold Memory.yieldResult Memory.drop
    rw [hargs, Memory.get_set_of_ne _ _ (by omega) (by omega) (by omega),
      Memory.get_set_of_ne _ _ (by omega) (by omega) (by omega),
      Memory.get_set_of_ne _ _ (by omega) (by omega) (by omega)]
  have hframe : r.lcl - 0 = r.lcl := BitVec.sub_zero _
  constructor
  · exact hagree.yieldResult (hagree.sp.symm ▸ hsp) (hagree.arg.symm ▸ (by omega))
  · rw [hget 13 (by omega) (by omega), ← haside, hframe,
      Memory.get_set_of_ne _ _ (by omega) (by omega) (by omega), Memory.get_set_self]
  · rw [hget 14 (by omega) (by omega), ← haside, Memory.get_set_self]

/-- **A return leads to the return address**, with the result in place and the caller's bases
restored.  The scratch cells are left with other contents. -/
theorem runs_ret {k : Nat} (hi : p.Installed k Code.ret) (hpc : c.pc = k)
    (hcells : ∀ a ∈ StackMachine.Image.stackCells c.ram .ret, 256 ≤ a.toNat ∧ a.toNat ≤ 32767) :
    ∃ d, p.Runs c d ∧ d.pc = (c.ram.returnAddress.toNat : Int) ∧ d.ram.Agree c.ram.leave := by
  simp only [StackMachine.Image.stackCells, List.forall_mem_cons] at hcells
  obtain ⟨h5, hsp, harg, h1, h2, h3, h4, -⟩ := hcells
  have haside := follow?_aside (p := p) (c := c) (by omega) (by omega)
  generalize hc₀ : { c with
    a := 14
    d := c.ram.returnAddress
    ram := (c.ram.set 13 c.ram.lcl).set 14 c.ram.returnAddress } = c₀ at haside
  have hram₀ : c₀.ram = (c.ram.set 13 c.ram.lcl).set 14 c.ram.returnAddress := by rw [← hc₀]
  have hagree : c₀.ram.Agree c.ram := hram₀ ▸ agree_aside c.ram
  have hsp₀ : c₀.ram.sp = c.ram.sp := hagree.sp
  have harg₀ : c₀.ram.arg = c.ram.arg := hagree.arg
  obtain ⟨c₁, hc₁, hram₁⟩ := follow?_yieldResult (p := p) (c := c₀) (by rw [hsp₀]; omega)
    (by rw [hsp₀]; omega) (by rw [harg₀]; omega)
  have hstart : Returning c.ram.lcl c.ram.returnAddress 0 c₁.ram c.ram.yieldResult := by
    rw [hram₁, hram₀]
    exact returning_yieldResult hsp harg
  -- the registers are restored from the top of the frame downwards
  obtain ⟨c₂, hc₂, hthat⟩ := follow?_restore (p := p) "THAT" rfl (by omega) hstart h1
  obtain ⟨c₃, hc₃, hthis⟩ := follow?_restore (p := p) "THIS" rfl (by omega) hthat h2
  obtain ⟨c₄, hc₄, hargs⟩ := follow?_restore (p := p) "ARG" rfl (by omega) hthis h3
  obtain ⟨c₅, hc₅, hlcl⟩ := follow?_restore (p := p) "LCL" rfl (by omega) hargs h4
  have hfollow : p.follow? (Code.aside ++ Code.yieldResult ++ Code.restore "THAT"
      ++ Code.restore "THIS" ++ Code.restore "ARG" ++ Code.restore "LCL"
      ++ [.address "R14", .set [.A] (.same .M)]) c
      = some { c₅ with a := c.ram.returnAddress } := by
    simp only [follow?_append, haside, hc₁, hc₂, hc₃, hc₄, hc₅, Option.bind_some]
    simp [Comp.readsMemory, hlcl.back]
  rw [Code.ret_eq] at hi
  exact ⟨_, runs_of_follow?_jump hi hpc hfollow rfl (if_pos rfl), rfl, hlcl.agree⟩

end Program

end HackToolchain

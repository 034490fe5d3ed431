/-
**What operators compute.**

The code of an operator replaces its operands on the stack by the result and touches no other cell.
It needs no stack of its own: one cell below the operands is enough, and the operands may stand
anywhere else in memory.  Comparisons look at the sign of the wrapped difference, so they are right
about signed numbers as long as the difference does not overflow.

Main definitions:

* `Operator.arity` — how many operands there are;
* `Memory.Operated` — the memory after an operator.

Main results:

* `Memory.operated_apply` — what an operator does to every cell;
* `Program.leads_operate` — the code of an operator does what the operator says;
* `Operator.gt_result_iff`, `Operator.lt_result_iff` — comparisons and the order of signed numbers;
* `CompilationUnit.operators_compute` — **the operators of an assembled unit compute their results
  and leave all other cells alone**.
-/
import HackToolchain.Proofs.Codegen.Effects
import HackToolchain.Proofs.Unit.Linked

set_option relaxedAutoImplicit false
set_option autoImplicit false

namespace HackToolchain

open StackMachine

/-! ### Operands and results -/

/-- The number of operands. -/
def Operator.arity (o : Operator) : Nat := if o.isUnary then 1 else 2

/-- The memory `after` an operator that was met with the stack pointer at `b` and the memory
`before`.  An operator with one operand does not look at the word below it. -/
structure Memory.Operated (before after : Memory) (o : Operator) (b : Nat) : Prop where
  sp : after.sp.toNat = b + 1 - o.arity
  result : after.get (b - o.arity) = o.result (before.get (b - 2)) (before.get (b - 1))
  others : ∀ a, 0 < a → a < 32768 → a ≠ b - o.arity → after.get a = before.get a

theorem Operator.result_of_isUnary {o : Operator} (ho : o.isUnary = true) (x x' y : Word) :
    o.result x y = o.result x' y := by
  cases o with
  | neg | not => rfl
  | _ => cases ho

/-- **What an operator does to every cell.** -/
theorem Memory.operated_apply (ram : Memory) (o : Operator) {b : Nat} (hb : ram.sp.toNat = b)
    (hlo : o.arity < b) (hhi : b ≤ 32767) : Operated ram (o.apply ram) o b := by
  have htop : (ram.sp - 1).toNat = b - 1 := by
    have h1 : 1 ≤ b := by omega
    bv_omega
  have hdata : ram.top = ram.get (b - 1) := by rw [top, htop]
  cases ho : o.isUnary with
  | true =>
      have harity : o.arity = 1 := by rw [Operator.arity, ho, if_pos rfl]
      have happly : o.apply ram = CellTree.set ram (b - 1) (o.result 0 (ram.get (b - 1))) := by
        rw [Operator.apply, ho, if_pos rfl, replaceTop, htop, hdata]
      rw [harity] at hlo
      constructor
      · rw [happly, sp, get_set_of_ne _ _ (by omega) (by omega) (by omega), harity,
          Nat.add_sub_cancel]
        exact hb
      · rw [happly, harity, get_set_self]
        exact Operator.result_of_isUnary ho _ _ _
      · intro a _ ha hne
        rw [harity] at hne
        rw [happly, get_set_of_ne _ _ (by omega) ha (by omega)]
  | false =>
      have harity : o.arity = 2 := by rw [Operator.arity, ho]; rfl
      rw [harity] at hlo
      have hsecond : (ram.sp - 2).toNat = b - 2 := by bv_omega
      have hbelow : ram.drop.top = ram.get (b - 2) := by
        rw [top_drop, hsecond, drop, get_set_of_ne _ _ (by omega) (by omega) (by omega)]
      have happly : o.apply ram = CellTree.set ram.drop (b - 2)
          (o.result (ram.get (b - 2)) (ram.get (b - 1))) := by
        rw [Operator.apply, ho, if_neg Bool.false_ne_true, replaceTop, sp_drop_sub_one, hsecond,
          hbelow, hdata]
      constructor
      · rw [happly, sp, get_set_of_ne _ _ (by omega) (by omega) (by omega), harity]
        exact (congrArg BitVec.toNat (sp_drop ram)).trans (by omega)
      · rw [happly, harity, get_set_self]
      · intro a h0 ha hne
        rw [harity] at hne
        rw [happly, get_set_of_ne _ _ (by omega) ha (by omega), drop,
          get_set_of_ne _ _ (by omega) ha (by omega)]

/-! ### Comparisons -/

namespace Operator

theorem eq_result (x y : Word) : eq.result x y = if x = y then -1 else 0 := by
  have hzero : x - y = 0 ↔ x = y := by
    constructor
    · intro h
      rw [← BitVec.sub_add_cancel x y, h]
      exact BitVec.zero_add y
    · rintro rfl
      exact BitVec.sub_self x
  simp only [result, truth, decide_eq_true_eq, hzero]

theorem gt_result (x y : Word) : gt.result x y = if 0 < (x - y).toInt then -1 else 0 := by
  simp only [result, truth, decide_eq_true_eq]

theorem lt_result (x y : Word) : lt.result x y = if (x - y).toInt < 0 then -1 else 0 := by
  simp only [result, truth, decide_eq_true_eq]

/-- The wrapped difference of two words: the difference of the signed numbers, or 65536 less or more
than it where it overflows. -/
theorem toInt_sub_cases (x y : Word) :
    (x.ssubOverflow y = false ∧ (x - y).toInt = x.toInt - y.toInt) ∨
      (x.ssubOverflow y = true ∧ 0 < x.toInt - y.toInt ∧ (x - y).toInt < 0) ∨
      (x.ssubOverflow y = true ∧ x.toInt - y.toInt < 0 ∧ 0 < (x - y).toInt) := by
  have hx := x.toInt_lt
  have hx' := x.le_toInt
  have hy := y.toInt_lt
  have hy' := y.le_toInt
  have hoverflow : x.ssubOverflow y = true ↔
      32767 < x.toInt - y.toInt ∨ x.toInt - y.toInt < -32768 := by
    simp only [BitVec.ssubOverflow, Bool.or_eq_true, decide_eq_true_eq]
    omega
  have hwrap : (x - y).toInt = (x.toInt - y.toInt).bmod 65536 := BitVec.toInt_sub
  rw [hwrap, Int.bmod_def]
  cases h : x.ssubOverflow y with
  | false =>
      have hin := mt hoverflow.2 (by rw [h]; exact Bool.false_ne_true)
      refine Or.inl ⟨rfl, ?_⟩
      split <;> omega
  | true =>
      refine Or.inr ((hoverflow.1 h).imp ?_ ?_)
      · intro hhigh
        refine ⟨rfl, by omega, ?_⟩
        split <;> omega
      · intro hlow
        refine ⟨rfl, by omega, ?_⟩
        split <;> omega

/-- The sign of the wrapped difference is the order of signed numbers exactly where the difference
does not overflow. -/
theorem sign_sub_iff (x y : Word) :
    ((0 < (x - y).toInt ↔ y.toInt < x.toInt) ↔ x.ssubOverflow y = false) ∧
      (((x - y).toInt < 0 ↔ x.toInt < y.toInt) ↔ x.ssubOverflow y = false) := by
  rcases toInt_sub_cases x y with ⟨hfits, hsub⟩ | ⟨hoverflow, hpos, hneg⟩ | ⟨hoverflow, hneg, hpos⟩
  · rw [hsub]
    exact ⟨iff_of_true (by omega) hfits, iff_of_true (by omega) hfits⟩
  all_goals
    rw [hoverflow]
    exact ⟨iff_of_false (by omega) Bool.noConfusion, iff_of_false (by omega) Bool.noConfusion⟩

theorem truth_eq_iff (b : Bool) : truth b = -1 ↔ b = true := by
  cases b <;> decide

/-- `gt` is the order of signed numbers exactly where the difference does not overflow. -/
theorem gt_result_iff (x y : Word) :
    (gt.result x y = -1 ↔ y.toInt < x.toInt) ↔ x.ssubOverflow y = false := by
  rw [result, truth_eq_iff, decide_eq_true_eq]
  exact (sign_sub_iff x y).1

/-- `lt` is the order of signed numbers exactly where the difference does not overflow. -/
theorem lt_result_iff (x y : Word) :
    (lt.result x y = -1 ↔ x.toInt < y.toInt) ↔ x.ssubOverflow y = false := by
  rw [result, truth_eq_iff, decide_eq_true_eq]
  exact (sign_sub_iff x y).2

/-- A comparison is the negation of the condition on which its code jumps. -/
theorem result_compare (x y : Word) :
    truth (!Jump.ne.holds (x - y)) = eq.result x y ∧
      truth (!Jump.le.holds (x - y)) = gt.result x y ∧
      truth (!Jump.ge.holds (x - y)) = lt.result x y := by
  have hzero : (x - y = 0) ↔ (x - y).toInt = 0 := by
    rw [← BitVec.toInt_inj]
    rfl
  simp only [result, Jump.holds, hzero, ← decide_not, Decidable.not_not, Int.not_le, and_self]

end Operator

/-! ### The code of operators -/

/-- **The code of an operator does what the operator says**, on operands anywhere but in the cell of
the stack pointer. -/
theorem Program.leads_operate {p : Program} {g : Generator} {op : Operator} {k : Nat} {r : Memory}
    (hi : p.Installed k (g.operate op).2) (hk : k + codeSize (g.operate op).2 < 32768)
    (h0 : 0 < (r.sp - 1).toNat) (h1 : (r.sp - 1).toNat < 32768)
    (h2 : op.isUnary = false → (r.sp - 2).toNat < 32768) :
    p.Leads k r (k + codeSize (g.operate op).2) (op.apply r) := by
  have hcompare := Operator.result_compare r.drop.top r.top
  -- the code of a binary operator has the top in `D` and the word below it in `M`
  cases op with
  | add =>
      refine leads_binary hi h0 h1 (h2 rfl) fun f hd hm => ?_
      rw [← hd, ← hm]
      exact BitVec.add_comm _ _
  | sub =>
      refine leads_binary hi h0 h1 (h2 rfl) fun f hd hm => ?_
      rw [← hd, ← hm]
      rfl
  | and =>
      refine leads_binary hi h0 h1 (h2 rfl) fun f hd hm => ?_
      rw [← hd, ← hm]
      exact BitVec.and_comm _ _
  | or =>
      refine leads_binary hi h0 h1 (h2 rfl) fun f hd hm => ?_
      rw [← hd, ← hm]
      exact BitVec.or_comm _ _
  | neg => exact leads_unary hi h1 fun f hm => by rw [← hm]; rfl
  | not => exact leads_unary hi h1 fun f hm => by rw [← hm]; rfl
  | eq =>
      have h := leads_compare hi hk (lookup_freshLabel _ _) (lookup_freshLabel _ _) h0 h1 (h2 rfl)
      rwa [hcompare.1] at h
  | gt =>
      have h := leads_compare hi hk (lookup_freshLabel _ _) (lookup_freshLabel _ _) h0 h1 (h2 rfl)
      rwa [hcompare.2.1] at h
  | lt =>
      have h := leads_compare hi hk (lookup_freshLabel _ _) (lookup_freshLabel _ _) h0 h1 (h2 rfl)
      rwa [hcompare.2.2] at h

/-- The code of an operator of a unit leads to the next command. -/
theorem CompilationUnit.Linked.leads_operate {u : CompilationUnit} {o : CompileOptions}
    {l : Listing} {p : Program} (h : u.Linked o l p) (hsize : p.instructions.length ≤ 32767)
    {k : Nat} {c : PlacedCommand} (hk : l.commands[k]? = some c) {op : Operator}
    (hc : c.command = .operate op) {r : Memory} (hlo : op.arity < r.sp.toNat)
    (hhi : r.sp.toNat ≤ 32767) : p.Leads (l.address k) r (l.address (k + 1)) (op.apply r) := by
  obtain ⟨g, g', code, -, -, hwrote, hi, hnext⟩ :=
    h.code_of_command hk fun hs => absurd (by rw [hc]; rfl) hs
  have hend := h.address_le (k + 1)
  rw [hc] at hwrote
  rw [hnext] at hend ⊢
  have harity : 1 ≤ op.arity ∧ (op.isUnary = false → 2 ≤ op.arity) := by
    cases op <;> decide
  cases hwrote
  refine Program.leads_operate hi (by omega) ?_ ?_ ?_
  · bv_omega
  · bv_omega
  · intro hop
    have h2 := harity.2 hop
    bv_omega

/-- **The operators of an assembled unit compute their results and leave all other cells alone.**
In a compiled and assembled unit of at most 32767 instructions, the machine gets from the first
instruction of an operator to the instruction behind its last one whenever the operands and a cell
below them lie above the stack pointer's own cell.  Equality is equality of words; the other
comparisons look at the sign of the wrapped difference, and are the order of signed numbers exactly
where the difference does not overflow. -/
theorem CompilationUnit.operators_compute {u : CompilationUnit} {o : CompileOptions}
    {lines : List Text} {p : Program} (hcompile : u.compile o = .ok lines)
    (hassemble : assemble lines = .ok p) (hsize : p.instructions.length ≤ 32767) :
    (∃ l, u.listing o = .ok l ∧ lines = render l.items ∧
      ∀ (k : Nat) (c : PlacedCommand) (op : Operator) (r : Memory) (b : Nat),
        l.commands[k]? = some c → c.command = .operate op → r.sp.toNat = b → op.arity < b →
        b ≤ 32767 →
        p.Brings (l.address k) r (l.address (k + 1)) fun r' => Memory.Operated r r' op b) ∧
    ∀ x y : Word,
      Operator.eq.result x y = (if x = y then -1 else 0) ∧
      Operator.gt.result x y = (if 0 < (x - y).toInt then -1 else 0) ∧
      Operator.lt.result x y = (if (x - y).toInt < 0 then -1 else 0) ∧
      ((Operator.gt.result x y = -1 ↔ y.toInt < x.toInt) ↔ x.ssubOverflow y = false) ∧
      ((Operator.lt.result x y = -1 ↔ x.toInt < y.toInt) ↔ x.ssubOverflow y = false) := by
  refine ⟨?_, fun x y => ⟨Operator.eq_result x y, Operator.gt_result x y, Operator.lt_result x y,
    Operator.gt_result_iff x y, Operator.lt_result_iff x y⟩⟩
  obtain ⟨l, h, hlines⟩ := exists_linked hcompile hassemble
  refine ⟨l, h.listing, hlines, ?_⟩
  intro k c op r b hk hc hsp hlo hhi
  have hleads := h.leads_operate hsize hk hc (r := r) (by omega) (by omega)
  exact hleads.brings (Memory.operated_apply r op hsp hlo hhi)

/-- A unit with a comparison and a negation. -/
def comparing : CompilationUnit := .ofLines [ascii "lt", ascii "neg"]

/-- With the stack pointer at 3 the least word is compared with one.  It is the smaller of the two,
but the difference overflows, and the result is zero; it stands in the cell of the base of `local`,
and the negation after it is reached with the stack pointer at 2. -/
theorem comparing_overflow :
    ∃ lines p l, comparing.compile { bootstrap := false } = .ok lines ∧ assemble lines = .ok p ∧
      comparing.listing { bootstrap := false } = .ok l ∧
      ∃ m₁ m₂ m₃ : Machine, m₁.cpu.pc = l.address 0 ∧ m₁.cpu.ram.sp.toNat = 3 ∧
        m₁.cpu.ram.get 1 = BitVec.ofInt 16 (-32768) ∧ m₁.cpu.ram.get 2 = 1 ∧
        m₁.Reaches m₂ ∧ m₂.cpu.pc = l.address 1 ∧ m₂.cpu.ram.sp.toNat = 2 ∧
        m₂.cpu.ram.get 1 = 0 ∧ m₂.cpu.ram.get 2 = 1 ∧ m₂.Reaches m₃ ∧ m₃.cpu.pc = l.address 2 ∧
        m₃.cpu.ram.sp.toNat = 2 ∧ m₃.cpu.ram.get 1 = 0 ∧
        (BitVec.ofInt 16 (-32768)).ssubOverflow 1 = true := by
  obtain ⟨l, p, ⟨hlisting, hassemble⟩, hcompile, hsize, hcommands⟩ :=
    CompilationUnit.exists_linked_of_test (u := comparing) (o := { bootstrap := false })
      (fun l p => p.instructions.length ≤ 32767 ∧
        l.commands.map PlacedCommand.command = [.operate .lt, .operate .neg]) (by decide +kernel)
  obtain ⟨c₀, hc₀, hlt⟩ := Listing.exists_command (k := 0) (by rw [hcommands]; rfl)
  obtain ⟨c₁, hc₁, hneg⟩ := Listing.exists_command (k := 1) (by rw [hcommands]; rfl)
  obtain ⟨⟨l', hl', -, hcompute⟩, -⟩ :=
    CompilationUnit.operators_compute hcompile hassemble hsize
  obtain rfl : l = l' := by rw [hlisting] at hl'; injection hl'
  let r : Memory := CellTree.set (CellTree.set (CellTree.set Memory.zero 0 3) 1
    (BitVec.ofInt 16 (-32768))) 2 1
  let m₁ : Machine := { rom := p.words.toArray, cpu := { pc := l.address 0, ram := r } }
  have hcells : r.get 0 = 3 ∧ r.get 1 = BitVec.ofInt 16 (-32768) ∧ r.get 2 = 1 := by
    decide +kernel
  obtain ⟨m₂, hreaches, hrom, hpc, hcompared⟩ :=
    hcompute 0 c₀ .lt r 3 hc₀ hlt (congrArg BitVec.toNat hcells.1) (by decide) (by decide) m₁ rfl
      rfl rfl
  have hzero : m₂.cpu.ram.get 1 = 0 := by
    refine hcompared.result.trans ?_
    show Operator.lt.result (r.get 1) (r.get 2) = 0
    rw [hcells.2.1, hcells.2.2]
    decide
  obtain ⟨m₃, hreaches', -, hpc', hnegated⟩ :=
    hcompute 1 c₁ .neg m₂.cpu.ram 2 hc₁ hneg hcompared.sp (by decide) (by decide) m₂ hrom hpc rfl
  refine ⟨_, p, l, hcompile, hassemble, hlisting, m₁, m₂, m₃, rfl, congrArg BitVec.toNat hcells.1,
    hcells.2.1, hcells.2.2, hreaches, hpc, hcompared.sp, hzero, ?_, hreaches', hpc', hnegated.sp,
    ?_, by decide⟩
  · exact (hcompared.others 2 (by decide) (by decide) (by decide)).trans hcells.2.2
  · refine hnegated.result.trans ?_
    show Operator.neg.result _ (m₂.cpu.ram.get 1) = 0
    rw [hzero]
    rfl

end HackToolchain

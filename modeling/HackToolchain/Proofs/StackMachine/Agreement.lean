/-
**Memories that agree outside the scratch cells.**

Generated code uses cells 13 and 14 as scratch space, of which the stack machine knows nothing.  So
the memory of a running program is compared with that of the stack machine on all other cells.  A
safe step of the stack machine reads no scratch cell: from memories that agree it goes to memories
that agree, and to the same command.

Main definitions:

* `Memory.Agree` — two memories hold the same in all cells but 13 and 14.

Main results:

* `Memory.get_set` — reading after writing;
* `Memory.Agree.set`, `Memory.Agree.push`, … — what is done to both memories keeps the agreement;
* `StackMachine.Image.step?_agree` — **a safe step respects agreement**.
-/
import HackToolchain.Proofs.StackMachine.Semantics
import HackToolchain.Proofs.Word

set_option relaxedAutoImplicit false
set_option autoImplicit false

namespace HackToolchain

/-! ### Reading after writing -/

/-- Writing to one cell leaves the others alone.  Addresses past the end are cut to the depth of the
tree, so both have to be addresses of cells. -/
theorem CellTree.get_set_of_ne {n : Nat} (t : CellTree n) {a b : Nat} (v : Word) (ha : a < 2 ^ n)
    (hb : b < 2 ^ n) (hab : a ≠ b) : (t.set a v).get b = t.get b := by
  induction t generalizing a b with
  | leaf w => simp at ha hb; omega
  | node even odd ihe iho =>
      rw [Nat.pow_succ] at ha hb
      by_cases h : a % 2 = 0 <;> by_cases h' : b % 2 = 0
      · simp [set, get, h, h', ihe (a := a / 2) (b := b / 2) (by omega) (by omega) (by omega)]
      · simp [set, get, h, h']
      · simp [set, get, h, h']
      · simp [set, get, h, h', iho (a := a / 2) (b := b / 2) (by omega) (by omega) (by omega)]

namespace Memory

theorem get_set (ram : Memory) {a b : Nat} (v : Word) (ha : a < 32768) (hb : b < 32768) :
    CellTree.get (ram.set a v) b = if a = b then v else ram.get b := by
  split
  · next h => rw [h, CellTree.get_set_self]
  · next h => exact CellTree.get_set_of_ne ram v ha hb h

theorem get_set_self (ram : Memory) (a : Nat) (v : Word) : CellTree.get (ram.set a v) a = v :=
  CellTree.get_set_self ram a v

theorem get_set_of_ne (ram : Memory) {a b : Nat} (v : Word) (ha : a < 32768) (hb : b < 32768)
    (h : a ≠ b) : CellTree.get (ram.set a v) b = ram.get b :=
  CellTree.get_set_of_ne ram v ha hb h

/-! ### Agreement -/

/-- Two memories hold the same in all cells but the scratch cells. -/
def Agree (r s : Memory) : Prop := ∀ a < 32768, a ≠ 13 → a ≠ 14 → r.get a = s.get a

namespace Agree

variable {q r s : Memory}

theorem refl (r : Memory) : Agree r r := fun _ _ _ _ => rfl

theorem trans (h : Agree q r) (h' : Agree r s) : Agree q s :=
  fun a ha h13 h14 => (h a ha h13 h14).trans (h' a ha h13 h14)

theorem set (h : Agree r s) {a : Nat} (ha : a < 32768) {v w : Word} (hv : v = w) :
    Agree (r.set a v) (s.set a w) := by
  intro b hb h13 h14
  rw [get_set r v ha hb, get_set s w ha hb, h b hb h13 h14, hv]

/-- Writing to a scratch cell of one memory keeps the agreement. -/
theorem set_scratch (h : Agree r s) {a : Nat} (ha : a = 13 ∨ a = 14) (v : Word) :
    Agree (r.set a v) s := by
  intro b hb h13 h14
  rw [get_set_of_ne r v (by omega) hb (by omega)]
  exact h b hb h13 h14

theorem sp (h : Agree r s) : r.sp = s.sp := h 0 (by omega) (by omega) (by omega)

theorem lcl (h : Agree r s) : r.lcl = s.lcl := h 1 (by omega) (by omega) (by omega)

theorem arg (h : Agree r s) : r.arg = s.arg := h 2 (by omega) (by omega) (by omega)

theorem this (h : Agree r s) : r.this = s.this := h 3 (by omega) (by omega) (by omega)

theorem that (h : Agree r s) : r.that = s.that := h 4 (by omega) (by omega) (by omega)

/-- The cells of the stack and of frames are no scratch cells. -/
theorem get_stack (h : Agree r s) {a : Word} (ha : 256 ≤ a.toNat ∧ a.toNat ≤ 32767) :
    r.get a.toNat = s.get a.toNat := h a.toNat (by omega) (by omega) (by omega)

theorem push (h : Agree r s) (hsp : r.sp.toNat < 32768) {v w : Word} (hv : v = w) :
    Agree (r.push v) (s.push w) := by
  unfold Memory.push
  rw [← h.sp]
  exact (h.set hsp hv).set (by omega) rfl

theorem top (h : Agree r s) (hsp : 256 ≤ (r.sp - 1).toNat ∧ (r.sp - 1).toNat ≤ 32767) :
    r.top = s.top := by
  unfold Memory.top
  rw [← h.sp]
  exact h.get_stack hsp

theorem drop (h : Agree r s) : Agree r.drop s.drop := h.set (by omega) (by rw [h.sp])

theorem replaceTop (h : Agree r s) (hsp : (r.sp - 1).toNat < 32768) {v w : Word} (hv : v = w) :
    Agree (r.replaceTop v) (s.replaceTop w) := by
  unfold Memory.replaceTop
  rw [← h.sp]
  exact h.set hsp hv

/-- Restoring a register reads a cell of the frame. -/
theorem restore (h : Agree r s) {frame distance : Word} {register : Nat} (hreg : register < 32768)
    (hcell : 256 ≤ (frame - distance).toNat ∧ (frame - distance).toNat ≤ 32767) :
    Agree (Memory.restore frame register distance r) (Memory.restore frame register distance s) :=
  h.set hreg (h.get_stack hcell)

end Agree

/-! ### The registers after an operation -/

@[simp] theorem sp_push (ram : Memory) (v : Word) : (ram.push v).sp = ram.sp + 1 :=
  get_set_self _ 0 _

theorem toNat_sp_push (ram : Memory) (v : Word) (h : ram.sp.toNat < 32768) :
    (ram.push v).sp.toNat = ram.sp.toNat + 1 := by
  rw [sp_push]
  bv_omega

@[simp] theorem sp_drop (ram : Memory) : ram.drop.sp = ram.sp - 1 := get_set_self _ 0 _

/-- The second word from the top is on top once the top is dropped. -/
theorem sp_drop_sub_one (ram : Memory) : ram.drop.sp - 1 = ram.sp - 2 := by
  rw [sp_drop, BitVec.sub_sub]
  rfl

theorem top_drop (ram : Memory) : ram.drop.top = ram.drop.get (ram.sp - 2).toNat := by
  rw [top, sp_drop_sub_one]

/-- A push leaves the cells below the stack pointer alone, but for the stack pointer itself. -/
theorem get_push_of_lt (ram : Memory) (v : Word) {a : Nat} (h0 : 0 < a) (ha : a < ram.sp.toNat)
    (hsp : ram.sp.toNat < 32768) : (ram.push v).get a = ram.get a := by
  unfold push
  rw [get_set_of_ne _ _ (by omega) (by omega) (by omega),
    get_set_of_ne _ _ (by omega) (by omega) (by omega)]

namespace Agree

variable {r s : Memory}

theorem pushZeros {n : Nat} (h : Agree r s)
    (hcells : ∀ k < n, (r.sp + BitVec.ofNat 16 k).toNat < 32768) :
    Agree (r.pushZeros n) (s.pushZeros n) := by
  induction n generalizing r s with
  | zero => exact h
  | succ n ih =>
      have hsp : r.sp.toNat < 32768 := by simpa using hcells 0 (by omega)
      refine ih (h.push hsp rfl) ?_
      intro k hk
      rw [sp_push, Word.add_one_add_ofNat]
      exact hcells (k + 1) (by omega)

theorem enter (h : Agree r s) (back : Word) (n : Int)
    (hcells : ∀ k < 5, (r.sp + BitVec.ofNat 16 k).toNat < 32768) :
    Agree (r.enter back n) (s.enter back n) := by
  have h0 := hcells 0 (by omega)
  have h1 := hcells 1 (by omega)
  have h2 := hcells 2 (by omega)
  have h3 := hcells 3 (by omega)
  have h4 := hcells 4 (by omega)
  have hpushed : Agree (((((r.push back).push r.lcl).push r.arg).push r.this).push r.that)
      (((((s.push back).push s.lcl).push s.arg).push s.this).push s.that) := by
    refine ((((h.push ?_ rfl).push ?_ h.lcl).push ?_ h.arg).push ?_ h.this).push ?_ h.that
    · simpa using h0
    · simpa using h1
    · simpa [BitVec.add_assoc] using h2
    · simpa [BitVec.add_assoc] using h3
    · simpa [BitVec.add_assoc] using h4
  unfold Memory.enter
  exact (hpushed.set (by omega) (by rw [hpushed.sp])).set (by omega) hpushed.sp

theorem yieldResult (h : Agree r s) (hsp : 256 ≤ (r.sp - 1).toNat ∧ (r.sp - 1).toNat ≤ 32767)
    (harg : r.arg.toNat < 32768) : Agree r.yieldResult s.yieldResult := by
  unfold Memory.yieldResult
  have hstored : Agree (r.drop.set r.arg.toNat r.top) (s.drop.set s.arg.toNat s.top) := by
    rw [← h.arg]
    exact h.drop.set harg (h.top hsp)
  exact hstored.set (by omega) (by rw [hstored.arg])

theorem leave (h : Agree r s) (hsp : 256 ≤ (r.sp - 1).toNat ∧ (r.sp - 1).toNat ≤ 32767)
    (harg : r.arg.toNat < 32768)
    (h1 : 256 ≤ (r.lcl - 1).toNat ∧ (r.lcl - 1).toNat ≤ 32767)
    (h2 : 256 ≤ (r.lcl - 2).toNat ∧ (r.lcl - 2).toNat ≤ 32767)
    (h3 : 256 ≤ (r.lcl - 3).toNat ∧ (r.lcl - 3).toNat ≤ 32767)
    (h4 : 256 ≤ (r.lcl - 4).toNat ∧ (r.lcl - 4).toNat ≤ 32767) : Agree r.leave s.leave := by
  unfold Memory.leave
  rw [← h.lcl]
  exact ((((h.yieldResult hsp harg).restore (by omega) h1).restore (by omega) h2).restore
    (by omega) h3).restore (by omega) h4

end Agree

end Memory

/-! ### Steps -/

theorem Operator.apply_agree (o : Operator) {r s : Memory} (h : r.Agree s)
    (h1 : 256 ≤ (r.sp - 1).toNat ∧ (r.sp - 1).toNat ≤ 32767)
    (h2 : o.isUnary = false → 256 ≤ (r.sp - 2).toNat ∧ (r.sp - 2).toNat ≤ 32767) :
    (o.apply r).Agree (o.apply s) := by
  unfold apply
  split
  · exact h.replaceTop (by omega) (by rw [h.top h1])
  · next hunary =>
      have h2 := r.sp_drop_sub_one ▸ h2 (by simpa using hunary)
      exact h.drop.replaceTop (by omega) (by rw [h.drop.top h2, h.top h1])

namespace StackMachine.Image

/-- The cells with fixed addresses that the commands of a program use are no scratch cells. -/
def Regular (P : Image) : Prop :=
  ∀ c ∈ P.commands, ∀ s i, (c.command = .push s i ∨ c.command = .pop s i) →
    ∀ a ∈ P.directCell? c.module i s, a.toNat < 32768 ∧ a.toNat ≠ 13 ∧ a.toNat ≠ 14

theorem indexedCell?_agree {r s : Memory} (h : r.Agree s) (i : Int) (seg : Segment) :
    indexedCell? r i seg = indexedCell? s i seg := by
  cases seg with
  | locals => simp only [indexedCell?, h.lcl]
  | arguments => simp only [indexedCell?, h.arg]
  | this => simp only [indexedCell?, h.this]
  | that => simp only [indexedCell?, h.that]
  | _ => rfl

theorem stackCells_agree {r s : Memory} (h : r.Agree s) (c : Command) :
    stackCells r c = stackCells s c := by
  cases c with
  | pop seg i => cases seg <;> simp only [stackCells, h.sp]
  | ret => simp only [stackCells, h.sp, h.lcl, h.arg]
  | _ => simp only [stackCells, h.sp]

theorem effective?_agree {r s : Memory} (h : r.Agree s) (c : Command) :
    effective? r c = effective? s c := by
  cases c with
  | push seg i | pop seg i => exact indexedCell?_agree h i seg
  | _ => rfl

theorem SafeCommand.agree {r s : Memory} (h : r.Agree s) {c : Command} (hs : SafeCommand s c) :
    SafeCommand r c :=
  ⟨stackCells_agree h c ▸ hs.stack, effective?_agree h c ▸ hs.cell,
    effective?_agree h c ▸ hs.scratch⟩

/-- Cells are found at the same addresses. -/
theorem cell?_agree (P : Image) {r s : Memory} (h : r.Agree s) (module : Text) (i : Int)
    (seg : Segment) : P.cell? module r i seg = P.cell? module s i seg := by
  rw [cell?, cell?, indexedCell?_agree h]

/-- A cell that is safely read is no scratch cell. -/
theorem fetch_agree {P : Image} {r s : Memory} (h : r.Agree s) {c : PlacedCommand} {seg : Segment}
    {i : Int} (hP : P.Regular) (hc : c ∈ P.commands) (hpush : c.command = .push seg i)
    (hs : SafeCommand s c.command) : P.fetch c.module r seg i = P.fetch c.module s seg i := by
  rw [hpush] at hs
  unfold fetch
  rw [cell?_agree P h]
  cases ha : P.cell? c.module s i seg with
  | none => rfl
  | some a =>
      rw [cell?, Option.or_eq_some_iff] at ha
      rcases ha with ha | ⟨-, ha⟩
      · obtain ⟨hlt, h13, h14⟩ := hP c hc seg i (Or.inl hpush) a ha
        exact h a.toNat hlt h13 h14
      · obtain ⟨h13, h14⟩ := hs.scratch rfl a ha
        have := hs.cell a ha
        exact h a.toNat (by omega) h13 h14

theorem store_agree {P : Image} {r s : Memory} (h : r.Agree s) {c : PlacedCommand} {seg : Segment}
    {i : Int} (hP : P.Regular) (hc : c ∈ P.commands) (hpop : c.command = .pop seg i)
    (hs : SafeCommand r c.command) : (P.store c.module r seg i).Agree (P.store c.module s seg i) := by
  rw [hpop] at hs
  unfold store
  rw [← cell?_agree P h]
  cases ha : P.cell? c.module r i seg with
  | none => exact h.drop
  | some a =>
      have hsp : 256 ≤ (r.sp - 1).toNat ∧ (r.sp - 1).toNat ≤ 32767 := by
        cases seg with
        | constant => cases ha
        | _ => exact hs.stack (r.sp - 1) (List.mem_singleton.2 rfl)
      have hlt : a.toNat < 32768 := by
        rw [cell?, Option.or_eq_some_iff] at ha
        rcases ha with ha | ⟨-, ha⟩
        · exact (hP c hc seg i (Or.inr hpop) a ha).1
        · have := hs.cell a ha
          omega
      exact h.drop.set hlt (h.top hsp)

theorem continueAt?_eq_some {P : Image} {name : Text} {ram : Memory} {t : State} :
    P.continueAt? name ram = some t ↔ P.declaration? name = some t.next ∧ t.ram = ram := by
  unfold continueAt?
  constructor
  · intro h
    obtain ⟨k, hk, rfl⟩ := Option.map_eq_some_iff.1 h
    exact ⟨hk, rfl⟩
  · rintro ⟨hk, rfl⟩
    rw [hk]
    rfl

theorem exists_declaration? (P : Image) {c : PlacedCommand} (hc : c ∈ P.commands) {name : Text}
    (hd : c.command.declared? = some name) : ∃ k, P.declaration? name = some k := by
  refine Option.isSome_iff_exists.1 ?_
  rw [declaration?, List.findIdx?_isSome, List.any_eq_true]
  exact ⟨c, hc, beq_iff_eq.2 hd⟩

theorem address_of_commandAt? {P : Image} {address k : Nat} (h : P.commandAt? address = some k) :
    P.address k = address := by
  simpa using List.find?_some h

theorem Safe.agree {P : Image} {s : State} {r : Memory} (h : r.Agree s.ram) (hsafe : P.Safe s) :
    P.Safe ⟨s.next, r⟩ := fun c hc => (hsafe c hc).agree h

/-- **A safe step respects agreement.**  The next command is the same, and the memories agree
again. -/
theorem step?_agree {P : Image} (hP : P.Regular) {s t : State} {r : Memory} (h : r.Agree s.ram)
    (hsafe : P.Safe s) (hstep : P.step? s = some t) :
    ∃ r', P.step? ⟨s.next, r⟩ = some ⟨t.next, r'⟩ ∧ r'.Agree t.ram := by
  unfold step? at hstep ⊢
  cases hget : P.commands[s.next]? with
  | none => simp [hget] at hstep
  | some c =>
      have hmem : c ∈ P.commands := List.mem_of_getElem? hget
      have hs : SafeCommand s.ram c.command := hsafe c hget
      have hr : SafeCommand r c.command := hs.agree h
      simp only [hget] at hstep ⊢
      cases hc : c.command with
      | push seg i =>
          simp only [hc, Option.some.injEq] at hstep ⊢
          subst hstep
          have hsp := (hc ▸ hr.stack) r.sp (List.mem_singleton.2 rfl)
          exact ⟨_, rfl, h.push (by omega) (fetch_agree h hP hmem hc hs)⟩
      | pop seg i =>
          simp only [hc, Option.some.injEq] at hstep ⊢
          subst hstep
          exact ⟨_, rfl, store_agree h hP hmem hc hr⟩
      | operate o =>
          simp only [hc, Option.some.injEq] at hstep ⊢
          subst hstep
          have hcells := hc ▸ hr.stack
          refine ⟨_, rfl, o.apply_agree h (hcells _ ?_) fun hunary => hcells _ ?_⟩
          · cases hunary : o.isUnary <;> simp [stackCells, hunary]
          · simp [stackCells, hunary]
      | label name =>
          simp only [hc, Option.some.injEq] at hstep ⊢
          subst hstep
          exact ⟨r, rfl, h⟩
      | jump name =>
          simp only [hc, continueAt?_eq_some] at hstep ⊢
          exact ⟨r, ⟨hstep.1, rfl⟩, hstep.2 ▸ h⟩
      | jumpIf name =>
          have hsp := (hc ▸ hr.stack) (r.sp - 1) (List.mem_singleton.2 rfl)
          simp only [hc] at hstep ⊢
          rw [h.top hsp]
          split at hstep
          · next hzero =>
              simp only [Option.some.injEq] at hstep
              subst hstep
              exact ⟨_, by rw [if_pos hzero], h.drop⟩
          · next hzero =>
              rw [continueAt?_eq_some] at hstep
              refine ⟨r.drop, ?_, hstep.2 ▸ h.drop⟩
              rw [if_neg hzero, continueAt?_eq_some]
              exact ⟨hstep.1, rfl⟩
      | function name n =>
          simp only [hc, Option.some.injEq] at hstep ⊢
          subst hstep
          refine ⟨_, rfl, h.pushZeros fun k hk => ?_⟩
          have := (hc ▸ hr.stack) _ (List.mem_map.2 ⟨k, List.mem_range.2 hk, rfl⟩)
          omega
      | call name n =>
          simp only [hc, continueAt?_eq_some] at hstep ⊢
          refine ⟨_, ⟨hstep.1, rfl⟩, hstep.2 ▸ h.enter _ n fun k hk => ?_⟩
          have := (hc ▸ hr.stack) _ (List.mem_map.2 ⟨k, List.mem_range.2 hk, rfl⟩)
          omega
      | ret =>
          have hcells := hc ▸ hr.stack
          simp only [hc] at hstep ⊢
          obtain ⟨k, hk, rfl⟩ := Option.map_eq_some_iff.1 hstep
          have hback : r.returnAddress = s.ram.returnAddress := by
            unfold Memory.returnAddress
            rw [← h.lcl]
            exact h.get_stack (hcells _ (by simp [stackCells]))
          have harg := hcells r.arg (by simp [stackCells])
          refine ⟨r.leave, by rw [hback, hk]; rfl, h.leave (hcells _ (by simp [stackCells])) (by omega)
            (hcells _ ?_) (hcells _ ?_) (hcells _ ?_) (hcells _ ?_)⟩
          all_goals simp [stackCells]

end StackMachine.Image

end HackToolchain

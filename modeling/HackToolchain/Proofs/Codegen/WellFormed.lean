/-
**Generated code is well formed.**

Names of labels and functions are symbols, generated labels are names, and all numbers that are
written have fifteen bits.  Only a static cell of a named module takes its name from outside: its
code is well formed if the name of the module is a symbol.  All other code is well formed whatever
the modules are called.

Main definitions:

* `Place.WellFormed` — a place that can be written.

Main results:

* `Generator.isName_freshLabel` — generated labels are names;
* `Generator.write_wellFormed` — **the code of a command in range is well formed**;
* `Generator.wellFormed_or_static` — whatever the module is called, only the load of a static symbol
  can be malformed.
-/
import HackToolchain.Proofs.Assembly.Written
import HackToolchain.Proofs.Codegen.Cases

set_option relaxedAutoImplicit false
set_option autoImplicit false

namespace HackToolchain

instance : (i : Item) → Decidable i.WellFormed
  | .blank | .comment _ => isTrue trivial
  | .load t => inferInstanceAs (Decidable t.WellFormed)
  | .compute c => inferInstanceAs (Decidable c.dest.Writable)
  | .label name => inferInstanceAs (Decidable (isName name = true))

/-! ### Names -/

/-- A generated label is a name. -/
theorem Generator.isName_freshLabel {word : String} (h : (ascii word).all isNameByte = true)
    (n : Nat) : isName (freshLabel word n) = true := by
  have hdollar : isName (ascii "$") = true := by decide
  refine Text.isName_append (Text.isName_append (Text.isName_append hdollar h) (by decide)) ?_
  exact Numeral.all_isNameByte_ofNat n

/-! ### Pieces of code -/

namespace Code

theorem wellFormed_pushD : ∀ i ∈ pushD, i.WellFormed := by decide

theorem wellFormed_popD : ∀ i ∈ popD, i.WellFormed := by decide

theorem wellFormed_ret : ∀ i ∈ ret, i.WellFormed := by decide +kernel

theorem wellFormed_resetStack : ∀ i ∈ resetStack, i.WellFormed := by decide

theorem wellFormed_annotation (t : Text) : ∀ i ∈ annotation t, i.WellFormed := by
  intro i hi
  rcases List.mem_cons.1 hi with rfl | hi
  · trivial
  · rw [List.mem_singleton.1 hi]; trivial

theorem wellFormed_binary (c : Comp) : ∀ i ∈ binary c, i.WellFormed := by
  simp only [binary, List.forall_mem_cons]
  exact ⟨by decide, by decide, by decide, by decide, (by decide : Dest.Writable [.M]),
    List.forall_mem_nil _⟩

theorem wellFormed_unary (c : Comp) : ∀ i ∈ unary c, i.WellFormed := by
  simp only [unary, List.forall_mem_cons]
  exact ⟨by decide, by decide, (by decide : Dest.Writable [.M]), List.forall_mem_nil _⟩

theorem wellFormed_goto {name : Text} (h : isName name = true) : ∀ i ∈ goto name, i.WellFormed := by
  simp only [goto, List.forall_mem_cons]
  exact ⟨h, by decide, List.forall_mem_nil _⟩

theorem wellFormed_gotoIf {name : Text} (h : isName name = true) :
    ∀ i ∈ gotoIf name, i.WellFormed := by
  simp only [gotoIf, List.forall_mem_append, List.forall_mem_cons]
  exact ⟨wellFormed_popD, h, by decide, List.forall_mem_nil _⟩

theorem wellFormed_compare (failing : Jump) {no yes : Text} (hno : isName no = true)
    (hyes : isName yes = true) : ∀ i ∈ compare failing no yes, i.WellFormed := by
  simp only [compare, List.forall_mem_cons]
  exact ⟨by decide, by decide, by decide, by decide, by decide, hno, Or.inl rfl, by decide,
    by decide, by decide, hyes, by decide, hno, by decide, by decide, by decide, hyes,
    List.forall_mem_nil _⟩

theorem wellFormed_loadConstant {v : Int} (hlo : -32768 ≤ v) (hhi : v ≤ 32767) :
    ∀ i ∈ loadConstant v, i.WellFormed := by
  unfold loadConstant
  split
  · simp only [List.forall_mem_cons]
    exact ⟨⟨by omega, by omega⟩, by decide, List.forall_mem_nil _⟩
  · split
    · decide
    · rw [Numeral.wrap_of_lt (by omega) (by omega)]
      simp only [List.forall_mem_cons]
      exact ⟨⟨by omega, by omega⟩, by decide, List.forall_mem_nil _⟩

theorem wellFormed_function {name : Text} (h : isName name = true) (n : Int) :
    ∀ i ∈ function name n, i.WellFormed := by
  simp only [function, List.forall_mem_cons]
  refine ⟨h, ?_⟩
  intro i hi
  obtain ⟨is, his, hi⟩ := List.mem_flatten.1 hi
  rw [List.eq_of_mem_replicate his, List.mem_append] at hi
  rcases hi with hi | hi
  · exact wellFormed_loadConstant (by omega) (by omega) i hi
  · exact wellFormed_pushD i hi

theorem wellFormed_pushRegisters :
    ∀ i ∈ ["LCL", "ARG", "THIS", "THAT"].flatMap pushRegister, i.WellFormed := by decide +kernel

theorem wellFormed_call {name back : Text} (hname : isName name = true) (hback : isName back = true)
    {n : Int} (hlo : 0 ≤ n) (hhi : n ≤ 32762) : ∀ i ∈ call name n back, i.WellFormed := by
  have hwrap : Numeral.wrap (n + 5) = n + 5 := Numeral.wrap_of_lt (by omega) (by omega)
  have hcount : 0 ≤ n + 5 ∧ n + 5 ≤ 32767 := by omega
  simp only [call, hwrap, List.forall_mem_append, List.forall_mem_cons]
  exact ⟨⟨⟨⟨⟨⟨hback, by decide, List.forall_mem_nil _⟩, wellFormed_pushD⟩, wellFormed_pushRegisters⟩,
    by decide, by decide, hcount, by decide, by decide, by decide, by decide, by decide, by decide,
    by decide, List.forall_mem_nil _⟩, wellFormed_goto hname⟩, hback, List.forall_mem_nil _⟩

end Code

/-! ### Places -/

/-- A place that can be written. -/
def Place.WellFormed : Place → Prop
  | value n => -32768 ≤ n ∧ n ≤ 32767
  | indexed base i => isName (ascii base) = true ∧ 0 ≤ i ∧ i ≤ 32767
  | direct t => t.WellFormed

namespace Code

theorem wellFormed_push {p : Place} (h : p.WellFormed) : ∀ i ∈ push p, i.WellFormed := by
  cases p with
  | value n =>
      simp only [push, List.forall_mem_append]
      exact ⟨wellFormed_loadConstant h.1 h.2, wellFormed_pushD⟩
  | indexed base i =>
      simp only [push, List.forall_mem_append, List.forall_mem_cons]
      exact ⟨⟨h.2, by decide, h.1, by decide, by decide, List.forall_mem_nil _⟩, wellFormed_pushD⟩
  | direct t =>
      simp only [push, List.forall_mem_append, List.forall_mem_cons]
      exact ⟨⟨h, by decide, List.forall_mem_nil _⟩, wellFormed_pushD⟩

theorem wellFormed_pop {p : Place} (h : p.WellFormed) : ∀ i ∈ pop p, i.WellFormed := by
  cases p with
  | value n =>
      simp only [pop]
      decide
  | indexed base i =>
      simp only [pop, List.forall_mem_append, List.forall_mem_cons]
      exact ⟨⟨⟨h.2, by decide, h.1, by decide, by decide, by decide, List.forall_mem_nil _⟩,
        wellFormed_popD⟩, by decide, by decide, by decide, List.forall_mem_nil _⟩
  | direct t =>
      simp only [pop, List.forall_mem_append, List.forall_mem_cons]
      exact ⟨wellFormed_popD, h, by decide, List.forall_mem_nil _⟩

end Code

/-! ### Commands -/

namespace Generator

/-- A static cell of an unnamed module, or of one named by a symbol, can be written. -/
theorem staticTarget_wellFormed {g g' : Generator} {i : Int} {t : Target}
    (h : g.staticTarget i = (g', .ok t)) (hlo : 0 ≤ i) (hhi : i ≤ 32767)
    (hm : g.module = [] ∨ Text.isSymbol g.module = true) : t.WellFormed := by
  cases found_of_staticTarget h hlo hhi with
  | number hi => exact ⟨by omega, by omega⟩
  | known hi hs | taken hi hs => exact isName_staticName? hs hlo hm

theorem placed_wellFormed {g g' : Generator} {s : Segment} {i : Int} {pl : Place}
    (h : g.Placed s i g' pl) (hlo : -32768 ≤ i) (hhi : i ≤ 32767) (hi : s ≠ .constant → 0 ≤ i)
    (hm : s = .statics → g.module = [] ∨ Text.isSymbol g.module = true) : pl.WellFormed := by
  cases h with
  | constant => exact ⟨hlo, hhi⟩
  | locals | arguments | this | that => exact ⟨by decide, hi (by decide), hhi⟩
  | pointerThis => exact (by decide : isName (ascii "THIS") = true)
  | pointerThat => exact (by decide : isName (ascii "THAT") = true)
  | temp h8 =>
      have := hi (by decide)
      exact ⟨by omega, by omega⟩
  | statics ht => exact staticTarget_wellFormed ht (hi (by decide)) hhi (hm rfl)

/-- **The code of a command in range is well formed**, if the module of a static cell is unnamed or
named by a symbol. -/
theorem write_wellFormed {g g' : Generator} {c : Command} {code : List Item} (hc : c.Valid)
    (hm : c.staticIndex? ≠ none → g.module = [] ∨ Text.isSymbol g.module = true)
    (h : g.Wrote c g' code) : ∀ i ∈ code, i.WellFormed := by
  have hfresh : ∀ n, isName (freshLabel "FALSE" n) = true ∧ isName (freshLabel "CONTINUE" n) = true ∧
      isName (freshLabel "RETURN" n) = true := fun n =>
    ⟨isName_freshLabel (by decide) n, isName_freshLabel (by decide) n,
      isName_freshLabel (by decide) n⟩
  cases h with
  | push hpl =>
      obtain ⟨hlo, hhi, hi⟩ := hc
      exact Code.wellFormed_push (placed_wellFormed hpl hlo hhi hi fun hs =>
        hm (by simp [Command.staticIndex?, hs]))
  | pop hpl =>
      obtain ⟨hlo, hhi, hi⟩ := hc
      exact Code.wellFormed_pop (placed_wellFormed hpl hlo hhi hi fun hs =>
        hm (by simp [Command.staticIndex?, hs]))
  | operate o =>
      cases o with
      | add | sub | and | or => exact Code.wellFormed_binary _
      | neg | not => exact Code.wellFormed_unary _
      | eq | gt | lt => exact Code.wellFormed_compare _ (hfresh _).1 (hfresh _).2.1
  | label name =>
      rw [List.forall_mem_singleton]
      exact Text.isName_of_isSymbol hc
  | jump name => exact Code.wellFormed_goto (Text.isName_of_isSymbol hc)
  | jumpIf name => exact Code.wellFormed_gotoIf (Text.isName_of_isSymbol hc)
  | function name n => exact Code.wellFormed_function (Text.isName_of_isSymbol hc.1) n
  | call name hn => exact Code.wellFormed_call (Text.isName_of_isSymbol hc.1) (hfresh _).2.2 hc.2.1 hn
  | ret => exact Code.wellFormed_ret

/-- **Whatever the module is called, only the load of a static symbol can be malformed.** -/
theorem wellFormed_or_static {g g' : Generator} {c : Command} {code : List Item} (hc : c.Valid)
    (h : g.Wrote c g' code) : ∀ i ∈ code, i.WellFormed ∨ ∃ n s, c.staticIndex? = some n ∧
      g.staticName? n = some s ∧ i = .load (.symbol s) := by
  intro i hi
  cases hn : c.staticIndex? with
  | none => exact Or.inl (write_wellFormed hc (fun hsome => absurd hn hsome) h i hi)
  | some n =>
      obtain ⟨t, hfound, hcode⟩ := found_of_wrote h hc hn
      have hload : i = .load t ∨ i.WellFormed := by
        rcases hcode with ⟨-, rfl⟩ | ⟨-, rfl⟩
        · simp only [Code.push, List.mem_append, List.mem_cons, List.not_mem_nil, or_false] at hi
          rcases hi with (rfl | rfl) | hi
          · exact Or.inl rfl
          · exact Or.inr (by decide)
          · exact Or.inr (Code.wellFormed_pushD i hi)
        · simp only [Code.pop, List.mem_append, List.mem_cons, List.not_mem_nil, or_false] at hi
          rcases hi with hi | rfl | rfl
          · exact Or.inr (Code.wellFormed_popD i hi)
          · exact Or.inl rfl
          · exact Or.inr (by decide)
      rcases hload with rfl | hi
      · cases hfound with
        | number hle =>
            have hlo := (Command.valid_static hc hn).1
            exact Or.inl ⟨by omega, by omega⟩
        | known hle hs | taken hle hs => exact Or.inr ⟨n, _, rfl, hs, rfl⟩
      · exact Or.inl hi

end Generator

end HackToolchain

/-
**The names in generated code.**

Generated code refers to predefined cells, to the target of its command, to labels that it declares
itself, and to static symbols.  It declares the name that its command declares, and labels that
start with a dollar sign, as no symbol of a source does.  These end in a number that counts all of
them, so no two are the same.

Main definitions:

* `Text.isGenerated` — names that start as generated labels do;
* `Generator.freshLabels` — the labels that are generated when the counter stands at a number;
* `Command.labelWords` — the labels that the code of a command takes.

Main results:

* `lookup_predefined_eq_none`, `lookup_predefined_of_dot` — names that are not predefined, among them all
  names with a dot;
* `numbered_inj` — a name that ends in a dot and a number determines both of its parts;
* `Generator.nodup_freshLabels` — **generated labels are distinct**;
* `Generator.labelNames_of_wrote`, `Generator.filter_labels_of_wrote` — **the labels in the code of a
  command**, generated and declared;
* `Generator.references_of_wrote` — **the names that the code of a command refers to**.
-/
import HackToolchain.Proofs.Assembly.Accepted
import HackToolchain.Proofs.Codegen.WellFormed
import HackToolchain.Proofs.StackMachine.Semantics

set_option relaxedAutoImplicit false
set_option autoImplicit false

namespace HackToolchain

/-! ### Predefined names and generated labels -/

/-- A name with a property that no predefined name has is not predefined. -/
theorem lookup_predefined_eq_none {P : Text → Prop} (hcells : ∀ q ∈ predefinedCells, ¬P q.1)
    {name : Text} (h : P name) : predefinedCells.lookup name = none := by
  rw [List.lookup_eq_none_iff]
  intro q hq
  have hne : name ≠ q.1 := fun he => hcells q hq (he ▸ h)
  simpa using hne

/-- No predefined name has a dot in it. -/
theorem lookup_predefined_of_dot {name : Text} (h : 46 ∈ name) :
    predefinedCells.lookup name = none :=
  lookup_predefined_eq_none (P := (46 ∈ ·)) (by decide +kernel) h

theorem dot_mem_freshLabel (word : String) (n : Nat) : 46 ∈ Generator.freshLabel word n := by
  simp [Generator.freshLabel, ascii_dot]

theorem dot_mem_staticSymbol (module : Text) (i : Int) : 46 ∈ Generator.staticSymbol module i := by
  simp [Generator.staticSymbol, ascii_dot]

/-- A generated label is not predefined. -/
theorem lookup_freshLabel (word : String) (n : Nat) :
    predefinedCells.lookup (Generator.freshLabel word n) = none :=
  lookup_predefined_of_dot (dot_mem_freshLabel word n)

/-- A name that starts with a dollar sign, as generated labels do. -/
def Text.isGenerated (t : Text) : Bool := t.head? == some 36

@[simp] theorem isGenerated_freshLabel (word : String) (n : Nat) :
    (Generator.freshLabel word n).isGenerated = true := rfl

/-- A symbol does not start with a dollar sign. -/
theorem Text.isGenerated_of_isSymbol {t : Text} (h : Text.isSymbol t = true) :
    t.isGenerated = false := by
  cases t with
  | nil => cases h
  | cons b t =>
      rw [Text.isSymbol, Bool.and_eq_true] at h
      refine beq_false_of_ne fun hb => ?_
      injection hb with hb
      rw [hb] at h
      exact absurd h.1 (by decide)

/-! ### Names that end in a number -/

theorem dot_not_mem_ofNat (n : Nat) : 46 ∉ Numeral.ofNat n := by
  intro h
  have hdigit := List.all_eq_true.1 (Numeral.all_isDigit_ofNat n) 46 h
  exact absurd hdigit (by decide)

theorem Numeral.ofNat_inj {m n : Nat} (h : ofNat m = ofNat n) : m = n := by
  rw [← value_ofNat m, h, value_ofNat]

/-- **A name that ends in a dot and a number determines both of its parts**: the last dot stands
before the number. -/
theorem numbered_inj {s t : Text} {m n : Nat}
    (h : s ++ ascii "." ++ Numeral.ofNat m = t ++ ascii "." ++ Numeral.ofNat n) : s = t ∧ m = n := by
  have hreverse : ∀ (r : Text) (k : Nat), cutAt 46 (r ++ ascii "." ++ Numeral.ofNat k).reverse
      = some ((Numeral.ofNat k).reverse, r.reverse) := by
    intro r k
    rw [ascii_dot, List.reverse_append, List.reverse_append]
    exact cutAt_append r.reverse fun hmem => dot_not_mem_ofNat k (List.mem_reverse.1 hmem)
  have hparts := hreverse s m
  rw [h, hreverse t n] at hparts
  injection hparts with hparts
  injection hparts with hnumber howner
  exact ⟨(List.reverse_inj.1 howner).symm, Numeral.ofNat_inj (List.reverse_inj.1 hnumber).symm⟩

namespace Generator

theorem freshLabel_inj {v w : String} {m n : Nat} (h : freshLabel v m = freshLabel w n) : m = n :=
  (numbered_inj h).2

/-- Static symbols of different cells are different, whatever the modules are called. -/
theorem staticSymbol_inj {m m' : Text} {i j : Int} (hi : 0 ≤ i) (hj : 0 ≤ j)
    (h : staticSymbol m i = staticSymbol m' j) : m = m' ∧ i = j := by
  rw [staticSymbol, staticSymbol, Numeral.ofInt_of_nonneg hi, Numeral.ofInt_of_nonneg hj] at h
  obtain ⟨hm, hn⟩ := numbered_inj h
  exact ⟨hm, by omega⟩

/-- A static symbol does not start as generated labels do. -/
theorem isGenerated_staticSymbol {m : Text} (h : Text.isSymbol m = true) (i : Int) :
    (staticSymbol m i).isGenerated = false := by
  cases m with
  | nil => cases h
  | cons b t => exact (Text.isGenerated_of_isSymbol h : Text.isGenerated (b :: t) = false)

/-- The labels that are generated from the number `n` on. -/
def freshLabels : (words : List String) → (n : Nat) → List Text
  | [], _ => []
  | w :: ws, n => freshLabel w n :: freshLabels ws (n + 1)

theorem freshLabels_append (v w : List String) (n : Nat) :
    freshLabels (v ++ w) n = freshLabels v n ++ freshLabels w (n + v.length) := by
  induction v generalizing n with
  | nil => rfl
  | cons x v ih =>
      rw [List.cons_append, freshLabels, freshLabels, ih, List.cons_append, List.length_cons,
        Nat.add_right_comm, Nat.add_assoc n]

theorem exists_of_mem_freshLabels {words : List String} {n : Nat} {x : Text}
    (h : x ∈ freshLabels words n) : ∃ w k, x = freshLabel w k ∧ n ≤ k := by
  induction words generalizing n with
  | nil => cases h
  | cons w ws ih =>
      rcases List.mem_cons.1 h with rfl | h
      · exact ⟨w, n, rfl, Nat.le_refl n⟩
      · obtain ⟨v, k, hx, hk⟩ := ih h
        exact ⟨v, k, hx, by omega⟩

theorem isGenerated_of_mem_freshLabels {words : List String} {n : Nat} {x : Text}
    (h : x ∈ freshLabels words n) : x.isGenerated = true := by
  obtain ⟨w, k, rfl, -⟩ := exists_of_mem_freshLabels h
  exact isGenerated_freshLabel w k

/-- **Generated labels are distinct.** -/
theorem nodup_freshLabels (words : List String) (n : Nat) : (freshLabels words n).Nodup := by
  induction words generalizing n with
  | nil => exact List.nodup_nil
  | cons w ws ih =>
      refine List.nodup_cons.2 ⟨fun hmem => ?_, ih (n + 1)⟩
      obtain ⟨v, k, hx, hk⟩ := exists_of_mem_freshLabels hmem
      have := freshLabel_inj hx
      omega

end Generator

theorem filter_freshLabels (words : List String) (n : Nat) :
    (Generator.freshLabels words n).filter Text.isGenerated = Generator.freshLabels words n ∧
      (Generator.freshLabels words n).filter (!·.isGenerated) = [] := by
  constructor
  · exact List.filter_eq_self.2 fun x hx => Generator.isGenerated_of_mem_freshLabels hx
  · refine List.filter_eq_nil_iff.2 fun x hx => ?_
    rw [Generator.isGenerated_of_mem_freshLabels hx]
    exact Bool.false_ne_true

/-- The labels that the code of a command takes from the counter. -/
def Command.labelWords : Command → List String
  | operate .eq | operate .gt | operate .lt => ["FALSE", "CONTINUE"]
  | call .. => ["RETURN"]
  | _ => []

/-! ### Names in pieces of code -/

/-- Whether a name is predefined. -/
def isPredefined (name : Text) : Bool := (predefinedCells.lookup name).isSome

namespace Code

theorem isPredefined_pushD : ∀ x ∈ references pushD, isPredefined x = true := by decide

theorem labelNames_loadConstant (v : Int) : labelNames (loadConstant v) = [] := by
  unfold loadConstant
  split
  · rfl
  · split <;> rfl

theorem references_loadConstant (v : Int) : references (loadConstant v) = [] := by
  unfold loadConstant
  split
  · rfl
  · split <;> rfl

theorem labelNames_push (pl : Place) : labelNames (push pl) = [] := by
  cases pl with
  | value n => rw [push, labelNames_append, labelNames_loadConstant]; rfl
  | indexed base i | direct t => rfl

theorem labelNames_pop (pl : Place) : labelNames (pop pl) = [] := by
  cases pl <;> rfl

theorem labelNames_function (name : Text) (n : Int) : labelNames (function name n) = [name] := by
  have hlocals : labelNames (List.replicate n.toNat (loadConstant 0 ++ pushD)).flatten = [] := by
    rw [labelNames, List.filterMap_eq_nil_iff]
    intro i hi
    obtain ⟨is, his, hi⟩ := List.mem_flatten.1 hi
    have hpiece : ∀ i ∈ loadConstant 0 ++ pushD, i.label? = none := by decide
    exact hpiece i (List.eq_of_mem_replicate his ▸ hi)
  rw [function, ← List.singleton_append, labelNames_append, hlocals]
  rfl

theorem isPredefined_function (name : Text) (n : Int) :
    ∀ x ∈ references (function name n), isPredefined x = true := by
  intro x hx
  rw [mem_references, function, List.mem_cons] at hx
  rcases hx with hx | hx
  · cases hx
  · obtain ⟨is, his, hx⟩ := List.mem_flatten.1 hx
    rw [List.eq_of_mem_replicate his, ← mem_references, references_append,
      references_loadConstant, List.nil_append] at hx
    exact isPredefined_pushD x hx

/-- Pushing and popping refer to predefined cells and to their place. -/
theorem references_push {pl : Place} {x : Text} (h : x ∈ references (push pl)) :
    isPredefined x = true ∨ (∃ base i, pl = .indexed base i ∧ x = ascii base) ∨
      pl = .direct (.symbol x) := by
  cases pl with
  | value n =>
      rw [push, references_append, references_loadConstant, List.nil_append] at h
      exact Or.inl (isPredefined_pushD x h)
  | indexed base i =>
      rcases List.mem_cons.1 (h : x ∈ ascii base :: references pushD) with h | h
      · exact Or.inr (Or.inl ⟨base, i, rfl, h⟩)
      · exact Or.inl (isPredefined_pushD x h)
  | direct t =>
      cases t with
      | number n => exact Or.inl (isPredefined_pushD x h)
      | symbol name =>
          rcases List.mem_cons.1 (h : x ∈ name :: references pushD) with h | h
          · exact Or.inr (Or.inr (h ▸ rfl))
          · exact Or.inl (isPredefined_pushD x h)

theorem references_pop {pl : Place} {x : Text} (h : x ∈ references (pop pl)) :
    isPredefined x = true ∨ (∃ base i, pl = .indexed base i ∧ x = ascii base) ∨
      pl = .direct (.symbol x) := by
  have hfixed : ∀ x ∈ [ascii "R13", ascii "SP", ascii "R13"], isPredefined x = true := by decide
  cases pl with
  | value n =>
      rw [List.mem_singleton.1 (h : x ∈ [ascii "SP"])]
      exact Or.inl (by decide)
  | indexed base i =>
      rcases List.mem_cons.1 (h : x ∈ ascii base :: [ascii "R13", ascii "SP", ascii "R13"])
        with h | h
      · exact Or.inr (Or.inl ⟨base, i, rfl, h⟩)
      · exact Or.inl (hfixed x h)
  | direct t =>
      cases t with
      | number n =>
          rw [List.mem_singleton.1 (h : x ∈ [ascii "SP"])]
          exact Or.inl (by decide)
      | symbol name =>
          rcases List.mem_cons.1 (h : x ∈ [ascii "SP", name]) with rfl | h
          · exact Or.inl (by decide)
          · exact Or.inr (Or.inr (List.mem_singleton.1 h ▸ rfl))

/-- A comparison refers to the stack pointer and to its own labels. -/
theorem references_compare {failing : Jump} {no yes x : Text}
    (h : x ∈ references (compare failing no yes)) :
    isPredefined x = true ∨ x ∈ labelNames (compare failing no yes) := by
  have hnames : references (compare failing no yes)
      = [ascii "SP", no, ascii "SP", yes, ascii "SP"] := rfl
  have hlabels : labelNames (compare failing no yes) = [no, yes] := rfl
  rw [hnames] at h
  rw [hlabels]
  simp only [List.mem_cons, List.not_mem_nil, or_false] at h ⊢
  rcases h with rfl | h | rfl | h | rfl
  · exact Or.inl (by decide)
  · exact Or.inr (Or.inl h)
  · exact Or.inl (by decide)
  · exact Or.inr (Or.inr h)
  · exact Or.inl (by decide)

/-- A call refers to predefined cells, to its function and to the label behind it. -/
theorem references_call {name back x : Text} {n : Int} (h : x ∈ references (call name n back)) :
    isPredefined x = true ∨ x = name ∨ x ∈ labelNames (call name n back) := by
  let fixed : List Item := pushD ++ ["LCL", "ARG", "THIS", "THAT"].flatMap pushRegister
    ++ [.address "SP", .address "ARG", .address "SP", .address "LCL"]
  have hfixed : ∀ x ∈ references fixed, isPredefined x = true := by decide
  have hnames : references (call name n back) = back :: (references fixed ++ [name]) := rfl
  have hlabels : labelNames (call name n back) = [back] := rfl
  rw [hnames] at h
  rw [hlabels]
  rcases List.mem_cons.1 h with h | h
  · exact Or.inr (Or.inr (List.mem_singleton.2 h))
  · rcases List.mem_append.1 h with h | h
    · exact Or.inl (hfixed x h)
    · exact Or.inr (Or.inl (List.mem_singleton.1 h))

end Code

namespace Generator

/-- Finding a place takes no label. -/
theorem labels_of_placed {g g' : Generator} {s : Segment} {i : Int} {pl : Place}
    (h : g.Placed s i g' pl) (hhi : i ≤ 32767) (hlo : s ≠ .constant → 0 ≤ i) :
    g'.labels = g.labels := by
  cases h with
  | statics ht =>
      have hfound := found_of_staticTarget ht (hlo (by decide)) hhi
      cases hfound <;> rfl
  | _ => rfl

/-- A place that is referred to is predefined or static. -/
theorem reference_of_placed {g g' : Generator} {s : Segment} {i : Int} {pl : Place} {x : Text}
    (hpl : g.Placed s i g' pl) (hhi : i ≤ 32767) (hlo : s ≠ .constant → 0 ≤ i)
    (hx : isPredefined x = true ∨ (∃ base i, pl = .indexed base i ∧ x = ascii base) ∨
      pl = .direct (.symbol x)) : isPredefined x = true ∨ x ∈ g'.statics := by
  rcases hx with hx | ⟨base, j, rfl, rfl⟩ | rfl
  · exact Or.inl hx
  · cases hpl <;> exact Or.inl (by decide)
  · cases hpl with
    | pointerThis | pointerThat => exact Or.inl (by decide)
    | statics ht =>
        have hfound := found_of_staticTarget ht (hlo (by decide)) hhi
        cases hfound with
        | known hi hs hmem => exact Or.inr hmem
        | taken => exact Or.inr (List.mem_append_right _ (List.mem_singleton_self _))

/-- **The labels in the code of a command** are the name that it declares and the labels that it
takes from the counter. -/
theorem labelNames_of_wrote {g g' : Generator} {c : Command} {code : List Item}
    (h : g.Wrote c g' code) (hc : c.Valid) :
    labelNames code = c.declared?.toList ++ freshLabels c.labelWords g.labels ∧
      g'.labels = g.labels + c.labelWords.length := by
  cases h with
  | push hpl => exact ⟨Code.labelNames_push _, labels_of_placed hpl hc.2.1 hc.2.2⟩
  | pop hpl => exact ⟨Code.labelNames_pop _, labels_of_placed hpl hc.2.1 hc.2.2⟩
  | operate o => cases o <;> exact ⟨rfl, rfl⟩
  | label name | jump name | jumpIf name => exact ⟨rfl, rfl⟩
  | function name n => exact ⟨Code.labelNames_function name n, rfl⟩
  | call name hn => exact ⟨rfl, rfl⟩
  | ret => exact ⟨rfl, rfl⟩

/-- The generated and the declared labels in the code of a command. -/
theorem filter_labels_of_wrote {g g' : Generator} {c : Command} {code : List Item}
    (h : g.Wrote c g' code) (hc : c.Valid) :
    (labelNames code).filter Text.isGenerated = freshLabels c.labelWords g.labels ∧
      (labelNames code).filter (!·.isGenerated) = c.declared?.toList := by
  obtain ⟨hfresh, hnone⟩ := filter_freshLabels c.labelWords g.labels
  rw [(labelNames_of_wrote h hc).1, List.filter_append, List.filter_append, hfresh, hnone]
  cases hd : c.declared? with
  | none => exact ⟨rfl, rfl⟩
  | some name =>
      have hname := Text.isGenerated_of_isSymbol (Command.isSymbol_of_declared? hc hd)
      simp [hname]

/-- The code of a command that declares a name starts with the name, and declares nothing else. -/
theorem code_of_declared? {g g' : Generator} {c : Command} {code : List Item}
    (h : g.Wrote c g' code) {name : Text} (hd : c.declared? = some name) :
    ∃ rest, code = .label name :: rest ∧ labelNames rest = [] := by
  cases h with
  | label x =>
      injection hd with hd
      exact ⟨[], by rw [hd], rfl⟩
  | function x n =>
      injection hd with hd
      have hnames := Code.labelNames_function x n
      exact ⟨_, by rw [← hd]; rfl, (List.cons.inj hnames).2⟩
  | _ => cases hd

/-- The labels in the code that sets up the stack. -/
theorem labelNames_start (g : Generator) (entry : Text) :
    ∃ words, labelNames (g.start entry).2 = freshLabels words g.labels ∧
      (g.start entry).1.labels = g.labels + words.length := by
  unfold start
  split
  · exact ⟨[], rfl, rfl⟩
  · exact ⟨["RETURN"], rfl, rfl⟩

/-- **The names that the code of a command refers to** are predefined, the target of the command,
declared in the code, or static. -/
theorem references_of_wrote {g g' : Generator} {c : Command} {code : List Item}
    (h : g.Wrote c g' code) (hc : c.Valid) {x : Text} (hx : x ∈ references code) :
    isPredefined x = true ∨ c.target? = some x ∨ x ∈ labelNames code ∨ x ∈ g'.statics := by
  cases h with
  | push hpl =>
      rcases reference_of_placed hpl hc.2.1 hc.2.2 (Code.references_push hx) with hx | hx
      · exact Or.inl hx
      · exact Or.inr (Or.inr (Or.inr hx))
  | pop hpl =>
      rcases reference_of_placed hpl hc.2.1 hc.2.2 (Code.references_pop hx) with hx | hx
      · exact Or.inl hx
      · exact Or.inr (Or.inr (Or.inr hx))
  | operate o =>
      cases o with
      | add | sub | and | or | neg | not =>
          rw [List.mem_singleton.1 (hx : x ∈ [ascii "SP"])]
          exact Or.inl (by decide)
      | eq | gt | lt =>
          rcases Code.references_compare hx with hx | hx
          · exact Or.inl hx
          · exact Or.inr (Or.inr (Or.inl hx))
  | label name => cases hx
  | jump name => rw [List.mem_singleton.1 (hx : x ∈ [name])]; exact Or.inr (Or.inl rfl)
  | jumpIf name =>
      rcases List.mem_cons.1 (hx : x ∈ [ascii "SP", name]) with rfl | hx
      · exact Or.inl (by decide)
      · exact Or.inr (Or.inl (List.mem_singleton.1 hx ▸ rfl))
  | function name n => exact Or.inl (Code.isPredefined_function name n x hx)
  | call name hn =>
      rcases Code.references_call hx with hx | hx | hx
      · exact Or.inl hx
      · exact Or.inr (Or.inl (hx ▸ rfl))
      · exact Or.inr (Or.inr (Or.inl hx))
  | ret =>
      have hret : ∀ x ∈ references Code.ret, isPredefined x = true := by decide
      exact Or.inl (hret x hx)

end Generator

end HackToolchain

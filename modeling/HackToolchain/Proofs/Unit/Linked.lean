/-
**A unit and the program it is assembled to.**

A unit is *linked* to a program if its listing, written out, is assembled to the program.  The code
of each command is then installed at the address of the command, and a name that a command declares
is a label with that address.  If the modules are unnamed or named by symbols, nothing else is
declared but generated labels, and if all targets are declared, the variables of the program are
the static symbols of the unit.

Main definitions:

* `CompilationUnit.Linked` — a unit, its listing, and the program it is assembled to;
* `CompilationUnit.link?` — the listing and the program, computed.

Main results:

* `CompilationUnit.exists_linked` — what has been compiled and assembled is linked;
* `CompilationUnit.Linked.code_of_command` — **the code of a command is installed at its address**;
* `CompilationUnit.Linked.label_of_declared` — **a declared name has the address of its command**;
* `CompilationUnit.Linked.declared_of_label` — the labels of a unit;
* `CompilationUnit.Linked.static_of_cell`, `CompilationUnit.Linked.cell_of_static` — the variables of
  a unit.
-/
import Mathlib.Data.List.Perm.Subperm
import HackToolchain.Proofs.Assembly.Installed
import HackToolchain.Proofs.Unit.Labels

set_option relaxedAutoImplicit false
set_option autoImplicit false

namespace HackToolchain

namespace CompilationUnit

/-- The unit `u` has the listing `l`, which is assembled to the program `p`. -/
structure Linked (u : CompilationUnit) (o : CompileOptions) (l : Listing) (p : Program) : Prop where
  listing : u.listing o = .ok l
  assembled : assemble (render l.items) = .ok p

/-- **A unit that has been compiled and assembled is linked.** -/
theorem exists_linked {u : CompilationUnit} {o : CompileOptions} {lines : List Text} {p : Program}
    (hcompile : u.compile o = .ok lines) (hassemble : assemble lines = .ok p) :
    ∃ l, u.Linked o l p ∧ lines = render l.items := by
  obtain ⟨l, hl, rfl⟩ := compile_eq_ok_iff.1 hcompile
  exact ⟨l, ⟨hl, hassemble⟩, rfl⟩

/-- The listing of a unit and the program it is assembled to, if there are any. -/
def link? (u : CompilationUnit) (o : CompileOptions) : Option (Listing × Program) :=
  match u.listing o with
  | .error _ => none
  | .ok l =>
    match assemble (render l.items) with
    | .error _ => none
    | .ok p => some (l, p)

theorem linked_of_link? {u : CompilationUnit} {o : CompileOptions} {l : Listing} {p : Program}
    (h : u.link? o = some (l, p)) : u.Linked o l p := by
  unfold link? at h
  split at h
  · cases h
  · next l' hl =>
      split at h
      · cases h
      · next p' hp =>
          injection h with h
          injection h with hl' hp'
          subst hl' hp'
          exact ⟨hl, hp⟩

/-- A decidable property of the listing and of the program of a unit can be tested. -/
theorem exists_linked_of_test {u : CompilationUnit} {o : CompileOptions}
    (q : Listing → Program → Prop) [∀ l p, Decidable (q l p)]
    (h : (u.link? o).any (fun r => decide (q r.1 r.2)) = true) :
    ∃ l p, u.Linked o l p ∧ u.compile o = .ok (render l.items) ∧ q l p := by
  obtain ⟨⟨l, p⟩, hlink, hq⟩ := (Option.any_eq_true _ _).1 h
  have hlinked := linked_of_link? hlink
  exact ⟨l, p, hlinked, compile_eq_ok_iff.2 ⟨l, hlinked.listing, rfl⟩, of_decide_eq_true hq⟩

namespace Linked

variable {u : CompilationUnit} {o : CompileOptions} {l : Listing} {p : Program}

/-! ### Addresses -/

/-- Every address of a listing lies in the program or at its end. -/
theorem address_le (h : u.Linked o l p) (k : Nat) : l.address k ≤ p.instructions.length := by
  have hitems : l.items = l.before k ++ (l.entries.drop k).flatMap Prod.snd := by
    rw [Listing.items, Listing.before, List.append_assoc, ← List.flatMap_append,
      List.take_append_drop]
  rw [length_instructions h.assembled, hitems, render_append, instructionCount_append,
    Listing.address]
  omega

/-- The address behind the last command is the end of the program. -/
theorem address_length (h : u.Linked o l p) :
    l.address l.commands.length = p.instructions.length := by
  rw [length_instructions h.assembled, Listing.address, Listing.before, Listing.items,
    Listing.commands, List.length_map, List.take_length]

/-- Showing the source of a command takes no instruction. -/
theorem codeSize_shown (t : Text) :
    codeSize (if o.annotate then Code.annotation t else []) = 0 := by
  split <;> rfl

/-- What is written for a command is installed at its address, and the next command begins behind
it. -/
theorem installed (h : u.Linked o l p) {k : Nat} {c : PlacedCommand} {items code : List Item}
    (he : l.entries[k]? = some (c, items))
    (hitems : items = (if o.annotate then Code.annotation c.annotation else []) ++ code)
    (hw : ∀ i ∈ code, i.WellFormed) :
    p.Installed (l.address k) code ∧ l.address (k + 1) = l.address k + codeSize code := by
  have hwf : ∀ i ∈ items, i.WellFormed := by
    rw [hitems, List.forall_mem_append]
    exact ⟨wellFormed_shown _ _, hw⟩
  have hsize : codeSize items = codeSize code := by
    rw [hitems, codeSize_append, codeSize_shown, Nat.zero_add]
  constructor
  · have hp := h.assembled
    rw [Listing.items_split he, render_append, render_append] at hp
    have hinstalled := installed_of_assemble hp hwf
    rw [hitems, Program.installed_append, codeSize_shown, Nat.add_zero] at hinstalled
    exact hinstalled.2
  · rw [Listing.address_succ he, instructionCount_render hwf, hsize]

/-- **The code of a command stands at its address.**  Nothing is asked of the module of a command
that uses no static cell. -/
theorem code_of_command (h : u.Linked o l p) {k : Nat} {c : PlacedCommand}
    (hk : l.commands[k]? = some c)
    (hm : c.command.staticIndex? ≠ none → c.module = [] ∨ Text.isSymbol c.module = true) :
    ∃ (g g' : Generator) (code : List Item), g.mode = o.statics ∧ g.module = c.module ∧
      g.Wrote c.command g' code ∧ p.Installed (l.address k) code ∧
      l.address (k + 1) = l.address k + codeSize code := by
  have hvalid := valid_of_mem_listing h.listing (List.mem_of_getElem? hk)
  rw [Listing.commands, List.getElem?_map] at hk
  obtain ⟨⟨c', items⟩, he, rfl⟩ := Option.map_eq_some_iff.1 hk
  obtain ⟨code, ⟨g, g', hmode, hmodule, hwrote, -⟩, hitems⟩ :=
    listing_entry h.listing (List.mem_of_getElem? he)
  have hwf := Generator.write_wellFormed hvalid (fun hs => hmodule ▸ hm hs) hwrote
  exact ⟨g, g', code, hmode, hmodule, hwrote, h.installed he hitems hwf⟩

/-! ### Names -/

/-- **A declared name is a label with the address of its command.** -/
theorem label_of_declared (h : u.Linked o l p) {k : Nat} {c : PlacedCommand}
    (hk : l.commands[k]? = some c) {name : Text} (hd : c.command.declared? = some name) :
    p.labels.find? name = some (l.address k) := by
  have hstatic : c.command.staticIndex? = none := by
    cases hc : c.command with
    | push s i | pop s i => rw [hc] at hd; cases hd
    | _ => rfl
  obtain ⟨g, g', code, -, -, hwrote, hinstalled, -⟩ :=
    h.code_of_command hk fun hs => absurd hstatic hs
  cases hc : c.command with
  | label x | function x n =>
      rw [hc] at hd hwrote
      injection hd with hd
      cases hwrote
      exact hd ▸ hinstalled.1
  | _ => rw [hc] at hd; cases hd

/-! ### All code of a unit -/

/-- What stands before the first command is installed at the beginning. -/
theorem installed_preamble (h : u.Linked o l p) {code : List Item}
    (hpre : l.preamble = (if o.annotate then Code.annotation (ascii "bootstrap") else []) ++ code) :
    p.Installed 0 code ∧ l.address 0 = codeSize code := by
  have hwf := wellFormed_preamble h.listing
  constructor
  · have hp := h.assembled
    rw [Listing.items, render_append, ← List.nil_append (render l.preamble)] at hp
    have hinstalled := installed_of_assemble hp hwf
    rw [hpre, Program.installed_append, codeSize_shown] at hinstalled
    exact hinstalled.2
  · rw [Listing.address, Listing.before, List.take_zero, List.flatMap_nil, List.append_nil,
      instructionCount_render hwf, hpre, codeSize_append, codeSize_shown, Nat.zero_add]

/-- What is referred to before the first command is predefined, declared by a command, or declared
there. -/
theorem references_preamble (h : u.Linked o l p) :
    ∀ x ∈ references l.preamble, isPredefined x = true ∨
      (∃ c ∈ l.commands, c.command.declared? = some x) ∨ x ∈ labelNames l.preamble := by
  rcases preamble_cases h.listing with ⟨-, hpre⟩ | ⟨-, code, hpre, hcode⟩
  · rw [hpre]
    exact List.forall_mem_nil _
  · have hshown : references (if o.annotate then Code.annotation (ascii "bootstrap") else []) = [] := by
      split <;> rfl
    have hreset : ∀ x ∈ references Code.resetStack, isPredefined x = true := by decide
    rw [hpre, labelNames_append, references_append, hshown, labelNames_shown, List.nil_append,
      List.nil_append]
    rcases hcode with ⟨-, rfl⟩ | ⟨-, rfl, -, hdeclared⟩
    · exact fun x hx => Or.inl (hreset x hx)
    · rw [labelNames_append, references_append]
      intro x hx
      rcases List.mem_append.1 hx with hx | hx
      · exact Or.inl (hreset x hx)
      · rcases Code.references_call hx with hx | rfl | hx
        · exact Or.inl hx
        · exact Or.inr (Or.inl hdeclared)
        · exact Or.inr (Or.inr (List.mem_append_right _ hx))

/-- **The labels of a unit** are the names that its commands declare, and generated labels. -/
theorem declared_of_label (h : u.Linked o l p)
    (hm : ∀ m ∈ u.modules, m.name = [] ∨ Text.isSymbol m.name = true) {name : Text} {n : Nat}
    (hn : p.labels.find? name = some n) :
    (∃ c ∈ l.commands, c.command.declared? = some name) ∨ name.isGenerated = true := by
  have hmem := mem_labelNames.2 (label_mem_of_find? h.assembled (wellFormed_items h.listing hm) hn)
  cases hname : name.isGenerated with
  | true => exact Or.inr rfl
  | false =>
      refine Or.inl (mem_declaredNames.1 ?_)
      rw [← declared_of_items h.listing]
      exact List.mem_filter.2 ⟨hmem, by rw [hname]; rfl⟩

/-- A declared name is a label of the program. -/
theorem exists_label (h : u.Linked o l p) {c : PlacedCommand} (hc : c ∈ l.commands) {name : Text}
    (hd : c.command.declared? = some name) : ∃ n, p.labels.find? name = some n := by
  obtain ⟨k, hk⟩ := List.getElem?_of_mem hc
  exact ⟨_, h.label_of_declared hk hd⟩

/-- **The variables of a unit** all of whose targets are declared are its static symbols. -/
theorem static_of_cell (h : u.Linked o l p)
    (hm : ∀ m ∈ u.modules, m.name = [] ∨ Text.isSymbol m.name = true)
    (ht : ∀ c ∈ l.commands, ∀ name ∈ c.command.target?,
      ∃ c' ∈ l.commands, c'.command.declared? = some name)
    {name : Text} (hname : name ∈ p.cells.keys) : name ∈ l.last.statics := by
  have hwf := wellFormed_items h.listing hm
  obtain ⟨hload, hpredefined, hlabel⟩ := load_mem_of_cell h.assembled hwf hname
  have hnot : isPredefined name ≠ true := by simp [isPredefined, hpredefined]
  -- a variable is loaded but is no label, so nothing in the unit declares it
  have hinstalled : p.Installed 0 l.items := by
    have hp := h.assembled
    rw [← List.nil_append (render l.items), ← List.append_nil ([] ++ render l.items)] at hp
    exact installed_of_assemble hp hwf
  have hnolabel : Item.label name ∉ l.items := by
    intro hi
    obtain ⟨n, hn⟩ := hinstalled.label hi
    rw [hlabel] at hn
    cases hn
  have hnodeclared : ¬∃ c ∈ l.commands, c.command.declared? = some name := by
    rintro ⟨c, hc, hd⟩
    obtain ⟨n, hn⟩ := h.exists_label hc hd
    rw [hlabel] at hn
    cases hn
  rcases mem_items h.listing hload with hi | ⟨c, hc, ⟨t, hi⟩ | ⟨code, hwrites, hsub, hi⟩⟩
  · rcases h.references_preamble name (mem_references.2 hi) with hx | hx | hx
    · exact absurd hx hnot
    · exact absurd hx hnodeclared
    · exact absurd (List.mem_append_left _ (mem_labelNames.1 hx)) hnolabel
  · unfold Code.annotation at hi
    simp at hi
  · obtain ⟨g, g', -, -, hwrote, hstatics⟩ := hwrites
    rcases Generator.references_of_wrote hwrote (valid_of_mem_listing h.listing hc)
      (mem_references.2 hi) with hx | hx | hx | hx
    · exact absurd hx hnot
    · exact absurd (ht c hc name hx) hnodeclared
    · exact absurd (hsub (mem_labelNames.1 hx)) hnolabel
    · exact hstatics hx

/-- Such a unit has at most as many variables as there are static cells. -/
theorem length_cells_le (h : u.Linked o l p)
    (hm : ∀ m ∈ u.modules, m.name = [] ∨ Text.isSymbol m.name = true)
    (ht : ∀ c ∈ l.commands, ∀ name ∈ c.command.target?,
      ∃ c' ∈ l.commands, c'.command.declared? = some name) : p.cells.length ≤ 240 := by
  have hsub : p.cells.keys ⊆ l.last.statics := fun x hx => h.static_of_cell hm ht hx
  -- the names of variables are distinct, so there are at most as many as static symbols
  have hlength := ((allotted_of_assemble h.assembled).nodup.subperm hsub).length_le
  rw [SymbolTable.keys, List.length_map] at hlength
  exact Nat.le_trans hlength (length_statics_le h.listing)

/-- The variables of such a unit have the cells below the stack. -/
theorem cell_bounds (h : u.Linked o l p)
    (hm : ∀ m ∈ u.modules, m.name = [] ∨ Text.isSymbol m.name = true)
    (ht : ∀ c ∈ l.commands, ∀ name ∈ c.command.target?,
      ∃ c' ∈ l.commands, c'.command.declared? = some name)
    {name : Text} {n : Nat} (hn : p.cells.find? name = some n) : 16 ≤ n ∧ n < 256 := by
  have hlength := h.length_cells_le hm ht
  obtain ⟨hlo, hhi⟩ := HackToolchain.cell_bounds h.assembled hn
  simp only [Program.variableBase] at hlo hhi
  omega

/-- A static symbol that no command declares is a variable. -/
theorem cell_of_static (h : u.Linked o l p)
    (hm : ∀ m ∈ u.modules, m.name = [] ∨ Text.isSymbol m.name = true) {module : Text}
    (hmodule : Text.isSymbol module = true) {i : Int}
    (hd : ∀ c ∈ l.commands, c.command.declared? ≠ some (Generator.staticSymbol module i)) {n : Nat}
    (hn : p.value? (.symbol (Generator.staticSymbol module i)) = some n) :
    p.cells.find? (Generator.staticSymbol module i) = some n := by
  have hlookup := lookup_predefined_of_dot (dot_mem_staticSymbol module i)
  have hlabel : p.labels.find? (Generator.staticSymbol module i) = none := by
    cases hfind : p.labels.find? (Generator.staticSymbol module i) with
    | none => rfl
    | some k =>
        -- a label is declared by a command, or generated and then starts with a dollar sign, which
        -- no module name does
        exfalso
        rcases h.declared_of_label hm hfind with ⟨c, hc, hdeclared⟩ | hgenerated
        · exact hd c hc hdeclared
        · rw [Generator.isGenerated_staticSymbol hmodule i] at hgenerated
          cases hgenerated
  simpa only [Program.value?, Target.address, hlookup, Program.addressValue?, hlabel,
    Option.none_or] using hn

end Linked

end CompilationUnit

end HackToolchain

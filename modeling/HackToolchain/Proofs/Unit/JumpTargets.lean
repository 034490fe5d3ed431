/-
**Where jumps lead.**

A name that a command declares becomes a label, and every command that continues there loads its
address.  The assembler, however, looks for predefined names first: a declared name that is also
predefined is loaded as the predefined address, and its label is never found.  This module says
exactly when the code of a jump carries the address of the declaration.

Main results:

* `CompilationUnit.Linked.code_of_load` — what the load of a name is assembled to;
* `Generator.load_mem_of_wrote` — every command that continues at a name loads it;
* `CompilationUnit.load_resolves_to_declaration_iff` — **a jump leads to its declaration exactly if
  the declared name is not predefined**, or is predefined with the same address.
-/
import HackToolchain.Proofs.Unit.Linked

set_option relaxedAutoImplicit false
set_option autoImplicit false

namespace HackToolchain

/-! ### What is loaded -/

/-- **Every command that continues at a name loads it.** -/
theorem Generator.load_mem_of_wrote {g g' : Generator} {c : Command} {code : List Item}
    (h : g.Wrote c g' code) {name : Text} (hname : c.target? = some name) :
    Item.load (.symbol name) ∈ code := by
  cases h with
  | jump x => injection hname with hname; rw [← hname]; simp [Code.goto]
  | jumpIf x => injection hname with hname; rw [← hname]; simp [Code.gotoIf]
  | call x hn => injection hname with hname; rw [← hname]; simp [Code.call, Code.goto]
  | _ => cases hname

namespace CompilationUnit

/-- A function that a command of the listing declares is declared by a module. -/
theorem declares_of_mem_listing {u : CompilationUnit} {o : CompileOptions} {l : Listing}
    (h : u.listing o = .ok l) {c : PlacedCommand} (hc : c ∈ l.commands) {name : Text} {n : Int}
    (hd : c.command = .function name n) : u.modules.any (·.declares name) = true := by
  obtain ⟨⟨m, hm, -, hline⟩, hparse⟩ := mem_commands (commands_of_listing h) hc
  refine List.any_eq_true.2 ⟨m, hm, List.any_eq_true.2 ⟨c.line, hline, ?_⟩⟩
  rw [Command.declaredFunction?, hparse, hd]
  exact beq_iff_eq.2 rfl

namespace Linked

variable {u : CompilationUnit} {o : CompileOptions} {l : Listing} {p : Program}

/-- The load of a name is assembled to the digits of what the name stands for. -/
theorem code_of_load (h : u.Linked o l p) {name : Text} (hname : isName name = true)
    {before after : List Item} (hitems : l.items = before ++ .load (.symbol name) :: after) :
    ∃ n, p.value? (.symbol name) = some n ∧
      p.codes[instructionCount (render before)]? = some (Word.ofAddress n).digits := by
  have hp := h.assembled
  have hsplit : before ++ .load (.symbol name) :: after
      = before ++ [.load (.symbol name)] ++ after := by simp
  rw [hitems, hsplit, render_append, render_append] at hp
  obtain ⟨⟨n, hn, hword⟩, -⟩ := installed_of_assemble hp (List.forall_mem_singleton.2 hname)
  refine ⟨n, hn, ?_⟩
  rw [codes_of_assemble h.assembled, List.getElem?_map, hword]
  rfl

/-- A declared name stands for its predefined address, if it has one, and for the address of its
declaration otherwise. -/
theorem value?_of_declared (h : u.Linked o l p) {k : Nat} {c : PlacedCommand}
    (hk : l.commands[k]? = some c) {name : Text} (hd : c.command.declared? = some name) :
    p.value? (.symbol name) = some ((predefinedCells.lookup name).getD (l.address k)) := by
  have hlabel := h.label_of_declared hk hd
  cases hlookup : predefinedCells.lookup name with
  | none => exact Program.value?_of_label hlookup hlabel
  | some a => simp only [Program.value?, Target.address, hlookup, Program.addressValue?]; rfl

/-- The preamble of a unit that declares the entry function loads its name. -/
theorem load_mem_preamble (h : u.Linked o l p) (hboot : o.bootstrap = true)
    (hany : u.modules.any (·.declares o.entry) = true) :
    Item.load (.symbol o.entry) ∈ l.preamble := by
  rcases preamble_cases h.listing with ⟨hno, -⟩ | ⟨-, code, hpre, ⟨hnone, -⟩ | ⟨-, hcode, -⟩⟩
  · rw [hboot] at hno; cases hno
  · rw [hany] at hnone; cases hnone
  · rw [hpre, hcode]
    simp [Code.call, Code.goto]

end Linked

/-- **A jump leads to its declaration exactly if the declared name is not predefined**, or is
predefined with the same address.  The label of a declared name has the address of its declaration.
All commands that continue at the name load it, as does the preamble if it is the entry function,
and it does not matter what comes first. -/
theorem load_resolves_to_declaration_iff {u : CompilationUnit} {o : CompileOptions}
    {lines : List Text} {p : Program} (hcompile : u.compile o = .ok lines)
    (hassemble : assemble lines = .ok p) :
    ∃ l, u.listing o = .ok l ∧ lines = render l.items ∧
      ∀ (j : Nat) (c : PlacedCommand) (name : Text), l.commands[j]? = some c →
        c.command.declared? = some name →
        p.labels.find? name = some (l.address j) ∧
        (∀ c' items, (c', items) ∈ l.entries → c'.command.target? = some name →
          .load (.symbol name) ∈ items) ∧
        (o.bootstrap = true → o.entry = name → (∃ n, c.command = .function name n) →
          .load (.symbol name) ∈ l.preamble) ∧
        ∀ before after, l.items = before ++ .load (.symbol name) :: after →
          (p.codes[instructionCount (render before)]?
              = some (Word.ofAddress (l.address j)).digits ↔
            ∀ a, predefinedCells.lookup name = some a →
              Word.ofAddress a = Word.ofAddress (l.address j)) := by
  obtain ⟨l, h, hlines⟩ := exists_linked hcompile hassemble
  refine ⟨l, h.listing, hlines, fun j c name hj hd => ⟨h.label_of_declared hj hd, ?_, ?_, ?_⟩⟩
  · intro c' items he ht
    obtain ⟨code, ⟨g, g', -, -, hwrote, -⟩, hitems⟩ := listing_entry h.listing he
    rw [hitems]
    exact List.mem_append_right _ (Generator.load_mem_of_wrote hwrote ht)
  · rintro hboot rfl ⟨n, hfunction⟩
    exact h.load_mem_preamble hboot
      (declares_of_mem_listing h.listing (List.mem_of_getElem? hj) hfunction)
  · intro before after hitems
    have hsymbol := Command.isSymbol_of_declared?
      (valid_of_mem_listing h.listing (List.mem_of_getElem? hj)) hd
    obtain ⟨n, hn, hcode⟩ := h.code_of_load (Text.isName_of_isSymbol hsymbol) hitems
    rw [h.value?_of_declared hj hd, Option.some.injEq] at hn
    rw [hcode, Option.some.injEq, Word.digits_inj, ← hn]
    cases predefinedCells.lookup name with
    | none => simp
    | some a => simp

end CompilationUnit

/-- A unit that jumps to a predefined name and to another one. -/
def jumping : CompilationUnit :=
  .ofLines [ascii "goto SP", ascii "label SP", ascii "goto END", ascii "label END"]

/-- The jump to the predefined name misses its declaration, and the other one does not. -/
theorem jumping_misses_predefined :
    ∃ lines p, jumping.compile { bootstrap := false } = .ok lines ∧ assemble lines = .ok p ∧
      p.labels.find? (ascii "SP") = some 2 ∧
      p.codes[0]? ≠ some (Word.ofAddress 2).digits ∧
      p.labels.find? (ascii "END") = some 4 ∧
      p.codes[2]? = some (Word.ofAddress 4).digits := by
  obtain ⟨l, p, ⟨hlisting, hassemble⟩, hcompile, hitems, hcommands, hfirst, hsecond⟩ :=
    CompilationUnit.exists_linked_of_test (u := jumping) (o := { bootstrap := false })
      (fun l _ => l.items = Code.goto (ascii "SP") ++ [.label (ascii "SP")]
          ++ Code.goto (ascii "END") ++ [.label (ascii "END")] ∧
        l.commands.map PlacedCommand.command = [.jump (ascii "SP"), .label (ascii "SP"),
          .jump (ascii "END"), .label (ascii "END")] ∧
        l.address 1 = 2 ∧ l.address 3 = 4) (by decide +kernel)
  obtain ⟨l', hl', -, hjumps⟩ :=
    CompilationUnit.load_resolves_to_declaration_iff hcompile hassemble
  obtain rfl : l = l' := by rw [hlisting] at hl'; injection hl'
  obtain ⟨c₁, hc₁, hd₁⟩ := Listing.exists_command (k := 1) (by rw [hcommands]; rfl)
  obtain ⟨c₃, hc₃, hd₃⟩ := Listing.exists_command (k := 3) (by rw [hcommands]; rfl)
  obtain ⟨hlabel₁, -, -, hload₁⟩ := hjumps 1 c₁ (ascii "SP") hc₁ (by rw [hd₁]; rfl)
  obtain ⟨hlabel₃, -, -, hload₃⟩ := hjumps 3 c₃ (ascii "END") hc₃ (by rw [hd₃]; rfl)
  rw [hfirst] at hlabel₁ hload₁
  rw [hsecond] at hlabel₃ hload₃
  have hnone : predefinedCells.lookup (ascii "END") = none := by decide
  refine ⟨_, p, hcompile, hassemble, hlabel₁, fun hcode => ?_, hlabel₃, ?_⟩
  · have hsame := (hload₁ [] _ hitems).1 hcode 0 rfl
    revert hsame
    decide
  · exact (hload₃ (Code.goto (ascii "SP") ++ [.label (ascii "SP")]) _ hitems).2
      fun a ha => absurd (ha.symm.trans hnone) (Option.some_ne_none a)

end HackToolchain

/-
**The static cells of a unit.**

Compiling a unit is a session with a generator.  So the static symbols that are counted while it is
compiled are those that its code loads, and if all targets of the unit are declared, these are the
variables of the assembled program, which therefore fit below the stack.

If static cells are named after their indices, the symbol of a cell names its module and its index, and
different cells get different symbols.  A label may have the same name as a static cell, and then takes
its place: the code that uses the cell finds the address of the label instead.  All other static cells
are apart from each other.

Main definitions:

* `CompilationUnit.actions`, `CompilationUnit.session` — compiling a unit, as a session;
* `Command.loadOffset` — where the code of a command loads the address of its cell;
* `Program.staticAddress` — what the symbol of a static cell stands for.

Main results:

* `CompilationUnit.session_of_listing` — the session of a unit writes its listing;
* `static_symbols_accounted` — **the static symbols of a session are those that its code loads, and
  they are the variables of a unit**;
* `CompilationUnit.Linked.word_of_static` — the word that loads the address of a static cell;
* `CompilationUnit.static_cells_apart_unless_declared` — **static cells are apart from each other
  unless a label takes their place**.
-/
import HackToolchain.Proofs.Codegen.Sessions
import HackToolchain.Proofs.Unit.Linked

set_option relaxedAutoImplicit false
set_option autoImplicit false

namespace HackToolchain

/-! ### Compiling as a session -/

/-- The actions that write a command of a unit. -/
def PlacedCommand.actions (annotate : Bool) (c : PlacedCommand) : List Action :=
  .enter c.module :: ((if annotate then [.remark c.annotation] else []) ++ [.write c.command.record])

namespace CompilationUnit

/-- The actions that write what stands before the first command. -/
def preambleActions (u : CompilationUnit) (o : CompileOptions) : List Action :=
  if o.bootstrap then
    (if o.annotate then [.remark (ascii "bootstrap")] else [])
      ++ [.start (if u.modules.any (·.declares o.entry) then o.entry else [])]
  else []

/-- The actions that compile a unit with the commands `cs`. -/
def actions (u : CompilationUnit) (o : CompileOptions) (cs : List PlacedCommand) : List Action :=
  u.preambleActions o ++ cs.flatMap (PlacedCommand.actions o.annotate)

/-- The session that compiles a unit with the commands `cs`. -/
def session (u : CompilationUnit) (o : CompileOptions) (cs : List PlacedCommand) :
    Generator × List (Action × Except Fault (List Item)) :=
  ({ mode := o.statics } : Generator).session (u.actions o cs)

end CompilationUnit

namespace Generator

/-- The actions of a command write what is written for it. -/
theorem session_of_writePlaced {annotate : Bool} {g g' : Generator} {c : PlacedCommand}
    {items : List Item} (h : g.writePlaced annotate c = (g', .ok items)) :
    (g.session (c.actions annotate)).1 = g' ∧
      writtenItems (g.session (c.actions annotate)).2 = items := by
  obtain ⟨code, hwrite, rfl⟩ := writePlaced_eq_ok h
  cases annotate <;>
    simp [PlacedCommand.actions, session, perform, Command.command_record, hwrite, writtenItems]

/-- The actions of commands write what is written for them. -/
theorem session_of_list {annotate : Bool} {g : Generator} {cs : List PlacedCommand}
    {r : Generator × List (PlacedCommand × List Item)} (h : g.list annotate cs = .ok r) :
    (g.session (cs.flatMap (PlacedCommand.actions annotate))).1 = r.1 ∧
      writtenItems (g.session (cs.flatMap (PlacedCommand.actions annotate))).2
        = r.2.flatMap Prod.snd := by
  induction cs generalizing g r with
  | nil =>
      injection h with h
      subst h
      exact ⟨rfl, rfl⟩
  | cons c cs ih =>
      obtain ⟨g', items, es, hw, hl, hr⟩ := list_cons h
      obtain ⟨hstate, hitems⟩ := session_of_writePlaced hw
      obtain ⟨hlast, hrest⟩ := ih hl
      rw [List.flatMap_cons, session_append, hstate, writtenItems_append, hitems, hlast, hrest, hr]
      exact ⟨rfl, rfl⟩

end Generator

namespace CompilationUnit

variable {u : CompilationUnit} {o : CompileOptions} {l : Listing}

theorem session_preamble (u : CompilationUnit) (o : CompileOptions) :
    (({ mode := o.statics } : Generator).session (u.preambleActions o)).1 = (u.preamble o).1 ∧
      writtenItems (({ mode := o.statics } : Generator).session (u.preambleActions o)).2
        = (u.preamble o).2 := by
  cases hb : o.bootstrap with
  | false => simp [preambleActions, preamble, hb, Generator.session, writtenItems]
  | true =>
      cases ha : o.annotate <;>
        simp [preambleActions, preamble, hb, ha, Generator.session, Generator.perform, writtenItems]

/-- **The session of a unit writes its listing.** -/
theorem session_of_listing (h : u.listing o = .ok l) :
    (u.session o l.commands).1 = l.last ∧ writtenItems (u.session o l.commands).2 = l.items := by
  obtain ⟨cs, hcs, hpre, hl⟩ := listing_eq_ok h
  obtain ⟨hstate, hitems⟩ := session_preamble u o
  obtain ⟨hlast, hrest⟩ := Generator.session_of_list hl
  obtain rfl : cs = l.commands := (Generator.list_commands hl).symm
  rw [session, actions, Generator.session_append, hstate, writtenItems_append, hitems, hlast, hrest,
    Listing.items, hpre]
  exact ⟨rfl, rfl⟩

/-- The commands in the session of a unit have been read. -/
theorem read_of_mem_actions {cs : List PlacedCommand} (hcs : u.commands o.entry = .ok cs) :
    ∀ a ∈ u.actions o cs, a.Read := by
  intro a ha
  rcases List.mem_append.1 ha with ha | ha
  · unfold preambleActions at ha
    split at ha
    · rcases List.mem_append.1 ha with ha | ha
      · split at ha
        · rw [List.mem_singleton.1 ha]; trivial
        · cases ha
      · rw [List.mem_singleton.1 ha]; trivial
    · cases ha
  · obtain ⟨c, hc, ha⟩ := List.mem_flatMap.1 ha
    rcases List.mem_cons.1 ha with rfl | ha
    · trivial
    · rcases List.mem_append.1 ha with ha | ha
      · split at ha
        · rw [List.mem_singleton.1 ha]; trivial
        · cases ha
      · rw [List.mem_singleton.1 ha]
        exact ⟨c.line.text, c.command, (mem_commands hcs hc).2, rfl⟩

/-- The static symbols of a listing are those that the code of its session loads. -/
theorem accounts_of_listing (h : u.listing o = .ok l) :
    l.last.Accounts (staticTargets (u.session o l.commands).2) := by
  have haccounts := (Generator.accounts_nil (g := { mode := o.statics }) rfl).session
    (read_of_mem_actions (o := o) (commands_of_listing h))
  rw [List.nil_append] at haccounts
  exact (session_of_listing h).1 ▸ haccounts

end CompilationUnit

/-- **The static symbols of a session are those that its code loads**, whatever has been refused, and
there are at most 240; static cells that are loaded by number lie between 16 and 255.  So the variables
of a unit all of whose targets are declared are static symbols that its session loads, and they lie
between 16 and 255, too. -/
theorem static_symbols_accounted :
    (∀ (mode : StaticMode) (as : List Action), (∀ a ∈ as, a.Read) →
      (({ mode } : Generator).session as).1.Accounts
        (staticTargets (({ mode } : Generator).session as).2)) ∧
    ∀ (u : CompilationUnit) (o : CompileOptions) (lines : List Text) (p : Program),
      (∀ m ∈ u.modules, m.name = [] ∨ Text.isSymbol m.name = true) →
      u.compile o = .ok lines → assemble lines = .ok p →
      ∃ cs, u.commands o.entry = .ok cs ∧ lines = render (writtenItems (u.session o cs).2) ∧
        ((∀ c ∈ cs, ∀ name ∈ c.command.target?, ∃ c' ∈ cs, c'.command.declared? = some name) →
          (∀ q ∈ p.cells,
            .symbol q.1 ∈ staticTargets (u.session o cs).2 ∧ 16 ≤ q.2 ∧ q.2 ≤ 255) ∧
          p.checkVariables = .ok ()) := by
  constructor
  · intro mode as has
    have haccounts := (Generator.accounts_nil (g := { mode }) rfl).session has
    rwa [List.nil_append] at haccounts
  · intro u o lines p hm hcompile hassemble
    obtain ⟨l, h, rfl⟩ := CompilationUnit.exists_linked hcompile hassemble
    refine ⟨l.commands, CompilationUnit.commands_of_listing h.listing, ?_, fun ht => ⟨?_, ?_⟩⟩
    · rw [(CompilationUnit.session_of_listing h.listing).2]
    · intro q hq
      have hkey : q.1 ∈ p.cells.keys := List.mem_map.2 ⟨q, hq, rfl⟩
      have hfind : p.cells.find? q.1 = some q.2 :=
        (SymbolTable.find?_eq_some_iff (allotted_of_assemble h.assembled).nodup).2 hq
      obtain ⟨hlo, hhi⟩ := h.cell_bounds hm ht hfind
      have haccounts := CompilationUnit.accounts_of_listing h.listing
      exact ⟨(haccounts.mem_iff q.1).1 (h.static_of_cell hm ht hkey), hlo, Nat.le_of_lt_succ hhi⟩
    · exact Program.checkTable_eq_ok_iff.2 (Or.inl (h.length_cells_le hm ht))

/-- A session in which the third action is refused. -/
def interrupted : List Action :=
  [.enter (ascii "A"), .write (Command.push .statics 0).record,
    .write (Command.pop .statics 240).record, .start [], .write (Command.pop .statics 0).record,
    .enter [], .write (Command.push .statics 3).record]

/-- A unit of two modules that uses three static cells, one of which has the name of a label. -/
def sharing : CompilationUnit where
  modules := [
    { name := ascii "A"
      lines := [⟨1, ascii "push static 0"⟩, ⟨2, ascii "pop static 1"⟩, ⟨3, ascii "label B.0"⟩] },
    { name := ascii "B", lines := [⟨1, ascii "push static 0"⟩] }]

/-- The session has reserved one symbol, and the unit has two variables, which fit below the stack. -/
theorem interrupted_and_sharing_accounted :
    (({} : Generator).session interrupted).1.Accounts
      [.symbol (ascii "A.0"), .symbol (ascii "A.0"), .number 19] ∧
    ∃ lines p, sharing.compile { bootstrap := false } = .ok lines ∧ assemble lines = .ok p ∧
      p.cells.keys = [ascii "A.0", ascii "A.1"] ∧ (∀ q ∈ p.cells, 16 ≤ q.2 ∧ q.2 ≤ 255) ∧
      p.checkVariables = .ok () := by
  constructor
  · have hread : ∀ a ∈ interrupted, a.Read := by
      simp only [interrupted, List.forall_mem_cons]
      exact ⟨trivial, ⟨ascii "push static 0", _, rfl, rfl⟩, ⟨ascii "pop static 240", _, rfl, rfl⟩,
        trivial, ⟨ascii "pop static 0", _, rfl, rfl⟩, trivial, ⟨ascii "push static 3", _, rfl, rfl⟩,
        List.forall_mem_nil _⟩
    exact static_symbols_accounted.1 .index interrupted hread
  · obtain ⟨l, p, ⟨hlisting, hassemble⟩, hcompile, hkeys, htargets⟩ :=
      CompilationUnit.exists_linked_of_test (u := sharing) (o := { bootstrap := false })
        (fun l p => p.cells.keys = [ascii "A.0", ascii "A.1"] ∧
          ∀ c ∈ l.commands, c.command.target? = none) (by decide +kernel)
    have hm : ∀ m ∈ sharing.modules, m.name = [] ∨ Text.isSymbol m.name = true := by decide
    obtain ⟨cs, hcs, -, hvariables⟩ :=
      static_symbols_accounted.2 sharing { bootstrap := false } _ p hm hcompile hassemble
    obtain rfl : l.commands = cs :=
      Except.ok.inj ((CompilationUnit.commands_of_listing hlisting).symm.trans hcs)
    obtain ⟨hcells, hcheck⟩ := hvariables fun c hc name hname => by
      rw [htargets c hc] at hname
      cases hname
    exact ⟨_, p, hcompile, hassemble, hkeys, fun q hq => (hcells q hq).2, hcheck⟩

/-! ### Static cells that are named after their indices -/

/-- How many instructions the code of a command that uses a static cell has before it loads the address
of the cell. -/
def Command.loadOffset : Command → Nat
  | pop .. => 3
  | _ => 0

/-- What the symbol of a static cell stands for in a program. -/
def Program.staticAddress (p : Program) (module : Text) (i : Int) : Nat :=
  (p.value? (.symbol (Generator.staticSymbol module i))).getD 0

namespace CompilationUnit

/-- **The word that loads the address of a static cell.** -/
theorem Linked.word_of_static {u : CompilationUnit} {o : CompileOptions} {l : Listing} {p : Program}
    (h : u.Linked o l p) (hmode : o.statics = .index) {k : Nat} {c : PlacedCommand}
    (hk : l.commands[k]? = some c) (hm : Text.isSymbol c.module = true) {i : Int}
    (hi : c.command.staticIndex? = some i) :
    p.value? (.symbol (Generator.staticSymbol c.module i)) = some (p.staticAddress c.module i) ∧
      p.words[l.address k + c.command.loadOffset]?
        = some (Word.ofAddress (p.staticAddress c.module i)) := by
  obtain ⟨g, g', code, hgmode, hgmodule, hwrote, hinstalled, -⟩ :=
    h.code_of_command hk fun _ => Or.inr hm
  have hvalid := valid_of_mem_listing h.listing (List.mem_of_getElem? hk)
  obtain ⟨t, hfound, hcode⟩ := Generator.found_of_wrote hwrote hvalid hi
  have htarget : t = .symbol (Generator.staticSymbol c.module i) := by
    rw [hfound.target_index (hgmode.trans hmode), hgmodule,
      if_neg (Text.not_isEmpty_of_isSymbol hm)]
  have hload : ∃ n, p.value? t = some n ∧
      p.words[l.address k + c.command.loadOffset]? = some (Word.ofAddress n) := by
    rcases hcode with ⟨hcommand, rfl⟩ | ⟨hcommand, rfl⟩
    · rw [hcommand]
      exact hinstalled.1
    · rw [hcommand]
      rw [Code.pop, Program.installed_append] at hinstalled
      exact hinstalled.2.1
  obtain ⟨n, hn, hword⟩ := hload
  rw [htarget] at hn
  have haddress : p.staticAddress c.module i = n := by
    rw [Program.staticAddress, hn]
    rfl
  rw [haddress]
  exact ⟨hn, hword⟩

/-- A static cell whose symbol no command declares is a variable. -/
theorem Linked.cell_of_access {u : CompilationUnit} {o : CompileOptions} {l : Listing} {p : Program}
    (h : u.Linked o l p) (hm : ∀ m ∈ u.modules, Text.isSymbol m.name = true)
    (hmode : o.statics = .index) {c : PlacedCommand} (hc : c ∈ l.commands) {i : Int}
    (hi : c.command.staticIndex? = some i)
    (hnot : Generator.staticSymbol c.module i ∉ declaredNames l.commands) :
    p.cells.find? (Generator.staticSymbol c.module i) = some (p.staticAddress c.module i) := by
  obtain ⟨k, hk⟩ := List.getElem?_of_mem hc
  obtain ⟨m, hmem, hname, -⟩ := module_of_mem_listing h.listing hc
  have hmodule : Text.isSymbol c.module = true := hname ▸ hm m hmem
  refine h.cell_of_static (fun m hmem => Or.inr (hm m hmem)) hmodule (fun c' hc' hd => ?_)
    (h.word_of_static hmode hk hmodule hi).1
  exact hnot (mem_declaredNames.2 ⟨c', hc', hd⟩)

/-- **Static cells are apart from each other unless a label takes their place.**  The code of every
static access loads what the symbol of its cell stands for.  If a command declares the symbol, that is
the address of the command; otherwise it is a cell between 16 and 255, which no other such cell
shares. -/
theorem static_cells_apart_unless_declared {u : CompilationUnit} {o : CompileOptions}
    {lines : List Text} {p : Program} (hm : ∀ m ∈ u.modules, Text.isSymbol m.name = true)
    (hmode : o.statics = .index) (hcompile : u.compile o = .ok lines)
    (hassemble : assemble lines = .ok p) (hcheck : p.checkVariables = .ok ()) :
    ∃ l, u.listing o = .ok l ∧ lines = render l.items ∧
      ∀ (k : Nat) (c : PlacedCommand) (i : Int), l.commands[k]? = some c →
        c.command.staticIndex? = some i →
        p.words[l.address k + c.command.loadOffset]?
          = some (Word.ofAddress (p.staticAddress c.module i)) ∧
        (∀ j c', l.commands[j]? = some c' →
          c'.command.declared? = some (Generator.staticSymbol c.module i) →
          p.staticAddress c.module i = l.address j) ∧
        (Generator.staticSymbol c.module i ∉ declaredNames l.commands →
          16 ≤ p.staticAddress c.module i ∧ p.staticAddress c.module i ≤ 255 ∧
          ∀ c' ∈ l.commands, ∀ i', c'.command.staticIndex? = some i' →
            Generator.staticSymbol c'.module i' ∉ declaredNames l.commands →
            (p.staticAddress c.module i = p.staticAddress c'.module i' ↔
              c.module = c'.module ∧ i = i')) := by
  obtain ⟨l, h, hlines⟩ := exists_linked hcompile hassemble
  refine ⟨l, h.listing, hlines, fun k c i hk hi => ?_⟩
  have hc := List.mem_of_getElem? hk
  obtain ⟨m, hmem, hname, -⟩ := module_of_mem_listing h.listing hc
  obtain ⟨hvalue, hword⟩ := h.word_of_static hmode hk (hname ▸ hm m hmem) hi
  refine ⟨hword, fun j c' hj hd => ?_, fun hnot => ?_⟩
  · have hlabel := Program.value?_of_label
      (lookup_predefined_of_dot (dot_mem_staticSymbol c.module i)) (h.label_of_declared hj hd)
    rw [hvalue] at hlabel
    injection hlabel
  · have hfind := h.cell_of_access hm hmode hc hi hnot
    obtain ⟨hlo, hhi⟩ := cell_bounds_of_checkVariables hassemble hcheck hfind
    refine ⟨hlo, hhi, fun c' hc' i' hi' hnot' => ⟨fun heq => ?_, ?_⟩⟩
    · have hsame := (allotted_of_assemble hassemble).eq_of_find? hfind
        (heq ▸ h.cell_of_access hm hmode hc' hi' hnot')
      exact Generator.staticSymbol_inj
        (Command.valid_static (valid_of_mem_listing h.listing hc) hi).1
        (Command.valid_static (valid_of_mem_listing h.listing hc') hi').1 hsame
    · rintro ⟨hmodule, rfl⟩
      rw [hmodule]

end CompilationUnit

/-- The commands of the unit. -/
def sharingCommands : List PlacedCommand :=
  [⟨ascii "A", ⟨1, ascii "push static 0"⟩, .push .statics 0⟩,
    ⟨ascii "A", ⟨2, ascii "pop static 1"⟩, .pop .statics 1⟩,
    ⟨ascii "A", ⟨3, ascii "label B.0"⟩, .label (ascii "B.0")⟩,
    ⟨ascii "B", ⟨1, ascii "push static 0"⟩, .push .statics 0⟩]

/-- The first two accesses of the unit load different cells below the stack, and the third one loads
the address of the label. -/
theorem sharing_loses_a_cell :
    ∃ lines p a b, sharing.compile { bootstrap := false } = .ok lines ∧ assemble lines = .ok p ∧
      p.words[0]? = some (Word.ofAddress a) ∧ p.words[10]? = some (Word.ofAddress b) ∧
      (16 ≤ a ∧ a ≤ 255) ∧ (16 ≤ b ∧ b ≤ 255) ∧ a ≠ b ∧
      p.words[12]? = some (Word.ofAddress 12) := by
  obtain ⟨l, p, ⟨hlisting, hassemble⟩, hcompile, hcommands, h0, h1, h2, h3, hcheck⟩ :=
    CompilationUnit.exists_linked_of_test (u := sharing) (o := { bootstrap := false })
      (fun l p => l.commands = sharingCommands ∧ l.address 0 = 0 ∧ l.address 1 = 7 ∧
        l.address 2 = 12 ∧ l.address 3 = 12 ∧ p.checkVariables = .ok ()) (by decide +kernel)
  obtain ⟨l', hl', -, haccess⟩ := CompilationUnit.static_cells_apart_unless_declared
    (by decide : ∀ m ∈ sharing.modules, Text.isSymbol m.name = true) rfl hcompile hassemble hcheck
  obtain rfl : l = l' := Except.ok.inj (hlisting.symm.trans hl')
  rw [hcommands] at haccess
  obtain ⟨hword₀, -, hcell₀⟩ := haccess 0 _ 0 rfl rfl
  obtain ⟨hword₁, -, hcell₁⟩ := haccess 1 _ 1 rfl rfl
  obtain ⟨hword₃, hlabel₃, -⟩ := haccess 3 _ 0 rfl rfl
  obtain ⟨hlo₀, hhi₀, hapart⟩ := hcell₀ (by decide)
  obtain ⟨hlo₁, hhi₁, -⟩ := hcell₁ (by decide)
  rw [h0] at hword₀
  rw [h1] at hword₁
  rw [h3, hlabel₃ 2 _ rfl rfl, h2] at hword₃
  refine ⟨_, p, _, _, hcompile, hassemble, hword₀, hword₁, ⟨hlo₀, hhi₀⟩, ⟨hlo₁, hhi₁⟩, fun heq => ?_,
    hword₃⟩
  have hsame := (hapart _ (List.mem_of_getElem? (i := 1) rfl) 1 rfl (by decide)).1 heq
  exact absurd hsame.2 (by decide)

end HackToolchain

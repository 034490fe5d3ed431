/-
**The code of a unit, command by command.**

A unit is compiled in one pass that collects the code of all its commands.  A *listing* keeps the
code of each command apart, together with the code that stands before the first command, and so
says where the code of a command begins.

Main definitions:

* `Listing`, `Listing.items`, `Listing.before` — the code of a unit, command by command, and what
  stands before a command;
* `Listing.address` — where the code of a command begins;
* `Generator.list`, `CompilationUnit.listing` — the listing of a unit;
* `Generator.Writes` — the code that the generator writes for a command of a unit.

Main results:

* `CompilationUnit.compile_eq_ok_iff` — the assembly of a unit is its listing, written out;
* `Generator.list_spec` — what the generator writes, command by command;
* `CompilationUnit.listing_entry` — **the code of each command of a listing is what the generator
  wrote for it**.
-/
import HackToolchain.Proofs.Assembly.Linking
import HackToolchain.Proofs.Codegen.Cases
import HackToolchain.Proofs.Sequences
import HackToolchain.Unit.Compile

set_option relaxedAutoImplicit false
set_option autoImplicit false

namespace HackToolchain

/-! ### Listings -/

/-- The code of a unit: what stands before the first command, the commands with their code, and the
state of the generator after the last command. -/
structure Listing where
  preamble : List Item
  entries : List (PlacedCommand × List Item)
  last : Generator

namespace Listing

/-- The commands of a listing. -/
def commands (l : Listing) : List PlacedCommand := l.entries.map Prod.fst

/-- The code before the command with an index. -/
def before (l : Listing) (k : Nat) : List Item :=
  l.preamble ++ (l.entries.take k).flatMap Prod.snd

/-- All code of a listing. -/
def items (l : Listing) : List Item := l.preamble ++ l.entries.flatMap Prod.snd

/-- The address of the first instruction of the command with an index: the number of instructions
before it. -/
def address (l : Listing) (k : Nat) : Nat := instructionCount (render (l.before k))

end Listing

@[simp] theorem render_nil : render [] = [] := rfl

@[simp] theorem render_append (is js : List Item) : render (is ++ js) = render is ++ render js :=
  List.flatMap_append

namespace Listing

theorem exists_command {l : Listing} {k : Nat} {x : Command}
    (h : (l.commands.map PlacedCommand.command)[k]? = some x) :
    ∃ c : PlacedCommand, l.commands[k]? = some c ∧ c.command = x := by
  rw [List.getElem?_map] at h
  exact Option.map_eq_some_iff.1 h

/-- The code of a listing around the code of one command. -/
theorem items_split {l : Listing} {k : Nat} {c : PlacedCommand} {is : List Item}
    (h : l.entries[k]? = some (c, is)) :
    l.items = l.before k ++ is ++ (l.entries.drop (k + 1)).flatMap Prod.snd := by
  obtain ⟨hk, hget⟩ := List.getElem?_eq_some_iff.1 h
  have hsplit : l.entries = l.entries.take k ++ (c, is) :: l.entries.drop (k + 1) := by
    rw [← hget, List.getElem_cons_drop, List.take_append_drop]
  have hflat : l.entries.flatMap Prod.snd = (l.entries.take k).flatMap Prod.snd ++
      (is ++ (l.entries.drop (k + 1)).flatMap Prod.snd) := by
    conv => lhs; rw [hsplit]
    rw [List.flatMap_append, List.flatMap_cons]
  rw [items, before, hflat]
  simp only [List.append_assoc]

/-- The code of the next command begins where the code of a command ends. -/
theorem before_succ {l : Listing} {k : Nat} {c : PlacedCommand} {is : List Item}
    (h : l.entries[k]? = some (c, is)) : l.before (k + 1) = l.before k ++ is := by
  rw [before, before, List.take_add_one, h]
  simp

theorem address_succ {l : Listing} {k : Nat} {c : PlacedCommand} {is : List Item}
    (h : l.entries[k]? = some (c, is)) :
    l.address (k + 1) = l.address k + instructionCount (render is) := by
  rw [address, before_succ h, render_append, instructionCount_append, address]

end Listing

/-! ### Writing commands one after the other -/

/-- The code of placed commands, command by command, and the state after the last of them. -/
def Generator.list (annotate : Bool) (g : Generator) :
    List PlacedCommand → Except CompileError (Generator × List (PlacedCommand × List Item))
  | [] => .ok (g, [])
  | c :: cs =>
    match g.writePlaced annotate c with
    | (_, .error e) => .error e
    | (g', .ok items) => (Generator.list annotate g' cs).map fun r => (r.1, (c, items) :: r.2)

/-- The listing collects what is written in one pass. -/
theorem Generator.writeAll_eq (annotate : Bool) (g : Generator) (done : List (List Item))
    (cs : List PlacedCommand) :
    g.writeAll annotate done cs
      = (g.list annotate cs).map fun r => done.reverse.flatten ++ r.2.flatMap Prod.snd := by
  induction cs generalizing g done with
  | nil => simp [writeAll, list, Except.map]
  | cons c cs ih =>
      simp only [writeAll, list]
      cases hw : g.writePlaced annotate c with
      | mk g' r =>
          cases r with
          | error e => rfl
          | ok items =>
              simp only [ih]
              cases g'.list annotate cs with
              | error e => rfl
              | ok r => simp [Except.map]

/-- What one command adds to a listing. -/
theorem Generator.list_cons {annotate : Bool} {g : Generator} {c : PlacedCommand}
    {cs : List PlacedCommand} {r : Generator × List (PlacedCommand × List Item)}
    (h : g.list annotate (c :: cs) = .ok r) :
    ∃ g' items es, g.writePlaced annotate c = (g', .ok items) ∧
      g'.list annotate cs = .ok (r.1, es) ∧ r.2 = (c, items) :: es := by
  simp only [list] at h
  cases hw : g.writePlaced annotate c with
  | mk g' x =>
      rw [hw] at h
      cases x with
      | error e => cases h
      | ok items =>
          cases hl : g'.list annotate cs with
          | error e => simp only [hl, Except.map] at h; cases h
          | ok s =>
              simp only [hl, Except.map] at h
              injection h with h
              subst h
              exact ⟨g', items, s.2, rfl, hl, rfl⟩

/-- The commands of a listing are the commands that were written. -/
theorem Generator.list_commands {annotate : Bool} {g : Generator} {cs : List PlacedCommand}
    {r : Generator × List (PlacedCommand × List Item)} (h : g.list annotate cs = .ok r) :
    r.2.map Prod.fst = cs := by
  induction cs generalizing g r with
  | nil => injection h with h; rw [← h]; rfl
  | cons c cs ih =>
      obtain ⟨g', items, es, -, hl, hr⟩ := list_cons h
      rw [hr, List.map_cons, ih hl]

/-- Writing commands keeps the way of naming static cells. -/
theorem Generator.mode_write (g : Generator) (c : Command) : (g.write c).1.mode = g.mode := by
  have hreserve : ∀ (g : Generator) (s : Text), (g.reserve s).1.mode = g.mode := by
    intro g s
    unfold reserve
    split
    · rfl
    · split <;> rfl
  have hplace : ∀ (s : Segment) (i : Int), (g.place s i).1.mode = g.mode := by
    intro s i
    cases s with
    | statics =>
        simp only [place, staticTarget]
        split
        · rfl
        · split
          · split
            · rfl
            · rw [hreserve]
          · split
            · rfl
            · rw [hreserve]
    | _ => rfl
  cases c with
  | push s i | pop s i => exact hplace s i
  | operate o => cases o <;> rfl
  | call name n =>
      simp only [write]
      split <;> rfl
  | ret =>
      simp only [write]
      split <;> rfl
  | _ => rfl

theorem Generator.mode_writePlaced {annotate : Bool} {g g' : Generator} {c : PlacedCommand}
    {r : Except CompileError (List Item)} (h : g.writePlaced annotate c = (g', r)) :
    g'.mode = g.mode := by
  have := congrArg Prod.fst h
  simp only [writePlaced] at this
  rw [← this, mode_write]

/-- The code of a command, with its source in front if sources are shown. -/
theorem Generator.writePlaced_eq_ok {annotate : Bool} {g g' : Generator} {c : PlacedCommand}
    {items : List Item} (h : g.writePlaced annotate c = (g', .ok items)) :
    ∃ code, { g with module := c.module }.write c.command = (g', .ok code) ∧
      items = (if annotate then Code.annotation c.annotation else []) ++ code := by
  simp only [writePlaced] at h
  injection h with hg hr
  cases hw : ({ g with module := c.module }.write c.command).2 with
  | error f => rw [hw] at hr; cases hr
  | ok code =>
      rw [hw] at hr
      injection hr with hr
      exact ⟨code, by rw [← hg, ← hw], hr.symm⟩

/-- The code that the generator writes for a command of a unit: it names static cells in the given
way, and the static symbols that it uses are among the given ones. -/
def Generator.Writes (mode : StaticMode) (statics : List Text) (c : PlacedCommand)
    (code : List Item) : Prop :=
  ∃ g g' : Generator, g.mode = mode ∧ g.module = c.module ∧ g.Wrote c.command g' code ∧
    g'.statics ⊆ statics

/-- **What the generator writes, command by command.**  Static symbols are collected along the way,
and there are never more than 240. -/
theorem Generator.list_spec {annotate : Bool} {g : Generator} {cs : List PlacedCommand}
    {r : Generator × List (PlacedCommand × List Item)} (h : g.list annotate cs = .ok r)
    (hcs : ∀ c ∈ cs, c.command.Valid) :
    g.statics ⊆ r.1.statics ∧ (g.statics.length ≤ 240 → r.1.statics.length ≤ 240) ∧
      ∀ e ∈ r.2, ∃ code, Generator.Writes g.mode r.1.statics e.1 code ∧
        e.2 = (if annotate then Code.annotation (PlacedCommand.annotation e.1) else []) ++ code := by
  induction cs generalizing g r with
  | nil =>
      injection h with h
      subst h
      exact ⟨List.Subset.refl _, id, fun e he => by cases he⟩
  | cons c cs ih =>
      obtain ⟨g', items, es, hw, hl, hr⟩ := list_cons h
      obtain ⟨code, hwrite, hitems⟩ := writePlaced_eq_ok hw
      have hc := hcs c (List.mem_cons_self ..)
      have hwrote := wrote_of_write hc hwrite
      obtain ⟨hsub, hlen⟩ := statics_of_wrote hwrote hc
      obtain ⟨hsub', hlen', hes⟩ := ih hl fun c' hc' => hcs c' (List.mem_cons_of_mem _ hc')
      refine ⟨List.Subset.trans hsub hsub', fun hle => hlen' (hlen hle), ?_⟩
      intro e he
      rw [hr] at he
      -- the static symbols of the first command are kept by the others
      rcases List.mem_cons.1 he with rfl | he
      · exact ⟨code, ⟨{ g with module := c.module }, g', rfl, rfl, hwrote, hsub'⟩, hitems⟩
      · obtain ⟨code', hwrites, hitems'⟩ := hes e he
        exact ⟨code', mode_writePlaced hw ▸ hwrites, hitems'⟩

/-! ### Units -/

theorem Generator.mode_start (g : Generator) (entry : Text) : (g.start entry).1.mode = g.mode := by
  unfold start
  split <;> rfl

theorem Generator.statics_start (g : Generator) (entry : Text) :
    (g.start entry).1.statics = g.statics := by
  unfold start
  split <;> rfl

namespace CompilationUnit

/-- The listing of a unit. -/
def listing (u : CompilationUnit) (o : CompileOptions) : Except CompileError Listing :=
  if o.bootstrap ∧ o.entry ≠ [] ∧ Text.isSymbol o.entry = false then .error (.entryPoint o.entry)
  else
    match u.commands o.entry with
    | .error e => .error e
    | .ok cs =>
      let start := u.preamble o
      (start.1.list o.annotate cs).map fun r =>
        { preamble := start.2, entries := r.2, last := r.1 }

theorem mode_preamble (u : CompilationUnit) (o : CompileOptions) :
    (u.preamble o).1.mode = o.statics := by
  simp only [preamble]
  split
  · rw [Generator.mode_start]
  · rfl

/-- The items of a unit are those of its listing. -/
theorem items_eq (u : CompilationUnit) (o : CompileOptions) :
    u.items o = (u.listing o).map Listing.items := by
  simp only [items, listing]
  split
  · rfl
  · cases u.commands o.entry with
    | error e => rfl
    | ok cs =>
        simp only [Generator.writeAll_eq]
        cases (u.preamble o).1.list o.annotate cs with
        | error e => rfl
        | ok r => simp [Except.map, Listing.items]

/-- **The assembly of a unit is its listing, written out.** -/
theorem compile_eq_ok_iff {u : CompilationUnit} {o : CompileOptions} {lines : List Text} :
    u.compile o = .ok lines ↔ ∃ l, u.listing o = .ok l ∧ lines = render l.items := by
  rw [compile, items_eq]
  cases u.listing o with
  | error e => simp [Except.map]
  | ok l => simp [Except.map, eq_comm]

/-- A decidable property of the listing of a unit can be tested. -/
theorem exists_listing_of_test {u : CompilationUnit} {o : CompileOptions} (q : Listing → Prop)
    [DecidablePred q] (h : (u.listing o).toOption.any (fun l => decide (q l)) = true) :
    ∃ l, u.listing o = .ok l ∧ u.compile o = .ok (render l.items) ∧ q l := by
  cases hl : u.listing o with
  | error e => rw [hl] at h; cases h
  | ok l =>
      rw [hl] at h
      exact ⟨l, rfl, compile_eq_ok_iff.2 ⟨l, hl, rfl⟩, of_decide_eq_true h⟩

/-- A listing is the preamble of its unit followed by what the generator writes for its commands. -/
theorem listing_eq_ok {u : CompilationUnit} {o : CompileOptions} {l : Listing}
    (h : u.listing o = .ok l) :
    ∃ cs, u.commands o.entry = .ok cs ∧ l.preamble = (u.preamble o).2 ∧
      (u.preamble o).1.list o.annotate cs = .ok (l.last, l.entries) := by
  simp only [listing] at h
  split at h
  · cases h
  · cases hc : u.commands o.entry with
    | error e => rw [hc] at h; cases h
    | ok cs =>
        rw [hc] at h
        cases hl : (u.preamble o).1.list o.annotate cs with
        | error e => simp only [hl, Except.map] at h; cases h
        | ok r =>
            simp only [hl, Except.map] at h
            injection h with h
            subst h
            exact ⟨cs, rfl, rfl, hl⟩

/-- Each command of a unit was read from a line of one of its modules. -/
theorem mem_commands {u : CompilationUnit} {entry : Text} {cs : List PlacedCommand}
    (h : u.commands entry = .ok cs) {c : PlacedCommand} (hc : c ∈ cs) :
    (∃ m ∈ u.modules, c.module = m.name ∧ c.line ∈ m.lines) ∧
      Command.parse c.line.text = .ok c.command := by
  obtain ⟨⟨name, l⟩, hmem, hplace⟩ := exists_of_mem_mapM h hc
  obtain ⟨m, hm, hl⟩ := List.mem_flatMap.1 hmem
  obtain ⟨l', hl', heq⟩ := List.mem_map.1 hl
  injection heq with hname hline
  subst hname hline
  unfold placeCommand at hplace
  split at hplace
  · next command hparse =>
      injection hplace with hplace
      subst hplace
      exact ⟨⟨m, mem_orderModules.1 hm, rfl, hl'⟩, hparse⟩
  · cases hplace

/-- A listing has the commands of its unit, in their order. -/
theorem commands_of_listing {u : CompilationUnit} {o : CompileOptions} {l : Listing}
    (h : u.listing o = .ok l) : u.commands o.entry = .ok l.commands := by
  obtain ⟨cs, hcs, -, hl⟩ := listing_eq_ok h
  rw [hcs, Listing.commands, Generator.list_commands hl]

/-- The commands of a unit have been read, so their operands are in range. -/
theorem valid_of_mem_commands {u : CompilationUnit} {entry : Text} {cs : List PlacedCommand}
    (h : u.commands entry = .ok cs) : ∀ c ∈ cs, c.command.Valid := by
  intro c hc
  exact Command.valid_of_parse (mem_commands h hc).2

theorem valid_of_mem_listing {u : CompilationUnit} {o : CompileOptions} {l : Listing}
    (h : u.listing o = .ok l) {c : PlacedCommand} (hc : c ∈ l.commands) : c.command.Valid :=
  valid_of_mem_commands (commands_of_listing h) c hc

theorem module_of_mem_listing {u : CompilationUnit} {o : CompileOptions} {l : Listing}
    (h : u.listing o = .ok l) {c : PlacedCommand} (hc : c ∈ l.commands) :
    ∃ m ∈ u.modules, c.module = m.name ∧ c.line ∈ m.lines :=
  (mem_commands (commands_of_listing h) hc).1

/-- A function that a module of the unit declares is declared by a command of its listing. -/
theorem declared_of_declares {u : CompilationUnit} {o : CompileOptions} {l : Listing}
    (h : u.listing o = .ok l) {m : Module} (hm : m ∈ u.modules) {name : Text}
    (hd : m.declares name = true) : ∃ c ∈ l.commands, c.command.declared? = some name := by
  obtain ⟨line, hline, hfun⟩ := List.any_eq_true.1 hd
  have hpair : (m.name, line) ∈
      (orderModules u.modules o.entry).flatMap fun m => m.lines.map fun l => (m.name, l) :=
    List.mem_flatMap.2 ⟨m, mem_orderModules.2 hm, List.mem_map.2 ⟨line, hline, rfl⟩⟩
  obtain ⟨c, hc, hplace⟩ := mem_of_mapM (commands_of_listing h) hpair
  refine ⟨c, hc, ?_⟩
  rw [beq_iff_eq, Command.declaredFunction?] at hfun
  simp only [placeCommand] at hplace
  split at hfun
  · next x n hparse =>
      injection hfun with hfun
      rw [hparse] at hplace
      injection hplace with hplace
      rw [← hplace, ← hfun]
      rfl
  · cases hfun

/-- What stands before the first command: nothing, or code that sets up the stack and calls the
entry function, if that is declared. -/
theorem preamble_cases {u : CompilationUnit} {o : CompileOptions} {l : Listing}
    (h : u.listing o = .ok l) :
    (o.bootstrap = false ∧ l.preamble = []) ∨
      (o.bootstrap = true ∧ ∃ code,
        l.preamble = (if o.annotate then Code.annotation (ascii "bootstrap") else []) ++ code ∧
        ((u.modules.any (·.declares o.entry) = false ∧ code = Code.resetStack) ∨
          (u.modules.any (·.declares o.entry) = true ∧
            code = Code.resetStack ++ Code.call o.entry 0 (Generator.freshLabel "RETURN" 0) ∧
            Text.isSymbol o.entry = true ∧
            ∃ c ∈ l.commands, c.command.declared? = some o.entry))) := by
  obtain ⟨-, -, hpre, -⟩ := listing_eq_ok h
  rw [hpre]
  simp only [preamble]
  cases hb : o.bootstrap with
  | false => exact Or.inl ⟨rfl, rfl⟩
  | true =>
      refine Or.inr ⟨rfl, _, rfl, ?_⟩
      cases hany : u.modules.any (·.declares o.entry) with
      | false => exact Or.inl ⟨rfl, rfl⟩
      | true =>
          obtain ⟨m, hm, hd⟩ := List.any_eq_true.1 hany
          obtain ⟨c, hc, hdeclared⟩ := declared_of_declares h hm hd
          have hsymbol := Command.isSymbol_of_declared? (valid_of_mem_listing h hc) hdeclared
          refine Or.inr ⟨rfl, ?_, hsymbol, c, hc, hdeclared⟩
          simp only [if_true, Generator.start]
          rw [if_neg (Text.not_isEmpty_of_isSymbol hsymbol)]
          rfl

theorem statics_preamble (u : CompilationUnit) (o : CompileOptions) :
    (u.preamble o).1.statics = [] := by
  simp only [preamble]
  split
  · rw [Generator.statics_start]
  · rfl

/-- A unit has at most 240 static symbols. -/
theorem length_statics_le {u : CompilationUnit} {o : CompileOptions} {l : Listing}
    (h : u.listing o = .ok l) : l.last.statics.length ≤ 240 := by
  obtain ⟨cs, hcs, -, hl⟩ := listing_eq_ok h
  refine (Generator.list_spec hl (valid_of_mem_commands hcs)).2.1 ?_
  rw [statics_preamble]
  exact Nat.zero_le _

/-- **The code of each command of a listing is what the generator wrote for it**, with its source
in front if sources are shown. -/
theorem listing_entry {u : CompilationUnit} {o : CompileOptions} {l : Listing}
    (h : u.listing o = .ok l) {c : PlacedCommand} {items : List Item} (hc : (c, items) ∈ l.entries) :
    ∃ code, Generator.Writes o.statics l.last.statics c code ∧
      items = (if o.annotate then Code.annotation c.annotation else []) ++ code := by
  obtain ⟨cs, hcs, -, hl⟩ := listing_eq_ok h
  obtain ⟨code, hwrites, hitems⟩ :=
    (Generator.list_spec hl (valid_of_mem_commands hcs)).2.2 (c, items) hc
  exact ⟨code, mode_preamble u o ▸ hwrites, hitems⟩

end CompilationUnit

end HackToolchain

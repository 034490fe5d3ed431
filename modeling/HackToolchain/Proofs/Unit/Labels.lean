/-
**The labels of a unit.**

The code of a unit declares the names that its commands declare, in their order, and between them
labels from one counter.  Since the latter are distinct and start as no symbol does, only the names
of the commands can meet, and the assembler accepts the code of a unit exactly if they do not.  If
they do, it refuses the line of the first command that declares a name again.

Main definitions:

* `declaredNames` — the names that commands declare.

Main results:

* `CompilationUnit.wellFormed_items` — all code of a unit is well formed;
* `CompilationUnit.nodup_generated`, `CompilationUnit.declared_of_before` — **the labels of a unit**;
* `CompilationUnit.command_of_repeated` — which command repeats a label;
* `CompilationUnit.assembles_iff_declarations_distinct` — **the code of a unit is accepted exactly
  if its commands declare distinct names**.
-/
import Mathlib.Data.List.Basic
import Mathlib.Data.List.Perm.Basic
import HackToolchain.Proofs.Codegen.Names
import HackToolchain.Proofs.Unit.Listing

set_option relaxedAutoImplicit false
set_option autoImplicit false

namespace HackToolchain

/-- The names that commands declare, in their order. -/
def declaredNames (cs : List PlacedCommand) : List Text := cs.filterMap (·.command.declared?)

theorem mem_declaredNames {cs : List PlacedCommand} {name : Text} :
    name ∈ declaredNames cs ↔ ∃ c ∈ cs, c.command.declared? = some name := List.mem_filterMap

/-! ### All code of a unit -/

namespace CompilationUnit

variable {u : CompilationUnit} {o : CompileOptions} {l : Listing}

theorem wellFormed_shown (annotate : Bool) (t : Text) :
    ∀ i ∈ (if annotate then Code.annotation t else []), i.WellFormed := by
  split
  · exact Code.wellFormed_annotation t
  · exact List.forall_mem_nil _

/-- What stands before the first command is well formed. -/
theorem wellFormed_preamble (h : u.listing o = .ok l) : ∀ i ∈ l.preamble, i.WellFormed := by
  rcases preamble_cases h with ⟨-, hpre⟩ | ⟨-, code, hpre, hcode⟩
  · rw [hpre]; exact List.forall_mem_nil _
  · rw [hpre, List.forall_mem_append]
    refine ⟨wellFormed_shown _ _, ?_⟩
    rcases hcode with ⟨-, rfl⟩ | ⟨-, rfl, hentry, -⟩
    · exact Code.wellFormed_resetStack
    · rw [List.forall_mem_append]
      exact ⟨Code.wellFormed_resetStack, Code.wellFormed_call (Text.isName_of_isSymbol hentry)
        (Generator.isName_freshLabel (by decide) 0) (by decide) (by decide)⟩

/-- The code of a command is well formed if its module is unnamed or named by a symbol. -/
theorem wellFormed_code (h : u.listing o = .ok l)
    (hm : ∀ m ∈ u.modules, m.name = [] ∨ Text.isSymbol m.name = true) {c : PlacedCommand}
    (hc : c ∈ l.commands) {code : List Item}
    (hwrites : Generator.Writes o.statics l.last.statics c code) : ∀ i ∈ code, i.WellFormed := by
  obtain ⟨g, g', -, hmodule, hwrote, -⟩ := hwrites
  obtain ⟨m, hmem, hname, -⟩ := module_of_mem_listing h hc
  refine Generator.write_wellFormed (valid_of_mem_listing h hc) (fun _ => ?_) hwrote
  rw [hmodule, hname]
  exact hm m hmem

/-- An item of a listing stands before the first command, shows a source, or belongs to the code of
a command. -/
theorem mem_items (h : u.listing o = .ok l) {i : Item} (hi : i ∈ l.items) :
    i ∈ l.preamble ∨ ∃ c ∈ l.commands, (∃ t, i ∈ Code.annotation t) ∨
      ∃ code, Generator.Writes o.statics l.last.statics c code ∧ code ⊆ l.items ∧ i ∈ code := by
  rcases List.mem_append.1 hi with hi | hi
  · exact Or.inl hi
  · obtain ⟨e, he, hi⟩ := List.mem_flatMap.1 hi
    obtain ⟨code, hwrites, hitems⟩ := listing_entry h he
    refine Or.inr ⟨e.1, List.mem_map.2 ⟨e, he, rfl⟩, ?_⟩
    rw [hitems, List.mem_append] at hi
    rcases hi with hi | hi
    · split at hi
      · exact Or.inl ⟨_, hi⟩
      · cases hi
    · refine Or.inr ⟨code, hwrites, fun j hj => ?_, hi⟩
      refine List.mem_append_right _ (List.mem_flatMap.2 ⟨e, he, ?_⟩)
      rw [hitems]
      exact List.mem_append_right _ hj

/-- All code of a unit is well formed if its modules are unnamed or named by symbols. -/
theorem wellFormed_items (h : u.listing o = .ok l)
    (hm : ∀ m ∈ u.modules, m.name = [] ∨ Text.isSymbol m.name = true) :
    ∀ i ∈ l.items, i.WellFormed := by
  intro i hi
  rcases mem_items h hi with hi | ⟨c, hc, ⟨t, hi⟩ | ⟨code, hwrites, -, hi⟩⟩
  · exact wellFormed_preamble h i hi
  · exact Code.wellFormed_annotation t i hi
  · exact wellFormed_code h hm hc hwrites i hi

end CompilationUnit

/-! ### Labels, command by command -/

theorem labelNames_shown (annotate : Bool) (t : Text) :
    labelNames (if annotate then Code.annotation t else []) = [] := by
  split <;> rfl

/-- **The generated labels of commands that are written one after the other** go through the numbers
of the counter. -/
theorem Generator.list_freshLabels {annotate : Bool} {g : Generator} {cs : List PlacedCommand}
    {r : Generator × List (PlacedCommand × List Item)} (h : g.list annotate cs = .ok r)
    (hcs : ∀ c ∈ cs, c.command.Valid) :
    (labelNames (r.2.flatMap Prod.snd)).filter Text.isGenerated
      = freshLabels (cs.flatMap (·.command.labelWords)) g.labels := by
  induction cs generalizing g r with
  | nil =>
      injection h with h
      subst h
      rfl
  | cons c cs ih =>
      obtain ⟨g', items, es, hw, hl, hr⟩ := list_cons h
      obtain ⟨code, hwrite, hitems⟩ := writePlaced_eq_ok hw
      have hc := hcs c (List.mem_cons_self ..)
      have hwrote := wrote_of_write hc hwrite
      rw [hr, List.flatMap_cons, labelNames_append, hitems, labelNames_append, labelNames_shown,
        List.nil_append, List.filter_append, (filter_labels_of_wrote hwrote hc).1,
        ih hl fun c' hc' => hcs c' (List.mem_cons_of_mem _ hc'), (labelNames_of_wrote hwrote hc).2,
        List.flatMap_cons, freshLabels_append]

namespace CompilationUnit

variable {u : CompilationUnit} {o : CompileOptions} {l : Listing}

/-- The labels before the first command are generated, and they are counted. -/
theorem labelNames_preamble (u : CompilationUnit) (o : CompileOptions) :
    ∃ words, labelNames (u.preamble o).2 = Generator.freshLabels words 0 ∧
      (u.preamble o).1.labels = words.length := by
  simp only [preamble]
  split
  · obtain ⟨words, hnames, hcount⟩ := Generator.labelNames_start { mode := o.statics }
      (if u.modules.any (·.declares o.entry) then o.entry else [])
    refine ⟨words, ?_, hcount.trans (Nat.zero_add _)⟩
    rw [labelNames_append, labelNames_shown, List.nil_append, hnames]
  · exact ⟨[], rfl, rfl⟩

/-- **The generated labels of a unit are distinct.** -/
theorem nodup_generated (h : u.listing o = .ok l) :
    ((labelNames l.items).filter Text.isGenerated).Nodup := by
  obtain ⟨cs, hcs, hpre, hl⟩ := listing_eq_ok h
  obtain ⟨words, hwords, hcount⟩ := labelNames_preamble u o
  rw [Listing.items, labelNames_append, hpre, hwords, List.filter_append,
    (filter_freshLabels words 0).1, Generator.list_freshLabels hl (valid_of_mem_commands hcs), hcount,
    ← Nat.zero_add words.length, ← Generator.freshLabels_append]
  exact Generator.nodup_freshLabels _ _

/-- The other labels in what is written for commands are the names that the commands declare. -/
theorem declared_of_entries (h : u.listing o = .ok l) {es : List (PlacedCommand × List Item)}
    (hes : ∀ e ∈ es, e ∈ l.entries) :
    (labelNames (es.flatMap Prod.snd)).filter (!·.isGenerated)
      = declaredNames (es.map Prod.fst) := by
  induction es with
  | nil => rfl
  | cons e es ih =>
      have he := hes e (List.mem_cons_self ..)
      obtain ⟨code, ⟨g, g', -, -, hwrote, -⟩, hitems⟩ := listing_entry h he
      have hvalid := valid_of_mem_listing h (List.mem_map.2 ⟨e, he, rfl⟩)
      rw [List.flatMap_cons, labelNames_append, hitems, labelNames_append, labelNames_shown,
        List.nil_append, List.filter_append, (Generator.filter_labels_of_wrote hwrote hvalid).2,
        ih fun e' he' => hes e' (List.mem_cons_of_mem _ he'), List.map_cons, declaredNames,
        declaredNames, List.filterMap_cons]
      cases e.1.command.declared? <;> rfl

/-- **The labels before a command** are generated, or declared by the commands before it. -/
theorem declared_of_before (h : u.listing o = .ok l) (k : Nat) :
    (labelNames (l.before k)).filter (!·.isGenerated) = declaredNames (l.commands.take k) := by
  obtain ⟨-, -, hpre, -⟩ := listing_eq_ok h
  obtain ⟨words, hwords, -⟩ := labelNames_preamble u o
  rw [Listing.before, labelNames_append, hpre, hwords, List.filter_append,
    (filter_freshLabels words 0).2, List.nil_append,
    declared_of_entries h fun e he => List.mem_of_mem_take he, Listing.commands, List.map_take]

theorem declared_of_items (h : u.listing o = .ok l) :
    (labelNames l.items).filter (!·.isGenerated) = declaredNames l.commands := by
  have hall := declared_of_before h l.entries.length
  rwa [Listing.before, List.take_length, Listing.commands, ← List.map_take, List.take_length] at hall

/-- A name that is declared does not start as generated labels do. -/
theorem isGenerated_of_mem_declaredNames (h : u.listing o = .ok l) {name : Text}
    (hname : name ∈ declaredNames l.commands) : name.isGenerated = false := by
  obtain ⟨c, hc, hd⟩ := mem_declaredNames.1 hname
  exact Text.isGenerated_of_isSymbol (Command.isSymbol_of_declared? (valid_of_mem_listing h hc) hd)

/-- **All labels of a unit are distinct exactly if its commands declare distinct names.** -/
theorem nodup_labelNames_iff (h : u.listing o = .ok l) :
    (labelNames l.items).Nodup ↔ (declaredNames l.commands).Nodup := by
  rw [← (List.filter_append_perm Text.isGenerated (labelNames l.items)).nodup_iff,
    declared_of_items h, List.nodup_append]
  constructor
  · rintro ⟨-, hnodup, -⟩
    exact hnodup
  · intro hnodup
    refine ⟨nodup_generated h, hnodup, fun x hx y hy hxy => ?_⟩
    have hgenerated := (List.mem_filter.1 hx).2
    rw [hxy, isGenerated_of_mem_declaredNames h hy] at hgenerated
    cases hgenerated

end CompilationUnit

/-! ### Where a declaration is repeated -/

/-- An element of a concatenation stands in one of the parts. -/
theorem exists_of_flatten_eq {α : Type} {ls : List (List α)} {before after : List α} {x : α}
    (h : ls.flatten = before ++ x :: after) :
    ∃ k s t, ls[k]? = some (s ++ x :: t) ∧ before = (ls.take k).flatten ++ s := by
  induction ls generalizing before with
  | nil => simp at h
  | cons part ls ih =>
      have later : ∀ r, before = part ++ r → ls.flatten = r ++ x :: after →
          ∃ k s t, (part :: ls)[k]? = some (s ++ x :: t) ∧
            before = ((part :: ls).take k).flatten ++ s := by
        intro r hr hls
        obtain ⟨k, s, t, hk, hs⟩ := ih hls
        refine ⟨k + 1, s, t, hk, ?_⟩
        rw [hr, hs, List.take_succ_cons, List.flatten_cons, List.append_assoc]
      rw [List.flatten_cons] at h
      -- the element stands in a later part, unless the first part reaches beyond what is before it
      rcases List.append_eq_append_iff.1 h with ⟨r, hr, hls⟩ | ⟨r, hr, hls⟩
      · exact later r hr hls
      · cases r with
        | nil => exact later [] (by rw [hr, List.append_nil, List.append_nil]) hls.symm
        | cons y r =>
            injection hls with hx hls
            exact ⟨0, before, r, by rw [hx, ← hr]; rfl, rfl⟩

/-- An item of a listing stands before the first command or in what is written for a command. -/
theorem Listing.exists_of_items_eq {l : Listing} {before after : List Item} {i : Item}
    (h : l.items = before ++ i :: after) :
    i ∈ l.preamble ∨
      ∃ k c s t, l.entries[k]? = some (c, s ++ i :: t) ∧ before = l.before k ++ s := by
  have hflatten : (l.preamble :: l.entries.map Prod.snd).flatten = before ++ i :: after := by
    rw [← h, Listing.items, List.flatten_cons, List.flatMap_def]
  obtain ⟨k, s, t, hk, hbefore⟩ := exists_of_flatten_eq hflatten
  cases k with
  | zero =>
      injection hk with hk
      rw [hk]
      exact Or.inl (List.mem_append_right _ (List.mem_cons_self ..))
  | succ k =>
      rw [List.getElem?_cons_succ, List.getElem?_map] at hk
      obtain ⟨⟨c, items⟩, he, hitems⟩ := Option.map_eq_some_iff.1 hk
      refine Or.inr ⟨k, c, s, t, by rw [he, ← hitems], ?_⟩
      rw [hbefore, List.take_succ_cons, List.flatten_cons, Listing.before, List.flatMap_def,
        List.map_take]

namespace CompilationUnit

variable {u : CompilationUnit} {o : CompileOptions} {l : Listing}

/-- A label that is declared for the second time is not generated. -/
theorem isGenerated_of_repeated (h : u.listing o = .ok l) {before after : List Item} {name : Text}
    (hitems : l.items = before ++ .label name :: after) (hname : name ∈ labelNames before) :
    name.isGenerated = false := by
  by_contra hgenerated
  rw [Bool.not_eq_false] at hgenerated
  have hnodup := nodup_generated h
  rw [hitems, labelNames_append, List.filter_append, List.nodup_append] at hnodup
  refine hnodup.2.2 name (List.mem_filter.2 ⟨hname, hgenerated⟩) name ?_ rfl
  exact List.mem_filter.2 ⟨List.mem_cons_self .., hgenerated⟩

/-- A label that is not generated is declared by the command for which it is written. -/
theorem declared_of_entry (h : u.listing o = .ok l) {c : PlacedCommand} {items : List Item}
    (hmem : (c, items) ∈ l.entries) {name : Text} (hname : Item.label name ∈ items)
    (hsource : name.isGenerated = false) : c.command.declared? = some name := by
  have hnames : (labelNames ([(c, items)].flatMap Prod.snd)).filter (!·.isGenerated)
      = declaredNames [c] :=
    declared_of_entries h fun e he => List.mem_singleton.1 he ▸ hmem
  have hfilter : name ∈ (labelNames items).filter (!·.isGenerated) :=
    List.mem_filter.2 ⟨mem_labelNames.2 hname, by rw [hsource]; rfl⟩
  rw [List.flatMap_singleton] at hnames
  rw [hnames] at hfilter
  obtain ⟨c', hc', hd⟩ := mem_declaredNames.1 hfilter
  rwa [List.mem_singleton.1 hc'] at hd

/-- A label that is declared for the second time is declared by a command, whose code starts
there. -/
theorem command_of_repeated (h : u.listing o = .ok l) {before after : List Item} {name : Text}
    (hitems : l.items = before ++ .label name :: after) (hname : name ∈ labelNames before) :
    ∃ k c, l.commands[k]? = some c ∧ c.command.declared? = some name ∧
      before = l.before k ++ (if o.annotate then Code.annotation c.annotation else []) ∧
      name ∈ declaredNames (l.commands.take k) := by
  have hsource := isGenerated_of_repeated h hitems hname
  rcases Listing.exists_of_items_eq hitems with hpre | ⟨k, c, s, t, he, hbefore⟩
  · obtain ⟨-, -, hpreamble, -⟩ := listing_eq_ok h
    obtain ⟨words, hwords, -⟩ := labelNames_preamble u o
    have hgenerated : name ∈ Generator.freshLabels words 0 := by
      rw [← hwords, ← hpreamble]
      exact mem_labelNames.2 hpre
    rw [Generator.isGenerated_of_mem_freshLabels hgenerated] at hsource
    cases hsource
  · have hmem := List.mem_of_getElem? he
    have hlabel : Item.label name ∈ s ++ .label name :: t :=
      List.mem_append_right _ (List.mem_cons_self ..)
    have hdeclared := declared_of_entry h hmem hlabel hsource
    obtain ⟨code, ⟨g, g', -, -, hwrote, -⟩, hcode⟩ := listing_entry h hmem
    obtain ⟨rest, rfl, hrest⟩ := Generator.code_of_declared? hwrote hdeclared
    -- the label stands nowhere else in what is written for the command
    have hshown : Item.label name ∉ (if o.annotate then Code.annotation c.annotation else []) := by
      rw [← mem_labelNames, labelNames_shown]
      exact List.not_mem_nil
    have hother : Item.label name ∉ rest := by
      rw [← mem_labelNames, hrest]
      exact List.not_mem_nil
    obtain ⟨hs, -, -⟩ := (List.append_cons_inj_of_notMem hshown hother).1 hcode.symm
    refine ⟨k, c, ?_, hdeclared, by rw [hbefore, hs], ?_⟩
    · rw [Listing.commands, List.getElem?_map, he]
      rfl
    · rw [← declared_of_before h]
      refine List.mem_filter.2 ⟨?_, by rw [hsource]; rfl⟩
      rwa [hbefore, labelNames_append, ← hs, labelNames_shown, List.append_nil] at hname

/-- **The code of a unit is accepted exactly if its commands declare distinct names.**  If it is
refused, it is for the line of the first command that declares a name again.  The labels that are
read from the code are the declared names and generated ones, which never meet each other or the
declared names. -/
theorem assembles_iff_declarations_distinct {u : CompilationUnit} {o : CompileOptions}
    {lines : List Text} (hm : ∀ m ∈ u.modules, m.name = [] ∨ Text.isSymbol m.name = true)
    (hcompile : u.compile o = .ok lines) :
    ∃ l, u.listing o = .ok l ∧ lines = render l.items ∧ u.commands o.entry = .ok l.commands ∧
      ((∃ p, assemble lines = .ok p) ↔ (declaredNames l.commands).Nodup) ∧
      (∀ e, assemble lines = .error e →
        ∃ k c name n, l.commands[k]? = some c ∧ c.command.declared? = some name ∧
          (declaredNames (l.commands.take k)).Nodup ∧ name ∈ declaredNames (l.commands.take k) ∧
          n = (render (l.before k)).length + (if o.annotate then 2 else 0) ∧
          lines[n]? = some (ascii "(" ++ name ++ ascii ")") ∧
          e = { line := n + 1, fault := .duplicateLabel name }) ∧
      ∃ generated, (declarations 0 lines).keys.Perm (generated ++ declaredNames l.commands) ∧
        generated.Nodup ∧ (∀ x ∈ generated, x.isGenerated = true) ∧
        ∀ x ∈ declaredNames l.commands, x.isGenerated = false := by
  obtain ⟨l, h, rfl⟩ := compile_eq_ok_iff.1 hcompile
  have hwf := wellFormed_items h hm
  refine ⟨l, h, rfl, commands_of_listing h, ?_, fun e he => ?_, ?_⟩
  · rw [assemble_render_iff hwf, nodup_labelNames_iff h]
  · obtain ⟨before, name, after, hitems, hnodup, hname, rfl⟩ := error_of_assemble_render hwf he
    obtain ⟨k, c, hk, hd, hbefore, hrepeated⟩ := command_of_repeated h hitems hname
    rw [hitems, List.forall_mem_append, List.forall_mem_cons] at hwf
    have hlength := length_render hwf.1
    refine ⟨k, c, name, before.length, hk, hd, ?_, hrepeated, ?_, ?_, rfl⟩
    · rw [← declared_of_before h]
      rw [hbefore, labelNames_append, labelNames_shown, List.append_nil] at hnodup
      exact hnodup.filter _
    · rw [← hlength, hbefore, render_append, List.length_append]
      split <;> rfl
    · rw [hitems, render_append, render_cons, Item.lines_label hwf.2.1, ← hlength,
        List.getElem?_append_right (Nat.le_refl _), Nat.sub_self]
      rfl
  · refine ⟨_, ?_, nodup_generated h, fun x hx => (List.mem_filter.1 hx).2,
      fun x hx => isGenerated_of_mem_declaredNames h hx⟩
    rw [keys_declarations_render hwf, ← declared_of_items h]
    exact (List.filter_append_perm Text.isGenerated (labelNames l.items)).symm

end CompilationUnit

/-- A unit that declares a name twice behind a comparison. -/
def repeating : CompilationUnit := .ofLines [ascii "eq", ascii "function A 0", ascii "label A"]

/-- The unit is refused at its last line, which is line 23 of its code. -/
theorem repeating_refused :
    ∃ lines, repeating.compile {} = .ok lines ∧
      assemble lines = .error { line := 23, fault := .duplicateLabel (ascii "A") } := by
  obtain ⟨l, hlisting, hcompile, hnames, hlength⟩ :=
    CompilationUnit.exists_listing_of_test (u := repeating) (o := {})
      (fun l => l.commands.map (·.command.declared?) = [none, some (ascii "A"), some (ascii "A")] ∧
        (render (l.before 2)).length = 22) (by decide +kernel)
  obtain ⟨l', hl', -, -, hiff, herror, -⟩ :=
    CompilationUnit.assembles_iff_declarations_distinct
      (fun m hm => Or.inl (by rw [List.mem_singleton.1 hm])) hcompile
  obtain rfl : l = l' := Except.ok.inj (hlisting.symm.trans hl')
  refine ⟨_, hcompile, ?_⟩
  have hdeclared : ∀ k, declaredNames (l.commands.take k)
      = ([none, some (ascii "A"), some (ascii "A")].take k).filterMap id := by
    intro k
    rw [← hnames, declaredNames, ← List.map_take, List.filterMap_map]
    rfl
  cases hresult : assemble (render l.items) with
  | ok p =>
      have hnodup : (declaredNames (l.commands.take 3)).Nodup :=
        (hiff.1 ⟨p, hresult⟩).sublist ((List.take_sublist 3 l.commands).filterMap _)
      rw [hdeclared] at hnodup
      exact absurd hnodup (by decide)
  | error e =>
      obtain ⟨k, c, name, n, hk, hd, -, hrepeated, hn, -, rfl⟩ := herror e hresult
      have hname := congrArg (·[k]?) hnames
      simp only [List.getElem?_map, hk, Option.map_some, hd] at hname
      rw [hdeclared] at hrepeated
      match k with
      | 0 => cases hrepeated
      | 1 => cases hrepeated
      | 2 =>
          injection hname with hname
          injection hname with hname
          rw [hn, hlength, hname]
          rfl
      | k + 3 => cases hname

end HackToolchain

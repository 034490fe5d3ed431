/-
**Generated labels are fresh and declared.**

Comparisons and calls need labels of their own.  They all take them from one counter, across functions
and modules, and a command that is refused takes none.  So the generated labels of a session, in the order
of their declarations, go through the numbers from zero on, and no number is left out or used twice.
Every generated label that is loaded is declared by the code that loads it.

The code of each action has labels of its own, numbered from the counter on.  Pieces of such code can be
put together as long as their numbers follow each other, and the counter makes sure that they do.

Main definitions:

* `generatedDeclarations` — the lines that declare a generated label;
* `Generator.Named` — the names that a generator remembers are not those of generated labels;
* `FreshCode` — code that declares labels with consecutive numbers, and loads no other generated label;
* `takenWords` — the labels that a session takes from the counter;
* `commandsWritten` — how many commands of a kind a session wrote.

Main results:

* `generatedDeclarations_render` — which lines declare generated labels;
* `Generator.Wrote.freshCode` — the code of a command has labels of its own;
* `Generator.Named.write`, `Generator.Named.perform` — what one command and one action write and preserve;
* `Generator.Named.session` — **what a session writes**;
* `generated_labels_fresh_and_declared` — **the generated labels of a session**.
-/
import HackToolchain.Proofs.Codegen.Sessions

set_option relaxedAutoImplicit false
set_option autoImplicit false

namespace HackToolchain

/-! ### Lines of well-formed items -/

theorem Item.lines_eq_text {i : Item} (h : i.WellFormed) : i.lines = [i.text] := by
  cases i with
  | blank | comment t => rfl
  | load t =>
      exact layOut_of_isPlain (Text.IsPlain.append (by decide) (Target.isPlain_text h))
        (by simp [text, ascii_at])
  | compute c =>
      obtain ⟨b, t, ht, -⟩ := Compute.head_text h
      exact layOut_of_isPlain (Compute.isPlain_text h) (by simp [text, ht])
  | label name => exact lines_label h

/-- Well-formed items are written one on a line. -/
theorem render_eq_map_text {is : List Item} (h : ∀ i ∈ is, i.WellFormed) :
    render is = is.map Item.text := by
  rw [render, List.map_eq_flatMap]
  exact List.flatMap_congr fun i hi => Item.lines_eq_text (h i hi)

/-- The lines that declare a label with a dollar sign in front. -/
def generatedDeclarations (lines : List Text) : List Text := lines.filter (ascii "($").isPrefixOf

/-- The line that declares a label. -/
def declaration (name : Text) : Text := ascii "(" ++ name ++ ascii ")"

/-- A text starts with a sign and a dollar sign if a generated name follows the sign. -/
theorem Text.isPrefixOf_dollar (b c : UInt8) (t : Text) :
    [b, 36].isPrefixOf (c :: t) = (b == c && t.isGenerated) := by
  cases t with
  | nil => rfl
  | cons d t =>
      have hdollar : ((36 : UInt8) == d) = Text.isGenerated (d :: t) := BEq.comm
      rw [← hdollar]
      exact congrArg (b == c && ·) (Bool.and_true _)

theorem Text.isGenerated_append {s : Text} (hs : s ≠ []) (t : Text) :
    Text.isGenerated (s ++ t) = s.isGenerated := by
  cases s with
  | nil => exact absurd rfl hs
  | cons b s => rfl

theorem Text.isGenerated_ofNat (n : Nat) : Text.isGenerated (Numeral.ofNat n) = false := by
  obtain ⟨b, t, ht, hb⟩ := isDigit_head_ofNat n
  rw [ht]
  refine beq_false_of_ne fun hhead => ?_
  injection hhead with hhead
  rw [hhead] at hb
  exact absurd hb (by decide)

/-- Which written items declare a generated label. -/
theorem Item.declares_generated {i : Item} (h : i.WellFormed) :
    (ascii "($").isPrefixOf i.text = i.label?.any Text.isGenerated := by
  have hmark : ascii "($" = [40, 36] := by decide
  rw [hmark]
  cases i with
  | blank => rfl
  | comment t =>
      rw [text, ascii_remark]
      rfl
  | load t =>
      rw [text, ascii_at]
      exact Text.isPrefixOf_dollar 40 64 t.text
  | compute c =>
      obtain ⟨b, t, ht, -, h40⟩ := Compute.head_text h
      rw [text, ht, Text.isPrefixOf_dollar, beq_false_of_ne (Ne.symm h40)]
      rfl
  | label name =>
      have hne : name ≠ [] := by
        rintro rfl
        cases h
      rw [text, ascii_open, List.append_assoc, List.singleton_append, Text.isPrefixOf_dollar,
        Text.isGenerated_append hne]
      rfl

/-- Which written items refer to a generated label. -/
theorem Item.refers_generated {i : Item} (h : i.WellFormed) :
    (ascii "@$").isPrefixOf i.text = i.reference?.any Text.isGenerated := by
  have hmark : ascii "@$" = [64, 36] := by decide
  rw [hmark]
  cases i with
  | blank => rfl
  | comment t =>
      rw [text, ascii_remark]
      rfl
  | load t =>
      rw [text, ascii_at, List.singleton_append, Text.isPrefixOf_dollar]
      cases t with
      | number n => rw [Target.text, Numeral.ofInt_of_nonneg h.1, Text.isGenerated_ofNat]; rfl
      | symbol name => rfl
  | compute c =>
      obtain ⟨b, t, ht, h64, -⟩ := Compute.head_text h
      rw [text, ht, Text.isPrefixOf_dollar, beq_false_of_ne (Ne.symm h64)]
      rfl
  | label name =>
      rw [text, ascii_open, List.append_assoc]
      exact Text.isPrefixOf_dollar 64 40 _

/-- **Which lines declare generated labels.** -/
theorem generatedDeclarations_render {is : List Item} (h : ∀ i ∈ is, i.WellFormed) :
    generatedDeclarations (render is)
      = ((labelNames is).filter Text.isGenerated).map declaration := by
  rw [render_eq_map_text h, generatedDeclarations]
  induction is with
  | nil => rfl
  | cons i is ih =>
      rw [List.forall_mem_cons] at h
      have hcons : labelNames (i :: is) = i.label?.toList ++ labelNames is := by
        rw [← List.singleton_append, labelNames_append]
        cases i <;> rfl
      rw [List.map_cons, List.filter_cons, Item.declares_generated h.1, ih h.2, hcons,
        List.filter_append, List.map_append]
      cases i with
      | label name =>
          change (if name.isGenerated = true then _ else _) = _
          cases hname : name.isGenerated <;> simp [Item.label?, hname, Item.text, declaration]
      | _ => rfl

/-- A line that refers to a generated label loads it. -/
theorem exists_reference_of_line {is : List Item} (h : ∀ i ∈ is, i.WellFormed) {line : Text}
    (hline : line ∈ render is) (hmark : (ascii "@$").isPrefixOf line = true) :
    ∃ name ∈ references is, line = ascii "@" ++ name ∧ name.isGenerated = true := by
  rw [render_eq_map_text h] at hline
  obtain ⟨i, hi, rfl⟩ := List.mem_map.1 hline
  rw [Item.refers_generated (h i hi), Option.any_eq_true] at hmark
  obtain ⟨name, hname, hgenerated⟩ := hmark
  refine ⟨name, List.mem_filterMap.2 ⟨i, hi, hname⟩, ?_, hgenerated⟩
  unfold Item.reference? at hname
  split at hname
  · injection hname with hname
    rw [← hname]
    rfl
  · cases hname

/-! ### Names that are not generated -/

/-- No predefined name starts with a dollar sign. -/
theorem isGenerated_of_isPredefined {x : Text} (h : isPredefined x = true) : x.isGenerated = false := by
  rw [← Bool.not_eq_true]
  intro hgenerated
  have hnone : predefinedCells.lookup x = none :=
    lookup_predefined_eq_none (P := (Text.isGenerated · = true)) (by decide +kernel) hgenerated
  rw [isPredefined, hnone] at h
  cases h

/-- Commands continue at symbols. -/
theorem Command.isSymbol_of_target? {c : Command} (hc : c.Valid) {name : Text}
    (h : c.target? = some name) : Text.isSymbol name = true := by
  cases c with
  | jump x | jumpIf x => injection h with h; exact h ▸ hc
  | call x n => injection h with h; exact h ▸ hc.1
  | _ => cases h

namespace Generator

/-- The symbols of the static cells of a module do not start with a dollar sign. -/
theorem isGenerated_staticName? {g : Generator} {i : Int} {s : Text}
    (h : g.staticName? i = some s) (hlo : 0 ≤ i)
    (hm : g.module = [] ∨ Text.isSymbol g.module = true) : s.isGenerated = false := by
  obtain ⟨w, rfl, -⟩ := staticName?_eq_some h hlo
  rcases hm with hm | hm
  · rw [hm]
    rfl
  · rw [staticOwner, if_neg (Text.not_isEmpty_of_isSymbol hm),
      Text.isGenerated_append (by rintro hnil; rw [hnil] at hm; cases hm)]
    exact Text.isGenerated_of_isSymbol hm

/-- The module of a generator is unnamed or a symbol, and no static symbol starts with a dollar
sign. -/
structure Named (g : Generator) : Prop where
  module : g.module = [] ∨ Text.isSymbol g.module = true
  statics : ∀ s ∈ g.statics, s.isGenerated = false

/-- Looking for a static cell keeps the names and takes no label. -/
theorem Named.found {g g' : Generator} {i : Int} {r : Except Fault Target} (h : g.Named)
    (hlo : 0 ≤ i) (hfound : g.Found i g' r) : g'.Named ∧ g'.labels = g.labels := by
  cases hfound with
  | past | number | known | full => exact ⟨⟨h.module, h.statics⟩, rfl⟩
  | taken hi hs hmem hroom =>
      refine ⟨⟨h.module, fun x hx => ?_⟩, rfl⟩
      rcases List.mem_append.1 hx with hx | hx
      · exact h.statics x hx
      · rw [List.mem_singleton.1 hx]
        exact isGenerated_staticName? hs hlo h.module

/-- A command that is written keeps the names. -/
theorem Named.wrote {g g' : Generator} {c : Command} {code : List Item} (h : g.Named)
    (hc : c.Valid) (hwrote : g.Wrote c g' code) : g'.Named := by
  cases hi : c.staticIndex? with
  | some i =>
      obtain ⟨t, hfound, -⟩ := found_of_wrote hwrote hc hi
      exact (h.found (Command.valid_static hc hi).1 hfound).1
  | none =>
      refine ⟨?_, statics_eq_of_wrote hwrote hi ▸ h.statics⟩
      cases hwrote with
      | push hpl | pop hpl =>
          cases hpl with
          | statics => cases hi
          | _ => exact h.module
      | operate o => cases o <;> exact h.module
      | _ => exact h.module

/-- A command that is refused keeps the names and takes no label. -/
theorem Named.refused {g g' : Generator} {c : Command} {f : Fault} (h : g.Named) (hc : c.Valid)
    (hrefused : g.Refused c g' f) : g'.Named ∧ g'.labels = g.labels := by
  cases hrefused with
  | statics hi hfound => exact h.found (Command.valid_static hc hi).1 hfound
  | _ => exact ⟨h, rfl⟩

end Generator

/-! ### Code with labels of its own -/

/-- Code that declares the labels with the given words, numbered from `n` on, and no other generated
label, and that loads no generated label but these. -/
structure FreshCode (words : List String) (n : Nat) (code : List Item) : Prop where
  wellFormed : ∀ i ∈ code, i.WellFormed
  labels : (labelNames code).filter Text.isGenerated = Generator.freshLabels words n
  closed : ∀ x ∈ references code, x.isGenerated = false ∨ x ∈ labelNames code

theorem freshCode_nil (n : Nat) : FreshCode [] n [] where
  wellFormed := List.forall_mem_nil _
  labels := rfl
  closed := List.forall_mem_nil _

/-- The labels of two pieces of code are numbered one after the other. -/
theorem FreshCode.append {v w : List String} {n : Nat} {code code' : List Item}
    (h : FreshCode v n code) (h' : FreshCode w (n + v.length) code') :
    FreshCode (v ++ w) n (code ++ code') where
  wellFormed := List.forall_mem_append.2 ⟨h.wellFormed, h'.wellFormed⟩
  labels := by
    rw [labelNames_append, List.filter_append, h.labels, h'.labels, Generator.freshLabels_append]
  closed x hx := by
    rw [labelNames_append]
    rcases List.mem_append.1 (references_append .. ▸ hx) with hx | hx
    · exact (h.closed x hx).imp_right (List.mem_append_left _)
    · exact (h'.closed x hx).imp_right (List.mem_append_right _)

/-- Code without labels that refers to predefined names only. -/
theorem freshCode_of_isPredefined {code : List Item} (n : Nat) (hwell : ∀ i ∈ code, i.WellFormed)
    (hlabels : labelNames code = []) (hnames : ∀ x ∈ references code, isPredefined x = true) :
    FreshCode [] n code where
  wellFormed := hwell
  labels := by rw [hlabels]; rfl
  closed x hx := Or.inl (isGenerated_of_isPredefined (hnames x hx))

/-- **The code of a command.** -/
theorem Generator.Wrote.freshCode {g g' : Generator} {c : Command} {code : List Item}
    (h : g.Wrote c g' code) (hg : g.Named) (hc : c.Valid) :
    FreshCode c.labelWords g.labels code where
  wellFormed := write_wellFormed hc (fun _ => hg.module) h
  labels := (filter_labels_of_wrote h hc).1
  closed x hx := by
    -- of the names that the code may refer to, only its own labels start with a dollar sign
    rcases references_of_wrote h hc hx with hx | hx | hx | hx
    · exact Or.inl (isGenerated_of_isPredefined hx)
    · exact Or.inl (Text.isGenerated_of_isSymbol (Command.isSymbol_of_target? hc hx))
    · exact Or.inr hx
    · exact Or.inl ((hg.wrote hc h).statics x hx)

theorem Code.freshCode_call {name : Text} (hname : Text.isSymbol name = true) {arguments : Int}
    (hlo : 0 ≤ arguments) (hhi : arguments ≤ 32762) (n : Nat) :
    FreshCode ["RETURN"] n (Code.call name arguments (Generator.freshLabel "RETURN" n)) where
  wellFormed := wellFormed_call (Text.isName_of_isSymbol hname)
    (Generator.isName_freshLabel (by decide) n) hlo hhi
  labels := rfl
  closed x hx := by
    rcases references_call hx with hx | rfl | hx
    · exact Or.inl (isGenerated_of_isPredefined hx)
    · exact Or.inl (Text.isGenerated_of_isSymbol hname)
    · exact Or.inr hx

/-! ### The labels of a session -/

/-- The module or the entry function of an action is empty or a symbol. -/
def Action.Named : Action → Prop
  | enter name | start name => name = [] ∨ Text.isSymbol name = true
  | remark _ | write _ => True

/-- The command that an action writes.  Setting up the stack for an entry function writes a call. -/
def Action.command? : Action → Option Command
  | enter _ | remark _ => none
  | start entry => if entry.isEmpty then none else some (.call entry 0)
  | write r => r.command.toOption

/-- The labels that an action takes from the counter.  A command that is refused takes none. -/
def Action.labelWords (a : Action) : Except Fault (List Item) → List String
  | .ok _ => a.command?.elim [] Command.labelWords
  | .error _ => []

/-- The labels that a session takes from the counter, in order. -/
def takenWords (log : List (Action × Except Fault (List Item))) : List String :=
  log.flatMap fun e => e.1.labelWords e.2

theorem takenWords_append (s t : List (Action × Except Fault (List Item))) :
    takenWords (s ++ t) = takenWords s ++ takenWords t := List.flatMap_append

namespace Generator

/-- **One command**, whether it is refused or not. -/
theorem Named.write {g : Generator} (h : g.Named) {c : Command} (hc : c.Valid) :
    (g.write c).1.Named ∧
      FreshCode (takenWords [(.write c.record, (g.write c).2)]) g.labels
        (writtenItems [(.write c.record, (g.write c).2)]) ∧
      (g.write c).1.labels
        = g.labels + (takenWords [(.write c.record, (g.write c).2)]).length := by
  cases hw : g.write c with
  | mk g' result =>
      cases result with
      | error f =>
          obtain ⟨hnamed, hlabels⟩ := h.refused hc (refused_of_write hc hw)
          exact ⟨hnamed, freshCode_nil _, hlabels⟩
      | ok code =>
          have hwrote := wrote_of_write hc hw
          have hwords : takenWords [(.write c.record, .ok code)] = c.labelWords := by
            simp only [takenWords, List.flatMap_singleton, Action.labelWords, Action.command?,
              Command.command_record]
            rfl
          have hitems : writtenItems [(.write c.record, .ok code)] = code :=
            List.flatMap_singleton ..
          rw [hwords, hitems]
          exact ⟨h.wrote hc hwrote, hwrote.freshCode h hc, (labelNames_of_wrote hwrote hc).2⟩

/-- **One action.**  What it writes has labels of its own, which are counted. -/
theorem Named.perform {g : Generator} (h : g.Named) {a : Action} (hread : a.Read) (ha : a.Named) :
    (g.perform a).1.Named ∧
      FreshCode (takenWords [(a, (g.perform a).2)]) g.labels (writtenItems [(a, (g.perform a).2)]) ∧
      (g.perform a).1.labels = g.labels + (takenWords [(a, (g.perform a).2)]).length := by
  cases a with
  | enter module => exact ⟨⟨ha, h.statics⟩, freshCode_nil _, rfl⟩
  | remark t =>
      refine ⟨h, freshCode_of_isPredefined _ ?_ rfl (List.forall_mem_nil _), rfl⟩
      exact Code.wellFormed_annotation t
  | start entry =>
      have hreset : ∀ n, FreshCode [] n Code.resetStack := fun n =>
        freshCode_of_isPredefined n Code.wellFormed_resetStack rfl (by decide)
      cases entry with
      | nil => exact ⟨h, hreset _, rfl⟩
      | cons b t =>
          have hentry := ha.resolve_left (List.cons_ne_nil b t)
          have hcode := (hreset g.labels).append (Code.freshCode_call hentry (Int.le_refl 0) (by decide) _)
          refine ⟨⟨h.module, h.statics⟩, ?_, rfl⟩
          rwa [← List.append_nil (Code.resetStack ++ _)] at hcode
  | write r =>
      obtain ⟨line, c, hparse, rfl⟩ := hread
      have hperform : g.perform (.write c.record) = g.write c := by
        simp only [Generator.perform, Command.command_record]
      rw [hperform]
      exact h.write (Command.valid_of_parse hparse)

/-- **A session.**  The induction is on the actions; the labels of what follows an action are numbered from
where the action left the counter. -/
theorem Named.session {g : Generator} (h : g.Named) {as : List Action}
    (has : ∀ a ∈ as, a.Read ∧ a.Named) :
    FreshCode (takenWords (g.session as).2) g.labels (writtenItems (g.session as).2) ∧
      (g.session as).1.labels = g.labels + (takenWords (g.session as).2).length := by
  induction as generalizing g with
  | nil => exact ⟨freshCode_nil _, rfl⟩
  | cons a as ih =>
      rw [List.forall_mem_cons] at has
      obtain ⟨hnamed, hcode, hlabels⟩ := h.perform has.1.1 has.1.2
      obtain ⟨hrest, hcount⟩ := ih hnamed has.2
      rw [hlabels] at hrest hcount
      have hlog : (g.session (a :: as)).2
          = [(a, (g.perform a).2)] ++ ((g.perform a).1.session as).2 := rfl
      rw [hlog, takenWords_append, writtenItems_append, List.length_append, ← Nat.add_assoc]
      exact ⟨hcode.append hrest, hcount⟩

end Generator

/-! ### Comparisons and calls -/

/-- Whether a command is a comparison. -/
def Command.isComparison : Command → Bool
  | operate .eq | operate .gt | operate .lt => true
  | _ => false

/-- Whether a command is a call. -/
def Command.isCall : Command → Bool
  | call .. => true
  | _ => false

/-- How many commands of a kind a session wrote. -/
def commandsWritten (p : Command → Bool) (log : List (Action × Except Fault (List Item))) : Nat :=
  log.countP fun e => e.1.command?.any p && e.2.isOk

/-- A comparison takes two labels and a call takes one. -/
theorem Command.length_labelWords (c : Command) :
    c.labelWords.length = 2 * c.isComparison.toNat + c.isCall.toNat := by
  cases c with
  | operate o => cases o <;> rfl
  | _ => rfl

theorem commandsWritten_cons (p : Command → Bool) (a : Action) (r : Except Fault (List Item))
    (log : List (Action × Except Fault (List Item))) :
    commandsWritten p ((a, r) :: log)
      = (a.command?.any p && r.isOk).toNat + commandsWritten p log := by
  rw [commandsWritten, List.countP_cons, Nat.add_comm]
  cases a.command?.any p && r.isOk <;> rfl

/-- **How many labels a session takes.** -/
theorem length_takenWords (log : List (Action × Except Fault (List Item))) :
    (takenWords log).length
      = 2 * commandsWritten Command.isComparison log + commandsWritten Command.isCall log := by
  induction log with
  | nil => rfl
  | cons e log ih =>
      obtain ⟨a, r⟩ := e
      have hentry : (a.labelWords r).length = 2 * (a.command?.any Command.isComparison && r.isOk).toNat
          + (a.command?.any Command.isCall && r.isOk).toNat := by
        cases r with
        | error f => simp [Action.labelWords, Except.isOk, Except.toBool]
        | ok code =>
            rw [Action.labelWords]
            cases a.command? with
            | none => rfl
            | some c => simpa [Except.isOk, Except.toBool] using c.length_labelWords
      rw [takenWords, List.flatMap_cons, List.length_append, hentry, commandsWritten_cons,
        commandsWritten_cons]
      rw [takenWords] at ih
      omega

/-- Generated labels carry their places as numbers. -/
theorem Generator.map_freshLabels (f : Text → Text) (words : List String) (n : Nat) :
    (freshLabels words n).map f = words.mapIdx fun k word => f (freshLabel word (n + k)) := by
  induction words generalizing n with
  | nil => rfl
  | cons w ws ih =>
      rw [freshLabels, List.map_cons, ih, List.mapIdx_cons]
      simp only [Nat.add_zero, Nat.add_assoc, Nat.add_comm 1]

/-- **The generated labels of a session**, in the order of their declarations, are those that were taken
from the counter, numbered from zero on.  They are distinct, the counter has moved by two for each
comparison and by one for each call, and a line that loads a generated label loads a declared one. -/
theorem generated_labels_fresh_and_declared (mode : StaticMode) {as : List Action}
    (has : ∀ a ∈ as, a.Read ∧ a.Named) {g : Generator}
    {log : List (Action × Except Fault (List Item))}
    (h : ({ mode } : Generator).session as = (g, log)) :
    (generatedDeclarations (render (writtenItems log))).Nodup ∧
      generatedDeclarations (render (writtenItems log))
        = (takenWords log).mapIdx (fun n word => declaration (Generator.freshLabel word n)) ∧
      (takenWords log).length = g.labels ∧
      g.labels = 2 * commandsWritten Command.isComparison log
        + commandsWritten Command.isCall log ∧
      ∀ line ∈ render (writtenItems log), (ascii "@$").isPrefixOf line = true →
        ∃ name, line = ascii "@" ++ name ∧
          declaration name ∈ generatedDeclarations (render (writtenItems log)) := by
  have hnew : ({ mode } : Generator).Named := ⟨Or.inl rfl, List.forall_mem_nil _⟩
  obtain ⟨hcode, hlabels⟩ := hnew.session has
  rw [h] at hcode hlabels
  have hcount : g.labels = (takenWords log).length := hlabels.trans (Nat.zero_add _)
  have hlines := generatedDeclarations_render hcode.wellFormed
  rw [hcode.labels] at hlines
  refine ⟨?_, ?_, hcount.symm, hcount.trans (length_takenWords log), fun line hline hmark => ?_⟩
  · rw [hlines]
    refine (Generator.nodup_freshLabels _ 0).map fun x y hxy => ?_
    rw [declaration, declaration, List.append_left_inj, List.append_right_inj] at hxy
    exact hxy
  · rw [hlines, Generator.map_freshLabels]
    simp only [Nat.zero_add]
  · obtain ⟨name, hname, rfl, hgenerated⟩ := exists_reference_of_line hcode.wellFormed hline hmark
    have hdeclared := (hcode.closed name hname).resolve_left (by simp [hgenerated])
    refine ⟨name, rfl, ?_⟩
    rw [generatedDeclarations_render hcode.wellFormed]
    exact List.mem_map_of_mem (List.mem_filter.2 ⟨hdeclared, hgenerated⟩)

/-- Comparisons and calls, one of which is refused. -/
def callsAndComparisons : List Action :=
  [.start (ascii "Main.main"), .write (Command.operate .eq).record, .enter (ascii "Main"),
    .write (Command.call (ascii "Main.main") 32767).record, .remark (ascii "($FALSE.1)"),
    .write (Command.call (ascii "Main.main") 0).record, .write (Command.operate .lt).record]

/-- The refused call takes no number, and the comment declares nothing. -/
theorem callsAndComparisons_fresh :
    (∀ a ∈ callsAndComparisons, a.Read ∧ a.Named) ∧
      generatedDeclarations (render (writtenItems (({} : Generator).session callsAndComparisons).2))
        = [ascii "($RETURN.0)", ascii "($FALSE.1)", ascii "($CONTINUE.2)", ascii "($RETURN.3)",
          ascii "($FALSE.4)", ascii "($CONTINUE.5)"] ∧
      (({} : Generator).session callsAndComparisons).1.labels = 2 * 2 + 2 := by
  have has : ∀ a ∈ callsAndComparisons, a.Read ∧ a.Named := by
    simp only [callsAndComparisons, List.forall_mem_cons]
    exact ⟨⟨trivial, Or.inr (by decide)⟩, ⟨⟨ascii "eq", _, by decide, rfl⟩, trivial⟩,
      ⟨trivial, Or.inr (by decide)⟩, ⟨⟨ascii "call Main.main 32767", _, by decide, rfl⟩, trivial⟩,
      ⟨trivial, trivial⟩, ⟨⟨ascii "call Main.main 0", _, by decide, rfl⟩, trivial⟩,
      ⟨⟨ascii "lt", _, by decide, rfl⟩, trivial⟩, List.forall_mem_nil _⟩
  obtain ⟨-, hlines, -, hcount, -⟩ := generated_labels_fresh_and_declared .index has rfl
  refine ⟨has, hlines.trans ?_, hcount.trans ?_⟩ <;> decide +kernel

end HackToolchain

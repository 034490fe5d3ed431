/-
**Which written code is accepted.**

A line of assembly can be refused for what it says, or because it declares a label for the second
time.  Well-formed items are never refused for what they say, so code made of them is accepted
exactly if its labels are distinct, and otherwise refused at the first label that was declared
before.

Main definitions:

* `references`, `labelNames` — the names that code refers to and declares.

Main results:

* `Assembler.addLines_render` — **how far well-formed items are read**;
* `assemble_render_iff` — **well-formed items are accepted exactly if their labels are distinct**;
* `error_of_assemble_render` — otherwise the first label that is repeated is refused;
* `keys_declarations_render` — the labels that are read are the labels that were written.
-/
import Mathlib.Data.List.Nodup
import HackToolchain.Proofs.Assembly.Installed

set_option relaxedAutoImplicit false
set_option autoImplicit false

namespace HackToolchain

/-! ### Names in items -/

namespace Item

/-- The name that an item refers to. -/
def reference? : Item → Option Text
  | load (.symbol name) => some name
  | _ => none

/-- The name that an item declares. -/
def label? : Item → Option Text
  | label name => some name
  | _ => none

theorem eq_label_of_label? {i : Item} {name : Text} (h : i.label? = some name) :
    i = .label name := by
  cases i with
  | label x => injection h with h; rw [h]
  | _ => cases h

end Item

/-- The names that items refer to. -/
def references (is : List Item) : List Text := is.filterMap Item.reference?

/-- The names that items declare. -/
def labelNames (is : List Item) : List Text := is.filterMap Item.label?

@[simp] theorem references_append (is js : List Item) :
    references (is ++ js) = references is ++ references js := List.filterMap_append

@[simp] theorem labelNames_append (is js : List Item) :
    labelNames (is ++ js) = labelNames is ++ labelNames js := List.filterMap_append

theorem mem_references {is : List Item} {name : Text} :
    name ∈ references is ↔ Item.load (.symbol name) ∈ is := by
  rw [references, List.mem_filterMap]
  constructor
  · rintro ⟨i, hi, h⟩
    unfold Item.reference? at h
    split at h
    · injection h with h; rwa [← h]
    · cases h
  · intro h
    exact ⟨_, h, rfl⟩

theorem mem_labelNames {is : List Item} {name : Text} :
    name ∈ labelNames is ↔ Item.label name ∈ is := by
  rw [labelNames, List.mem_filterMap]
  constructor
  · rintro ⟨i, hi, h⟩
    rwa [← Item.eq_label_of_label? h]
  · intro h
    exact ⟨_, h, rfl⟩

/-! ### Lines of well-formed items -/

theorem length_render {is : List Item} (hw : ∀ i ∈ is, i.WellFormed) :
    (render is).length = is.length := by
  induction is with
  | nil => rfl
  | cons i is ih =>
      obtain ⟨line, hline, -⟩ := Item.lines_of_wellFormed (hw i (List.mem_cons_self ..))
      rw [render_cons, hline, List.singleton_append, List.length_cons, List.length_cons,
        ih fun j hj => hw j (List.mem_cons_of_mem _ hj)]

theorem Item.lines_label {name : Text} (h : isName name = true) :
    (label name).lines = [ascii "(" ++ name ++ ascii ")"] := by
  have hplain : (ascii "(" ++ name ++ ascii ")").IsPlain :=
    (Text.IsPlain.append (by decide) (Text.isPlain_of_isName h)).append (by decide)
  exact layOut_of_isPlain hplain (by simp [Item.text, ascii_open])

namespace Assembler

/-- A line with a statement is counted, and the statement is added. -/
theorem addLine_of_statement? {line : Text} {st : Statement} (h : statement? line = some st)
    (a : Assembler) :
    a.addLine line = a.count.addStatement (Text.trim (Text.code line)) st := by
  simp only [statement?] at h
  by_cases ht : (Text.trim (Text.code line)).isEmpty = true
  · rw [if_pos ht] at h
    cases h
  · rw [if_neg ht] at h
    cases hs : Statement.parse (Text.trim (Text.code line)) with
    | error f => rw [hs] at h; cases h
    | ok st' =>
        rw [hs] at h
        injection h with h
        subst h
        simp only [addLine, if_neg ht, hs]
        rfl

/-- A line without code is counted. -/
theorem addLine_of_code_eq_nil {line : Text} (h : Text.code line = []) (a : Assembler) :
    a.addLine line = (a.count, .ok ()) := by
  simp only [addLine, h, Text.trim_nil]
  rfl

/-- The line of a label declares it, unless it was declared before. -/
theorem addLine_label {name : Text} (h : isName name = true) (a : Assembler) :
    ∃ line, (Item.label name).lines = [line] ∧
      (name ∈ a.labels.keys → a.addLine line
        = (a.count, .error { line := a.line + 1, fault := .duplicateLabel name })) ∧
      (name ∉ a.labels.keys → a.addLine line
        = ({ a.count with labels := (name, a.code.size) :: a.labels }, .ok ())) := by
  obtain ⟨line, hline, hs⟩ := Item.lines_of_wellFormed (i := .label name) h
  refine ⟨line, hline, fun hmem => ?_, fun hmem => ?_⟩
  · obtain ⟨n, hn⟩ := SymbolTable.exists_find?_of_mem_keys hmem
    rw [addLine_of_statement? hs]
    simp only [addStatement, count, hn]
  · rw [addLine_of_statement? hs]
    simp only [addStatement, count, SymbolTable.find?_eq_none_iff.2 hmem]

/-- The line of any other well-formed item is accepted and declares nothing. -/
theorem addLine_of_label?_eq_none {i : Item} (h : i.WellFormed) (hlabel : i.label? = none)
    (a : Assembler) :
    ∃ line b, i.lines = [line] ∧ a.addLine line = (b, .ok ()) ∧ b.labels = a.labels ∧
      b.line = a.line + 1 := by
  obtain ⟨line, hline, hs⟩ := Item.lines_of_wellFormed h
  cases i with
  | blank => exact ⟨[], _, rfl, addLine_of_code_eq_nil rfl a, rfl, rfl⟩
  | comment t => exact ⟨_, _, rfl, addLine_of_code_eq_nil (Text.code_comment t) a, rfl, rfl⟩
  | load t => exact ⟨line, _, hline, addLine_of_statement? hs a, rfl, rfl⟩
  | compute c => exact ⟨line, _, hline, addLine_of_statement? hs a, rfl, rfl⟩
  | label name => cases hlabel

/-- **How far well-formed items are read**: to the end, if all labels are distinct, those declared
before included, and otherwise up to the first item that declares a label again. -/
theorem addLines_render {is : List Item} (hw : ∀ i ∈ is, i.WellFormed) {a : Assembler}
    (ha : a.labels.keys.Nodup) :
    (∃ b, a.addLines (render is) = (b, .ok ()) ∧ (labelNames is ++ a.labels.keys).Nodup) ∨
    ∃ b before name after, is = before ++ .label name :: after ∧
      a.addLines (render is) = (b, .error
        { line := a.line + before.length + 1, fault := .duplicateLabel name }) ∧
      (labelNames before ++ a.labels.keys).Nodup ∧ name ∈ labelNames before ++ a.labels.keys := by
  induction is generalizing a with
  | nil => exact Or.inl ⟨a, rfl, ha⟩
  | cons i is ih =>
      have hi := hw i (List.mem_cons_self ..)
      have hrest : ∀ j ∈ is, j.WellFormed := fun j hj => hw j (List.mem_cons_of_mem _ hj)
      cases hlabel : i.label? with
      | none =>
          obtain ⟨line, b, hline, hadd, hlabels, hnumber⟩ := addLine_of_label?_eq_none hi hlabel a
          have hlines : a.addLines (render (i :: is)) = b.addLines (render is) := by
            rw [render_cons, hline]
            simp only [List.singleton_append, addLines, hadd]
          have hnames : ∀ js : List Item, labelNames (i :: js) = labelNames js := by
            intro js
            rw [labelNames, List.filterMap_cons, hlabel]
            rfl
          rw [hlines, hnames, ← hlabels]
          rcases ih hrest (hlabels ▸ ha) with ⟨c, hc, hnodup⟩ |
            ⟨c, before, name, after, his, hc, hnodup, hname⟩
          · exact Or.inl ⟨c, hc, hnodup⟩
          · refine Or.inr ⟨c, i :: before, name, after, by rw [his]; rfl, ?_, ?_⟩
            · rw [hc, hnumber, List.length_cons, Nat.add_right_comm a.line]
              rfl
            · rw [hnames]
              exact ⟨hnodup, hname⟩
      | some x =>
          obtain rfl : i = .label x := Item.eq_label_of_label? hlabel
          obtain ⟨line, hline, hdeclared, hundeclared⟩ := addLine_label hi a
          by_cases hmem : x ∈ a.labels.keys
          · refine Or.inr ⟨a.count, [], x, is, rfl, ?_, ha, hmem⟩
            rw [render_cons, hline]
            simp only [List.singleton_append, addLines, hdeclared hmem]
            rfl
          · -- from here on the label counts as declared, so it moves in front of the others
            let b : Assembler := { a.count with labels := (x, a.code.size) :: a.labels }
            have hlines : a.addLines (render (.label x :: is)) = b.addLines (render is) := by
              rw [render_cons, hline]
              simp only [List.singleton_append, addLines, hundeclared hmem]
              rfl
            have hb : b.labels.keys = x :: a.labels.keys := rfl
            rw [hlines]
            rcases ih hrest (a := b) (hb ▸ List.nodup_cons.2 ⟨hmem, ha⟩) with ⟨c, hc, hnodup⟩ |
              ⟨c, before, name, after, his, hc, hnodup, hname⟩
            · rw [hb, List.nodup_middle] at hnodup
              exact Or.inl ⟨c, hc, hnodup⟩
            · rw [hb, List.nodup_middle] at hnodup
              rw [hb, List.mem_append, List.mem_cons, or_left_comm, ← List.mem_append,
                ← List.mem_cons] at hname
              refine Or.inr ⟨c, .label x :: before, name, after, by rw [his]; rfl, ?_, hnodup, hname⟩
              rw [hc, List.length_cons, ← Nat.add_assoc, Nat.add_right_comm a.line]
              rfl

end Assembler

/-! ### Programs of well-formed items -/

/-- A program of well-formed items has distinct labels, or is refused at the first label that was
declared before. -/
theorem assemble_render_cases {is : List Item} (hw : ∀ i ∈ is, i.WellFormed) :
    (∃ p, assemble (render is) = .ok p ∧ (labelNames is).Nodup) ∨
    ∃ before name after, is = before ++ .label name :: after ∧ (labelNames before).Nodup ∧
      name ∈ labelNames before ∧
      assemble (render is)
        = .error { line := before.length + 1, fault := .duplicateLabel name } := by
  have hkeys : SymbolTable.keys ({} : Assembler).labels = [] := rfl
  rcases Assembler.addLines_render hw (a := {}) List.nodup_nil with ⟨b, hb, hnodup⟩ |
    ⟨b, before, name, after, his, hb, hnodup, hname⟩
  · rw [hkeys, List.append_nil] at hnodup
    exact Or.inl ⟨b.finish, by rw [assemble, hb], hnodup⟩
  · rw [hkeys, List.append_nil] at hnodup hname
    refine Or.inr ⟨before, name, after, his, hnodup, hname, ?_⟩
    rw [assemble, hb, Nat.zero_add]

/-- **Well-formed items are accepted exactly if their labels are distinct.** -/
theorem assemble_render_iff {is : List Item} (hw : ∀ i ∈ is, i.WellFormed) :
    (∃ p, assemble (render is) = .ok p) ↔ (labelNames is).Nodup := by
  rcases assemble_render_cases hw with ⟨p, hp, hnodup⟩ | ⟨before, name, after, his, -, hname, he⟩
  · exact ⟨fun _ => hnodup, fun _ => ⟨p, hp⟩⟩
  · constructor
    · rintro ⟨p, hp⟩
      rw [he] at hp
      cases hp
    · intro hnodup
      rw [his, labelNames_append, List.nodup_append] at hnodup
      exact absurd rfl (hnodup.2.2 name hname name (List.mem_cons_self ..))

/-- **If well-formed items are refused, it is at the first label that was declared before.** -/
theorem error_of_assemble_render {is : List Item} (hw : ∀ i ∈ is, i.WellFormed) {e : AssemblyError}
    (h : assemble (render is) = .error e) :
    ∃ before name after, is = before ++ .label name :: after ∧ (labelNames before).Nodup ∧
      name ∈ labelNames before ∧
      e = { line := before.length + 1, fault := .duplicateLabel name } := by
  rcases assemble_render_cases hw with ⟨p, hp, -⟩ | ⟨before, name, after, his, hnodup, hname, he⟩
  · rw [hp] at h
    cases h
  · rw [he] at h
    injection h with h
    exact ⟨before, name, after, his, hnodup, hname, h.symm⟩

/-- The labels that are read from well-formed items are the labels that were written. -/
theorem keys_declarations_render {is : List Item} (hw : ∀ i ∈ is, i.WellFormed) (n : Nat) :
    (declarations n (render is)).keys = labelNames is := by
  induction is generalizing n with
  | nil => rfl
  | cons i is ih =>
      obtain ⟨line, hline, hs⟩ := Item.lines_of_wellFormed (hw i (List.mem_cons_self ..))
      have hrest := fun n => ih (fun j hj => hw j (List.mem_cons_of_mem _ hj)) n
      rw [render_cons, hline, List.singleton_append, declarations, hs]
      cases i with
      | label name => exact congrArg (name :: ·) (hrest n)
      | load t | compute c => exact hrest (n + 1)
      | blank | comment t => exact hrest n

end HackToolchain
